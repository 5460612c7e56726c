import Metnos.Invocations.Queue

/-!
# Invocations.System — interleaved calls on the table, and how a row may change

A poll reads the clock, probes without a lock, and claims later under it; everything else is one
transaction.  `Change` lists what a step can do to a row, and every step of every run keeps to it.
-/

namespace Metnos.Invocations

/-- A call of `next_invocation` under way: the clock it read, and the id its probe found. -/
structure Poll where
  deviceId : String
  cursor : Option String
  now : ℚ
  found : Option String
  claimed : Bool
deriving DecidableEq

structure System where
  db : Db
  clock : ℚ
  polls : List Poll

namespace System

def init : System := ⟨Table.empty, 0, []⟩

end System

/-- The janitors read the clock before their statement, as a poll does. -/
inductive Event
  | tick (t : ℚ)
  | enqueue (c : Call)
  | poll (deviceId : String) (cursor : Option String)
  | probe (i : ℕ)
  | claim (i : ℕ)
  | complete (dev : Option Device) (verified : Bool) (result : List (String × Json))
  | expire (ttlH now : ℚ)
  | purge (olderThanDays : ℤ) (now : ℚ)
  | abandon (id : String)

/-- The claim of poll `i`: the id it delivers, and the table after it. -/
def System.claimed (S : System) (i : ℕ) : Option (String × Db) := do
  let p ← S.polls[i]?
  let id ← p.found
  if p.claimed then none
  let db ← Invocations.claim S.db id p.deviceId p.cursor p.now S.clock
  return (id, db)

variable (G : Signing)

def System.step (S : System) : Event → Except InvocationError System
  | .tick t => .ok { S with clock := max S.clock t }
  | .enqueue c => do
    let (_, db) ← enqueueInvocation G S.db c S.clock
    return { S with db := db }
  | .poll deviceId cursor =>
    .ok { S with polls := S.polls ++ [⟨deviceId, cursor, S.clock, none, false⟩] }
  | .probe i => .ok { S with polls := S.polls.modify i fun p =>
      { p with found := (Invocations.probe S.db p.deviceId p.cursor p.now).map Row.invocationId } }
  | .claim i =>
    match S.claimed i with
    | some (_, db) => .ok { S with
        db := db
        polls := S.polls.modify i fun p => { p with claimed := true } }
    | none => .ok S
  | .complete dev verified result => do
    let db ← completeInvocation S.db dev verified result S.clock
    return { S with db := db }
  | .expire ttlH now =>
    if now ≤ S.clock then .ok { S with db := expireStaleInvocations S.db ttlH now S.clock }
    else .ok S
  | .purge days now =>
    if now ≤ S.clock then .ok { S with db := purgeInvocations S.db days now } else .ok S
  | .abandon id => .ok { S with db := markAbandoned S.db id }

abbrev System.run (events : List Event) : System :=
  Transaction.run (System.step G) .init events

abbrev System.after (S : System) (e : Event) : System := Transaction.commit (System.step G) S e

/-! ### How rows change -/

/-- What one step does to a row: only these changes of state, a second delivery only by a poll that
read the clock late enough, and a result only from the row's device and only as the first one. -/
inductive Change (S : System) : Event → Row → Row → Prop
  | keep {e : Event} {r : Row} : Change S e r r
  | abandon {id : String} {r : Row} (inFlight : r.state = .queued ∨ r.state = .delivered) :
    Change S (.abandon id) r { r with abandonedByTurn := true }
  | deliver {i : ℕ} {p : Poll} {r : Row} (poll : S.polls[i]? = some p) (state : r.state = .queued) :
    Change S (.claim i) r (r.deliver p.now S.clock)
  | redeliver {i : ℕ} {p : Poll} {r : Row} {stamp : ℚ} (poll : S.polls[i]? = some p)
    (state : r.state = .delivered) (last : r.deliveredEpoch = some stamp)
    (late : stamp + ((r.deadlineMs : ℚ) / 1000 + redeliveryGraceS) < p.now) :
    Change S (.claim i) r (r.deliver p.now S.clock)
  | expire {ttlH now : ℚ} {r : Row} (inFlight : r.state = .queued ∨ r.state = .delivered) :
    Change S (.expire ttlH now) r (r.expire now S.clock)
  | complete {dev : Option Device} {verified : Bool} {result : List (String × Json)} {r : Row}
    (open_ : r.state ≠ .done ∧ r.state ≠ .failed) (first : r.resultJson = none)
    (own : field? result "device_id" = some r.deviceId) :
    Change S (.complete dev verified result) r
      (r.complete (if succeeded result then .done else .failed) (.obj result) S.clock)

/-- What the rows of every reachable table satisfy. -/
structure Sound (db : Db) : Prop where
  delivered : ∀ id r, db.find? id = some r → r.state = .delivered → r.deliveredEpoch.isSome
  unanswered : ∀ id r, db.find? id = some r → r.state ≠ .done ∧ r.state ≠ .failed →
    r.resultJson = none

/-- The rows before and after a step: an old row changes or is purged, a new one is enqueued. -/
structure RowSteps (S : System) (e : Event) (db' : Db) : Prop where
  old : ∀ id r, S.db.find? id = some r → (∃ r', db'.find? id = some r' ∧ Change S e r r') ∨
    (db'.find? id = none ∧ r.state.terminal = true ∧ ∃ days now, e = .purge days now)
  new : ∀ id r', S.db.find? id = none → db'.find? id = some r' →
    r'.state = .queued ∧ r'.resultJson = none ∧ ∃ c, e = .enqueue c

variable {G : Signing} {S S' : System} {e : Event} {db db' : Db}

theorem RowSteps.same (h : db' = S.db) : RowSteps S e db' := by
  subst h
  refine ⟨fun id r hr => .inl ⟨r, hr, .keep⟩, fun id r' hnone hsome => ?_⟩
  rw [hnone] at hsome
  cases hsome

theorem RowSteps.update {p : Row → Bool} {f : Row → Row}
    {hf : ∀ r, (f r).invocationId = r.invocationId}
    (h : ∀ id r, S.db.find? id = some r → p r = true → Change S e r (f r)) :
    RowSteps S e (S.db.updateWhere p f hf) := by
  refine ⟨fun id r hr => .inl ⟨_, Table.find?_updateWhere_of_some hf hr, ?_⟩, fun id r' hn hs => ?_⟩
  · by_cases hp : p r = true
    · rw [if_pos hp]
      exact h id r hr hp
    · rw [if_neg hp]
      exact .keep
  · obtain ⟨r, hr, -⟩ := Table.find?_updateWhere_some hs
    rw [hn] at hr
    cases hr

theorem insertOrFind_ok {row : Row} {id : String}
    (h : insertOrFind db row = .ok (id, db')) :
    (db' = db ∧ ∃ found, existingRows db row.invocationId row.deviceId row.dispatchKey = [found] ∧
        found.payloadDigest = row.payloadDigest ∧ id = found.invocationId) ∨
      (db.insert? row = some db' ∧ id = row.invocationId ∧
        existingRows db row.invocationId row.deviceId row.dispatchKey = []) := by
  unfold insertOrFind at h
  split at h
  · rename_i hnone
    split at h
    · rename_i db1 hinsert
      cases h
      exact .inr ⟨hinsert, rfl, hnone⟩
    · cases h
  · rename_i found hfound
    split at h
    · rename_i hdigest
      cases h
      exact .inl ⟨rfl, found, hfound, hdigest, rfl⟩
    · cases h
  · cases h

theorem preparedRow_ok {c : Call} {now : ℚ} {row : Row} (h : preparedRow G c now = .ok row) :
    ∃ dev chosenId r digest grants, c.request = .ok (dev, chosenId, r) ∧
      requestDigest G r = .ok digest ∧ row = newRow c dev r chosenId digest grants now := by
  unfold preparedRow at h
  simp only [Transaction.bind_eq_ok, Transaction.pure_eq_ok] at h
  obtain ⟨⟨dev, chosenId, r⟩, hrequest, digest, hdigest, grants, -, _, -, rfl⟩ := h
  exact ⟨dev, chosenId, r, digest, grants, hrequest, hdigest, rfl⟩

theorem enqueueInvocation_ok {c : Call} {now : ℚ} {id : String}
    (h : enqueueInvocation G db c now = .ok (id, db')) :
    ∃ row, preparedRow G c now = .ok row ∧ insertOrFind db row = .ok (id, db') := by
  unfold enqueueInvocation at h
  exact Transaction.bind_eq_ok.mp h

theorem RowSteps.insert {row : Row} {c : Call} (h : S.db.insert? row = some db')
    (queued : row.state = .queued) (unanswered : row.resultJson = none) :
    RowSteps S (.enqueue c) db' := by
  refine ⟨fun id r hr => .inl ⟨r, ?_, .keep⟩, fun id r' hn hs => ?_⟩
  · have hne : id ≠ row.invocationId := by
      rintro rfl
      rw [(Table.insert?_some h).1] at hr
      cases hr
    rw [Table.find?_insert?_ne h hne]
    exact hr
  · by_cases hid : id = row.invocationId
    · rw [hid, Table.find?_insert?_self h, Option.some.injEq] at hs
      exact hs ▸ ⟨queued, unanswered, c, rfl⟩
    · rw [Table.find?_insert?_ne h hid, hn] at hs
      cases hs

theorem due_iff {r : Row} {now : ℚ} : r.due now = true ↔ r.state = .queued ∨
    (r.state = .delivered ∧
      (r.deadlineMs : ℚ) / 1000 + redeliveryGraceS < now - r.deliveredEpoch.getD 0) := by
  simp [Row.due]

theorem due_inFlight {r : Row} {now : ℚ} (h : r.due now = true) :
    r.state = .queued ∨ r.state = .delivered := by
  rcases due_iff.mp h with h | h
  · exact .inl h
  · exact .inr h.1

theorem claimed_some {i : ℕ} {id : String} (h : S.claimed i = some (id, db')) :
    ∃ p, S.polls[i]? = some p ∧ p.found = some id ∧ p.claimed = false ∧
      claim S.db id p.deviceId p.cursor p.now S.clock = some db' := by
  unfold System.claimed at h
  simp only [Option.bind_eq_bind, Option.bind_eq_some_iff] at h
  obtain ⟨p, hp, found, hfound, h⟩ := h
  cases hclaimed : p.claimed with
  | true => simp [hclaimed] at h
  | false =>
    simp only [hclaimed, Bool.false_eq_true, if_false, Option.bind_eq_some_iff, Option.pure_def,
      Option.some.injEq, Prod.mk.injEq] at h
    obtain ⟨db1, hdb1, rfl, rfl⟩ := h
    exact ⟨p, hp, hfound, hclaimed, hdb1⟩

theorem RowSteps.claim {i : ℕ} {id : String} (sound : Sound S.db)
    (h : S.claimed i = some (id, db')) : RowSteps S (.claim i) db' := by
  obtain ⟨p, hp, -, -, hclaim⟩ := claimed_some h
  obtain ⟨r, hr, heligible, rfl⟩ := Table.cas_some hclaim
  refine .update fun j x hx hj => ?_
  obtain rfl : j = id := (Table.key_of_find? hx).symm.trans (by simpa using hj)
  obtain rfl : x = r := Option.some.inj (hx.symm.trans hr)
  simp only [Row.eligible, Bool.and_eq_true] at heligible
  rcases due_iff.mp heligible.2 with hqueued | ⟨hdelivered, hlate⟩
  · exact .deliver hp hqueued
  · obtain ⟨stamp, hstamp⟩ := Option.isSome_iff_exists.mp (sound.delivered _ _ hx hdelivered)
    rw [hstamp, Option.getD_some] at hlate
    exact .redeliver hp hdelivered hstamp (by linarith)

theorem RowSteps.complete {dev : Option Device} {verified : Bool} {result : List (String × Json)}
    (sound : Sound S.db) (h : completeInvocation S.db dev verified result S.clock = .ok db') :
    RowSteps S (.complete dev verified result) db' := by
  unfold completeInvocation at h
  split at h
  case h_2 => cases h
  case h_1 invocationId deviceId hid hdevice =>
    split at h
    · cases h
    split at h
    · cases h
    rename_i row hrow
    split at h
    · cases h
    rename_i hown
    split at h
    · cases h
      exact .same rfl
    rename_i hopen
    cases h
    refine .update fun j x hx hj => ?_
    obtain rfl : j = invocationId := (Table.key_of_find? hx).symm.trans (by simpa using hj)
    obtain rfl : x = row := Option.some.inj (hx.symm.trans hrow)
    have open_ : x.state ≠ .done ∧ x.state ≠ .failed :=
      ⟨fun hd => hopen (.inl hd), fun hf => hopen (.inr hf)⟩
    have own : x.deviceId = deviceId := not_not.mp hown
    exact .complete open_ (sound.unanswered _ _ hx open_) (own ▸ hdevice)

theorem RowSteps.expire {ttlH now : ℚ} :
    RowSteps S (.expire ttlH now) (expireStaleInvocations S.db ttlH now S.clock) := by
  unfold expireStaleInvocations
  split
  · exact .same rfl
  · refine .update fun id r _ hp => .expire ?_
    rw [Bool.and_eq_true] at hp
    exact due_inFlight hp.2

theorem RowSteps.purge {days : ℤ} {now : ℚ} :
    RowSteps S (.purge days now) (purgeInvocations S.db days now) := by
  unfold purgeInvocations
  refine ⟨fun id r hr => ?_, fun id r' hn hs => ?_⟩
  · rw [Table.find?_keep, hr]
    cases hp : r.purgeable (now - days * 86400) with
    | false => exact .inl ⟨r, by simp [hp], .keep⟩
    | true =>
      refine .inr ⟨by simp [hp], ?_, days, now, rfl⟩
      simp only [Row.purgeable, Bool.and_eq_true] at hp
      exact hp.1
  · rw [Table.find?_keep, hn] at hs
    cases hs

theorem RowSteps.abandon {id : String} :
    RowSteps S (.abandon id) (markAbandoned S.db id) := by
  unfold markAbandoned
  refine .update fun j r hr hp => ?_
  simp only [Bool.and_eq_true, Bool.or_eq_true, decide_eq_true_eq] at hp
  exact .abandon hp.2

theorem step_rows (sound : Sound S.db) (h : S.step G e = .ok S') : RowSteps S e S'.db := by
  cases e with
  | tick t =>
    cases h
    exact .same rfl
  | poll deviceId cursor =>
    cases h
    exact .same rfl
  | probe i =>
    cases h
    exact .same rfl
  | enqueue c =>
    simp only [System.step, Transaction.bind_eq_ok] at h
    obtain ⟨⟨id, db'⟩, henqueue, h⟩ := h
    cases h
    obtain ⟨row, hrow, hinsert⟩ := enqueueInvocation_ok henqueue
    obtain ⟨dev, chosenId, r, digest, grants, -, -, rfl⟩ := preparedRow_ok hrow
    rcases insertOrFind_ok hinsert with ⟨rfl, -⟩ | ⟨hinsert, -⟩
    · exact .same rfl
    · exact .insert hinsert rfl rfl
  | claim i =>
    simp only [System.step] at h
    split at h
    · rename_i id db' hclaimed
      cases h
      exact .claim sound hclaimed
    · cases h
      exact .same rfl
  | complete dev verified result =>
    simp only [System.step, Transaction.bind_eq_ok] at h
    obtain ⟨db', hcomplete, h⟩ := h
    cases h
    exact .complete sound hcomplete
  | expire ttlH now =>
    simp only [System.step] at h
    split at h
    · cases h
      exact .expire
    · cases h
      exact .same rfl
  | purge days now =>
    simp only [System.step] at h
    split at h
    · cases h
      exact .purge
    · cases h
      exact .same rfl
  | abandon id =>
    cases h
    exact .abandon

theorem Sound.step (sound : Sound S.db) (rows : RowSteps S e db') : Sound db' := by
  constructor
  · intro id r' hr' hstate
    cases hr : S.db.find? id with
    | none =>
      rw [(rows.new id r' hr hr').1] at hstate
      cases hstate
    | some r =>
      rcases rows.old id r hr with ⟨x, hx, change⟩ | ⟨hnone, -⟩
      · obtain rfl : x = r' := Option.some.inj (hx.symm.trans hr')
        cases change with
        | keep => exact sound.delivered id _ hr hstate
        | abandon => exact sound.delivered id r hr hstate
        | deliver => rfl
        | redeliver => rfl
        | expire => cases hstate
        | complete =>
          simp only [Row.complete] at hstate
          split at hstate <;> cases hstate
      · rw [hnone] at hr'
        cases hr'
  · intro id r' hr' hopen
    cases hr : S.db.find? id with
    | none => exact (rows.new id r' hr hr').2.1
    | some r =>
      rcases rows.old id r hr with ⟨x, hx, change⟩ | ⟨hnone, -⟩
      · obtain rfl : x = r' := Option.some.inj (hx.symm.trans hr')
        have unanswered := sound.unanswered id r hr
        cases change with
        | keep => exact unanswered hopen
        | abandon => exact unanswered hopen
        | deliver poll state => exact unanswered (by simp [state])
        | redeliver poll state => exact unanswered (by simp [state])
        | expire inFlight => exact unanswered (by rcases inFlight with h | h <;> simp [h])
        | complete =>
          simp only [Row.complete] at hopen
          split at hopen
          · exact absurd rfl hopen.1
          · exact absurd rfl hopen.2
      · rw [hnone] at hr'
        cases hr'

theorem sound_init : Sound System.init.db := by
  constructor <;> intro id r hr <;> simp [System.init] at hr

theorem sound_run (events : List Event) : Sound (System.run G events).db :=
  Transaction.run_preserves (t := System.step G) (I := fun S => Sound S.db)
    (fun h sound => sound.step (step_rows sound h)) sound_init

/-- What a row keeps while it stays in the table. -/
structure Settled (r r' : Row) : Prop where
  closed : r.state = .done ∨ r.state = .failed → r' = r
  expired : r.state = .expired → r'.state ≠ .queued ∧ r'.state ≠ .delivered ∧
    r'.deliveredEpoch = r.deliveredEpoch
  answered : ∀ x, r.resultJson = some x → r'.resultJson = some x

theorem Change.settled (sound : Sound S.db) {id : String} {r r' : Row}
    (hr : S.db.find? id = some r) (h : Change S e r r') : Settled r r' := by
  have inFlight : r.state = .queued ∨ r.state = .delivered → ∀ r', Settled r r' := by
    intro state r'
    have unanswered := sound.unanswered id r hr (by rcases state with h | h <;> simp [h])
    refine ⟨fun h => ?_, fun h => ?_, fun x hx => ?_⟩
    · rcases state with hs | hs <;> simp [hs] at h
    · rcases state with hs | hs <;> simp [hs] at h
    · rw [unanswered] at hx
      cases hx
  cases h with
  | keep => exact ⟨fun _ => rfl, fun h => by simp [h], fun _ hx => hx⟩
  | abandon state => exact inFlight state _
  | deliver poll state => exact inFlight (.inl state) _
  | redeliver poll state => exact inFlight (.inr state) _
  | expire state => exact inFlight state _
  | complete open_ first own =>
    refine ⟨fun h => ?_, fun h => ?_, fun x hx => ?_⟩
    · exact absurd h (not_or.mpr open_)
    · simp only [Row.complete]
      split <;> simp
    · rw [first] at hx
      cases hx

theorem Settled.refl (r : Row) : Settled r r :=
  ⟨fun _ => rfl, fun h => by simp [h], fun _ hx => hx⟩

theorem Settled.trans {a b c : Row} (hab : Settled a b) (hbc : Settled b c) : Settled a c := by
  refine ⟨fun h => ?_, fun h => ?_, fun x hx => hbc.answered x (hab.answered x hx)⟩
  · obtain rfl := hab.closed h
    exact hbc.closed h
  · obtain ⟨hq, hd, hepoch⟩ := hab.expired h
    cases hb : b.state with
    | queued => exact absurd hb hq
    | delivered => exact absurd hb hd
    | expired =>
      obtain ⟨hq', hd', hepoch'⟩ := hbc.expired hb
      exact ⟨hq', hd', hepoch'.trans hepoch⟩
    | done => rw [hbc.closed (.inl hb)]; simp [hb, hepoch]
    | failed => rw [hbc.closed (.inr hb)]; simp [hb, hepoch]

end Metnos.Invocations
