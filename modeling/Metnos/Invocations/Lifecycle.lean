import Mathlib.Data.List.Induction
import Metnos.Invocations.System

/-!
# Invocations.Lifecycle — the states of an invocation over whole runs

Every step of every run keeps to `Change`, and while a row stays in the table a closed one is final,
an expired one is not delivered again, and a result is never replaced.  A second delivery waits from
the clock reading that the first one recorded; the two claims themselves may be closer.
-/

namespace Metnos.Invocations

variable {G : Signing} {S : System} {e : Event}

/-- The row stays in the table along the run. -/
abbrev Present (G : Signing) (id : String) (S : System) (events : List Event) : Prop :=
  Transaction.Meets (System.step G) (fun S _ => (S.db.find? id).isSome) S events

theorem after_rows (sound : Sound S.db) (e : Event) : RowSteps S e (S.after G e).db := by
  unfold System.after Transaction.commit
  cases h : S.step G e with
  | error err => exact .same rfl
  | ok S' => exact step_rows sound h

theorem settled_run {id : String} {r r' : Row} {events : List Event} (sound : Sound S.db)
    (hr : S.db.find? id = some r) (present : Present G id S events)
    (hr' : (Transaction.run (System.step G) S events).db.find? id = some r') : Settled r r' := by
  induction events generalizing S r with
  | nil =>
    obtain rfl : r = r' := Option.some.inj (hr.symm.trans hr')
    exact .refl r
  | cons e events ih =>
    have rows := after_rows (G := G) sound e
    have rest : Present G id (S.after G e) events := present.2
    have middle : ∃ x, (S.after G e).db.find? id = some x := by
      cases events with
      | nil => exact ⟨r', hr'⟩
      | cons e' events => exact Option.isSome_iff_exists.mp rest.1
    obtain ⟨x, hx⟩ := middle
    rcases rows.old id r hr with ⟨y, hy, change⟩ | ⟨hnone, -⟩
    · obtain rfl : y = x := Option.some.inj (hy.symm.trans hx)
      exact (change.settled sound hr).trans (ih (sound.step rows) hx rest hr')
    · rw [hnone] at hx
      cases hx

def System.delivers (S : System) : Event → Option String
  | .claim i => (S.claimed i).map Prod.fst
  | _ => none

/-- Two deliveries of a row that stays in the table are as far apart as the deadline and the grace
say, by the clock at the two claims. -/
def RedeliveriesWait (G : Signing) : Prop :=
  ∀ before e between e' id r, (System.run G before).delivers e = some id →
    Present G id ((System.run G before).after G e) between →
    (System.run G (before ++ e :: between)).delivers e' = some id →
    (System.run G (before ++ e :: between)).db.find? id = some r →
    (r.deadlineMs : ℚ) / 1000 + redeliveryGraceS ≤
      (System.run G (before ++ e :: between)).clock - (System.run G before).clock

/-- Every step makes only the listed changes, a call that raises makes none, and while a row stays
it is final once done or failed, not delivered once expired, and keeps its first result. -/
theorem invocation_lifecycle (G : Signing) (events : List Event) :
    (∀ e, RowSteps (System.run G events) e ((System.run G events).after G e).db) ∧
    (∀ e err, (System.run G events).step G e = .error err →
      (System.run G events).after G e = System.run G events) ∧
    ∀ id r later r', (System.run G events).db.find? id = some r →
      Present G id (System.run G events) later →
      (Transaction.run (System.step G) (System.run G events) later).db.find? id = some r' →
      Settled r r' := by
  have sound : Sound (System.run G events).db := sound_run events
  refine ⟨after_rows sound, fun e err herr => ?_, fun id r later r' hr present hr' => ?_⟩
  · unfold System.after Transaction.commit
    rw [herr]
  · exact settled_run sound hr present hr'

/-! ### Two claims at one time -/

def sampleSigning : Signing := ⟨String.ofList, fun _ _ _ => .ok []⟩

def sampleCall (deviceId invocationId : String) (dispatchKey : Option String) : Call :=
  { deviceId := deviceId, dev := some ⟨"owner", false, []⟩, executor := "read_files",
    artifact := some ⟨"m", "c", none, false⟩, args := [], writeSpecs := none, turnId := none,
    scope := "device", reversibility := "read_only", envInjections := none, deadlineMs := 60000,
    originActor := "", originChannel := "", newInvocationId := invocationId, invocationId := none,
    dispatchKey := dispatchKey, executionContext := none, operation := "invoke" }

/-- Two polls that read the clock 91 seconds apart, and probe when both wait for the lock. -/
def stalledPolls : List Event :=
  [.enqueue (sampleCall "laptop" "inv-1" none), .poll "laptop" none, .tick 91, .poll "laptop" none,
    .probe 0, .probe 1]

/-- The second claim hands out again what the first has just handed out. -/
theorem redelivered_at_once : ¬RedeliveriesWait sampleSigning := by
  intro h
  have row : ∃ r, (System.run sampleSigning (stalledPolls ++ [.claim 0])).db.find? "inv-1" =
      some r ∧ r.deadlineMs = 60000 := by
    refine ⟨_, rfl, ?_⟩
    decide +kernel
  obtain ⟨r, hr, hdeadline⟩ := row
  have wait := h stalledPolls (.claim 0) [] (.claim 1) "inv-1" r (by decide +kernel) trivial
    (by decide +kernel) hr
  have clocks : (System.run sampleSigning (stalledPolls ++ [.claim 0])).clock -
      (System.run sampleSigning stalledPolls).clock = 0 := by decide +kernel
  rw [clocks, hdeadline] at wait
  norm_num [redeliveryGraceS] at wait

end Metnos.Invocations

/-!
## Which row a call is answered with

The digest stands for the request up to the order of keys, but not for the device: a supplied id
that another device's row has, with the same request, is answered with that row.
-/

namespace Metnos.Invocations

variable {G : Signing} {db db' : Db} {S : System}

/-- The same request up to the order of keys. -/
structure Request.Same (r r' : Request) : Prop where
  turnId : r.turnId = r'.turnId
  executor : r.executor = r'.executor
  manifestSha256 : r.manifestSha256 = r'.manifestSha256
  codeSha256 : r.codeSha256 = r'.codeSha256
  args : Json.Same r.args r'.args
  scope : r.scope = r'.scope
  reversibility : r.reversibility = r'.reversibility
  envInjections : Json.Same r.envInjections r'.envInjections
  deadlineMs : r.deadlineMs = r'.deadlineMs
  dispatchKey : r.dispatchKey = r'.dispatchKey
  executionContext : r.executionContext.map Json.sortKeys = r'.executionContext.map Json.sortKeys
  operation : r.operation = r'.operation

/-- A context is an object, so that it is told apart from none. -/
def Request.Contextual (r : Request) : Prop :=
  ∀ context, r.executionContext = some context → ∃ fields, context = .obj fields

theorem Request.Same.payload {r r' : Request} (h : r.Same r') (id : String) (grants : List Json) :
    Json.Same (r.payload id grants) (r'.payload id grants) := by
  have hcontext : (r.executionContext.map fun c => ("execution_context", c)).toList.map
        (fun f => (f.1, f.2.sortKeys)) =
      (r'.executionContext.map fun c => ("execution_context", c)).toList.map
        (fun f => (f.1, f.2.sortKeys)) := by
    have := h.executionContext
    cases hr : r.executionContext <;> cases hr' : r'.executionContext <;> simp_all
  have hargs : r.args.sortKeys = r'.args.sortKeys := h.args
  have henv : r.envInjections.sortKeys = r'.envInjections.sortKeys := h.envInjections
  unfold Json.Same Request.payload
  rw [Json.sortKeys, Json.sortKeys, Json.sortFields_eq, Json.sortFields_eq]
  simp only [List.map_append, hcontext, List.map_cons, List.map_nil, h.turnId, h.executor,
    h.manifestSha256, h.codeSha256, hargs, h.scope, h.reversibility, henv, h.deadlineMs,
    h.operation]

/-! ### The rows and their requests -/

/-- A row is what some request, with its digest and its dispatch key, looks like. -/
def Recorded (G : Signing) (row : Row) : Prop :=
  ∃ r grants, row.payload = r.payload row.invocationId grants ∧
    requestDigest G r = .ok row.payloadDigest ∧ row.dispatchKey = r.dispatchKey ∧ r.Contextual

structure Identities (G : Signing) (db : Db) : Prop where
  recorded : ∀ id row, db.find? id = some row → Recorded G row
  dispatch : ∀ id id' row row', db.find? id = some row → db.find? id' = some row' →
    row.deviceId = row'.deviceId → row.dispatchKey = row'.dispatchKey → row.dispatchKey ≠ "" →
    id = id'

theorem normalizeExecutionContext_object {supplied : List (String × Json)} {context : Json}
    (h : normalizeExecutionContext supplied = .ok context) : ∃ fields, context = .obj fields := by
  simp only [normalizeExecutionContext] at h
  split at h
  · cases h
  split at h
  · cases h
  split at h
  · cases h
  split at h
  · cases h
  obtain ⟨resources, -, h⟩ := Transaction.bind_eq_ok.mp h
  split at h
  · cases h
  · exact ⟨_, (Except.ok.inj h).symm⟩

theorem Call.request_contextual {c : Call} {dev : Device} {chosenId : String} {r : Request}
    (h : c.request = .ok (dev, chosenId, r)) : r.Contextual := by
  unfold Call.request at h
  simp only [Transaction.bind_eq_ok, Transaction.pure_eq_ok, Prod.mk.injEq] at h
  obtain ⟨_, -, _, -, _, -, _, -, _, -, _, -, context, hcontext, -, -, rfl⟩ := h
  intro x hx
  obtain rfl : context = some x := hx
  unfold Call.normalizedContext at hcontext
  split at hcontext
  · rename_i supplied hsupplied
    cases hnormal : normalizeExecutionContext supplied with
    | error err => rw [hnormal] at hcontext; cases hcontext
    | ok y =>
      rw [hnormal] at hcontext
      cases hcontext
      exact normalizeExecutionContext_object hnormal
  · cases hcontext

theorem preparedRow_recorded {c : Call} {now : ℚ} {row : Row} (h : preparedRow G c now = .ok row) :
    Recorded G row := by
  obtain ⟨dev, chosenId, r, digest, grants, hrequest, hdigest, rfl⟩ := preparedRow_ok h
  exact ⟨r, grants, rfl, hdigest, rfl, Call.request_contextual hrequest⟩

theorem Recorded.change {e : Event} {row row' : Row} (h : Change S e row row')
    (recorded : Recorded G row) : Recorded G row' := by
  cases h <;> exact recorded

theorem Change.same_key {e : Event} {row row' : Row} (h : Change S e row row') :
    row'.deviceId = row.deviceId ∧ row'.dispatchKey = row.dispatchKey := by
  cases h <;> exact ⟨rfl, rfl⟩

theorem Change.same_id {e : Event} {row row' : Row} (h : Change S e row row') :
    row'.invocationId = row.invocationId := by
  cases h <;> rfl

theorem inserted_row {S' : System} {c : Call} (h : S.step G (.enqueue c) = .ok S') {id : String}
    {row : Row} (old : S.db.find? id = none) (hrow : S'.db.find? id = some row) :
    preparedRow G c S.clock = .ok row ∧
      existingRows S.db row.invocationId row.deviceId row.dispatchKey = [] := by
  simp only [System.step, Transaction.bind_eq_ok] at h
  obtain ⟨⟨found, db'⟩, henqueue, h⟩ := h
  cases h
  obtain ⟨new, hnew, hinsert⟩ := enqueueInvocation_ok henqueue
  rcases insertOrFind_ok hinsert with ⟨rfl, -⟩ | ⟨hinserted, -, hfree⟩
  · rw [old] at hrow
    cases hrow
  · have hid : id = new.invocationId := by
      by_contra hne
      rw [Table.find?_insert?_ne hinserted hne, old] at hrow
      cases hrow
    subst hid
    rw [Table.find?_insert?_self hinserted] at hrow
    obtain rfl := Option.some.inj hrow
    exact ⟨hnew, hfree⟩

theorem mem_existingRows {chosenId deviceId dispatchKey : String} {row : Row} :
    row ∈ existingRows db chosenId deviceId dispatchKey ↔ row ∈ db.rows ∧
      (row.invocationId = chosenId ∨
        (dispatchKey ≠ "" ∧ row.deviceId = deviceId ∧ row.dispatchKey = dispatchKey)) := by
  unfold existingRows
  rw [List.mem_insertionSort, List.mem_filter]
  simp [and_assoc]

theorem Identities.insert (I : Identities G db) {row : Row} (h : db.insert? row = some db')
    (recorded : Recorded G row)
    (free : existingRows db row.invocationId row.deviceId row.dispatchKey = []) :
    Identities G db' := by
  have other : ∀ id x, db'.find? id = some x → id ≠ row.invocationId → db.find? id = some x := by
    intro id x hx hne
    rwa [Table.find?_insert?_ne h hne] at hx
  have self : ∀ x, db'.find? row.invocationId = some x → x = row := by
    intro x hx
    rw [Table.find?_insert?_self h] at hx
    exact (Option.some.inj hx).symm
  -- no older row has the new row's device and key
  have unused : ∀ id x, db.find? id = some x → x.deviceId = row.deviceId →
      x.dispatchKey = row.dispatchKey → x.dispatchKey = "" := by
    intro id x hx hdevice hkey
    by_contra hne
    have hmem : x ∈ existingRows db row.invocationId row.deviceId row.dispatchKey :=
      mem_existingRows.mpr ⟨Table.mem_of_find? hx, .inr ⟨hkey ▸ hne, hdevice, hkey⟩⟩
    rw [free] at hmem
    cases hmem
  constructor
  · intro id x hx
    by_cases hid : id = row.invocationId
    · subst hid
      rw [self x hx]
      exact recorded
    · exact I.recorded id x (other id x hx hid)
  · intro id id' x x' hx hx' hdevice hkey hne
    by_cases hid : id = row.invocationId
    · by_cases hid' : id' = row.invocationId
      · rw [hid, hid']
      · subst hid
        rw [self x hx] at hdevice hkey hne
        exact absurd (unused id' x' (other id' x' hx' hid') hdevice.symm hkey.symm) (hkey ▸ hne)
    · by_cases hid' : id' = row.invocationId
      · subst hid'
        rw [self x' hx'] at hdevice hkey
        exact absurd (unused id x (other id x hx hid) hdevice hkey) hne
      · exact I.dispatch id id' x x' (other id x hx hid) (other id' x' hx' hid') hdevice hkey hne

theorem Identities.rows (I : Identities G S.db) {e : Event} (rows : RowSteps S e db')
    (quiet : ∀ c, e ≠ .enqueue c) : Identities G db' := by
  have back : ∀ id x, db'.find? id = some x → ∃ y, S.db.find? id = some y ∧ Change S e y x := by
    intro id x hx
    cases hy : S.db.find? id with
    | none =>
      obtain ⟨-, -, c, hc⟩ := rows.new id x hy hx
      exact absurd hc (quiet c)
    | some y =>
      rcases rows.old id y hy with ⟨z, hz, change⟩ | ⟨hnone, -⟩
      · obtain rfl : z = x := Option.some.inj (hz.symm.trans hx)
        exact ⟨y, rfl, change⟩
      · rw [hnone] at hx
        cases hx
  constructor
  · intro id x hx
    obtain ⟨y, hy, change⟩ := back id x hx
    exact (I.recorded id y hy).change change
  · intro id id' x x' hx hx' hdevice hkey hne
    obtain ⟨y, hy, change⟩ := back id x hx
    obtain ⟨y', hy', change'⟩ := back id' x' hx'
    rw [change.same_key.1, change'.same_key.1] at hdevice
    rw [change.same_key.2, change'.same_key.2] at hkey
    rw [change.same_key.2] at hne
    exact I.dispatch id id' y y' hy hy' hdevice hkey hne

theorem Identities.after (I : Identities G S.db) (sound : Sound S.db) (e : Event) :
    Identities G (S.after G e).db := by
  cases e with
  | enqueue c =>
    unfold System.after Transaction.commit
    cases h : S.step G (.enqueue c) with
    | error err => exact I
    | ok S' =>
      simp only [System.step, Transaction.bind_eq_ok] at h
      obtain ⟨⟨id, db'⟩, henqueue, h⟩ := h
      cases h
      obtain ⟨row, hrow, hinsert⟩ := enqueueInvocation_ok henqueue
      rcases insertOrFind_ok hinsert with ⟨rfl, -⟩ | ⟨hinsert, -, hnone⟩
      · exact I
      · exact I.insert hinsert (preparedRow_recorded hrow) hnone
  | _ => exact I.rows (after_rows sound _) (by simp)

theorem identities_run (events : List Event) : Identities G (System.run G events).db := by
  induction events using List.reverseRecOn with
  | nil => constructor <;> intro id <;> simp [System.init]
  | append_singleton events e ih =>
    rw [System.run, Transaction.run_append]
    exact ih.after (sound_run events) e

/-! ### One call -/

theorem enqueueInvocation_prepared {c : Call} {now : ℚ} {row : Row}
    (h : preparedRow G c now = .ok row) :
    enqueueInvocation G db c now = insertOrFind db row := by
  unfold enqueueInvocation
  rw [h]
  rfl

theorem Change.same_digest {e : Event} {row row' : Row} (h : Change S e row row') :
    row'.payloadDigest = row.payloadDigest := by
  cases h <;> rfl

/-- The row that a retry would insert names the same device, key and request. -/
structure Row.Answers (row retry : Row) : Prop where
  device : retry.deviceId = row.deviceId
  key : retry.dispatchKey = row.dispatchKey
  named : retry.dispatchKey ≠ ""
  digest : retry.payloadDigest = row.payloadDigest

theorem Row.Answers.change {e : Event} {row row' retry : Row} (A : row.Answers retry)
    (h : Change S e row row') : row'.Answers retry :=
  ⟨A.device.trans h.same_key.1.symm, A.key.trans h.same_key.2.symm, A.named,
    A.digest.trans h.same_digest.symm⟩

theorem answers_run {events later : List Event} {id : String} {first retry : Row}
    (there : (System.run G events).db.find? id = some first) (A : first.Answers retry)
    (keeps : ∀ days now, Event.purge days now ∉ later) :
    ∃ row, (System.run G (events ++ later)).db.find? id = some row ∧ row.Answers retry := by
  induction later using List.reverseRecOn with
  | nil =>
    rw [List.append_nil]
    exact ⟨first, there, A⟩
  | append_singleton later e ih =>
    obtain ⟨row, hrow, A⟩ := ih fun days now h => keeps days now (List.mem_append_left _ h)
    rw [← List.append_assoc, System.run, Transaction.run_append]
    have rows := after_rows (G := G) (sound_run (G := G) (events ++ later)) e
    rcases rows.old id row hrow with ⟨row', hrow', change⟩ | ⟨-, -, days, now, rfl⟩
    · exact ⟨row', hrow', A.change change⟩
    · exact absurd (List.mem_append_right _ (List.mem_singleton_self _)) (keeps days now)

theorem Identities.existing (I : Identities G db) {id : String} {row retry : Row}
    (hrow : db.find? id = some row) (A : row.Answers retry)
    (own : ∀ x, db.find? retry.invocationId = some x → x.invocationId = id) :
    existingRows db retry.invocationId retry.deviceId retry.dispatchKey = [row] := by
  have found : row ∈ existingRows db retry.invocationId retry.deviceId retry.dispatchKey :=
    mem_existingRows.mpr ⟨Table.mem_of_find? hrow, .inr ⟨A.named, A.device.symm, A.key.symm⟩⟩
  have only : ∀ x ∈ existingRows db retry.invocationId retry.deviceId retry.dispatchKey,
      x = row := by
    intro x hx
    obtain ⟨hmem, leads⟩ := mem_existingRows.mp hx
    have stored := Table.find?_of_mem hmem
    have same : x.invocationId = id := by
      rcases leads with hid | ⟨hne, hdevice, hkey⟩
      · exact own x (hid ▸ stored)
      · exact I.dispatch _ _ x row stored hrow (hdevice.trans A.device) (hkey.trans A.key)
          (hkey ▸ hne)
    rw [same, hrow] at stored
    exact (Option.some.inj stored).symm
  have once : (existingRows db retry.invocationId retry.deviceId retry.dispatchKey).Nodup :=
    (List.perm_insertionSort _ _).nodup_iff.mpr ((List.Nodup.of_map _ db.nodup).filter _)
  have all := List.eq_replicate_of_mem only
  rw [all, List.nodup_replicate] at once
  have some_ := List.length_pos_of_mem found
  rw [all, show List.length _ = 1 by omega]
  rfl

/-- **A retry finds its row.**  Once a row is there, every later call for the same device, dispatch
key and request is answered with its id and changes nothing, whatever has become of the row, as long
as no purge has run and the call's own new id is free. -/
theorem retry_finds_row (G : Signing) (events later : List Event) (c : Call) {id : String}
    {first retry : Row} (there : (System.run G events).db.find? id = some first)
    (keeps : ∀ days now, Event.purge days now ∉ later)
    (prepared : preparedRow G c (System.run G (events ++ later)).clock = .ok retry)
    (same : first.Answers retry)
    (own : ∀ x, (System.run G (events ++ later)).db.find? retry.invocationId = some x →
      x.invocationId = id) :
    enqueueInvocation G (System.run G (events ++ later)).db c
      (System.run G (events ++ later)).clock = .ok (id, (System.run G (events ++ later)).db) := by
  obtain ⟨row, hrow, A⟩ := answers_run there same keeps
  have only := (identities_run (events ++ later)).existing hrow A own
  rw [enqueueInvocation_prepared prepared]
  unfold insertOrFind
  rw [only]
  dsimp only
  rw [if_pos A.digest.symm, Table.key_of_find? hrow]

/-- The row is inserted, and then delivered. -/
def firstCall : List Event := [.enqueue (sampleCall "laptop" "inv-1" (some "turn-0001"))]

def firstPoll : List Event := [.poll "laptop" none, .probe 0, .claim 0]

def secondCall : Call := sampleCall "laptop" "inv-2" (some "turn-0001")

theorem retry_finds_row_sample :
    let S := System.run sampleSigning (firstCall ++ firstPoll)
    ∃ id, enqueueInvocation sampleSigning S.db secondCall S.clock = .ok (id, S.db) := by
  intro S
  let names (r : Row) := (r.deviceId, r.dispatchKey, r.payloadDigest)
  obtain ⟨first, there⟩ := Option.isSome_iff_exists.mp (show
    ((System.run sampleSigning firstCall).db.find? "inv-1").isSome = true by decide +kernel)
  have free : S.db.find? "inv-2" = none := Option.isNone_iff_eq_none.mp (by decide +kernel)
  have named : (preparedRow sampleSigning secondCall S.clock).toOption.map
      (fun r => (r.invocationId, r.dispatchKey)) = some ("inv-2", "turn-0001") := by decide +kernel
  have same : (preparedRow sampleSigning secondCall S.clock).toOption.map names =
      ((System.run sampleSigning firstCall).db.find? "inv-1").map names := by decide +kernel
  cases prepared : preparedRow sampleSigning secondCall S.clock with
  | error e =>
    rw [prepared] at named
    cases named
  | ok retry =>
    rw [prepared] at named same
    rw [there] at same
    obtain ⟨hid, hkey⟩ := Prod.mk.inj (Option.some.inj named)
    obtain ⟨device, rest⟩ := Prod.mk.inj (Option.some.inj same)
    obtain ⟨key, digest⟩ := Prod.mk.inj rest
    have A : first.Answers retry := ⟨device, key, by rw [hkey]; decide, digest⟩
    refine ⟨"inv-1", retry_finds_row sampleSigning firstCall firstPoll secondCall there
      (by simp [firstPoll]) prepared A fun x hx => ?_⟩
    rw [hid, free] at hx
    cases hx

end Metnos.Invocations
