import Metnos.Scheduler.Slots

/-!
# Scheduler.Fairness — bounded overtaking at the fair gate

A critical section of the gate is taken apart into its moves: a ticket is queued or leaves, an owner
takes its turn, a caller returns.  `history` lists the moves of a run with the gate after each of
them.  What fairness needs (`Turns`) holds in every run, also in one in which a deadline takes the
ticket of another caller.
-/

namespace Metnos.Scheduler

open Transaction

/-- A move: the owner and the ticket that were granted, and the gate after it. -/
structure Moment where
  granted : Option (String × ℕ)
  after : GateState

namespace Moment

def grantsTo (owner : String) (m : Moment) : Bool := m.granted.any fun g => g.1 = owner

def grantsHigh (m : Moment) : Bool := m.granted.any fun g => m.after.isHigh g.2

end Moment

namespace GateState

/-- The ticket that `_pick` takes. -/
def picked (S : GateState) (owner : String) : Option ℕ := (S.gate.queues owner)[(S.pick owner).1]?

/-- The rounds of `_grant`. -/
def grantMoments : ℕ → GateState → List Moment
  | 0, _ => []
  | n + 1, S =>
    if S.gate.active < S.gate.capacity then
      match S.gate.owners with
      | [] => []
      | owner :: rest =>
        if (S.gate.queues owner).isEmpty then
          ⟨none, S.forgetOwner owner rest⟩ :: grantMoments n (S.forgetOwner owner rest)
        else ⟨(S.picked owner).map fun i => (owner, i), S.grantOwner owner rest⟩ ::
          grantMoments n (S.grantOwner owner rest)
    else []

/-- `_grant`, after a move. -/
def thenGrant (S : GateState) : List Moment :=
  ⟨none, S⟩ :: S.grantMoments (S.gate.capacity - S.gate.active + S.gate.owners.length)

/-- The loop of `acquire`, up to the next wait. -/
def pollMoments (S : GateState) (i now : ℕ) : List Moment :=
  match S.callers[i]? with
  | none => []
  | some c =>
    if c.phase ≠ .acquiring then []
    else if c.ticket.granted then [⟨none, S.become i .returnedTrue⟩]
    else match c.deadline with
      | none => []
      | some d => if d ≤ now then ((S.expire c.ticket).become i .returnedFalse).thenGrant else []

def moments (S : GateState) : GateEvent → List Moment
  | .acquire owner priority deadline now =>
    if maxFairWaiters ≤ S.gate.waiters then []
    else (S.enqueue owner priority deadline).thenGrant ++
      (S.enqueue owner priority deadline).grant.pollMoments S.callers.length now
  | .resume i now => S.pollMoments i now
  | .release i =>
    match S.callers[i]? with
    | none => []
    | some c =>
      if c.phase ≠ .returnedTrue ∨ S.gate.active = 0 then []
      else (({ S with gate := { S.gate with active := S.gate.active - 1 } } :
        GateState).become i .released).thenGrant

end GateState

def historyFrom : GateState → List GateEvent → List Moment
  | _, [] => []
  | S, e :: es => S.moments e ++ historyFrom (commit GateState.transact S e) es

def history (capacity : ℕ) (events : List GateEvent) : List Moment :=
  historyFrom (GateState.init capacity) events

def lastOf : GateState → List Moment → GateState
  | S, [] => S
  | _, m :: ms => lastOf m.after ms

/-- The state in which each of the moves begins. -/
def Throughout (P : GateState → Prop) : GateState → List Moment → Prop
  | _, [] => True
  | S, m :: ms => P S ∧ Throughout P m.after ms

/-! ## What a move can do -/

inductive Move (S : GateState) : Moment → Prop
  | enqueue (owner : String) (priority : Priority) (deadline : Option ℕ) :
    Move S ⟨none, S.enqueue owner priority deadline⟩
  | grant {owner : String} {rest : List String} {i : ℕ} (owners : S.gate.owners = owner :: rest)
    (picked : S.picked owner = some i) : Move S ⟨some (owner, i), S.grantOwner owner rest⟩
  | forget {owner : String} {rest : List String} (owners : S.gate.owners = owner :: rest)
    (empty : S.gate.queues owner = []) : Move S ⟨none, S.forgetOwner owner rest⟩
  | expire (t : FairTicket) (i : ℕ) :
    Move S ⟨none, (S.expire t).become i .returnedFalse⟩
  | turn (active i : ℕ) (phase : Phase) :
    Move S ⟨none, ({ S with gate := { S.gate with active := active } } : GateState).become i phase⟩

/-- Every move begins where the one before it ended. -/
def Linked : GateState → List Moment → Prop
  | _, [] => True
  | S, m :: ms => Move S m ∧ Linked m.after ms

section
variable {S S' : GateState} {m : Moment} {ms ms' : List Moment}

theorem linked_append : Linked S (ms ++ ms') ↔ Linked S ms ∧ Linked (lastOf S ms) ms' := by
  induction ms generalizing S with
  | nil => simp [Linked, lastOf]
  | cons m ms ih => simp [Linked, lastOf, ih, and_assoc]

theorem lastOf_append : lastOf S (ms ++ ms') = lastOf (lastOf S ms) ms' := by
  induction ms generalizing S with
  | nil => rfl
  | cons m ms ih => exact ih

theorem picked_of_ne {owner : String} (h : S.gate.queues owner ≠ []) :
    ∃ i, S.picked owner = some i := ⟨_, List.getElem?_eq_getElem (pick_lt h)⟩

theorem grantMoments_spec (n : ℕ) :
    Linked S (S.grantMoments n) ∧ lastOf S (S.grantMoments n) = S.grantLoop n := by
  induction n generalizing S with
  | zero => exact ⟨trivial, rfl⟩
  | succ n ih =>
    unfold GateState.grantMoments GateState.grantLoop
    by_cases free : S.gate.active < S.gate.capacity
    · rw [if_pos free, if_pos free]
      cases howners : S.gate.owners with
      | nil => exact ⟨trivial, rfl⟩
      | cons owner rest =>
        dsimp only
        by_cases hempty : S.gate.queues owner = []
        · have h : (S.gate.queues owner).isEmpty = true := by simpa using hempty
          rw [if_pos h, if_pos h]
          exact ⟨⟨.forget howners hempty, ih.1⟩, ih.2⟩
        · have h : ¬ (S.gate.queues owner).isEmpty = true := by simpa using hempty
          obtain ⟨i, hi⟩ := picked_of_ne hempty
          rw [if_neg h, if_neg h, hi, Option.map_some]
          exact ⟨⟨.grant howners hi, ih.1⟩, ih.2⟩
    · rw [if_neg free, if_neg free]
      exact ⟨trivial, rfl⟩

theorem thenGrant_spec (first : Move S ⟨none, S'⟩) :
    Linked S S'.thenGrant ∧ lastOf S S'.thenGrant = S'.grant := by
  obtain ⟨linked, last⟩ := grantMoments_spec (S := S')
    (S'.gate.capacity - S'.gate.active + S'.gate.owners.length)
  exact ⟨⟨first, linked⟩, last⟩

theorem pollMoments_spec (i now : ℕ) :
    Linked S (S.pollMoments i now) ∧ lastOf S (S.pollMoments i now) = S.poll i now := by
  unfold GateState.pollMoments GateState.poll
  cases S.callers[i]? with
  | none => exact ⟨trivial, rfl⟩
  | some c =>
    dsimp only
    by_cases hphase : c.phase ≠ .acquiring
    · rw [if_pos hphase, if_pos hphase]
      exact ⟨trivial, rfl⟩
    rw [if_neg hphase, if_neg hphase]
    by_cases hgranted : c.ticket.granted = true
    · rw [if_pos hgranted, if_pos hgranted]
      exact ⟨⟨.turn S.gate.active i .returnedTrue, trivial⟩, rfl⟩
    rw [if_neg hgranted, if_neg hgranted]
    cases c.deadline with
    | none => exact ⟨trivial, rfl⟩
    | some d =>
      dsimp only
      by_cases hle : d ≤ now
      · rw [if_pos hle, if_pos hle]
        exact thenGrant_spec (.expire c.ticket i)
      · rw [if_neg hle, if_neg hle]
        exact ⟨trivial, rfl⟩

theorem moments_spec (e : GateEvent) :
    Linked S (S.moments e) ∧ lastOf S (S.moments e) = commit GateState.transact S e := by
  unfold commit
  cases e with
  | acquire owner priority deadline now =>
    unfold GateState.moments GateState.transact
    dsimp only
    by_cases full : maxFairWaiters ≤ S.gate.waiters
    · rw [if_pos full, if_pos full]
      exact ⟨trivial, rfl⟩
    · rw [if_neg full, if_neg full]
      obtain ⟨linked, last⟩ := thenGrant_spec (S := S) (.enqueue owner priority deadline)
      obtain ⟨linked', last'⟩ :=
        pollMoments_spec (S := (S.enqueue owner priority deadline).grant) S.callers.length now
      rw [linked_append, lastOf_append, last]
      exact ⟨⟨linked, linked'⟩, last'⟩
  | resume i now => exact pollMoments_spec i now
  | release i =>
    unfold GateState.moments GateState.transact
    dsimp only
    cases S.callers[i]? with
    | none => exact ⟨trivial, rfl⟩
    | some c =>
      dsimp only
      by_cases hnot : c.phase ≠ .returnedTrue ∨ S.gate.active = 0
      · rw [if_pos hnot, if_pos hnot]
        exact ⟨trivial, rfl⟩
      · rw [if_neg hnot, if_neg hnot]
        exact thenGrant_spec (.turn _ i .released)

theorem historyFrom_spec (events : List GateEvent) :
    Linked S (historyFrom S events) ∧
      lastOf S (historyFrom S events) = run GateState.transact S events := by
  induction events generalizing S with
  | nil => exact ⟨trivial, rfl⟩
  | cons e es ih =>
    obtain ⟨linked, last⟩ := moments_spec (S := S) e
    rw [historyFrom, linked_append, lastOf_append, last, run_cons]
    exact ⟨⟨linked, ih.1⟩, ih.2⟩

/-! ## What holds in every run -/

/-- A queue lists its tickets by age, and an owner has a turn while it has a ticket. -/
structure Turns (S : GateState) : Prop where
  bound : ∀ o, ∀ i ∈ S.gate.queues o, i < S.callers.length
  sorted : ∀ o, (S.gate.queues o).Pairwise (· < ·)
  owners : S.gate.owners.Nodup
  turns : ∀ o, o ∈ S.gate.owners ↔ S.gate.queues o ≠ []

theorem turns_init (capacity : ℕ) : Turns (GateState.init capacity) := by
  constructor <;> simp [GateState.init]

theorem update_sublist (queues : String → List ℕ) {owner : String} {left : List ℕ}
    (h : left.Sublist (queues owner)) (o : String) :
    (Function.update queues owner left o).Sublist (queues o) := by
  by_cases ho : o = owner
  · subst ho
    rw [Function.update_self]
    exact h
  · rw [Function.update_of_ne ho]

theorem expire_queues (t : FairTicket) (o : String) :
    ((S.expire t).gate.queues o).Sublist (S.gate.queues o) := by
  unfold GateState.expire
  dsimp only
  by_cases hany : (S.gate.queues t.owner).any (S.equals t) = true
  · rw [if_pos hany]
    exact update_sublist _ List.eraseP_sublist o
  · rw [if_neg hany]

theorem expire_callers (t : FairTicket) : (S.expire t).callers = S.callers := by
  unfold GateState.expire
  dsimp only
  split_ifs <;> rfl

theorem Move.queues (h : Move S m) (o : String) :
    (m.after.gate.queues o).Sublist (S.gate.queues o) ∧ S.callers.length ≤ m.after.callers.length ∨
      m.after.gate.queues o = S.gate.queues o ++ [S.callers.length] ∧
        m.after.callers.length = S.callers.length + 1 := by
  cases h with
  | enqueue owner priority deadline =>
    simp only [GateState.enqueue, List.length_append, List.length_singleton]
    by_cases ho : o = owner
    · subst ho
      exact .inr ⟨Function.update_self .., trivial⟩
    · rw [Function.update_of_ne ho]
      exact .inl ⟨List.Sublist.refl _, by omega⟩
  | grant owners picked =>
    refine .inl ⟨update_sublist _ (List.eraseIdx_sublist ..) o, ?_⟩
    simp only [GateState.grantOwner]
    split
    · rw [List.length_modify]
    · rfl
  | forget owners empty => exact .inl ⟨List.Sublist.refl _, Nat.le_refl _⟩
  | expire t i =>
    refine .inl ⟨expire_queues t o, ?_⟩
    simp only [GateState.become, List.length_modify, expire_callers]
    exact Nat.le_refl _
  | turn active i phase =>
    refine .inl ⟨List.Sublist.refl _, ?_⟩
    simp only [GateState.become, List.length_modify]
    exact Nat.le_refl _

theorem isHigh_append (x : Caller) {T : GateState} (h : T.callers = S.callers ++ [x]) {i : ℕ}
    (hi : i < S.callers.length) : T.isHigh i = S.isHigh i := by
  unfold GateState.isHigh GateState.ticket
  rw [h, List.getElem?_append_left hi]

theorem isHigh_modify {f : Caller → Caller} {T : GateState} {j : ℕ}
    (hf : ∀ c, (f c).ticket.priority = c.ticket.priority)
    (h : T.callers = S.callers.modify j f) (i : ℕ) : T.isHigh i = S.isHigh i := by
  unfold GateState.isHigh GateState.ticket
  rw [h, List.getElem?_modify]
  cases S.callers[i]? with
  | none => rfl
  | some c =>
    by_cases hij : j = i
    · simp [hij, hf]
    · simp [hij]

theorem Move.isHigh (h : Move S m) {i : ℕ} (hi : i < S.callers.length) :
    m.after.isHigh i = S.isHigh i := by
  cases h with
  | enqueue owner priority deadline => exact isHigh_append _ rfl hi
  | @grant owner rest j owners picked =>
    refine isHigh_modify (f := Caller.grant) (j := j) (fun _ => rfl) ?_ i
    simp only [GateState.picked] at picked
    simp only [GateState.grantOwner, picked]
  | forget owners empty => rfl
  | expire t j =>
    refine isHigh_modify (f := Caller.become .returnedFalse) (j := j) (fun _ => rfl) ?_ i
    simp only [GateState.become, expire_callers]
  | turn active j phase => exact isHigh_modify (f := Caller.become phase) (fun _ => rfl) rfl i

theorem Turns.leave (T : Turns S) {owner : String} (left : List ℕ) {owners : List String}
    (perm : owners.Perm (if left.isEmpty then S.gate.owners.erase owner else S.gate.owners))
    (hmem : owner ∈ S.gate.owners) : owners.Nodup ∧
      ∀ o, o ∈ owners ↔ Function.update S.gate.queues owner left o ≠ [] := by
  by_cases hempty : left = []
  · subst hempty
    simp only [List.isEmpty_nil, if_true] at perm
    refine ⟨perm.nodup_iff.mpr (T.owners.erase _), fun o => ?_⟩
    rw [perm.mem_iff, T.owners.mem_erase_iff]
    by_cases ho : o = owner
    · subst ho
      simp
    · rw [Function.update_of_ne ho, ← T.turns o]
      exact and_iff_right ho
  · have hfalse : left.isEmpty = false := by simpa using hempty
    rw [hfalse, if_neg Bool.false_ne_true] at perm
    refine ⟨perm.nodup_iff.mpr T.owners, fun o => ?_⟩
    rw [perm.mem_iff]
    by_cases ho : o = owner
    · subst ho
      simp [hmem, hempty]
    · rw [Function.update_of_ne ho, ← T.turns o]

theorem Turns.enter (T : Turns S) (owner : String) (i : ℕ) :
    (if (S.gate.queues owner).isEmpty then S.gate.owners ++ [owner] else S.gate.owners).Nodup ∧
      ∀ o, o ∈ (if (S.gate.queues owner).isEmpty then S.gate.owners ++ [owner]
        else S.gate.owners) ↔
          Function.update S.gate.queues owner (S.gate.queues owner ++ [i]) o ≠ [] := by
  by_cases hempty : S.gate.queues owner = []
  · have hnot : owner ∉ S.gate.owners := fun h => (T.turns owner).mp h hempty
    rw [if_pos (by simpa using hempty)]
    refine ⟨List.nodup_append.mpr ⟨T.owners, List.nodup_singleton _, ?_⟩, fun o => ?_⟩
    · rintro a ha b hb rfl
      rw [List.mem_singleton] at hb
      exact hnot (hb ▸ ha)
    · by_cases ho : o = owner
      · subst ho
        simp
      · rw [Function.update_of_ne ho, ← T.turns o]
        simp [ho]
  · rw [if_neg (by simpa using hempty)]
    refine ⟨T.owners, fun o => ?_⟩
    by_cases ho : o = owner
    · subst ho
      simpa using (T.turns o).mpr hempty
    · rw [Function.update_of_ne ho, T.turns o]

theorem Turns.owners_next (T : Turns S) (h : Move S m) : m.after.gate.owners.Nodup ∧
    ∀ o, o ∈ m.after.gate.owners ↔ m.after.gate.queues o ≠ [] := by
  cases h with
  | enqueue owner priority deadline => exact T.enter owner S.callers.length
  | @grant owner rest i howners picked =>
    refine T.leave ((S.gate.queues owner).eraseIdx (S.pick owner).1) ?_
      (by rw [howners]; exact List.mem_cons_self ..)
    simp only [GateState.grantOwner, howners, List.erase_cons_head]
    split
    · exact .refl _
    · exact List.perm_append_singleton ..
  | @forget owner rest howners empty =>
    exact absurd empty ((T.turns owner).mp (by rw [howners]; exact List.mem_cons_self ..))
  | expire t i =>
    simp only [GateState.become, GateState.expire]
    by_cases hany : (S.gate.queues t.owner).any (S.equals t) = true
    · rw [if_pos hany]
      obtain ⟨j, hj, -⟩ := List.any_eq_true.mp hany
      exact T.leave _ (.refl _) ((T.turns t.owner).mpr (List.ne_nil_of_mem hj))
    · rw [if_neg hany]
      exact ⟨T.owners, T.turns⟩
  | turn active i phase => exact ⟨T.owners, T.turns⟩

theorem Turns.next (T : Turns S) (h : Move S m) : Turns m.after := by
  obtain ⟨owners, turns⟩ := T.owners_next h
  refine ⟨fun o i hi => ?_, fun o => ?_, owners, turns⟩
  · rcases h.queues o with ⟨sub, hle⟩ | ⟨hq, hlen⟩
    · exact Nat.lt_of_lt_of_le (T.bound o i (sub.subset hi)) hle
    · rw [hq, List.mem_append, List.mem_singleton] at hi
      rcases hi with hi | hi
      · have := T.bound o i hi
        omega
      · omega
  · rcases h.queues o with ⟨sub, -⟩ | ⟨hq, -⟩
    · exact (T.sorted o).sublist sub
    · rw [hq, List.pairwise_append]
      refine ⟨T.sorted o, List.pairwise_singleton .., fun a ha b hb => ?_⟩
      rw [List.mem_singleton] at hb
      rw [hb]
      exact T.bound o a ha

theorem Turns.last (T : Turns S) (linked : Linked S ms) : Turns (lastOf S ms) := by
  induction ms generalizing S with
  | nil => exact T
  | cons m ms ih => exact ih (T.next linked.1) linked.2

/-! ## Rotation -/

/-- `B` comes before `A` in the rotation. -/
def Ahead (S : GateState) (B A : String) : Prop := ∃ l r, S.gate.owners = l ++ B :: r ∧ A ∉ l

theorem Move.grantsTo (h : Move S m) {A : String} (hA : m.grantsTo A = true) :
    ∃ rest i, S.gate.owners = A :: rest ∧ S.picked A = some i ∧
      m = ⟨some (A, i), S.grantOwner A rest⟩ := by
  cases h with
  | @grant owner rest i howners picked =>
    obtain rfl : owner = A := by simpa [Moment.grantsTo] using hA
    exact ⟨rest, i, howners, picked, rfl⟩
  | enqueue | forget | expire | turn => cases hA

theorem Turns.ahead (T : Turns S) (h : Move S m) {A B : String} (hA : m.grantsTo A = true)
    (ne : A ≠ B) (queued : B ∈ m.after.gate.owners) : Ahead m.after B A := by
  obtain ⟨rest, i, howners, -, rfl⟩ := h.grantsTo hA
  have nodup := T.owners
  rw [howners, List.nodup_cons] at nodup
  revert queued
  simp only [Ahead, GateState.grantOwner]
  split
  · intro queued
    obtain ⟨l, r, hrest⟩ := List.append_of_mem queued
    refine ⟨l, r, hrest, fun hl => nodup.1 ?_⟩
    rw [hrest]
    exact List.mem_append_left _ hl
  · intro queued
    rw [List.mem_append, List.mem_singleton] at queued
    obtain ⟨l, r, hrest⟩ := List.append_of_mem (queued.resolve_right (Ne.symm ne))
    refine ⟨l, r ++ [A], ?_, fun hl => nodup.1 ?_⟩
    · rw [hrest, List.append_assoc, List.cons_append]
    · rw [hrest]
      exact List.mem_append_left _ hl

theorem Ahead.not_granted {A B : String} (ahead : Ahead S B A) (h : Move S m) (ne : A ≠ B) :
    m.grantsTo A = false := by
  by_contra hA
  rw [Bool.not_eq_false] at hA
  obtain ⟨rest, i, howners, -⟩ := h.grantsTo hA
  obtain ⟨l, r, hl, hnot⟩ := ahead
  rw [howners] at hl
  cases l with
  | nil => exact ne (List.cons.inj hl).1
  | cons C l => exact hnot ((List.cons.inj hl).1 ▸ List.mem_cons_self ..)

theorem Ahead.next {A B : String} (ahead : Ahead S B A) (T : Turns S) (h : Move S m)
    (queued : B ∈ m.after.gate.owners) (hB : m.grantsTo B = false) : Ahead m.after B A := by
  obtain ⟨l, r, hl, hnot⟩ := ahead
  cases h with
  | enqueue owner priority deadline =>
    simp only [Ahead, GateState.enqueue]
    split
    · exact ⟨l, r ++ [owner], by rw [hl, List.append_assoc, List.cons_append], hnot⟩
    · exact ⟨l, r, hl, hnot⟩
  | @grant owner rest i howners picked =>
    have hne : owner ≠ B := by simpa [Moment.grantsTo] using hB
    rw [howners] at hl
    cases l with
    | nil => exact absurd (List.cons.inj hl).1 hne
    | cons C l =>
      have hrest : rest = l ++ B :: r := (List.cons.inj hl).2
      have hnot' : A ∉ l := fun h => hnot (List.mem_cons_of_mem _ h)
      simp only [Ahead, GateState.grantOwner]
      split
      · exact ⟨l, r, hrest, hnot'⟩
      · exact ⟨l, r ++ [owner], by rw [hrest, List.append_assoc, List.cons_append], hnot'⟩
  | @forget owner rest howners empty =>
    exact absurd empty ((T.turns owner).mp (by rw [howners]; exact List.mem_cons_self ..))
  | expire t i =>
    have same : Ahead S B A := ⟨l, r, hl, hnot⟩
    revert queued
    simp only [GateState.become, GateState.expire, Ahead]
    by_cases hany : (S.gate.queues t.owner).any (S.equals t) = true
    · rw [if_pos hany]
      dsimp only
      split
      · intro queued
        have hne : B ≠ t.owner := ((T.owners.mem_erase_iff).mp queued).1
        rw [hl, List.erase_append]
        split
        · exact ⟨l.erase t.owner, r, rfl, fun h => hnot (List.mem_of_mem_erase h)⟩
        · rw [List.erase_cons_tail (by simpa using hne)]
          exact ⟨l, r.erase t.owner, rfl, hnot⟩
      · exact fun _ => same
    · rw [if_neg hany]
      exact fun _ => same
  | turn active i phase => exact ⟨l, r, hl, hnot⟩

theorem Ahead.granted {A B : String} {m₂ : Moment} (ahead : Ahead S B A) (T : Turns S)
    (linked : Linked S (ms ++ [m₂])) (ne : A ≠ B) (hA : m₂.grantsTo A = true)
    (queued : Throughout (fun S => S.gate.queues B ≠ []) S (ms ++ [m₂])) :
    ∃ m ∈ ms, m.grantsTo B = true := by
  induction ms generalizing S with
  | nil =>
    rw [ahead.not_granted linked.1 ne] at hA
    cases hA
  | cons m ms ih =>
    by_cases hB : m.grantsTo B = true
    · exact ⟨m, List.mem_cons_self .., hB⟩
    have T' := T.next linked.1
    have hmem : B ∈ m.after.gate.owners := by
      refine (T'.turns B).mpr ?_
      have rest := queued.2
      cases ms with
      | nil => exact rest.1
      | cons => exact rest.1
    obtain ⟨m', hm', hB'⟩ :=
      ih (ahead.next T linked.1 hmem (by simpa using hB)) T' linked.2 queued.2
    exact ⟨m', List.mem_cons_of_mem _ hm', hB'⟩

/-! ## Bursts -/

theorem picked_cases (sorted : ∀ o, (S.gate.queues o).Pairwise (· < ·)) {A : String} {i : ℕ}
    (h : S.picked A = some i) :
    S.isHigh i = true ∧ (S.pick A).2 = S.gate.priorityBursts A + 1 ∧
        (S.gate.priorityBursts A < maxPriorityBurst ∨ ∀ j ∈ S.gate.queues A, S.isHigh j = true) ∨
      S.isHigh i = false ∧ ∀ j ∈ S.gate.queues A, S.isHigh j = false → i ≤ j := by
  unfold GateState.picked GateState.pick at h
  unfold GateState.pick
  dsimp only at h ⊢
  split at h
  · rename_i hcond
    rw [if_pos hcond]
    rw [Bool.and_eq_true, Bool.or_eq_true, decide_eq_true_eq] at hcond
    obtain ⟨k, hk⟩ := Option.isSome_iff_exists.mp hcond.1
    obtain ⟨hlt, hhigh, -⟩ := List.findIdx?_eq_some_iff_getElem.mp hk
    rw [hk, Option.getD_some, List.getElem?_eq_getElem hlt, Option.some.injEq] at h
    refine .inl ⟨h ▸ hhigh, rfl, hcond.2.imp id fun hnone => ?_⟩
    intro j hj
    have := List.findIdx?_eq_none_iff.mp (Option.isNone_iff_eq_none.mp hnone) j hj
    simpa using this
  · rename_i hcond
    refine .inr ?_
    cases hk : (S.gate.queues A).findIdx? (fun i => !S.isHigh i) with
    | some k =>
      obtain ⟨hlt, hlow, first⟩ := List.findIdx?_eq_some_iff_getElem.mp hk
      rw [hk, Option.getD_some, List.getElem?_eq_getElem hlt, Option.some.injEq] at h
      refine ⟨by simpa [h] using hlow, fun j hj hjlow => ?_⟩
      obtain ⟨n, hn, rfl⟩ := List.mem_iff_getElem.mp hj
      by_cases hnk : n < k
      · exact absurd hjlow (by simpa using first n hnk)
      · rw [← h]
        rcases Nat.lt_or_eq_of_le (Nat.le_of_not_lt hnk) with hkn | hkn
        · exact Nat.le_of_lt (List.pairwise_iff_getElem.mp (sorted A) k n hlt hn hkn)
        · simp [hkn]
    | none =>
      -- all the tickets are high, and then a high one is taken
      rw [hk, Option.getD_none] at h
      obtain ⟨hlt, rfl⟩ := List.getElem?_eq_some_iff.mp h
      have all := List.findIdx?_eq_none_iff.mp hk
      have hsome : ((S.gate.queues A).findIdx? S.isHigh).isSome = true := by
        rw [List.findIdx?_isSome, List.any_eq_true]
        exact ⟨_, List.getElem_mem hlt, by simpa using all _ (List.getElem_mem hlt)⟩
      rw [hk, hsome] at hcond
      simp at hcond

/-- A ticket of the owner that is not high waits. -/
def WaitsLow (A : String) (S : GateState) : Prop := ∃ i ∈ S.gate.queues A, S.isHigh i = false

theorem Move.burst (h : Move S m) {A : String} (queued : m.after.gate.queues A ≠ []) :
    m.after.gate.priorityBursts A =
      if m.grantsTo A then (S.pick A).2 else S.gate.priorityBursts A := by
  cases h with
  | enqueue owner priority deadline => rfl
  | @grant owner rest i howners picked =>
    simp only [Moment.grantsTo, Option.any_some, decide_eq_true_eq, GateState.grantOwner] at queued ⊢
    by_cases ho : owner = A
    · subst ho
      rw [Function.update_self] at queued ⊢
      rw [if_pos rfl, if_neg (by simpa using queued)]
    · rw [if_neg ho, Function.update_of_ne (Ne.symm ho)]
  | @forget owner rest howners empty =>
    have hne : A ≠ owner := by
      rintro rfl
      exact queued empty
    exact Function.update_of_ne hne _ _
  | expire t i =>
    revert queued
    simp only [GateState.become, GateState.expire, Moment.grantsTo, Option.any_none,
      Bool.false_eq_true, if_false]
    by_cases hany : (S.gate.queues t.owner).any (S.equals t) = true
    · rw [if_pos hany]
      dsimp only
      intro queued
      by_cases hempty : ((S.gate.queues t.owner).eraseP (S.equals t)).isEmpty = true
      · rw [if_pos hempty]
        have hne : A ≠ t.owner := by
          rintro rfl
          rw [Function.update_self] at queued
          exact queued (by simpa using hempty)
        exact Function.update_of_ne hne _ _
      · rw [if_neg hempty]
    · rw [if_neg hany]
      exact fun _ => rfl
  | turn active i phase => rfl

theorem Turns.burst (T : Turns S) (linked : Linked S ms) {A : String}
    (high : ∀ m ∈ ms, m.grantsTo A = true → m.grantsHigh = true)
    (low : Throughout (WaitsLow A) S ms) :
    ms.countP (Moment.grantsTo A) ≤ maxPriorityBurst - S.gate.priorityBursts A := by
  induction ms generalizing S with
  | nil => exact Nat.zero_le _
  | cons m ms ih =>
    have rest := ih (T.next linked.1) linked.2
      (fun m' hm' => high m' (List.mem_cons_of_mem _ hm')) low.2
    have more : ms.countP (Moment.grantsTo A) = 0 ∨ m.after.gate.priorityBursts A =
        if m.grantsTo A then (S.pick A).2 else S.gate.priorityBursts A := by
      cases ms with
      | nil => exact .inl rfl
      | cons m' ms =>
        obtain ⟨i, hi, -⟩ := low.2.1
        exact .inr (linked.1.burst (List.ne_nil_of_mem hi))
    by_cases hA : m.grantsTo A = true
    · have hhigh := high m (List.mem_cons_self ..) hA
      have bound := T.bound
      have isHigh := @Move.isHigh S m linked.1
      obtain ⟨r, i, howners, picked, rfl⟩ := linked.1.grantsTo hA
      have hi : i ∈ S.gate.queues A := List.mem_of_getElem? picked
      rw [Moment.grantsHigh, Option.any_some, isHigh (bound A i hi)] at hhigh
      obtain ⟨j, hj, hlow⟩ := low.1
      rcases picked_cases T.sorted picked with ⟨-, hburst, hless⟩ | ⟨hnot, -⟩
      · have hlt : S.gate.priorityBursts A < maxPriorityBurst := by
          refine hless.resolve_right fun all => ?_
          rw [all j hj] at hlow
          cases hlow
        rw [List.countP_cons_of_pos hA]
        rcases more with hzero | hmore
        · omega
        · rw [if_pos hA, hburst] at hmore
          omega
      · rw [hnot] at hhigh
        cases hhigh
    · rw [List.countP_cons_of_neg hA]
      rcases more with hzero | hmore
      · omega
      · rw [if_neg hA] at hmore
        omega

/-! ## The oldest ticket -/

/-- The oldest ticket of the owner that is not high. -/
structure Oldest (A : String) (i : ℕ) (S : GateState) : Prop where
  queued : i ∈ S.gate.queues A
  low : S.isHigh i = false
  first : ∀ j ∈ S.gate.queues A, S.isHigh j = false → i ≤ j

theorem Oldest.next {A : String} {i : ℕ} (O : Oldest A i S) (T : Turns S) (h : Move S m)
    (still : i ∈ m.after.gate.queues A) : Oldest A i m.after := by
  have hi := T.bound A i O.queued
  refine ⟨still, by rw [h.isHigh hi, O.low], fun j hj hlow => ?_⟩
  rcases h.queues A with ⟨sub, -⟩ | ⟨hq, -⟩
  · have hj' := sub.subset hj
    rw [h.isHigh (T.bound A j hj')] at hlow
    exact O.first j hj' hlow
  · rw [hq, List.mem_append, List.mem_singleton] at hj
    rcases hj with hj | hj
    · rw [h.isHigh (T.bound A j hj)] at hlow
      exact O.first j hj hlow
    · omega

theorem Oldest.grantsHigh {A : String} {i : ℕ} (O : Oldest A i S) (T : Turns S) (h : Move S m)
    (hA : m.grantsTo A = true) (other : m.granted ≠ some (A, i)) : m.grantsHigh = true := by
  have isHigh := @Move.isHigh S m h
  obtain ⟨rest, k, howners, picked, rfl⟩ := h.grantsTo hA
  have hk : k ∈ S.gate.queues A := List.mem_of_getElem? picked
  rw [Moment.grantsHigh, Option.any_some, isHigh (T.bound A k hk)]
  rcases picked_cases T.sorted picked with ⟨hhigh, -⟩ | ⟨hlow, first⟩
  · exact hhigh
  · have hki : k = i := Nat.le_antisymm (first i O.queued O.low) (O.first k hk hlow)
    exact absurd (by rw [hki]) other

theorem Oldest.served {A : String} {i : ℕ} (O : Oldest A i S) (T : Turns S)
    (linked : Linked S ms) (still : Throughout (fun S => i ∈ S.gate.queues A) S ms)
    (other : ∀ m ∈ ms, m.granted ≠ some (A, i)) :
    (∀ m ∈ ms, m.grantsTo A = true → m.grantsHigh = true) ∧ Throughout (WaitsLow A) S ms := by
  induction ms generalizing S with
  | nil => exact ⟨by simp, trivial⟩
  | cons m ms ih =>
    have first := fun hA => O.grantsHigh T linked.1 hA (other m (List.mem_cons_self ..))
    have waits : WaitsLow A S := ⟨i, O.queued, O.low⟩
    cases ms with
    | nil =>
      refine ⟨fun m' hm' hA => ?_, waits, trivial⟩
      rw [List.mem_singleton] at hm'
      subst hm'
      exact first hA
    | cons m₁ ms =>
      obtain ⟨high, low⟩ := ih (O.next T linked.1 still.2.1) (T.next linked.1) linked.2 still.2
        fun m' hm' => other m' (List.mem_cons_of_mem _ hm')
      refine ⟨fun m' hm' hA => ?_, waits, low⟩
      rcases List.mem_cons.mp hm' with rfl | hm'
      · exact first hA
      · exact high m' hm' hA

end

/-- A history of a fair gate. -/
structure Fair (S : GateState) (ms : List Moment) : Prop where
  /-- While `B` waits, no other owner has two grants without one of `B` between them. -/
  rotation : ∀ (A B : String) (pre mid post : List Moment) (m₁ m₂ : Moment),
    ms = pre ++ m₁ :: mid ++ m₂ :: post → A ≠ B → m₁.grantsTo A = true → m₂.grantsTo A = true →
    Throughout (fun S => S.gate.queues B ≠ []) (lastOf S pre) (m₁ :: mid ++ [m₂]) →
    ∃ m ∈ mid, m.grantsTo B = true
  /-- While a ticket that is not high waits, only so many grants in a row go to high ones. -/
  bursts : ∀ (A : String) (pre mid post : List Moment), ms = pre ++ mid ++ post →
    (∀ m ∈ mid, m.grantsTo A = true → m.grantsHigh = true) →
    Throughout (WaitsLow A) (lastOf S pre) mid →
    mid.countP (Moment.grantsTo A) ≤ maxPriorityBurst
  /-- The oldest ticket that is not high is granted within one more, while it waits. -/
  oldest : ∀ (A : String) (i : ℕ) (pre mid post : List Moment), ms = pre ++ mid ++ post →
    Oldest A i (lastOf S pre) → Throughout (fun S => i ∈ S.gate.queues A) (lastOf S pre) mid →
    maxPriorityBurst + 1 ≤ mid.countP (Moment.grantsTo A) → ∃ m ∈ mid, m.granted = some (A, i)

/-- **Fairness.**  In every run of the gate no owner is overtaken twice by another one, and the
priority of the other tickets of its owner delays a ticket by a bounded number of grants. -/
theorem gate_fair (capacity : ℕ) (events : List GateEvent) :
    Fair (GateState.init capacity) (history capacity events) := by
  have T₀ := turns_init capacity
  have linked := (historyFrom_spec (S := GateState.init capacity) events).1
  refine ⟨?rotation, ?bursts, ?oldest⟩
  case rotation =>
    intro A B pre mid post m₁ m₂ hms ne h₁ h₂ queued
    have shape : history capacity events = pre ++ (m₁ :: (mid ++ [m₂]) ++ post) := by
      rw [hms]
      simp
    rw [← history, shape, linked_append, linked_append] at linked
    obtain ⟨hpre, ⟨hm₁, hmid⟩, -⟩ := linked
    have T := T₀.last hpre
    have T' := T.next hm₁
    have hB : m₁.after.gate.queues B ≠ [] := by
      have rest := queued.2
      cases mid with
      | nil => exact rest.1
      | cons => exact rest.1
    exact (T.ahead hm₁ h₁ ne ((T'.turns B).mpr hB)).granted T' hmid ne h₂ queued.2
  case bursts =>
    intro A pre mid post hms high low
    rw [← history, hms, linked_append, linked_append] at linked
    have := (T₀.last linked.1.1).burst linked.1.2 high low
    omega
  case oldest =>
    intro A i pre mid post hms O still many
    rw [← history, hms, linked_append, linked_append] at linked
    have T := T₀.last linked.1.1
    by_contra hnot
    push Not at hnot
    obtain ⟨high, low⟩ := O.served T linked.1.2 still hnot
    have := T.burst linked.1.2 high low
    omega

/-! ## No slot is left free -/

/-- Between two events a slot is only free while no owner has a turn. -/
structure Busy (S : GateState) : Prop where
  bound : S.gate.active ≤ S.gate.capacity
  full : S.gate.active < S.gate.capacity → S.gate.owners = []

section
variable {S S' : GateState} {e : GateEvent}

theorem grantLoop_busy (n : ℕ) (bound : S.gate.active ≤ S.gate.capacity)
    (rounds : S.gate.capacity - S.gate.active + S.gate.owners.length ≤ n) :
    Busy (S.grantLoop n) := by
  induction n generalizing S with
  | zero =>
    refine ⟨bound, fun free => ?_⟩
    have free : S.gate.active < S.gate.capacity := free
    omega
  | succ n ih =>
    unfold GateState.grantLoop
    by_cases free : S.gate.active < S.gate.capacity
    · rw [if_pos free]
      cases howners : S.gate.owners with
      | nil => exact ⟨bound, fun _ => howners⟩
      | cons owner rest =>
        rw [howners, List.length_cons] at rounds
        dsimp only
        -- a round takes an owner out, or a slot
        by_cases empty : (S.gate.queues owner).isEmpty = true
        · rw [if_pos empty]
          apply ih
          · exact bound
          · show S.gate.capacity - S.gate.active + rest.length ≤ n
            omega
        · rw [if_neg empty]
          have turns : (S.grantOwner owner rest).gate.owners.length ≤ rest.length + 1 := by
            unfold GateState.grantOwner
            dsimp only
            split_ifs
            · omega
            · simp
          apply ih
          · exact free
          · show S.gate.capacity - (S.gate.active + 1) + _ ≤ n
            omega
    · rw [if_neg free]
      exact ⟨bound, fun h => absurd h free⟩

theorem grant_busy (bound : S.gate.active ≤ S.gate.capacity) : Busy S.grant :=
  grantLoop_busy _ bound le_rfl

theorem expire_gate (t : FairTicket) : (S.expire t).gate.active = S.gate.active ∧
    (S.expire t).gate.capacity = S.gate.capacity := by
  unfold GateState.expire
  dsimp only
  split
  · exact ⟨rfl, rfl⟩
  · exact ⟨rfl, rfl⟩

theorem Busy.poll (B : Busy S) (i now : ℕ) : Busy (S.poll i now) := by
  unfold GateState.poll
  split
  · exact B
  · rename_i c _
    split_ifs
    · exact B
    · exact ⟨B.bound, B.full⟩
    · split
      · exact B
      · split_ifs
        · apply grant_busy
          show (S.expire c.ticket).gate.active ≤ (S.expire c.ticket).gate.capacity
          rw [(expire_gate c.ticket).1, (expire_gate c.ticket).2]
          exact B.bound
        · exact B

theorem Busy.transact (B : Busy S) (h : S.transact e = .ok S') : Busy S' := by
  cases e with
  | acquire owner priority deadline now =>
    simp only [GateState.transact] at h
    split_ifs at h
    obtain rfl := Except.ok.inj h
    have entered : Busy (S.enqueue owner priority deadline).grant := grant_busy B.bound
    exact entered.poll S.callers.length now
  | resume i now =>
    obtain rfl := Except.ok.inj h
    exact B.poll i now
  | release i =>
    simp only [GateState.transact] at h
    split at h
    · cases h
    · split_ifs at h
      obtain rfl := Except.ok.inj h
      have bound := B.bound
      apply grant_busy
      show S.gate.active - 1 ≤ S.gate.capacity
      omega

end

/-- **Work conservation.**  As long as a ticket is queued, every slot of the gate is taken. -/
theorem gate_busy (capacity : ℕ) (events : List GateEvent) {owner : String}
    (queued : (gateRun capacity events).gate.queues owner ≠ []) :
    (gateRun capacity events).gate.active = (gateRun capacity events).gate.capacity := by
  have B : Busy (gateRun capacity events) :=
    run_preserves (fun h B => B.transact h) ⟨Nat.zero_le _, fun _ => rfl⟩
  obtain ⟨linked, last⟩ := historyFrom_spec (S := GateState.init capacity) events
  have T : Turns (gateRun capacity events) := by
    have T := (turns_init capacity).last linked
    rw [last] at T
    exact T
  have turn : owner ∈ (gateRun capacity events).gate.owners := (T.turns owner).mpr queued
  by_contra idle
  have none_ := B.full (lt_of_le_of_ne B.bound idle)
  rw [none_] at turn
  cases turn

theorem gate_busy_two : (gateRun 1 (twoWaiters .low)).gate.active =
    (gateRun 1 (twoWaiters .low)).gate.capacity :=
  gate_busy 1 (twoWaiters .low)
    (show (gateRun 1 (twoWaiters .low)).gate.queues "owner" ≠ [] by decide +kernel)

end Metnos.Scheduler
