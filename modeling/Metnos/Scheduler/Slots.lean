import Mathlib
import Metnos.Lib.Count
import Metnos.Lib.Transaction

/-!
# Scheduler.Slots — the owner round-robin in front of the executors

`_FairGate`: callers of `acquire` queue by owner, owners take turns, and within an owner `high`
goes first, two in a row at most while others wait.  Each critical section under the condition is
one event.  A queue holds references to tickets; the ticket of a caller is the one its `acquire`
created, and the list of callers is the heap these references point into.
-/

namespace Metnos.Scheduler

inductive Priority
  | low | normal | high
deriving DecidableEq

/-- `_FairTicket`, a dataclass that compares by value. -/
structure FairTicket where
  owner : String
  priority : Priority
  granted : Bool
deriving DecidableEq

/-- Where a call of `acquire` is, and whether its slot was released. -/
inductive Phase
  | acquiring | returnedTrue | returnedFalse | released
deriving DecidableEq

structure Caller where
  ticket : FairTicket
  deadline : Option ℕ
  phase : Phase
deriving DecidableEq

/-- Blocked in `acquire`: the loop goes on while the ticket is not granted. -/
def Caller.waiting (c : Caller) : Bool := c.phase = .acquiring && !c.ticket.granted

/-- The slot is the caller's: `acquire` returned `True`, or does when it runs next. -/
def Caller.holds (c : Caller) : Bool :=
  c.phase = .returnedTrue || (c.phase = .acquiring && c.ticket.granted)

def Caller.grant (c : Caller) : Caller := { c with ticket := { c.ticket with granted := true } }

def Caller.become (phase : Phase) (c : Caller) : Caller := { c with phase := phase }

/-- The fields of `_FairGate`; an owner without an entry has no tickets and no burst. -/
structure FairGate where
  capacity : ℕ
  active : ℕ
  waiters : ℕ
  queues : String → List ℕ
  owners : List String
  priorityBursts : String → ℕ

structure GateState where
  gate : FairGate
  callers : List Caller

/-- `_MAX_FAIR_WAITERS`, `_MAX_PRIORITY_BURST`. -/
def maxFairWaiters : ℕ := 4096
def maxPriorityBurst : ℕ := 2

def GateState.init (capacity : ℕ) : GateState :=
  ⟨⟨max 1 capacity, 0, 0, fun _ => [], [], fun _ => 0⟩, []⟩

namespace GateState

def ticket (S : GateState) (i : ℕ) : Option FairTicket := S.callers[i]?.map Caller.ticket

def isHigh (S : GateState) (i : ℕ) : Bool := (S.ticket i).any (fun t => t.priority = .high)

/-- `_pick`: which ticket of the owner's queue is next, and the burst after it. -/
def pick (S : GateState) (owner : String) : ℕ × ℕ :=
  let queue := S.gate.queues owner
  let burst := S.gate.priorityBursts owner
  let highIndex := queue.findIdx? S.isHigh
  let nonHighIndex := queue.findIdx? (fun i => !S.isHigh i)
  if highIndex.isSome && (decide (burst < maxPriorityBurst) || nonHighIndex.isNone) then
    (highIndex.getD 0, burst + 1)
  else (nonHighIndex.getD 0, 0)

/-- One round of `_grant` for an owner that was taken from the front and has tickets. -/
def grantOwner (S : GateState) (owner : String) (rest : List String) : GateState :=
  let queue := S.gate.queues owner
  let (selected, burst) := S.pick owner
  let left := queue.eraseIdx selected
  { gate := { S.gate with
      active := S.gate.active + 1
      waiters := S.gate.waiters - 1
      queues := Function.update S.gate.queues owner left
      owners := if left.isEmpty then rest else rest ++ [owner]
      priorityBursts := Function.update S.gate.priorityBursts owner
        (if left.isEmpty then 0 else burst) }
    callers := match queue[selected]? with
      | some i => S.callers.modify i Caller.grant
      | none => S.callers }

/-- An owner whose queue is empty is forgotten. -/
def forgetOwner (S : GateState) (owner : String) (rest : List String) : GateState :=
  { S with gate := { S.gate with
      owners := rest
      priorityBursts := Function.update S.gate.priorityBursts owner 0 } }

/-- The loop of `_grant`. -/
def grantLoop : ℕ → GateState → GateState
  | 0, S => S
  | n + 1, S =>
    if S.gate.active < S.gate.capacity then
      match S.gate.owners with
      | [] => S
      | owner :: rest =>
        if (S.gate.queues owner).isEmpty then grantLoop n (S.forgetOwner owner rest)
        else grantLoop n (S.grantOwner owner rest)
    else S

/-- `_grant`: every round takes a slot or an owner, so this many rounds end the loop. -/
def grant (S : GateState) : GateState :=
  grantLoop (S.gate.capacity - S.gate.active + S.gate.owners.length) S

/-- The ticket of a new caller is queued. -/
def enqueue (S : GateState) (owner : String) (priority : Priority) (deadline : Option ℕ) :
    GateState :=
  let queue := S.gate.queues owner
  { gate := { S.gate with
      owners := if queue.isEmpty then S.gate.owners ++ [owner] else S.gate.owners
      queues := Function.update S.gate.queues owner (queue ++ [S.callers.length])
      waiters := S.gate.waiters + 1 }
    callers := S.callers ++ [⟨⟨owner, priority, false⟩, deadline, .acquiring⟩] }

/-- What `ticket in queue` and `queue.remove(ticket)` compare. -/
def equals (S : GateState) (t : FairTicket) (i : ℕ) : Bool := S.ticket i = some t

/-- A deadline that passed: the first ticket equal to the caller's leaves the queue. -/
def expire (S : GateState) (t : FairTicket) : GateState :=
  let queue := S.gate.queues t.owner
  if queue.any (S.equals t) then
    let left := queue.eraseP (S.equals t)
    { S with gate := { S.gate with
        queues := Function.update S.gate.queues t.owner left
        waiters := S.gate.waiters - 1
        priorityBursts := if left.isEmpty then Function.update S.gate.priorityBursts t.owner 0
          else S.gate.priorityBursts
        owners := if left.isEmpty then S.gate.owners.erase t.owner else S.gate.owners } }
  else S

def become (S : GateState) (i : ℕ) (phase : Phase) : GateState :=
  { S with callers := S.callers.modify i (Caller.become phase) }

/-- The loop of `acquire`, from the lock being taken to the next wait or the return. -/
def poll (S : GateState) (i now : ℕ) : GateState :=
  match S.callers[i]? with
  | none => S
  | some c =>
    if c.phase ≠ .acquiring then S
    else if c.ticket.granted then S.become i .returnedTrue
    else match c.deadline with
      | none => S
      | some d => if d ≤ now then ((S.expire c.ticket).become i .returnedFalse).grant else S

end GateState

/-! ## Events -/

inductive GateEvent
  | acquire (owner : String) (priority : Priority) (deadline : Option ℕ) (now : ℕ)
  /-- A blocked caller gets the lock back, notified or with its wait expired. -/
  | resume (caller now : ℕ)
  | release (caller : ℕ)

inductive GateError
  | queueFull | notAcquired
deriving DecidableEq

def GateState.transact (S : GateState) : GateEvent → Except GateError GateState
  | .acquire owner priority deadline now =>
    if maxFairWaiters ≤ S.gate.waiters then .error .queueFull
    else .ok ((S.enqueue owner priority deadline).grant.poll S.callers.length now)
  | .resume i now => .ok (S.poll i now)
  | .release i =>
    match S.callers[i]? with
    | none => .error .notAcquired
    | some c =>
      if c.phase ≠ .returnedTrue ∨ S.gate.active = 0 then .error .notAcquired
      else .ok (({ S with gate := { S.gate with active := S.gate.active - 1 } } :
        GateState).become i .released).grant

/-- The gate after a sequence of events. -/
def gateRun (capacity : ℕ) (events : List GateEvent) : GateState :=
  Transaction.run GateState.transact (GateState.init capacity) events

end Metnos.Scheduler

/-!
## Who has a slot of the fair gate

`FairSlots` relates the counters and queues of the gate to its callers.  Queueing, granting and
releasing keep it.  A deadline keeps it when the caller's own ticket is the first in its queue that
compares equal to it; otherwise the ticket of another caller is taken out.
-/

namespace Metnos.Scheduler

open Transaction

structure FairSlots (S : GateState) : Prop where
  active : S.gate.active = S.callers.countP Caller.holds
  capacity : S.gate.active ≤ S.gate.capacity
  blocked : S.gate.waiters = S.callers.countP Caller.waiting
  total : S.gate.waiters = (S.gate.owners.map (fun o => (S.gate.queues o).length)).sum
  /-- A blocked caller's own ticket is in its owner's queue. -/
  own : ∀ (i : ℕ) (c : Caller), S.callers[i]? = some c → c.waiting = true → i ∈ S.gate.queues c.ticket.owner
  /-- A queued ticket belongs to a caller of that owner that is blocked. -/
  queued : ∀ o i, i ∈ S.gate.queues o →
    ∃ c, S.callers[i]? = some c ∧ c.ticket.owner = o ∧ c.waiting = true
  /-- No granted ticket belongs to a caller that returned `False`. -/
  refused : ∀ (i : ℕ) (c : Caller), S.callers[i]? = some c → c.ticket.granted = true → c.phase ≠ .returnedFalse
  nodup : ∀ o, (S.gate.queues o).Nodup
  owners : S.gate.owners.Nodup
  turns : ∀ o, o ∈ S.gate.owners ↔ S.gate.queues o ≠ []

section
variable {S S' : GateState}

theorem fairSlots_init (capacity : ℕ) : FairSlots (GateState.init capacity) := by
  constructor <;> simp [GateState.init]

/-! ## One caller changes -/

theorem callers_modify_ne {l : List Caller} {f : Caller → Caller} {i j : ℕ} {c : Caller}
    (hj : j ≠ i) (h : l[j]? = some c) : (l.modify i f)[j]? = some c := by
  rw [List.getElem?_modify]
  simpa [Ne.symm hj] using h

theorem FairSlots.turn (F : FairSlots S) {i : ℕ} {c : Caller} {f : Caller → Caller}
    (hc : S.callers[i]? = some c) (idle : c.waiting = false) (idle' : (f c).waiting = false)
    (refused : (f c).ticket.granted = true → (f c).phase ≠ .returnedFalse)
    (callers : S'.callers = S.callers.modify i f)
    (gate : S'.gate = { S.gate with active := S'.gate.active })
    (active : S'.gate.active + c.holds.toNat = S.gate.active + (f c).holds.toNat)
    (bound : S'.gate.active ≤ S.gate.capacity) : FairSlots S' := by
  have same : ∀ {b : Caller}, S.callers[i]? = some b → b = c := fun h =>
    Option.some.inj (h.symm.trans hc)
  have queues : S'.gate.queues = S.gate.queues := by rw [gate]
  have owners : S'.gate.owners = S.gate.owners := by rw [gate]
  have waiters : S'.gate.waiters = S.gate.waiters := by rw [gate]
  have capacity : S'.gate.capacity = S.gate.capacity := by rw [gate]
  refine ⟨?_, by rw [capacity]; exact bound, ?_, by rw [waiters, queues, owners, F.total], ?_, ?_,
    ?_, by rw [queues]; exact F.nodup, by rw [owners]; exact F.owners,
    by rw [owners, queues]; exact F.turns⟩
  · have hcount := Count.countP_modify (p := Caller.holds) (f := f) hc
    rw [← callers, ← F.active] at hcount
    omega
  · have hcount := Count.countP_modify (p := Caller.waiting) (f := f) hc
    rw [← callers, ← F.blocked, idle, idle'] at hcount
    rw [waiters]
    exact hcount.symm
  · intro j b hb hwaiting
    rw [callers] at hb
    rw [queues]
    rcases Count.getElem?_modify_some hb with ⟨-, a, ha, rfl⟩ | ⟨-, hb⟩
    · rw [same ha, idle'] at hwaiting
      cases hwaiting
    · exact F.own j b hb hwaiting
  · intro o j hj
    rw [queues] at hj
    obtain ⟨b, hb, howner, hwaiting⟩ := F.queued o j hj
    have hne : j ≠ i := by
      rintro rfl
      rw [same hb, idle] at hwaiting
      cases hwaiting
    exact ⟨b, by rw [callers]; exact callers_modify_ne hne hb, howner, hwaiting⟩
  · intro j b hb
    rw [callers] at hb
    rcases Count.getElem?_modify_some hb with ⟨-, a, ha, rfl⟩ | ⟨-, hb⟩
    · rw [same ha]
      exact refused
    · exact F.refused j b hb

/-! ## Queueing -/

theorem callers_append {l : List Caller} {x c : Caller} {i : ℕ}
    (h : (l ++ [x])[i]? = some c) : l[i]? = some c ∨ i = l.length ∧ c = x := by
  rw [List.getElem?_append] at h
  split at h
  · exact .inl h
  · rename_i hi
    rw [List.getElem?_singleton] at h
    split at h
    · rename_i hzero
      exact .inr ⟨by omega, (Option.some.inj h).symm⟩
    · cases h

theorem callers_append_old {l : List Caller} {x c : Caller} {i : ℕ} (h : l[i]? = some c) :
    (l ++ [x])[i]? = some c := by
  rw [List.getElem?_append_left (List.getElem?_eq_some_iff.mp h).1]
  exact h

theorem sum_lengths (queues : String → List ℕ) (owner : String) (queue : List ℕ) :
    (fun o => (Function.update queues owner queue o).length) =
      Function.update (fun o => (queues o).length) owner queue.length := by
  funext o
  by_cases ho : o = owner
  · subst ho
    rw [Function.update_self, Function.update_self]
  · rw [Function.update_of_ne ho, Function.update_of_ne ho]

theorem FairSlots.enqueue_owners (F : FairSlots S) (owner : String) (priority : Priority)
    (deadline : Option ℕ) :
    (S.enqueue owner priority deadline).gate.owners.Nodup ∧
    (∀ o, o ∈ (S.enqueue owner priority deadline).gate.owners ↔
      (S.enqueue owner priority deadline).gate.queues o ≠ []) ∧
    S.gate.waiters + 1 = ((S.enqueue owner priority deadline).gate.owners.map
      (fun o => ((S.enqueue owner priority deadline).gate.queues o).length)).sum := by
  have turn := F.turns owner
  simp only [GateState.enqueue, sum_lengths, List.length_append, List.length_singleton]
  by_cases hempty : S.gate.queues owner = []
  · have hnot : owner ∉ S.gate.owners := fun h => turn.mp h hempty
    simp only [hempty, List.isEmpty_nil, if_true, List.nil_append, List.length_nil]
    refine ⟨List.nodup_append.mpr ⟨F.owners, List.nodup_singleton _, ?_⟩, fun o => ?_, ?_⟩
    · rintro a ha b hb rfl
      rw [List.mem_singleton] at hb
      exact hnot (hb ▸ ha)
    · by_cases ho : o = owner
      · subst ho
        simp
      · rw [Function.update_of_ne ho, ← F.turns o]
        simp [ho]
    · rw [List.map_append, List.sum_append, Count.sum_update_of_notMem hnot, ← F.total]
      simp
  · have hmem : owner ∈ S.gate.owners := turn.mpr hempty
    have hfalse : (S.gate.queues owner).isEmpty = false := by simpa using hempty
    simp only [hfalse, Bool.false_eq_true, if_false]
    refine ⟨F.owners, fun o => ?_, ?_⟩
    · by_cases ho : o = owner
      · subst ho
        simp [hmem]
      · rw [Function.update_of_ne ho, F.turns o]
    · have hsum := Count.sum_update (w := fun o => (S.gate.queues o).length)
        (v := (S.gate.queues owner).length + 1) F.owners hmem
      rw [← F.total] at hsum
      omega

theorem FairSlots.enqueue (F : FairSlots S) (owner : String) (priority : Priority)
    (deadline : Option ℕ) : FairSlots (S.enqueue owner priority deadline) := by
  have fresh : ∀ o, S.callers.length ∉ S.gate.queues o := by
    intro o h
    obtain ⟨c, hc, -⟩ := F.queued o _ h
    rw [List.getElem?_eq_none (Nat.le_refl _)] at hc
    cases hc
  obtain ⟨owners, turns, total⟩ := F.enqueue_owners owner priority deadline
  refine ⟨?_, F.capacity, ?_, total, ?_, ?_, ?_, ?_, owners, turns⟩
  · simp [GateState.enqueue, F.active, Caller.holds]
  · simp [GateState.enqueue, F.blocked, Caller.waiting]
  · intro i c hc hwaiting
    simp only [GateState.enqueue] at hc ⊢
    rcases callers_append hc with hc | ⟨rfl, rfl⟩
    · have hi := F.own i c hc hwaiting
      by_cases ho : c.ticket.owner = owner
      · rw [ho] at hi ⊢
        rw [Function.update_self]
        exact List.mem_append_left _ hi
      · rw [Function.update_of_ne ho]
        exact hi
    · rw [Function.update_self]
      exact List.mem_append_right _ (List.mem_singleton_self _)
  · intro o i hi
    simp only [GateState.enqueue] at hi ⊢
    have hold : i ∈ S.gate.queues o ∨ i = S.callers.length ∧ o = owner := by
      by_cases ho : o = owner
      · subst ho
        rw [Function.update_self, List.mem_append, List.mem_singleton] at hi
        exact hi.imp id fun h => ⟨h, rfl⟩
      · rw [Function.update_of_ne ho] at hi
        exact .inl hi
    rcases hold with hi | ⟨rfl, rfl⟩
    · obtain ⟨c, hc, h⟩ := F.queued o i hi
      exact ⟨c, callers_append_old hc, h⟩
    · exact ⟨_, List.getElem?_concat_length, rfl, rfl⟩
  · intro i c hc hgranted
    simp only [GateState.enqueue] at hc
    rcases callers_append hc with hc | ⟨-, rfl⟩
    · exact F.refused i c hc hgranted
    · cases hgranted
  · intro o
    simp only [GateState.enqueue]
    by_cases ho : o = owner
    · subst ho
      rw [Function.update_self]
      refine List.nodup_append.mpr ⟨F.nodup o, List.nodup_singleton _, ?_⟩
      rintro a ha b hb rfl
      rw [List.mem_singleton] at hb
      exact fresh o (hb ▸ ha)
    · rw [Function.update_of_ne ho]
      exact F.nodup o

/-! ## A ticket leaves its queue -/

theorem FairSlots.leave (F : FairSlots S) {owner : String} {i : ℕ} {c : Caller}
    {f : Caller → Caller} {left : List ℕ} (perm : (S.gate.queues owner).Perm (i :: left))
    (hc : S.callers[i]? = some c) (idle : (f c).waiting = false)
    (refused : (f c).ticket.granted = true → (f c).phase ≠ .returnedFalse)
    (callers : S'.callers = S.callers.modify i f)
    (queues : S'.gate.queues = Function.update S.gate.queues owner left)
    (owners : S'.gate.owners.Perm
      (if left.isEmpty then S.gate.owners.erase owner else S.gate.owners))
    (waiters : S'.gate.waiters = S.gate.waiters - 1)
    (active : S'.gate.active = S.gate.active + (f c).holds.toNat)
    (bound : S'.gate.active ≤ S'.gate.capacity) : FairSlots S' := by
  have hi : i ∈ S.gate.queues owner := perm.mem_iff.mpr (List.mem_cons_self ..)
  obtain ⟨c', hc', howner, hwaiting⟩ := F.queued owner i hi
  obtain rfl : c' = c := Option.some.inj (hc'.symm.trans hc)
  have hmem : owner ∈ S.gate.owners := (F.turns owner).mpr (List.ne_nil_of_mem hi)
  have hnodup : (i :: left).Nodup := perm.nodup_iff.mp (F.nodup owner)
  rw [List.nodup_cons] at hnodup
  have hlength : (S.gate.queues owner).length = left.length + 1 := by
    rw [perm.length_eq, List.length_cons]
  have hidle : c'.holds = false := by
    unfold Caller.waiting at hwaiting
    unfold Caller.holds
    cases hphase : c'.phase <;> cases hgranted : c'.ticket.granted <;> simp_all
  have same : ∀ {b : Caller}, S.callers[i]? = some b → b = c' := fun h =>
    Option.some.inj (h.symm.trans hc)
  have sum : ((if left.isEmpty then S.gate.owners.erase owner else S.gate.owners).map
      (fun o => (Function.update S.gate.queues owner left o).length)).sum =
      S.gate.waiters - 1 := by
    rw [sum_lengths]
    have hsum := Count.sum_update (w := fun o => (S.gate.queues o).length) (v := left.length)
      F.owners hmem
    rw [← F.total, hlength] at hsum
    split
    · rename_i hempty
      rw [List.isEmpty_iff] at hempty
      subst hempty
      have herase := List.perm_cons_erase hmem
      have hperm := (herase.map (Function.update (fun o => (S.gate.queues o).length) owner
        ([] : List ℕ).length)).sum_eq
      rw [List.map_cons, List.sum_cons, Function.update_self] at hperm
      simp only [List.length_nil] at hperm hsum ⊢
      omega
    · omega
  refine ⟨?_, bound, ?_, ?_, ?_, ?_, ?_, ?_, ?_, ?_⟩
  · have hcount := Count.countP_modify (p := Caller.holds) (f := f) hc
    rw [← callers, ← F.active, hidle] at hcount
    rw [active]
    exact hcount.symm
  · have hcount := Count.countP_modify (p := Caller.waiting) (f := f) hc
    rw [← callers, ← F.blocked, hwaiting, idle] at hcount
    rw [waiters]
    simp only [Bool.toNat_true, Bool.toNat_false] at hcount
    omega
  · rw [waiters, (owners.map _).sum_eq, queues, sum]
  · intro j b hb hwait
    rw [callers] at hb
    rw [queues]
    rcases Count.getElem?_modify_some hb with ⟨-, a, ha, rfl⟩ | ⟨hne, hb⟩
    · rw [same ha, idle] at hwait
      cases hwait
    · have hj := F.own j b hb hwait
      by_cases ho : b.ticket.owner = owner
      · rw [ho] at hj ⊢
        rw [Function.update_self]
        exact (List.mem_cons.mp (perm.mem_iff.mp hj)).resolve_left hne
      · rw [Function.update_of_ne ho]
        exact hj
  · intro o j hj
    rw [queues] at hj
    have hold : j ∈ S.gate.queues o ∧ j ≠ i := by
      by_cases ho : o = owner
      · subst ho
        rw [Function.update_self] at hj
        refine ⟨perm.mem_iff.mpr (List.mem_cons_of_mem _ hj), ?_⟩
        rintro rfl
        exact hnodup.1 hj
      · rw [Function.update_of_ne ho] at hj
        refine ⟨hj, ?_⟩
        rintro rfl
        obtain ⟨b, hb, hbo, -⟩ := F.queued o j hj
        rw [same hb, howner] at hbo
        exact ho hbo.symm
    obtain ⟨b, hb, h⟩ := F.queued o j hold.1
    exact ⟨b, by rw [callers]; exact callers_modify_ne hold.2 hb, h⟩
  · intro j b hb
    rw [callers] at hb
    rcases Count.getElem?_modify_some hb with ⟨-, a, ha, rfl⟩ | ⟨-, hb⟩
    · rw [same ha]
      exact refused
    · exact F.refused j b hb
  · intro o
    rw [queues]
    by_cases ho : o = owner
    · subst ho
      rw [Function.update_self]
      exact hnodup.2
    · rw [Function.update_of_ne ho]
      exact F.nodup o
  · rw [owners.nodup_iff]
    split
    · exact F.owners.erase _
    · exact F.owners
  · intro o
    rw [owners.mem_iff, queues]
    by_cases ho : o = owner
    · subst ho
      rw [Function.update_self]
      split
      · rename_i hempty
        rw [List.isEmpty_iff] at hempty
        simp [hempty, F.owners.not_mem_erase]
      · rename_i hne
        simpa [hmem] using hne
    · rw [Function.update_of_ne ho, ← F.turns o]
      split
      · exact List.mem_erase_of_ne ho
      · exact Iff.rfl

/-! ## Granting -/

theorem findIdx?_lt {p : ℕ → Bool} {queue : List ℕ} (h : queue ≠ []) :
    (queue.findIdx? p).getD 0 < queue.length := by
  cases hi : queue.findIdx? p with
  | none => exact List.length_pos_of_ne_nil h
  | some i => exact (List.findIdx?_eq_some_iff_findIdx_eq.mp hi).1

theorem pick_lt {owner : String} (h : S.gate.queues owner ≠ []) :
    (S.pick owner).1 < (S.gate.queues owner).length := by
  unfold GateState.pick
  dsimp only
  split
  · exact findIdx?_lt h
  · exact findIdx?_lt h

theorem FairSlots.grantOwner (F : FairSlots S) {owner : String} {rest : List String}
    (howners : S.gate.owners = owner :: rest) (free : S.gate.active < S.gate.capacity) :
    FairSlots (S.grantOwner owner rest) := by
  have hqueue : S.gate.queues owner ≠ [] := (F.turns owner).mp (by rw [howners]; exact List.mem_cons_self ..)
  have hlt := pick_lt hqueue
  have hget : (S.gate.queues owner)[(S.pick owner).1]? =
      some ((S.gate.queues owner)[(S.pick owner).1]) := List.getElem?_eq_getElem hlt
  obtain ⟨c, hc, -, hwaiting⟩ := F.queued owner _ (List.getElem_mem hlt)
  simp only [Caller.waiting, Bool.and_eq_true, decide_eq_true_eq] at hwaiting
  refine F.leave (f := Caller.grant) (List.getElem_cons_eraseIdx_perm hlt).symm hc ?_ ?_ ?_ rfl ?_
    rfl ?_ free
  · simp [Caller.grant, Caller.waiting]
  · intro _
    simp [Caller.grant, hwaiting.1]
  · simp only [GateState.grantOwner, hget]
  · simp only [GateState.grantOwner, howners, List.erase_cons_head]
    split
    · exact .refl _
    · exact List.perm_append_singleton ..
  · simp [GateState.grantOwner, Caller.grant, Caller.holds, hwaiting.1]

theorem grantLoop_invariant {I : GateState → Prop}
    (step : ∀ {S owner rest}, FairSlots S → S.gate.owners = owner :: rest →
      S.gate.active < S.gate.capacity → I S → I (S.grantOwner owner rest)) (n : ℕ)
    (F : FairSlots S) (h : I S) : FairSlots (S.grantLoop n) ∧ I (S.grantLoop n) := by
  induction n generalizing S with
  | zero => exact ⟨F, h⟩
  | succ n ih =>
    unfold GateState.grantLoop
    split
    · rename_i free
      split
      · exact ⟨F, h⟩
      · rename_i owner rest howners
        have hqueue : S.gate.queues owner ≠ [] :=
          (F.turns owner).mp (by rw [howners]; exact List.mem_cons_self ..)
        rw [if_neg (by simpa using hqueue)]
        exact ih (F.grantOwner howners free) (step F howners free h)
    · exact ⟨F, h⟩

theorem FairSlots.grant (F : FairSlots S) : FairSlots S.grant :=
  (grantLoop_invariant (I := fun _ => True) (fun _ _ _ _ => trivial) _ F trivial).1

/-! ## Deadlines -/

/-- The first equal ticket is the caller's own. -/
def OwnFirst (S : GateState) (i : ℕ) (t : FairTicket) : Prop :=
  (S.gate.queues t.owner).find? (S.equals t) = some i

theorem eraseP_perm {p : ℕ → Bool} {queue : List ℕ} {i : ℕ} (h : queue.find? p = some i) :
    queue.Perm (i :: queue.eraseP p) := by
  obtain ⟨hp, before, after, rfl, hbefore⟩ := List.find?_eq_some_iff_append.mp h
  have hskip : ∀ a ∈ before, ¬ p a = true := fun a ha => by simpa using hbefore a ha
  rw [List.eraseP_append_right _ hskip, List.eraseP_cons_of_pos hp]
  exact List.perm_middle

theorem FairSlots.expire (F : FairSlots S) {i : ℕ} {c : Caller} (hc : S.callers[i]? = some c)
    (hwaiting : c.waiting = true) (first : OwnFirst S i c.ticket) :
    FairSlots ((S.expire c.ticket).become i .returnedFalse) := by
  have hany : (S.gate.queues c.ticket.owner).any (S.equals c.ticket) = true :=
    List.any_eq_true.mpr ⟨i, List.mem_of_find?_eq_some first, List.find?_some first⟩
  simp only [Caller.waiting, Bool.and_eq_true, decide_eq_true_eq, Bool.not_eq_true'] at hwaiting
  refine F.leave (f := Caller.become .returnedFalse) (eraseP_perm first) hc ?_ ?_ ?_ ?_ ?_ ?_ ?_ ?_
  · simp [Caller.become, Caller.waiting]
  · simp [Caller.become, hwaiting.2]
  · simp [GateState.become, GateState.expire, hany]
  · simp [GateState.become, GateState.expire, hany]
  · simp [GateState.become, GateState.expire, hany]
  · simp [GateState.become, GateState.expire, hany]
  · simp [GateState.become, GateState.expire, hany, Caller.become, Caller.holds]
  · simpa [GateState.become, GateState.expire, hany] using F.capacity

theorem FairSlots.poll (F : FairSlots S) {i now : ℕ}
    (first : ∀ c : Caller, S.callers[i]? = some c → c.waiting = true →
      c.deadline.any (fun d => d ≤ now) = true → OwnFirst S i c.ticket) :
    FairSlots (S.poll i now) := by
  unfold GateState.poll
  split
  · exact F
  rename_i c hc
  split
  · exact F
  rename_i hphase
  rw [ne_eq, not_not] at hphase
  split
  · rename_i hgranted
    refine F.turn (f := Caller.become .returnedTrue) hc ?_ ?_ ?_ rfl rfl ?_ F.capacity
    · simp [Caller.waiting, hgranted]
    · simp [Caller.become, Caller.waiting]
    · simp [Caller.become]
    · simp [Caller.become, Caller.holds, GateState.become, hphase, hgranted]
  rename_i hgranted
  split
  · exact F
  rename_i d hd
  split
  · rename_i hle
    have hwaiting : c.waiting = true := by
      simpa [Caller.waiting, hphase] using hgranted
    exact (F.expire hc hwaiting (first c hc hwaiting (by simpa [hd] using hle))).grant
  · exact F

/-- Caller `i` is as `c`, and if its deadline passed no other ticket of its owner compares equal. -/
structure Alone (i now : ℕ) (c : Caller) (S : GateState) : Prop where
  caller : ∃ b, S.callers[i]? = some b ∧
    (b.ticket.owner, b.ticket.priority, b.deadline) =
      (c.ticket.owner, c.ticket.priority, c.deadline)
  alone : c.deadline.any (fun d => d ≤ now) = true →
    ∀ j ∈ S.gate.queues c.ticket.owner, S.ticket j = some c.ticket → j = i

theorem Alone.grantOwner {i now : ℕ} {c : Caller} {owner : String} {rest : List String}
    (A : Alone i now c S) (ungranted : c.ticket.granted = false) :
    Alone i now c (S.grantOwner owner rest) := by
  have kept : ∀ {j : ℕ} {b : Caller}, (S.grantOwner owner rest).callers[j]? = some b →
      ∃ a : Caller, S.callers[j]? = some a ∧ (b = a ∨ b = a.grant) := by
    intro j b hb
    simp only [GateState.grantOwner] at hb
    split at hb
    · rcases Count.getElem?_modify_some hb with ⟨rfl, a, ha, rfl⟩ | ⟨-, hb⟩
      · exact ⟨a, ha, .inr rfl⟩
      · exact ⟨b, hb, .inl rfl⟩
    · exact ⟨b, hb, .inl rfl⟩
  constructor
  · obtain ⟨b, hb, hfields⟩ := A.caller
    simp only [GateState.grantOwner]
    split
    · rename_i k hk
      by_cases hik : i = k
      · subst hik
        refine ⟨b.grant, ?_, hfields⟩
        rw [List.getElem?_modify, hb]
        simp
      · exact ⟨b, callers_modify_ne hik hb, hfields⟩
    · exact ⟨b, hb, hfields⟩
  · intro passed j hj ht
    have hold : j ∈ S.gate.queues c.ticket.owner := by
      simp only [GateState.grantOwner] at hj
      by_cases ho : c.ticket.owner = owner
      · rw [ho, Function.update_self] at hj
        rw [ho]
        exact List.mem_of_mem_eraseIdx hj
      · rw [Function.update_of_ne ho] at hj
        exact hj
    refine A.alone passed j hold ?_
    obtain ⟨b, hb, hticket⟩ := Option.map_eq_some_iff.mp ht
    obtain ⟨a, ha, rfl | rfl⟩ := kept hb
    · rw [GateState.ticket, ha, Option.map_some, hticket]
    · -- a granted ticket is not equal to one that waits
      rw [← hticket] at ungranted
      cases ungranted

theorem Alone.ownFirst {i now : ℕ} {c b : Caller} (A : Alone i now c S) (F : FairSlots S)
    (ungranted : c.ticket.granted = false) (hb : S.callers[i]? = some b)
    (hwaiting : b.waiting = true) (passed : b.deadline.any (fun d => d ≤ now) = true) :
    OwnFirst S i b.ticket := by
  obtain ⟨b', hb', hfields⟩ := A.caller
  obtain rfl : b' = b := Option.some.inj (hb'.symm.trans hb)
  have hmem := F.own i b' hb hwaiting
  simp only [Caller.waiting, Bool.and_eq_true, Bool.not_eq_true'] at hwaiting
  simp only [Prod.mk.injEq] at hfields
  have hticket : b'.ticket = c.ticket := by
    cases hbt : b'.ticket
    cases hct : c.ticket
    simp_all
  rw [hticket] at hmem ⊢
  have hself : S.equals c.ticket i = true := by
    rw [GateState.equals, GateState.ticket, hb, Option.map_some, hticket]
    exact decide_eq_true rfl
  obtain ⟨j, hj⟩ := Option.isSome_iff_exists.mp
    (List.find?_isSome.mpr ⟨i, hmem, hself⟩ :
      ((S.gate.queues c.ticket.owner).find? (S.equals c.ticket)).isSome = true)
  have hequals := List.find?_some hj
  rw [GateState.equals, decide_eq_true_eq] at hequals
  rw [hfields.2.2] at passed
  rw [OwnFirst, hj, A.alone passed j (List.mem_of_find?_eq_some hj) hequals]

/-! ## Events -/

/-- When a deadline passes, no earlier ticket of the same owner and priority is queued. -/
def GateEvent.ownFirst (S : GateState) : GateEvent → Prop
  | .acquire owner priority deadline now => deadline.any (fun d => d ≤ now) = true →
      ∀ i ∈ S.gate.queues owner, S.ticket i ≠ some ⟨owner, priority, false⟩
  | .resume i now => ∀ c ∈ S.callers[i]?, c.waiting = true →
      c.deadline.any (fun d => d ≤ now) = true → OwnFirst S i c.ticket
  | .release _ => True

instance (S : GateState) (i : ℕ) (t : FairTicket) : Decidable (OwnFirst S i t) :=
  inferInstanceAs (Decidable (_ = _))

instance GateEvent.decidableOwnFirst (S : GateState) : ∀ e : GateEvent, Decidable (e.ownFirst S)
  | .acquire owner priority deadline now =>
    inferInstanceAs (Decidable (deadline.any (fun d => d ≤ now) = true →
      ∀ i ∈ S.gate.queues owner, S.ticket i ≠ some ⟨owner, priority, false⟩))
  | .resume i now =>
    inferInstanceAs (Decidable (∀ c ∈ S.callers[i]?, c.waiting = true →
      c.deadline.any (fun d => d ≤ now) = true → OwnFirst S i c.ticket))
  | .release _ => inferInstanceAs (Decidable True)

theorem FairSlots.acquire (F : FairSlots S) {owner : String} {priority : Priority}
    {deadline : Option ℕ} {now : ℕ}
    (first : (GateEvent.acquire owner priority deadline now).ownFirst S) :
    FairSlots ((S.enqueue owner priority deadline).grant.poll S.callers.length now) := by
  have F1 := F.enqueue owner priority deadline
  let c : Caller := ⟨⟨owner, priority, false⟩, deadline, .acquiring⟩
  have A1 : Alone S.callers.length now c (S.enqueue owner priority deadline) := by
    refine ⟨⟨c, List.getElem?_concat_length, rfl⟩, fun passed j hj ht => ?_⟩
    simp only [GateState.enqueue, c, Function.update_self, List.mem_append,
      List.mem_singleton] at hj
    rcases hj with hj | hj
    · obtain ⟨b, hb, -⟩ := F.queued owner j hj
      refine absurd ?_ (first passed j hj)
      rw [GateState.ticket, GateState.enqueue, callers_append_old hb] at ht
      rw [GateState.ticket, hb]
      exact ht
    · exact hj
  have A2 : Alone S.callers.length now c (S.enqueue owner priority deadline).grant :=
    (grantLoop_invariant (I := Alone S.callers.length now c) (fun _ _ _ A => A.grantOwner rfl) _
      F1 A1).2
  exact F1.grant.poll fun b hb hwaiting passed => A2.ownFirst F1.grant rfl hb hwaiting passed

theorem FairSlots.transact {event : GateEvent} (F : FairSlots S) (first : event.ownFirst S)
    (h : S.transact event = .ok S') : FairSlots S' := by
  cases event with
  | acquire owner priority deadline now =>
    simp only [GateState.transact] at h
    split at h
    · cases h
    · cases h
      exact F.acquire first
  | resume i now =>
    simp only [GateState.transact, Except.ok.injEq] at h
    subst h
    exact F.poll first
  | release i =>
    simp only [GateState.transact] at h
    split at h
    · cases h
    rename_i c hc
    split at h
    · cases h
    rename_i hguard
    rw [not_or, ne_eq, not_not] at hguard
    cases h
    refine FairSlots.grant ?_
    refine F.turn (f := Caller.become .released) hc ?_ ?_ ?_ rfl rfl ?_ ?_
    · simp [Caller.waiting, hguard.1]
    · simp [Caller.become, Caller.waiting]
    · simp [Caller.become]
    · simp only [GateState.become, Caller.become, Caller.holds, hguard.1]
      simp
      omega
    · have := F.capacity
      simp only [GateState.become]
      omega

end

/-- **Fair gate.**  In every run in which a deadline only passes while no earlier ticket of the same
owner and priority is queued, the counters and queues of the gate agree with its callers. -/
theorem fair_gate_slots (capacity : ℕ) (events : List GateEvent)
    (first : Meets GateState.transact (fun S e => e.ownFirst S) (GateState.init capacity) events) :
    FairSlots (gateRun capacity events) :=
  run_invariant (fun hfirst h F => F.transact hfirst h) first (fairSlots_init capacity)

/-- One slot is taken; two callers of one owner wait, the second with a deadline. -/
def twoWaiters (second : Priority) : List GateEvent :=
  [.acquire "owner" .normal none 0, .acquire "owner" .normal none 1,
    .acquire "owner" second (some 5) 2]

/-- With different priorities the second waiter leaves, and the first gets the released slot. -/
theorem fair_gate_slots_sample :
    let events := twoWaiters .low ++ [.resume 2 6, .release 0, .resume 1 7]
    FairSlots (gateRun 1 events) ∧ (gateRun 1 events).gate.active = 1 ∧
      (gateRun 1 events).callers.map Caller.phase = [.released, .returnedTrue, .returnedFalse] :=
  ⟨fair_gate_slots 1 _ (by decide +kernel), by decide +kernel, by decide +kernel⟩

/-- With the same priority the deadline of the second waiter takes the ticket of the first, which
stays blocked without one. -/
theorem deadline_takes_other_ticket :
    ¬ ∀ (capacity : ℕ) (events : List GateEvent), FairSlots (gateRun capacity events) := by
  intro h
  have F := h 1 (twoWaiters .normal ++ [.resume 2 6])
  have hcaller : (gateRun 1 (twoWaiters .normal ++ [.resume 2 6])).callers[1]? =
      some ⟨⟨"owner", .normal, false⟩, none, .acquiring⟩ := by decide +kernel
  have hqueue : (gateRun 1 (twoWaiters .normal ++ [.resume 2 6])).gate.queues "owner" = [2] := by
    decide +kernel
  have hown := F.own 1 _ hcaller rfl
  rw [hqueue] at hown
  simp at hown

end Metnos.Scheduler
