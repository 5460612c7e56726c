import Metnos.Durable.Bound
import Metnos.Durable.Writes

/-!
# Durable.History — which state changes the store performs

A transaction is a sequence of acts on the units (`Durable.Protocol`) and a sequence of writes to
the workloads (`Durable.Ledger`).  Every write follows the declared graph of workload states.  The
declared graph of unit states is consulted by no update: the store follows a graph with three more
edges, and one of them is a claim that spends an owner's retry.
-/

namespace Metnos.Durable

open Transaction

/-- The changes of unit states that the store performs: the declared ones, the adoption of a prior
result, the end of an exhausted or conflicting unit, and the claim of a unit whose retry was
granted. -/
def performedTransition (source target : UnitState) : Bool :=
  canTransitionUnit source target ||
  [(UnitState.pending, UnitState.committed), (.pending, .needsAttention),
    (.needsAttention, .leased)].contains (source, target)

/-- Every unit keeps its state or changes it along `edge`. -/
def UnitsMove (edge : UnitState → UnitState → Bool) (db db' : Store) : Prop :=
  ∀ k u, db.units.find? k = some u →
    ∃ u', db'.units.find? k = some u' ∧ (u'.state = u.state ∨ edge u.state u'.state = true)

/-- Every workload keeps its state or changes it along `edge`. -/
def WorkloadsMove (edge : WorkloadState → WorkloadState → Bool) (db db' : Store) : Prop :=
  ∀ k w, db.workloads.find? k = some w →
    ∃ w', db'.workloads.find? k = some w' ∧ (w'.state = w.state ∨ edge w.state w'.state = true)

/-- A sequence of acts, each of which moves units along `edge` only. -/
abbrev ActsAlong (D : Digests) (edge : UnitState → UnitState → Bool) : Store → Store → Prop :=
  Relation.ReflTransGen (fun a b => Act D Guard.none a b ∧ UnitsMove edge a b)

/-- A sequence of writes, each of which moves workloads along `edge` only. -/
abbrev WritesAlong (D : Digests) (op : Op) (edge : WorkloadState → WorkloadState → Bool) :
    Store → Store → Prop :=
  Relation.ReflTransGen (fun a b => Write D op a b ∧ WorkloadsMove edge a b)

section
variable {D : Digests} {G : Guard} {op : Op} {db db' : Store}

/-! ## Units -/

theorem CellStep.performed {s : Stage} {g : ℕ} {aside : UnitRow → Prop}
    {result : UnitRow → ResultRow → Prop} {c c' : Cell} (h : CellStep s g aside result c c') :
    c'.unit.state = c.unit.state ∨ performedTransition c.unit.state c'.unit.state = true := by
  cases h with
  | amend => exact .inl rfl
  | extend => exact .inl rfl
  | lease attempt worker expiry now ready fresh =>
    right
    show performedTransition c.unit.state .leased = true
    rcases ready with ⟨hu, -⟩ | ⟨hu, -⟩ <;> rw [hu] <;> rfl
  | start a expiry now holds unit attempt =>
    right
    show performedTransition c.unit.state .running = true
    rw [unit]; rfl
  | commit a r now holds unit =>
    right
    show performedTransition c.unit.state .committed = true
    rw [unit]; rfl
  | release a state cause target next error tokens now holds unit closed released =>
    right
    show performedTransition c.unit.state target = true
    rcases released.targets with rfl | rfl | rfl | rfl
    · rw [(released.pending rfl).1]; rfl
    · rw [(released.retryWait rfl).1]; rfl
    · rcases unit with hu | hu <;> rw [hu] <;> rfl
    · rw [(released.failed rfl).1]; rfl
  | promote now unit =>
    right
    show performedTransition c.unit.state .pending = true
    rw [unit]; rfl
  | exhaust now unit =>
    right
    show performedTransition c.unit.state .needsAttention = true
    rw [unit]; rfl
  | cancel now unit =>
    right
    show performedTransition c.unit.state .cancelled = true
    rcases unit with hu | hu | hu <;> rw [hu] <;> rfl
  | adopt attempt r now unit =>
    right
    show performedTransition c.unit.state .committed = true
    rw [unit]; rfl
  | setAside reason now unit =>
    right
    show performedTransition c.unit.state .needsAttention = true
    rw [unit]; rfl

theorem Act.performed {P : Stage → ℕ → Cell → Prop} (h : Act D G db db') (L : Linked P db) :
    UnitsMove performedTransition db db' := by
  intro k u hu
  obtain ⟨u', s, g, hu', -, -, hcase⟩ := h.unit_cases L hu
  refine ⟨u', hu', ?_⟩
  rcases hcase with ⟨-, hcell | ⟨now, hcell⟩ | hstep⟩ | ⟨-, hcell, -⟩
  · exact .inl (congrArg (fun c => c.unit.state) hcell)
  · exact .inl (congrArg (fun c => c.unit.state) hcell)
  · exact hstep.performed
  · exact .inl (congrArg (fun c => c.unit.state) hcell)

theorem Acts.along {edge : UnitState → UnitState → Bool} (h : Acts D Guard.none db db')
    (L : Linked (fun _ _ _ => True) db)
    (act : ∀ {a b}, Linked (fun _ _ _ => True) a → Act D Guard.none a b → UnitsMove edge a b) :
    ActsAlong D edge db db' := by
  induction h with
  | refl => exact .refl
  | tail pre last ih =>
    exact ih.tail ⟨last, act (Acts.linked (any_rule Guard.none) pre L) last⟩

/-! ## Workloads -/

theorem SameHistory.move (S : SameHistory db db') : WorkloadsMove canTransitionWorkload db db' := by
  intro k w hw
  have hk := S.workloads k
  rw [hw, Option.map_some] at hk
  obtain ⟨w', hw', hledger⟩ := find_of_ledger hk
  exact ⟨w', hw', .inl (congrArg Prod.fst hledger)⟩

theorem Write.workloadsMove (h : Write D op db db') : WorkloadsMove canTransitionWorkload db db' := by
  cases h with
  | quiet history facts results tokens => exact history.move
  | result r recorded history facts tokens => exact history.move
  | admitted ids workloadId adm v now admits valid history results done => exact history.move
  | draft k drafted facts results tokens =>
    intro j w hw
    have hj : j ≠ k := by
      rintro rfl
      rw [drafted.fresh] at hw
      cases hw
    exact ⟨w, (drafted.others j hj).trans hw, .inl rfl⟩
  | move k w w' moved facts results tokens =>
    intro j v hv
    by_cases hj : j = k
    · subst hj
      obtain rfl : w = v := Option.some.inj (moved.before.symm.trans hv)
      exact ⟨w', moved.after, .inr moved.edge⟩
    · have hledger := moved.others j hj
      rw [hv, Option.map_some] at hledger
      obtain ⟨v', hv', heq⟩ := find_of_ledger hledger
      exact ⟨v', hv', .inl (congrArg Prod.fst heq)⟩

/-! ## Terminal states -/

theorem step_along {R : Store → Store → Prop} {op : Op}
    (h : ∀ db', transact D db op = .ok db' → Relation.ReflTransGen R db db') :
    Relation.ReflTransGen R db (step D db op) := by
  unfold step commit
  split
  · rename_i db' hok
    exact h db' hok
  · exact .refl

theorem performedTransition_terminal {s t : UnitState} (h : s.terminal = true) :
    performedTransition s t = false := by
  cases s <;> first | rfl | cases h

theorem canTransitionWorkload_terminal {s t : WorkloadState} (h : s.terminal = true) :
    canTransitionWorkload s t = false := by
  cases s <;> first | rfl | cases h

def UnitsSettled (db db' : Store) : Prop :=
  ∀ k u, db.units.find? k = some u → u.state.terminal = true →
    ∃ u', db'.units.find? k = some u' ∧ u'.state = u.state

/-- Terminal workloads stay in their state. -/
def WorkloadsSettled (db db' : Store) : Prop :=
  ∀ k w, db.workloads.find? k = some w → w.state.terminal = true →
    ∃ w', db'.workloads.find? k = some w' ∧ w'.state = w.state

theorem UnitsMove.settled (h : UnitsMove performedTransition db db') : UnitsSettled db db' := by
  intro k u hu hterminal
  obtain ⟨u', hu', hstate | hedge⟩ := h k u hu
  · exact ⟨u', hu', hstate⟩
  · rw [performedTransition_terminal hterminal] at hedge
    cases hedge

theorem WorkloadsMove.settled (h : WorkloadsMove canTransitionWorkload db db') :
    WorkloadsSettled db db' := by
  intro k w hw hterminal
  obtain ⟨w', hw', hstate | hedge⟩ := h k w hw
  · exact ⟨w', hw', hstate⟩
  · rw [canTransitionWorkload_terminal hterminal] at hedge
    cases hedge

theorem UnitsSettled.trans {a b c : Store} (h : UnitsSettled a b) (h' : UnitsSettled b c) :
    UnitsSettled a c := by
  intro k u hu hterminal
  obtain ⟨u', hu', hstate⟩ := h k u hu hterminal
  obtain ⟨u'', hu'', hstate'⟩ := h' k u' hu' (hstate ▸ hterminal)
  exact ⟨u'', hu'', hstate'.trans hstate⟩

theorem WorkloadsSettled.trans {a b c : Store} (h : WorkloadsSettled a b)
    (h' : WorkloadsSettled b c) : WorkloadsSettled a c := by
  intro k w hw hterminal
  obtain ⟨w', hw', hstate⟩ := h k w hw hterminal
  obtain ⟨w'', hw'', hstate'⟩ := h' k w' hw' (hstate ▸ hterminal)
  exact ⟨w'', hw'', hstate'.trans hstate⟩

theorem Writes.settled (h : Writes D op db db') : WorkloadsSettled db db' := by
  induction h with
  | refl => exact fun k w hw _ => ⟨w, hw, rfl⟩
  | tail _ write ih => exact ih.trans write.workloadsMove.settled

end

theorem run_unitsSettled (D : Digests) (ops later : List Op) :
    UnitsSettled (run D Store.empty ops) (run D (run D Store.empty ops) later) :=
  run_linked_rel (R := UnitsSettled) (fun _ _ u hu _ => ⟨u, hu, rfl⟩) UnitsSettled.trans (any_rule Guard.none)
    (fun L act => (act.performed L).settled) (run_any D ops)
    (meets_of_forall (Op.meets_none D) _ later)

theorem run_workloadsSettled (D : Digests) (db : Store) (later : List Op) :
    WorkloadsSettled db (run D db later) :=
  run_rel (R := WorkloadsSettled) (fun _ _ w hw _ => ⟨w, hw, rfl⟩) WorkloadsSettled.trans
    (fun _ h => (transact_writes h).settled)
    (meets_of_forall (fun _ _ => trivial : ∀ (_ : Store) (_ : Op), True) db later)

/-- **State changes.**  Every transaction of every run changes unit states along the performed
transitions and workload states along the declared graph; a terminal unit or workload keeps its
state in every later store. -/
theorem state_changes_follow_graphs (D : Digests) (ops later : List Op) (op : Op) :
    ActsAlong D performedTransition (run D Store.empty ops) (step D (run D Store.empty ops) op) ∧
    WritesAlong D op canTransitionWorkload (run D Store.empty ops)
      (step D (run D Store.empty ops) op) ∧
    UnitsSettled (run D Store.empty ops) (run D Store.empty (ops ++ later)) ∧
    WorkloadsSettled (run D Store.empty ops) (run D Store.empty (ops ++ later)) := by
  rw [run_later]
  refine ⟨step_along fun db' h => ?_, step_along fun db' h => ?_, run_unitsSettled D ops later,
    run_workloadsSettled D _ later⟩
  · exact (transact_acts (Op.meets_none D _ op) h).along (run_any D ops)
      (fun L act => act.performed L)
  · exact Relation.ReflTransGen.mono (r := Write D op) (fun _ _ write => ⟨write, write.workloadsMove⟩) _ _
      (transact_writes h)

/-! ## The declared graph of units -/

theorem CellStep.attention {s : Stage} {g : ℕ} {aside : UnitRow → Prop}
    {result : UnitRow → ResultRow → Prop} {c c' : Cell} (h : CellStep s g aside result c c')
    (hs : c.unit.state = .needsAttention) :
    c'.unit.state = .needsAttention ∨ c'.unit.state = .leased ∨ c'.unit.state = .cancelled := by
  cases h with
  | amend => exact .inl hs
  | lease => exact .inr (.inl rfl)
  | cancel => exact .inr (.inr rfl)
  | extend _ _ unit | release _ _ _ _ _ _ _ _ _ unit =>
    rcases unit with hu | hu <;> rw [hu] at hs <;> cases hs
  | start _ _ _ _ unit | commit _ _ _ _ unit | promote _ unit | exhaust _ unit
  | adopt _ _ _ unit | setAside _ _ unit => rw [unit] at hs; cases hs

theorem Act.attention {D : Digests} {db db' : Store} {k : Key} {u : UnitRow}
    (h : Act D Guard.none db db') (L : Linked (fun _ _ _ => True) db)
    (hu : db.units.find? k = some u) (hs : u.state = .needsAttention) :
    ∃ u', db'.units.find? k = some u' ∧
      (u'.state = .needsAttention ∨ u'.state = .leased ∨ u'.state = .cancelled) := by
  obtain ⟨u', s, g, hu', -, -, hcase⟩ := h.unit_cases L hu
  refine ⟨u', hu', ?_⟩
  rcases hcase with ⟨-, hcell | ⟨now, hcell⟩ | hstep⟩ | ⟨-, hcell, -⟩
  · exact .inl ((congrArg (fun c => c.unit.state) hcell).trans hs)
  · exact .inl ((congrArg (fun c => c.unit.state) hcell).trans hs)
  · exact hstep.attention hs
  · exact .inl ((congrArg (fun c => c.unit.state) hcell).trans hs)

theorem ActsAlong.attention {D : Digests} {db db' : Store} {k : Key} {u : UnitRow}
    (h : ActsAlong D canTransitionUnit db db') (L : Linked (fun _ _ _ => True) db)
    (hu : db.units.find? k = some u) (hs : u.state = .needsAttention) :
    ∃ u', db'.units.find? k = some u' ∧
      (u'.state = .needsAttention ∨ u'.state = .cancelled) := by
  have both : Linked (fun _ _ _ => True) db' ∧ ∃ u', db'.units.find? k = some u' ∧
      (u'.state = .needsAttention ∨ u'.state = .cancelled) := by
    induction h with
    | refl => exact ⟨L, u, hu, .inl hs⟩
    | tail _ last ih =>
      obtain ⟨act, moves⟩ := last
      obtain ⟨La, v, hv, hstate⟩ := ih
      refine ⟨act.linked (any_rule Guard.none) La, ?_⟩
      obtain ⟨v', hv', hedge⟩ := moves k v hv
      refine ⟨v', hv', ?_⟩
      rcases hstate with hstate | hstate
      · obtain ⟨v'', hv'', hcase⟩ := act.attention La hv hstate
        obtain rfl : v' = v'' := Option.some.inj (hv'.symm.trans hv'')
        rcases hcase with hcase | hcase | hcase
        · exact .inl hcase
        · -- the claim is no declared edge
          rw [hstate, hcase] at hedge
          rcases hedge with hedge | hedge <;> cases hedge
        · exact .inr hcase
      · rw [hstate] at hedge
        rcases hedge with hedge | hedge
        · exact .inr hedge
        · cases hedge
  exact both.2

/-- The run up to the granted retry, and the claim that follows it. -/
def grantedRun : List Op := boundRun.take 7

/-- The claim takes the unit from `needs_attention` to `leased`, which the declared graph does not
allow. -/
theorem claim_leaves_unit_graph :
    ¬ ∀ (D : Digests) (ops : List Op) (op : Op),
      ActsAlong D canTransitionUnit (run D Store.empty ops) (step D (run D Store.empty ops) op) ∧
      WritesAlong D op canTransitionWorkload (run D Store.empty ops)
        (step D (run D Store.empty ops) op) := by
  intro h
  have along := (h sampleDigests grantedRun (sampleClaim 1001 8)).1
  have hbefore : ((run sampleDigests Store.empty grantedRun).units.find? ⟨1, 100⟩).map
      UnitRow.state = some .needsAttention := by decide +kernel
  have hafter : ((step sampleDigests (run sampleDigests Store.empty grantedRun)
      (sampleClaim 1001 8)).units.find? ⟨1, 100⟩).map UnitRow.state = some .leased := by
    decide +kernel
  obtain ⟨u, hu, hs⟩ := Option.map_eq_some_iff.mp hbefore
  obtain ⟨u', hu', hs'⟩ := along.attention (run_any sampleDigests grantedRun) hu hs
  rw [hu', Option.map_some, Option.some.injEq] at hafter
  rw [hafter] at hs'
  rcases hs' with hs' | hs' <;> cases hs'

end Metnos.Durable

/-!
## The event log accounts for the workload

Every workload has one event for each of its versions, in order and without gaps, and its state is
the one that the last event names.  The invariant is carried by the writes of `Durable.Ledger`: a
write either leaves the histories alone, or changes one workload and appends one event for it.
-/

namespace Metnos.Durable

open Transaction

def eventsOf (db : Store) (k : Key) : List EventRow := db.events.filter (fun e => e.workloadId = k)

/-- The version of a workload, and 0 before it exists. -/
def Store.version (db : Store) (k : Key) : ℕ := ((db.workloads.find? k).map Workload.version).getD 0

/-- The log of workload `k` accounts for its row `w`. -/
structure Accounted (db : Store) (k : Key) (w : Workload) : Prop where
  ids : (eventsOf db k).map EventRow.eventId = List.range' 1 w.version
  next : w.nextEventId = w.version + 1
  state : (eventsOf db k).getLast?.bind EventRow.state = some w.state
  drafts : ∀ e ∈ eventsOf db k, e.type = .draftCreated ↔ e.eventId = 1

/-- One write to the histories: at most one event, and one version more for its workload. -/
def LogStep (db db' : Store) : Prop :=
  ∃ added : Option EventRow, db'.events = db.events ++ added.toList ∧
    ∀ k, db'.version k = db.version k + (if added.any (fun e => e.workloadId = k) then 1 else 0)

structure Histories (db : Store) : Prop where
  accounted : ∀ k w, db.workloads.find? k = some w → Accounted db k w
  orphan : ∀ k, db.workloads.find? k = none → eventsOf db k = []

section
variable {D : Digests} {op : Op} {db db' : Store}

/-! ## The log -/

theorem eventsOf_same (h : db'.events = db.events) (k : Key) : eventsOf db' k = eventsOf db k := by
  rw [eventsOf, eventsOf, h]

theorem eventsOf_append {e : EventRow} (h : db'.events = db.events ++ [e]) (k : Key) :
    eventsOf db' k = eventsOf db k ++ if e.workloadId = k then [e] else [] := by
  rw [eventsOf, eventsOf, h, List.filter_append]
  by_cases hk : e.workloadId = k
  · simp [hk]
  · simp [hk]

theorem eventsOf_append_self {e : EventRow} {k : Key} (h : db'.events = db.events ++ [e])
    (hk : e.workloadId = k) : eventsOf db' k = eventsOf db k ++ [e] := by
  rw [eventsOf_append h, if_pos hk]

theorem eventsOf_append_ne {e : EventRow} {k j : Key} (h : db'.events = db.events ++ [e])
    (hk : e.workloadId = k) (hj : j ≠ k) : eventsOf db' j = eventsOf db j := by
  rw [eventsOf_append h, if_neg, List.append_nil]
  rw [hk]
  exact Ne.symm hj

/-! ## Writes -/

theorem Accounted.congr {k : Key} {w w' : Workload} (A : Accounted db k w)
    (events : eventsOf db' k = eventsOf db k) (ledger : w'.ledger = w.ledger) :
    Accounted db' k w' := by
  simp only [Workload.ledger, Prod.mk.injEq] at ledger
  obtain ⟨state, version, next, -⟩ := ledger
  refine ⟨?_, ?_, ?_, ?_⟩
  · rw [events, version]
    exact A.ids
  · rw [next, version]
    exact A.next
  · rw [events, state]
    exact A.state
  · rw [events]
    exact A.drafts

theorem Histories.untouched (H : Histories db) {k : Key}
    (ledger : (db'.workloads.find? k).map Workload.ledger =
      (db.workloads.find? k).map Workload.ledger)
    (events : eventsOf db' k = eventsOf db k) :
    (∀ w, db'.workloads.find? k = some w → Accounted db' k w) ∧
      (db'.workloads.find? k = none → eventsOf db' k = []) := by
  constructor
  · intro w' hw'
    rw [hw', Option.map_some, eq_comm, Option.map_eq_some_iff] at ledger
    obtain ⟨w, hw, heq⟩ := ledger
    exact (H.accounted k w hw).congr events heq.symm
  · intro hnone
    rw [hnone, Option.map_none, eq_comm, Option.map_eq_none_iff] at ledger
    rw [events]
    exact H.orphan k ledger

theorem SameHistory.histories (S : SameHistory db db') (H : Histories db) : Histories db' :=
  ⟨fun k => (H.untouched (S.workloads k) (eventsOf_same S.events k)).1,
    fun k => (H.untouched (S.workloads k) (eventsOf_same S.events k)).2⟩

theorem Drafted.histories {k : Key} (W : Drafted k db db') (H : Histories db) : Histories db' := by
  obtain ⟨e, events, he, id, state, type⟩ := W.event
  obtain ⟨w, hw, ledger⟩ := find_of_ledger W.row
  have log : eventsOf db' k = [e] := by
    rw [eventsOf_append_self events he, H.orphan k W.fresh, List.nil_append]
  have others : ∀ j, j ≠ k → _ := fun j hj =>
    H.untouched (congrArg (Option.map Workload.ledger) (W.others j hj))
      (eventsOf_append_ne events he hj)
  simp only [Workload.ledger, Prod.mk.injEq] at ledger
  constructor
  · intro j w' hw'
    by_cases hj : j = k
    · subst hj
      obtain rfl : w = w' := Option.some.inj (hw.symm.trans hw')
      refine ⟨?_, ?_, ?_, ?_⟩
      · rw [log, ledger.2.1, List.map_singleton, id]
        rfl
      · rw [ledger.2.1, ledger.2.2.1]
      · rw [log, ledger.1, List.getLast?_singleton, Option.bind_some, state]
      · intro e' he'
        rw [log, List.mem_singleton] at he'
        rw [he', type, id]
        simp
    · exact (others j hj).1 w' hw'
  · intro j hnone
    by_cases hj : j = k
    · subst hj
      rw [hw] at hnone
      cases hnone
    · exact (others j hj).2 hnone

theorem Moved.histories {k : Key} {w w' : Workload} (M : Moved op k w w' db db')
    (H : Histories db) : Histories db' := by
  obtain ⟨e, events, he, id, state, type⟩ := M.event
  have A := H.accounted k w M.before
  have log : eventsOf db' k = eventsOf db k ++ [e] := eventsOf_append_self events he
  have others : ∀ j, j ≠ k → _ := fun j hj =>
    H.untouched (M.others j hj) (eventsOf_append_ne events he hj)
  have idNext : e.eventId = w.version + 1 := id.trans A.next
  have positive : 0 < w.version := by
    -- the last event names the state, so the log is not empty
    by_contra hzero
    have hlog := A.ids
    rw [Nat.eq_zero_of_not_pos hzero, List.range'_zero, List.map_eq_nil_iff] at hlog
    have hstate := A.state
    rw [hlog] at hstate
    cases hstate
  constructor
  · intro j w'' hw''
    by_cases hj : j = k
    · subst hj
      obtain rfl : w' = w'' := Option.some.inj (M.after.symm.trans hw'')
      refine ⟨?_, ?_, ?_, ?_⟩
      · rw [log, List.map_append, A.ids, M.version, List.range'_concat, List.map_singleton, idNext]
        simp [Nat.add_comm]
      · rw [M.next, A.next, M.version]
      · rw [log, List.getLast?_append, List.getLast?_singleton, Option.some_or, Option.bind_some,
          state]
      · intro e' he'
        rw [log, List.mem_append, List.mem_singleton] at he'
        rcases he' with he' | rfl
        · exact A.drafts e' he'
        · rw [idNext]
          exact iff_of_false type (by omega)
    · exact (others j hj).1 w'' hw''
  · intro j hnone
    by_cases hj : j = k
    · subst hj
      rw [M.after] at hnone
      cases hnone
    · exact (others j hj).2 hnone

theorem Write.histories (h : Write D op db db') (H : Histories db) : Histories db' := by
  cases h with
  | quiet history facts results tokens => exact history.histories H
  | result r recorded history facts tokens => exact history.histories H
  | draft k drafted facts results tokens => exact drafted.histories H
  | move k w w' moved facts results tokens => exact moved.histories H
  | admitted ids workloadId adm v now admits valid history results done => exact history.histories H

theorem version_of_ledger {k : Key} (h : (db'.workloads.find? k).map Workload.ledger =
    (db.workloads.find? k).map Workload.ledger) : db'.version k = db.version k := by
  have hv := congrArg (Option.map (fun x => x.2.1)) h
  rw [Option.map_map, Option.map_map] at hv
  exact congrArg (fun x => x.getD 0) hv

theorem SameHistory.logStep (S : SameHistory db db') : LogStep db db' := by
  refine ⟨none, ?_, fun k => version_of_ledger (S.workloads k)⟩
  rw [S.events, Option.toList_none, List.append_nil]

theorem Drafted.logStep {k : Key} (W : Drafted k db db') : LogStep db db' := by
  obtain ⟨e, events, he, -, -, -⟩ := W.event
  refine ⟨some e, events, fun j => ?_⟩
  rw [Option.any_some, he]
  by_cases hj : j = k
  · subst hj
    obtain ⟨w, hw, ledger⟩ := find_of_ledger W.row
    simp only [Workload.ledger, Prod.mk.injEq] at ledger
    simp [Store.version, hw, W.fresh, ledger.2.1]
  · have hkj : k ≠ j := Ne.symm hj
    simp [Store.version, W.others j hj, hkj]

theorem Moved.logStep {k : Key} {w w' : Workload} (M : Moved op k w w' db db') :
    LogStep db db' := by
  obtain ⟨e, events, he, -, -, -⟩ := M.event
  refine ⟨some e, events, fun j => ?_⟩
  rw [Option.any_some, he]
  by_cases hj : j = k
  · subst hj
    simp [Store.version, M.before, M.after, M.version]
  · have hkj : k ≠ j := Ne.symm hj
    simp [version_of_ledger (M.others j hj), hkj]

theorem Write.logStep (h : Write D op db db') : LogStep db db' := by
  cases h with
  | quiet history facts results tokens => exact history.logStep
  | result r recorded history facts tokens => exact history.logStep
  | draft k drafted facts results tokens => exact drafted.logStep
  | move k w w' moved facts results tokens => exact moved.logStep
  | admitted ids workloadId adm v now admits valid history results done => exact history.logStep

end

/-! ## Runs -/

theorem histories_empty : Histories Store.empty :=
  ⟨fun _ _ h => (by cases h), fun _ _ => rfl⟩

theorem run_histories (D : Digests) (ops : List Op) : Histories (run D Store.empty ops) :=
  run_writes_invariant (fun write H => write.histories H) histories_empty ops

theorem step_logSteps (D : Digests) (db : Store) (op : Op) :
    Relation.ReflTransGen LogStep db (step D db op) := by
  unfold step commit
  split
  · rename_i db' h
    exact Relation.ReflTransGen.mono (r := Write D op) (fun _ _ write => write.logStep)
      db db' (transact_writes h)
  · exact .refl

/-- **Event log.**  In every reachable store the events of every workload are numbered 1 to its
version without gaps, only the first is the draft, and the last one names the state; every
transaction adds events and versions together, one event for one version; and a transaction that
raises, in its body or at a fault boundary before the commit, leaves the store as it was. -/
theorem event_log_accounts (D : Digests) (ops : List Op) (op : Op) :
    (∀ k w, (run D Store.empty ops).workloads.find? k = some w →
      Accounted (run D Store.empty ops) k w) ∧
    Relation.ReflTransGen LogStep (run D Store.empty ops) (step D (run D Store.empty ops) op) ∧
    ∀ (checkpoint : Boundary → Except StoreError Unit) (e : StoreError),
      checkpoint .afterCommit = .ok () →
      (immediateTransaction checkpoint (fun db => transact D db op)
        (run D Store.empty ops)).1 = .error e →
      (immediateTransaction checkpoint (fun db => transact D db op)
        (run D Store.empty ops)).2 = run D Store.empty ops :=
  ⟨(run_histories D ops).accounted, step_logSteps D _ op,
    fun _ _ committed raised => immediateTransaction_rollback committed raised⟩

/-- A started workload has four events; a second draft under its request key raises. -/
theorem event_log_accounts_sample :
    let db := run sampleDigests Store.empty
      (sampleStart 1 1 [sampleInventory, sampleMap] 1000 [7] ++ [sampleClaim 1000 4])
    let again := Op.createDraft ⟨1, 9⟩ 1 5 .normal 6
    (∃ w, db.workloads.find? ⟨1, 1⟩ = some w ∧ w.version = 4 ∧ Accounted db ⟨1, 1⟩ w) ∧
    (immediateTransaction (fun _ => .ok ()) (fun db => transact sampleDigests db again) db).2 =
      db := by
  intro db again
  obtain ⟨accounted, -, rollback⟩ := event_log_accounts sampleDigests
    (sampleStart 1 1 [sampleInventory, sampleMap] 1000 [7] ++ [sampleClaim 1000 4]) again
  have hrow : (db.workloads.find? ⟨1, 1⟩).map Workload.version = some 4 := by decide +kernel
  obtain ⟨w, hw, hversion⟩ := Option.map_eq_some_iff.mp hrow
  refine ⟨⟨w, hw, hversion, accounted _ w hw⟩, ?_⟩
  exact rollback (fun _ => .ok ()) .idempotencyConflict rfl (by rfl)

end Metnos.Durable

/-!
## What is never taken back

The record of a unit only grows.  Its attempts stay in their order, one that has ended stays as it
is, the fence never falls, and a unit that is over keeps its row but for the mark of the root.
-/

namespace Metnos.Durable

open Transaction

/-- What a unit is made as. -/
def UnitRow.origin (u : UnitRow) : Key × Key × Key × ℕ × Option Key × ℕ × Option ℕ × Option ℕ :=
  (u.id, u.revisionId, u.stageId, u.unitKey, u.sourceRowId, u.expectedDependencyCount,
    u.reductionLevel, u.reductionOrdinal)

/-- What an attempt is made as. -/
def Attempt.origin (a : Attempt) : Key × Key × ℕ × ℕ × ℕ :=
  (a.id, a.unitId, a.number, a.fence, a.workerId)

/-- The mark of the root and the time of the last change. -/
def UnitRow.marked (u : UnitRow) (root : Bool) (now : ℕ) : UnitRow :=
  { u with reductionRoot := root, updatedAt := now }

/-- A cell, and what it may have become. -/
structure Cell.Becomes (c c' : Cell) : Prop where
  origin : c'.unit.origin = c.unit.origin
  root : c.unit.reductionRoot = true → c'.unit.reductionRoot = true
  fence : c.unit.fence ≤ c'.unit.fence
  attempts : c.attempts.map Attempt.origin <+: c'.attempts.map Attempt.origin
  ended : ∀ a ∈ c.attempts, a.endedAt.isSome = true → a ∈ c'.attempts
  results : c.results ≠ [] → c'.results = c.results
  settled : c.unit.state.terminal = true →
    ∃ root now, c' = { c with unit := c.unit.marked root now }

namespace Cell.Becomes

variable {s : Stage} {g : ℕ} {aside : UnitRow → Prop} {result : UnitRow → ResultRow → Prop}
  {c c' c'' : Cell}

theorem refl (c : Cell) : c.Becomes c :=
  ⟨rfl, id, le_rfl, List.prefix_rfl, fun _ ha _ => ha, fun _ => rfl, fun _ => ⟨_, _, rfl⟩⟩

theorem trans (h : c.Becomes c') (h' : c'.Becomes c'') : c.Becomes c'' where
  origin := h'.origin.trans h.origin
  root hr := h'.root (h.root hr)
  fence := h.fence.trans h'.fence
  attempts := h.attempts.trans h'.attempts
  ended a ha hended := h'.ended a (h.ended a ha hended) hended
  results hr := by
    have kept := h.results hr
    exact (h'.results (kept ▸ hr)).trans kept
  settled ht := by
    obtain ⟨root, now, rfl⟩ := h.settled ht
    obtain ⟨root', now', rfl⟩ := h'.settled ht
    exact ⟨root', now', rfl⟩

theorem markRoot (c : Cell) (now : ℕ) : c.Becomes { c with unit := c.unit.markRoot now } :=
  ⟨rfl, fun _ => rfl, le_rfl, List.prefix_rfl, fun _ ha _ => ha, fun _ => rfl, fun _ => ⟨_, _, rfl⟩⟩

section
variable {u : UnitRow} {results : List ResultRow} (origin : u.origin = c.unit.origin)
  (root : u.reductionRoot = c.unit.reductionRoot) (runs : c.unit.state.terminal = false)

include origin root runs

/-- A step that writes the unit alone. -/
theorem keep (fence : u.fence = c.unit.fence) : c.Becomes ⟨u, c.attempts, c.results⟩ where
  origin := origin
  root hr := root.trans hr
  fence := fence.ge
  attempts := List.prefix_rfl
  ended _ ha _ := ha
  results _ := rfl
  settled ht := by simp [runs] at ht

/-- A step under a new attempt. -/
theorem append (a : Attempt) (fence : u.fence = c.unit.fence + 1)
    (hr : c.results ≠ [] → results = c.results) :
    c.Becomes ⟨u, c.attempts ++ [a], results⟩ where
  origin := origin
  root hr := root.trans hr
  fence := by
    show c.unit.fence ≤ u.fence
    omega
  attempts := by
    show c.attempts.map Attempt.origin <+: (c.attempts ++ [a]).map Attempt.origin
    rw [List.map_append]
    exact List.prefix_append ..
  ended _ ha _ := List.mem_append_left _ ha
  results := hr
  settled ht := by simp [runs] at ht

/-- A step of the attempt that holds the unit: every other one is left alone. -/
theorem update (N : c.Numbered) {a : Attempt} (holds : c.Holds a) {f : Attempt → Attempt}
    (hf : ∀ x, (f x).origin = x.origin) (fence : u.fence = c.unit.fence)
    (hr : c.results ≠ [] → results = c.results) :
    c.Becomes ⟨u, updateAttempt a.id f c.attempts, results⟩ where
  origin := origin
  root hr := root.trans hr
  fence := fence.ge
  attempts := by
    show _ <+: (updateAttempt a.id f c.attempts).map Attempt.origin
    rw [map_updateAttempt hf]
  ended b hb hended := by
    refine mem_updateAttempt.mpr ⟨b, hb, if_neg fun hid => ?_⟩
    rw [eq_of_id N.ids hb holds.mem hid, holds.ended] at hended
    cases hended
  results := hr
  settled ht := by simp [runs] at ht

end

theorem step (h : CellStep s g aside result c c') (S : c.Shape) : c.Becomes c' := by
  have held : ∀ {a}, c.Holds a → c.unit.state.terminal = false := fun holds => by
    obtain ⟨-, -, ⟨hu, -⟩ | ⟨hu, -⟩⟩ := S.leased.heldBy S.numbered holds <;> rw [hu] <;> rfl
  cases h with
  | lease attempt worker expiry now ready fresh =>
    refine append (u := c.unit.lease worker attempt expiry (if tokenRetry c.unit then 1 else 0)
      g now) rfl rfl ?_ _ rfl fun _ => rfl
    rcases ready with ⟨hu, -⟩ | ⟨hu, -⟩ <;> rw [hu] <;> rfl
  | start a expiry now holds =>
    exact update (u := c.unit.start expiry now) (f := Attempt.start now) rfl rfl (held holds)
      S.numbered holds (fun _ => rfl) rfl fun _ => rfl
  | extend expiry now unit =>
    refine keep rfl rfl ?_ rfl
    rcases unit with hu | hu <;> rw [hu] <;> rfl
  | amend a f holds keeps =>
    refine update rfl rfl (held holds) S.numbered holds (fun x => ?_) rfl fun _ => rfl
    exact congrArg (fun t => (t.1, t.2.1, t.2.2.1, t.2.2.2.1, t.2.2.2.2.1)) (keeps x)
  | commit a r now holds unit attempt first =>
    exact update (u := c.unit.commit r.id now) (f := Attempt.finish .succeeded none now) rfl rfl
      (held holds) S.numbered holds (fun _ => rfl) rfl (absurd first)
  | release a state cause target next error tokens now holds =>
    exact update (u := c.unit.release target next error tokens g now)
      (f := Attempt.finish state (some cause) now) rfl rfl (held holds) S.numbered holds
      (fun _ => rfl) rfl fun _ => rfl
  | cancel now unit =>
    refine keep rfl rfl ?_ rfl
    rcases unit with hu | hu | hu <;> rw [hu] <;> rfl
  | promote now unit | exhaust now unit | setAside reason now unit =>
    refine keep rfl rfl ?_ rfl
    rw [unit]
    rfl
  | adopt attempt r now unit count active pure fresh first =>
    refine append (u := c.unit.adopt r.id now) rfl rfl ?_ _ rfl (absurd first)
    rw [unit]
    rfl

end Cell.Becomes

/-- Every unit is still there, and its record has only grown. -/
def Store.Becomes (db db' : Store) : Prop :=
  ∀ k u, db.units.find? k = some u →
    ∃ u', db'.units.find? k = some u' ∧ (db.cell u).Becomes (db'.cell u')

theorem Store.Becomes.trans {a b c : Store} (h : a.Becomes b) (h' : b.Becomes c) : a.Becomes c := by
  intro k u hu
  obtain ⟨u', hu', came⟩ := h k u hu
  obtain ⟨u'', hu'', came'⟩ := h' k u' hu'
  exact ⟨u'', hu'', came.trans came'⟩

theorem Act.becomes {D : Digests} {G : Guard} {db db' : Store} (h : Act D G db db')
    (L : Linked (fun _ _ c => c.Shape) db) : db.Becomes db' := by
  intro k u hu
  obtain ⟨-, -, -, -, shape⟩ := L.cells hu
  obtain ⟨u', s, g, hu', -, -, ⟨-, same | ⟨now, marked⟩ | step⟩ | ⟨-, same, -⟩⟩ := h.unit_cases L hu
  · exact ⟨u', hu', same ▸ .refl _⟩
  · exact ⟨u', hu', marked ▸ .markRoot _ now⟩
  · exact ⟨u', hu', .step step shape⟩
  · exact ⟨u', hu', same ▸ .refl _⟩

/-- **Nothing recorded is taken back.**  Whatever operations follow, every unit keeps what it was
made as, its attempts keep their order, names and fences, an attempt that has ended and the result
of a unit stay as they are, and so does the row of a unit that is over. -/
theorem records_kept (D : Digests) (ops later : List Op) :
    (run D Store.empty ops).Becomes (run D Store.empty (ops ++ later)) := by
  rw [run_later]
  exact run_linked_rel (R := Store.Becomes) (fun _ _ u hu => ⟨u, hu, .refl _⟩) Store.Becomes.trans
    (shape_rule Guard.none) (fun L act => act.becomes L) (run_shape D ops)
    (meets_of_forall (Op.meets_none D) _ later)

end Metnos.Durable
