import Metnos.Durable.Bound
import Metnos.Durable.Shape

/-!
# Durable.Ledger — the columns of a held unit

`Durable.Shape` relates a unit to its attempts.  Here the two remaining lease columns,
`lease_worker_id` and `lease_expires_at`: they are set exactly while an attempt is active.  Both
together are the lease shape of every unit in every reachable store.
-/

namespace Metnos.Durable

open Transaction

/-! ## Worker and expiry -/

/-- Worker and expiry are set exactly while an attempt is active. -/
structure Cell.Columns (c : Cell) : Prop where
  worker : c.unit.leaseWorkerId.isSome = c.unit.activeAttemptId.isSome
  expiry : c.unit.leaseExpiresAt.isSome = c.unit.activeAttemptId.isSome

section
variable {s : Stage} {g : ℕ} {aside : UnitRow → Prop} {result : UnitRow → ResultRow → Prop}
  {c c' : Cell}

theorem Cell.Leased.active_isSome (L : c.Leased)
    (h : c.unit.state = .leased ∨ c.unit.state = .running) : c.unit.activeAttemptId.isSome := by
  cases ha : c.unit.activeAttemptId with
  | some id => rfl
  | none =>
    obtain ⟨h1, h2⟩ := L.free ha
    rcases h with h | h
    · exact absurd h h1
    · exact absurd h h2

theorem Cell.Columns.step (h : CellStep s g aside result c c') (L : c.Leased) (C : c.Columns) :
    c'.Columns := by
  cases h with
  | lease attempt worker expiry now ready fresh => exact ⟨rfl, rfl⟩
  | start a expiry now holds unit attempt =>
    refine ⟨C.worker, ?_⟩
    show true = c.unit.activeAttemptId.isSome
    rw [holds.active]
    rfl
  | extend expiry now unit => exact ⟨C.worker, (L.active_isSome unit).symm⟩
  | commit a r now => exact ⟨rfl, rfl⟩
  | release a state cause target next error tokens now => exact ⟨rfl, rfl⟩
  | amend | promote | exhaust | cancel | adopt | setAside => exact ⟨C.worker, C.expiry⟩

theorem Cell.Columns.of_fresh {u : UnitRow} (h : u.Fresh g) : Cell.Columns ⟨u, [], []⟩ := by
  refine ⟨?_, ?_⟩ <;> dsimp only
  · rw [h.worker, h.active]
    rfl
  · rw [h.expiry, h.active]
    rfl

end

theorem columns_rule (G : Guard) : CellRule G (fun _ _ c => c.Shape ∧ c.Columns) :=
  ⟨fun h => ⟨.of_fresh h, .of_fresh h⟩, fun now S => ⟨S.1.root now, ⟨S.2.worker, S.2.expiry⟩⟩,
    fun _ h S => ⟨.step h S.1, .step h S.1.leased S.2⟩, fun _ S => S⟩

/-! ## The lease shape -/

/-- The state of an attempt that is still open under a unit in the given state. -/
def UnitState.attemptState : UnitState → Option AttemptState
  | .leased => some .leased
  | .running => some .running
  | _ => none

/-- The shape of a unit and its attempt rows. -/
structure LeaseShape (db : Store) (u : UnitRow) : Prop where
  fence : u.fence = u.attemptCount
  count : (db.attemptsOf u.id).length = u.attemptCount
  numbers : (db.attemptsOf u.id).map Attempt.number = List.range' 1 u.attemptCount
  fences : (db.attemptsOf u.id).map Attempt.fence = List.range' 1 u.attemptCount
  columns : (u.state = .leased ∨ u.state = .running) ↔
    u.activeAttemptId.isSome ∧ u.leaseWorkerId.isSome ∧ u.leaseExpiresAt.isSome
  held : u.state = .leased ∨ u.state = .running →
    ∃ a, (db.attemptsOf u.id).filter (fun a => a.endedAt.isNone) = [a] ∧
      u.activeAttemptId = some a.id ∧ a.fence = u.fence ∧
      u.state.attemptState = some a.state
  ended : ¬(u.state = .leased ∨ u.state = .running) →
    ∀ a ∈ db.attemptsOf u.id, a.endedAt ≠ none

section
variable {c : Cell}

theorem Cell.Shape.open_attempts (S : c.Shape) {a : Attempt} (ha : a ∈ c.attempts)
    (active : c.unit.activeAttemptId = some a.id) (ended : a.endedAt = none) :
    c.attempts.filter (fun a => a.endedAt.isNone) = [a] := by
  classical
  have hopen : ∀ b ∈ c.attempts, b.endedAt.isNone = decide (b = a) := by
    intro b hb
    by_cases hba : b = a
    · subst hba
      simp [ended]
    · have hid : c.unit.activeAttemptId ≠ some b.id := by
        rw [active]
        intro h
        exact hba (eq_of_id S.numbered.ids hb ha (Option.some.inj h).symm)
      have hend := (S.leased.closed b hb hid).1
      rw [decide_eq_false hba, ← Bool.not_eq_true, Option.isNone_iff_eq_none]
      exact hend
  have hnodup : c.attempts.Nodup := List.Nodup.of_map _ S.numbered.ids
  calc c.attempts.filter (fun a => a.endedAt.isNone)
      = c.attempts.filter (fun b => decide (b = a)) := List.filter_congr hopen
    _ = List.replicate (c.attempts.count a) a := List.filter_eq a
    _ = [a] := by rw [List.count_eq_one_of_mem hnodup ha, List.replicate_one]

theorem Cell.Shape.held_state (S : c.Shape) {id : Key} (h : c.unit.activeAttemptId = some id) :
    (c.unit.state = .leased ∨ c.unit.state = .running) ∧
    ∃ a ∈ c.attempts, a.id = id ∧ a.endedAt = none ∧ a.fence = c.unit.fence ∧
      c.unit.state.attemptState = some a.state := by
  obtain ⟨a, ha, hid, hfence, hend, hstate⟩ := S.leased.held id h
  rcases hstate with ⟨hu, hs, -⟩ | ⟨hu, hs, -⟩
  · exact ⟨.inl hu, a, ha, hid, hend, hfence, by rw [hu, hs]; rfl⟩
  · exact ⟨.inr hu, a, ha, hid, hend, hfence, by rw [hu, hs]; rfl⟩

end

theorem leaseShape_of_cell {db : Store} {u : UnitRow} (S : (db.cell u).Shape)
    (C : (db.cell u).Columns) : LeaseShape db u := by
  have hcolumns : (u.state = .leased ∨ u.state = .running) ↔ u.activeAttemptId.isSome := by
    refine ⟨fun h => S.leased.active_isSome h, fun h => ?_⟩
    obtain ⟨id, hid⟩ := Option.isSome_iff_exists.mp h
    exact (S.held_state hid).1
  refine ⟨S.numbered.fence, ?_, S.numbered.numbers, S.numbered.fences, ?_, fun h => ?_,
    fun h a ha => ?_⟩
  · have hlen := congrArg List.length S.numbered.numbers
    rwa [List.length_map, List.length_range'] at hlen
  · have hworker : u.leaseWorkerId.isSome = u.activeAttemptId.isSome := C.worker
    have hexpiry : u.leaseExpiresAt.isSome = u.activeAttemptId.isSome := C.expiry
    rw [hcolumns, hworker, hexpiry]
    tauto
  · obtain ⟨id, hid⟩ := Option.isSome_iff_exists.mp (hcolumns.mp h)
    obtain ⟨-, a, ha, rfl, hend, hfence, hstate⟩ := S.held_state hid
    exact ⟨a, S.open_attempts ha hid hend, hid, hfence, hstate⟩
  · refine (S.leased.closed a ha fun hactive => h (hcolumns.mpr ?_)).1
    exact Option.isSome_iff_exists.mpr ⟨a.id, hactive⟩

/-- **Lease shape.**  In every reachable store, every unit has the lease shape. -/
theorem lease_shape (D : Digests) (ops : List Op) :
    ∀ u ∈ (run D Store.empty ops).units.rows, LeaseShape (run D Store.empty ops) u := by
  intro u hu
  have L := run_linked (P := fun _ _ c => c.Shape ∧ c.Columns) (columns_rule Guard.none)
    linked_empty (meets_of_forall (Op.meets_none D) Store.empty ops)
  obtain ⟨s, g, -, -, S, C⟩ := L.cells (Table.find?_of_mem hu)
  exact leaseShape_of_cell S C

/-- The unit of the run is in its second attempt. -/
theorem lease_shape_sample : ∃ u ∈ (run sampleDigests Store.empty boundRun).units.rows,
    u.state = .running ∧ u.fence = 2 ∧ LeaseShape (run sampleDigests Store.empty boundRun) u := by
  have hunit : ((run sampleDigests Store.empty boundRun).units.find? ⟨1, 100⟩).map
      (fun u => (u.state, u.fence)) = some (.running, 2) := by decide +kernel
  obtain ⟨u, hu, hids⟩ := Option.map_eq_some_iff.mp hunit
  simp only [Prod.mk.injEq] at hids
  have hmem := Table.mem_of_find? hu
  exact ⟨u, hmem, hids.1, hids.2, lease_shape sampleDigests boundRun u hmem⟩

end Metnos.Durable

/-!
## What a transaction writes outside the units

`Durable.Protocol` describes a transaction by what it does to the units.  A `Write` describes what
it does to everything else: the workloads with their event log, the revisions, sources and stages,
the results with their dependencies, and the token counters.  Every transaction is a sequence of
writes, so that an invariant of these tables is proved over the five constructors below.
-/

namespace Metnos.Durable

open Transaction

/-! ## What stays -/

/-- The columns of a workload that its history accounts for. -/
def Workload.ledger (w : Workload) : WorkloadState × ℕ × ℕ × Option Key :=
  (w.state, w.version, w.nextEventId, w.activeRevisionId)

/-- A revision without the two columns that change after admission. -/
def Revision.frozen (r : Revision) : Revision :=
  { r with usageComplete := false, manualRetryGeneration := 0 }

/-- No workload changes its state, version or revision, and no event is appended. -/
structure SameHistory (db db' : Store) : Prop where
  workloads : ∀ k, (db'.workloads.find? k).map Workload.ledger =
    (db.workloads.find? k).map Workload.ledger
  events : db'.events = db.events

/-- What was admitted stays as admitted. -/
structure SameFacts (db db' : Store) : Prop where
  revisions : ∀ k, (db'.revisions.find? k).map Revision.frozen =
    (db.revisions.find? k).map Revision.frozen
  stages : db'.stages = db.stages
  sources : db'.sources = db.sources

structure SameResults (db db' : Store) : Prop where
  results : db'.results = db.results
  dependencies : db'.resultDependencies = db.resultDependencies

/-- Token counters stay, and accounting that became unknown stays unknown. -/
structure TokensKept (db db' : Store) : Prop where
  tokens : ∀ k, (db'.usage.find? k).map (fun x => (x.inputTokens, x.outputTokens)) =
    (db.usage.find? k).map (fun x => (x.inputTokens, x.outputTokens))
  unknown : ∀ k x x', db.usage.find? k = some x → db'.usage.find? k = some x' →
    x.usageUnknown = true → x'.usageUnknown = true

/-! ## Writes -/

/-- Whether the operation reports model usage. -/
def Op.recordsUsage : Op → Bool
  | .recordAttemptUsage .. => true
  | _ => false

/-- Whether the operation is a completion assessment. -/
def Op.assesses : Op → Bool
  | .evaluateCompletion .. => true
  | _ => false

/-- The state that an event names: `new_state`, `target_state`, or its type. -/
def EventRow.state (e : EventRow) : Option WorkloadState :=
  (e.payload.newState.or e.payload.targetState).or
    (match e.type with
      | .draftCreated => some .draft
      | .revisionAdmitted => some .admitted
      | .queued => some .queued
      | .running => some .running
      | .pauseRequested => some .pauseRequested
      | .paused => some .paused
      | .cancelRequested => some .cancelRequested
      | .cancelled => some .cancelled
      | .needsAttention => some .needsAttention
      | .failed => some .failed
      | .completedWithErrors => some .completedWithErrors
      | .completed => some .completed
      | .resumed | .attentionResolved => none)

/-- A new draft and its first event. -/
structure Drafted (k : Key) (db db' : Store) : Prop where
  fresh : db.workloads.find? k = none
  row : (db'.workloads.find? k).map Workload.ledger = some (.draft, 1, 2, none)
  others : ∀ j, j ≠ k → db'.workloads.find? j = db.workloads.find? j
  event : ∃ e, db'.events = db.events ++ [e] ∧ e.workloadId = k ∧ e.eventId = 1 ∧
    e.state = some .draft ∧ e.type = .draftCreated

/-- One change of a workload's state: an edge of the graph, one version, one event. -/
structure Moved (op : Op) (k : Key) (w w' : Workload) (db db' : Store) : Prop where
  before : db.workloads.find? k = some w
  after : db'.workloads.find? k = some w'
  others : ∀ j, j ≠ k → (db'.workloads.find? j).map Workload.ledger =
    (db.workloads.find? j).map Workload.ledger
  edge : canTransitionWorkload w.state w'.state = true
  version : w'.version = w.version + 1
  next : w'.nextEventId = w.nextEventId + 1
  revision : w'.activeRevisionId = w.activeRevisionId ∨ w.state = .draft
  completes : w'.state = .completed ∨ w'.state = .completedWithErrors → op.assesses = true
  event : ∃ e, db'.events = db.events ++ [e] ∧ e.workloadId = k ∧ e.eventId = w.nextEventId ∧
    e.state = some w'.state ∧ e.type ≠ .draftCreated

/-- A new result with its dependency rows. -/
structure Recorded (r : ResultRow) (db db' : Store) : Prop where
  inserted : db.results.insert? r = some db'.results
  dependencies : ∃ added, db'.resultDependencies = db.resultDependencies ++ added ∧
    ∀ d ∈ added, d.1 = r.id

inductive Write (D : Digests) (op : Op) (db : Store) : Store → Prop
  | quiet {db' : Store} (history : SameHistory db db') (facts : SameFacts db db')
      (results : SameResults db db') (tokens : op.recordsUsage = false → TokensKept db db') :
      Write D op db db'
  | result {db' : Store} (r : ResultRow) (recorded : Recorded r db db')
      (history : SameHistory db db') (facts : SameFacts db db') (tokens : TokensKept db db') :
      Write D op db db'
  | draft {db' : Store} (k : Key) (drafted : Drafted k db db') (facts : SameFacts db db')
      (results : SameResults db db') (tokens : TokensKept db db') : Write D op db db'
  | move {db' : Store} (k : Key) (w w' : Workload) (moved : Moved op k w w' db db')
      (facts : SameFacts db db') (results : SameResults db db') (tokens : TokensKept db db') :
      Write D op db db'
  | admitted {db' : Store} (ids : FreshIds) (workloadId : Key) (adm : Admission) (v now : ℕ)
      (admits : op = .admitRevision ids workloadId adm v now)
      (valid : validatePlan adm.plan = true) (history : SameHistory db db')
      (results : SameResults db db')
      (done : insertRevisionRows D ids db workloadId adm now = .ok db') : Write D op db db'

/-- A sequence of writes. -/
abbrev Writes (D : Digests) (op : Op) : Store → Store → Prop := Relation.ReflTransGen (Write D op)

/-! ## Relations -/

theorem SameHistory.refl (db : Store) : SameHistory db db := ⟨fun _ => rfl, rfl⟩

theorem SameHistory.trans {a b c : Store} (h : SameHistory a b) (h' : SameHistory b c) :
    SameHistory a c :=
  ⟨fun k => (h'.workloads k).trans (h.workloads k), h'.events.trans h.events⟩

theorem SameFacts.refl (db : Store) : SameFacts db db := ⟨fun _ => rfl, rfl, rfl⟩

theorem SameFacts.trans {a b c : Store} (h : SameFacts a b) (h' : SameFacts b c) :
    SameFacts a c :=
  ⟨fun k => (h'.revisions k).trans (h.revisions k), h'.stages.trans h.stages,
    h'.sources.trans h.sources⟩

theorem SameResults.refl (db : Store) : SameResults db db := ⟨rfl, rfl⟩

theorem SameResults.trans {a b c : Store} (h : SameResults a b) (h' : SameResults b c) :
    SameResults a c :=
  ⟨h'.results.trans h.results, h'.dependencies.trans h.dependencies⟩

theorem TokensKept.refl (db : Store) : TokensKept db db :=
  ⟨fun _ => rfl, fun _ _ _ h h' hu => by rw [h] at h'; cases h'; exact hu⟩

theorem TokensKept.of_eq {db db' : Store} (h : db'.usage = db.usage) : TokensKept db db' := by
  refine ⟨fun _ => by rw [h], fun k x x' hx hx' hu => ?_⟩
  rw [h, hx] at hx'
  cases hx'
  exact hu

theorem TokensKept.trans {a b c : Store} (h : TokensKept a b) (h' : TokensKept b c) :
    TokensKept a c := by
  refine ⟨fun k => (h'.tokens k).trans (h.tokens k), fun k x x' hx hx' hu => ?_⟩
  cases hb : b.usage.find? k with
  | none =>
    have := h.tokens k
    rw [hb, hx] at this
    cases this
  | some y => exact h'.unknown k y x' hb hx' (h.unknown k x y hx hb hu)

/-- Everything of the ledger stays. -/
structure SameLedger (db db' : Store) : Prop where
  history : SameHistory db db'
  facts : SameFacts db db'
  results : SameResults db db'
  tokens : TokensKept db db'

theorem SameLedger.refl (db : Store) : SameLedger db db := ⟨.refl db, .refl db, .refl db, .refl db⟩

theorem SameLedger.trans {a b c : Store} (h : SameLedger a b) (h' : SameLedger b c) :
    SameLedger a c :=
  ⟨h.history.trans h'.history, h.facts.trans h'.facts, h.results.trans h'.results,
    h.tokens.trans h'.tokens⟩

theorem SameLedger.of_eq {db db' : Store} (workloads : db'.workloads = db.workloads)
    (events : db'.events = db.events) (revisions : db'.revisions = db.revisions)
    (stages : db'.stages = db.stages) (sources : db'.sources = db.sources)
    (results : db'.results = db.results)
    (dependencies : db'.resultDependencies = db.resultDependencies)
    (usage : db'.usage = db.usage) : SameLedger db db' :=
  ⟨⟨fun _ => by rw [workloads], events⟩, ⟨fun _ => by rw [revisions], stages, sources⟩,
    ⟨results, dependencies⟩, .of_eq usage⟩

section
variable {D : Digests} {op : Op} {db db' : Store}

theorem SameLedger.write (h : SameLedger db db') : Write D op db db' :=
  .quiet h.history h.facts h.results fun _ => h.tokens

theorem SameLedger.writes (h : SameLedger db db') : Writes D op db db' := .single h.write

/-! ## Row updates -/

theorem casUnit_ledger {k : Key} {p : UnitRow → Bool} {f : UnitRow → UnitRow}
    {hf : ∀ u, (f u).id = u.id} (h : casUnit db k p f hf = .ok db') : SameLedger db db' := by
  obtain ⟨u, -, -, rfl⟩ := casUnit_ok h
  exact .of_eq rfl rfl rfl rfl rfl rfl rfl rfl

theorem casAttempt_ledger {k : Key} {p : Attempt → Bool} {f : Attempt → Attempt}
    {hf : ∀ a, (f a).id = a.id} (h : casAttempt db k p f hf = .ok db') : SameLedger db db' := by
  obtain ⟨a, -, -, rfl⟩ := casAttempt_ok h
  exact .of_eq rfl rfl rfl rfl rfl rfl rfl rfl

theorem insertAttempt_ledger {a : Attempt} (h : insertAttempt db a = .ok db') :
    SameLedger db db' := by
  obtain ⟨-, attempts, -, rfl⟩ := insertAttempt_ok h
  exact .of_eq rfl rfl rfl rfl rfl rfl rfl rfl

theorem updateUsage_ok {k : Key} {f : RevisionUsage → RevisionUsage}
    {hf : ∀ x, (f x).revisionId = x.revisionId} (h : updateUsage db k f hf = .ok db') :
    db' = { db with usage := db.usage.updateWhere (fun x => x.revisionId = k) f hf } := by
  unfold updateUsage at h
  split at h
  · rename_i usage hu
    obtain ⟨x, -, -, rfl⟩ := Table.cas_some hu
    cases h
    rfl
  · cases h

theorem TokensKept.update {p : RevisionUsage → Bool} {f : RevisionUsage → RevisionUsage}
    (hf : ∀ x, (f x).revisionId = x.revisionId)
    (usage : db'.usage = db.usage.updateWhere p f hf)
    (tokens : ∀ x, (f x).inputTokens = x.inputTokens ∧ (f x).outputTokens = x.outputTokens)
    (unknown : ∀ x, x.usageUnknown = true → (f x).usageUnknown = true) : TokensKept db db' := by
  refine ⟨fun j => ?_, fun j x x' hx hx' hu => ?_⟩
  · rw [usage, Table.find?_updateWhere]
    cases db.usage.find? j with
    | none => rfl
    | some x =>
      simp only [Option.map_some]
      split
      · rw [(tokens x).1, (tokens x).2]
      · rfl
  · rw [usage, Table.find?_updateWhere, hx, Option.map_some, Option.some.injEq] at hx'
    rw [← hx']
    split
    · exact unknown x hu
    · exact hu

theorem updateUsage_ledger {k : Key} {f : RevisionUsage → RevisionUsage}
    {hf : ∀ x, (f x).revisionId = x.revisionId} (h : updateUsage db k f hf = .ok db')
    (tokens : ∀ x, (f x).inputTokens = x.inputTokens ∧ (f x).outputTokens = x.outputTokens)
    (unknown : ∀ x, x.usageUnknown = true → (f x).usageUnknown = true) : SameLedger db db' := by
  obtain rfl := updateUsage_ok h
  exact ⟨⟨fun _ => rfl, rfl⟩, ⟨fun _ => rfl, rfl, rfl⟩, ⟨rfl, rfl⟩, .update hf rfl tokens unknown⟩

theorem advanceRevisionClock_ledger {k : Key} {now : ℕ}
    (h : advanceRevisionClock db k now = .ok db') : SameLedger db db' :=
  updateUsage_ledger h (fun _ => ⟨rfl, rfl⟩) (fun _ hu => hu)

theorem frozen_updateWhere {p : Revision → Bool} {f : Revision → Revision}
    (hf : ∀ r, (f r).id = r.id) (keeps : ∀ r, (f r).frozen = r.frozen) (k : Key) :
    ((db.revisions.updateWhere p f hf).find? k).map Revision.frozen =
      (db.revisions.find? k).map Revision.frozen := by
  rw [Table.find?_updateWhere]
  cases db.revisions.find? k with
  | none => rfl
  | some r => by_cases hp : p r <;> simp [hp, keeps]

theorem revisions_ledger {p : Revision → Bool} {f : Revision → Revision}
    {hf : ∀ r, (f r).id = r.id} (keeps : ∀ r, (f r).frozen = r.frozen) :
    SameLedger db { db with revisions := db.revisions.updateWhere p f hf } :=
  ⟨⟨fun _ => rfl, rfl⟩, ⟨frozen_updateWhere hf keeps, rfl, rfl⟩, ⟨rfl, rfl⟩, .of_eq rfl⟩

def RevisionUsage.add (x : RevisionUsage) (inc : UsageIncrement) : RevisionUsage :=
  { x with
    inputBytes := x.inputBytes + inc.inputBytes
    outputBytes := x.outputBytes + inc.outputBytes
    inputTokens := x.inputTokens + inc.inputTokens
    outputTokens := x.outputTokens + inc.outputTokens
    costMicros := x.costMicros + inc.costMicros
    artifactCount := x.artifactCount + inc.artifacts
    usageUnknown := x.usageUnknown || inc.usageUnknown }

theorem addRevisionUsage_ok {k : Key} {inc : UsageIncrement}
    (h : addRevisionUsage db k inc = .ok db') :
    ∃ revisions, db' = { db with
        usage := db.usage.updateWhere (fun x => x.revisionId = k) (fun x => x.add inc)
          (fun _ => rfl)
        revisions := revisions } ∧
      ∀ j, (revisions.find? j).map Revision.frozen = (db.revisions.find? j).map Revision.frozen := by
  unfold addRevisionUsage at h
  simp only [bind_eq_ok] at h
  obtain ⟨row, -, x, -, db1, h1, h2⟩ := h
  obtain rfl := updateUsage_ok h1
  split at h2
  · simp only [pure_eq_ok] at h2
    exact ⟨db.revisions, h2.symm, fun _ => rfl⟩
  · simp only [pure_eq_ok] at h2
    exact ⟨_, h2.symm, frozen_updateWhere _ (fun _ => rfl)⟩

theorem addRevisionUsage_outer {k : Key} {inc : UsageIncrement}
    (h : addRevisionUsage db k inc = .ok db') :
    SameHistory db db' ∧ SameFacts db db' ∧ SameResults db db' := by
  obtain ⟨revisions, rfl, frozen⟩ := addRevisionUsage_ok h
  exact ⟨⟨fun _ => rfl, rfl⟩, ⟨frozen, rfl, rfl⟩, ⟨rfl, rfl⟩⟩

theorem addRevisionUsage_ledger {k : Key} {inc : UsageIncrement}
    (h : addRevisionUsage db k inc = .ok db') (input : inc.inputTokens = 0)
    (output : inc.outputTokens = 0) : SameLedger db db' := by
  obtain ⟨history, facts, results⟩ := addRevisionUsage_outer h
  obtain ⟨revisions, rfl, -⟩ := addRevisionUsage_ok h
  refine ⟨history, facts, results,
    TokensKept.update (f := fun x => x.add inc) (fun _ => rfl) rfl (fun x => ?_) fun x hu => ?_⟩
  · simp only [RevisionUsage.add, input, output]
    exact ⟨rfl, rfl⟩
  · simp [RevisionUsage.add, hu]

theorem markUnaccounted_ledger {k : Key} {a : Attempt} {b : Bool}
    (h : markUnaccountedModelUsageUnknown db k a = .ok (b, db')) : SameLedger db db' := by
  unfold markUnaccountedModelUsageUnknown at h
  split at h
  · cases h; exact .refl _
  · split at h
    · cases h; exact .refl _
    · simp only [bind_eq_ok, pure_eq_ok, Prod.mk.injEq] at h
      obtain ⟨db1, h1, -, rfl⟩ := h
      exact addRevisionUsage_ledger h1 rfl rfl

theorem markReleasedUsage_ledger {k : Key} {a : Attempt} {before b : Bool}
    (h : markReleasedUsage db before k a = .ok (b, db')) : SameLedger db db' := by
  unfold markReleasedUsage at h
  split at h
  · cases h; exact .refl _
  · exact markUnaccounted_ledger h

theorem creditSelection_ledger (k : Key) : SameLedger db (creditSelection db k) := by
  refine ⟨⟨fun j => ?_, rfl⟩, ⟨fun _ => rfl, rfl, rfl⟩, ⟨rfl, rfl⟩, .of_eq rfl⟩
  unfold creditSelection
  dsimp only
  rw [Table.find?_updateWhere]
  cases db.workloads.find? j with
  | none => rfl
  | some w =>
    simp only [Option.map_some]
    split <;> rfl

theorem recordCommand_ledger (k : Key) (key : ℕ) (payload : CommandPayload) :
    SameLedger db (recordCommand db k key payload) := .of_eq rfl rfl rfl rfl rfl rfl rfl rfl

theorem cancelWaitingUnits_ledger (revision : Key) (now limit : ℕ) :
    SameLedger db (cancelWaitingUnits db revision now limit).2 :=
  .of_eq rfl rfl rfl rfl rfl rfl rfl rfl

theorem repairExhaustedUnits_ledger (revision : Key) (now limit : ℕ) :
    SameLedger db (repairExhaustedUnits db revision now limit).2 := by
  unfold repairExhaustedUnits
  split
  · exact .refl db
  · exact .of_eq rfl rfl rfl rfl rfl rfl rfl rfl

theorem promoteDueRetries_ledger (now limit : ℕ) :
    SameLedger db (promoteDueRetries db now limit) := .of_eq rfl rfl rfl rfl rfl rfl rfl rfl

/-! ## State changes -/

theorem casWorkload_ok {k : Key} {p : Workload → Bool} {f : Workload → Workload}
    {hf : ∀ w, (f w).id = w.id} (h : casWorkload db k p f hf = .ok db') :
    ∃ w, db.workloads.find? k = some w ∧ p w = true ∧
      db' = { db with workloads := db.workloads.updateWhere (fun x => x.id = k) f hf } := by
  unfold casWorkload at h
  split at h
  · rename_i workloads hu
    obtain ⟨w, h1, h2, rfl⟩ := Table.cas_some hu
    cases h
    exact ⟨w, h1, h2, rfl⟩
  · cases h

theorem casWorkload_find {k : Key} {w : Workload} {p : Workload → Bool} {f : Workload → Workload}
    {hf : ∀ w, (f w).id = w.id} (h : casWorkload db k p f hf = .ok db')
    (hw : db.workloads.find? k = some w) : db'.workloads.find? k = some (f w) ∧
      ∀ j, j ≠ k → db'.workloads.find? j = db.workloads.find? j := by
  obtain ⟨-, -, -, rfl⟩ := casWorkload_ok h
  exact ⟨Table.find?_update_self hf hw, fun j hj => Table.find?_update_ne hf hj⟩

/-- The row and the log after an event was appended. -/
structure Appended (k : Key) (w : Workload) (e : EventRow) (db db' : Store) : Prop where
  before : db.workloads.find? k = some w
  after : db'.workloads.find? k = some { w with nextEventId := w.nextEventId + 1 }
  others : ∀ j, j ≠ k → db'.workloads.find? j = db.workloads.find? j
  events : db'.events = db.events ++ [e]
  facts : SameFacts db db'
  results : SameResults db db'
  tokens : TokensKept db db'

theorem appendEvent_ok {k : Key} {type : EventType} {payload : EventPayload}
    (h : appendEvent db k type payload = .ok db') :
    ∃ w, Appended k w ⟨k, w.nextEventId, type, payload⟩ db db' := by
  unfold appendEvent at h
  simp only [bind_eq_ok, pure_eq_ok, selectWorkload, orRaise_ok] at h
  obtain ⟨w, hw, workloads, hcas, -, -, rfl⟩ := h
  obtain ⟨w', hw', -, rfl⟩ := Table.cas_some hcas
  exact ⟨w, hw,
    Table.find?_update_self (f := fun x => { x with nextEventId := x.nextEventId + 1 })
      (fun _ => rfl) hw,
    fun j hj => Table.find?_update_ne (t := db.workloads)
      (f := fun x => { x with nextEventId := x.nextEventId + 1 }) (fun _ => rfl) hj,
    rfl, ⟨fun _ => rfl, rfl, rfl⟩, ⟨rfl, rfl⟩, .of_eq rfl⟩

theorem find_of_ledger {k : Key} {x : WorkloadState × ℕ × ℕ × Option Key}
    (h : (db.workloads.find? k).map Workload.ledger = some x) :
    ∃ w, db.workloads.find? k = some w ∧ w.ledger = x := Option.map_eq_some_iff.mp h

/-- What an update of a workload row has to do to be one change of its state. -/
structure StateUpdate (op : Op) (w : Workload) (target : WorkloadState) (x : Workload) : Prop where
  state : x.state = target
  version : x.version = w.version + 1
  next : x.nextEventId = w.nextEventId
  revision : x.activeRevisionId = w.activeRevisionId ∨ w.state = .draft
  edge : canTransitionWorkload w.state target = true
  completes : target = .completed ∨ target = .completedWithErrors → op.assesses = true

theorem move_write {k : Key} {w : Workload} {p : Workload → Bool} {f : Workload → Workload}
    {hf : ∀ w, (f w).id = w.id} {t : WorkloadState} {type : EventType} {payload : EventPayload}
    {db1 db2 : Store} (hw : db.workloads.find? k = some w)
    (cas : casWorkload db k p f hf = .ok db1) (U : StateUpdate op w t (f w))
    (mid : SameLedger db1 db2)
    (append : appendEvent db2 k type payload = .ok db')
    (names : ∀ n, EventRow.state ⟨k, n, type, payload⟩ = some t)
    (kind : type ≠ .draftCreated) : Write D op db db' := by
  obtain ⟨self, others⟩ := casWorkload_find cas hw
  obtain ⟨-, -, -, rfl⟩ := casWorkload_ok cas
  obtain ⟨w2, A⟩ := appendEvent_ok append
  have hledger : (db2.workloads.find? k).map Workload.ledger = some (f w).ledger := by
    rw [mid.history.workloads k, self]
    rfl
  rw [A.before, Option.map_some, Option.some.injEq] at hledger
  simp only [Workload.ledger, Prod.mk.injEq] at hledger
  obtain ⟨hstate, hversion, hnext, hrevision⟩ := hledger
  have facts : SameFacts db db2 := ⟨mid.facts.revisions, mid.facts.stages, mid.facts.sources⟩
  have results : SameResults db db2 := ⟨mid.results.results, mid.results.dependencies⟩
  have tokens : TokensKept db db2 := ⟨mid.tokens.tokens, mid.tokens.unknown⟩
  refine .move k w { w2 with nextEventId := w2.nextEventId + 1 } ?_ (facts.trans A.facts)
    (results.trans A.results) (tokens.trans A.tokens)
  refine ⟨hw, A.after, fun j hj => ?_, ?_, hversion.trans U.version, ?_, ?_, ?_, ?_⟩
  · rw [A.others j hj, mid.history.workloads j, others j hj]
  · dsimp only
    rw [hstate, U.state]
    exact U.edge
  · dsimp only
    rw [hnext, U.next]
  · dsimp only
    rw [hrevision]
    exact U.revision
  · dsimp only
    rw [hstate, U.state]
    exact U.completes
  · refine ⟨_, by rw [A.events, mid.history.events], rfl, hnext.trans U.next, ?_, kind⟩
    rw [names, ← U.state, ← hstate]

theorem eventByTarget_ne_draft {target : WorkloadState} {type : EventType}
    (h : eventByTarget target = some type) : type ≠ .draftCreated := by
  cases target <;> simp [eventByTarget] at h <;> subst h <;> simp

theorem eventByTarget_reserved {target : WorkloadState} {type : EventType}
    (h : eventByTarget target = some type) :
    ¬(target = .completed ∨ target = .completedWithErrors) := by
  rintro (rfl | rfl) <;> cases h

theorem updateState_write {k : Key} {w : Workload} {source target : WorkloadState}
    {v now : ℕ} {type : EventType} {payload : EventPayload} {db2 : Store}
    (hw : db.workloads.find? k = some w) (hsource : w.state = source)
    (h : updateState db k source target v now = .ok db2)
    (append : appendEvent db2 k type payload = .ok db')
    (edge : canTransitionWorkload source target = true)
    (reserved : ¬(target = .completed ∨ target = .completedWithErrors))
    (names : payload.newState = some target) (kind : type ≠ .draftCreated) :
    Write D op db db' := by
  unfold updateState at h
  simp only [bind_eq_ok] at h
  obtain ⟨db1, h1, h2⟩ := h
  refine move_write (t := target) hw h1
    ⟨rfl, rfl, rfl, .inl rfl, hsource ▸ edge, fun hc => absurd hc reserved⟩ ?_ append
    (fun _ => ?_) kind
  · split at h2
    · simp only [pure_eq_ok] at h2
      exact h2 ▸ .refl _
    · simp only [bind_eq_ok] at h2
      obtain ⟨x, -, revision, -, h3⟩ := h2
      exact updateUsage_ledger h3 (fun _ => ⟨rfl, rfl⟩) (fun _ hu => hu)
  · simp [EventRow.state, names]

theorem automaticWorkloadTransition_write {k : Key} {w : Workload} {target : WorkloadState}
    {now : ℕ} (hw : db.workloads.find? k = some w)
    (h : automaticWorkloadTransition db w target now = .ok db') : Write D op db db' := by
  unfold automaticWorkloadTransition at h
  simp only [bind_eq_ok, require_ok, orRaise_ok] at h
  obtain ⟨-, edge, db1, h1, type, htype, h2⟩ := h
  obtain rfl : w.id = k := Table.key_of_find? hw
  exact updateState_write hw rfl h1 h2 edge (eventByTarget_reserved htype) rfl
    (eventByTarget_ne_draft htype)

end

end Metnos.Durable
