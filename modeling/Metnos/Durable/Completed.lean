import Metnos.Durable.Coverage
import Metnos.Durable.History

/-!
# Durable.Completed — what a completed workload has done

`evaluate_completion` counts units, sources, cursors and dependency rows.  Here: what these counts
say about the rows when the assessment completes a workload, and that no later transaction undoes
it, because the units are terminal, the cursors are closed and results keep their dependencies.
-/

namespace Metnos.Durable

open Transaction

/-- A revision whose work is done. -/
structure Finished (db : Store) (r : Key) : Prop where
  units : ∀ u ∈ db.units.rows, u.revisionId = r → u.state = .committed ∧
    ∃ x ∈ db.results.rows, u.committedResultId = some x.id ∧ x.unitId = u.id ∧
      dependencyCount db x.id = u.expectedDependencyCount
  cursors : ∀ s ∈ db.stages.rows, s.revisionId = r →
    ∃ c, db.cursors.find? s.id = some c ∧ c.completed = true ∧ c.attentionCode = none
  sources : ∀ x ∈ db.sources.rows, x.revisionId = r → x.accounted = true ∧ x.state = .ready
  perSource : ∀ s ∈ db.stages.rows, s.revisionId = r → s.requiredFlag = true →
    s.cardinality = .perSource → ∀ x ∈ db.sources.rows, x.revisionId = r →
      ∃! u, u ∈ db.units.rows ∧ u.stageId = s.id ∧ u.sourceRowId = some x.id ∧
        u.state = .committed

section
variable {D : Digests} {G : Guard} {op : Op} {db db' : Store}

/-! ## What the assessment establishes -/

theorem completionChecks_pass {w : Workload} {r : Revision} {artifacts : List ArtifactRow} {now : ℕ}
    (h : completionReasons db w r artifacts now = []) :
    ∀ c ∈ completionChecks db w r artifacts, c.1 = false := by
  intro c hc
  unfold completionReasons at h
  rw [List.append_eq_nil_iff, List.map_eq_nil_iff, List.filter_eq_nil_iff] at h
  simpa using h.1 c hc

/-- The conditions behind the counts of an assessment without reasons. -/
structure Passed (db : Store) (r : Revision) : Prop where
  sourceCount : (sourcesOf db r.id).length = r.expectedSourceCount
  accounted : ∀ x ∈ sourcesOf db r.id, x.accounted = true
  stable : anySource db r.id [.unstable, .missing] = false
  materialized : materializationIncomplete db r.id = false
  planned : ∀ s ∈ db.stages.rows, unitsMissing db r s = false
  terminal : ∀ u ∈ unitsOf db r.id, u.state.terminal = true
  uncancelled : ∀ u ∈ unitsOf db r.id, u.state ≠ .cancelled
  tolerated : ∀ u ∈ unitsOf db r.id, u.state = .failedPermanent → acceptedFailure r u = true
  dependencies : ∀ u ∈ unitsOf db r.id, dependencyDeficit db u = false

theorem passed_of_reasons {w : Workload} {r : Revision} {artifacts : List ArtifactRow} {now : ℕ}
    (h : completionReasons db w r artifacts now = []) : Passed db r := by
  have pass := completionChecks_pass h
  have check : ∀ i (c : Bool × CompletionReason),
      (completionChecks db w r artifacts)[i]? = some c → c.1 = false :=
    fun i c hi => pass c (List.mem_of_getElem? hi)
  have all : ∀ (p : UnitRow → Bool), (unitsOf db r.id).any p = false →
      ∀ u ∈ unitsOf db r.id, p u = false := by
    intro p hp u hu
    simpa using List.any_eq_false.mp hp u hu
  have c1 := check 1 _ rfl
  have c2 := check 2 _ rfl
  have c3 := check 3 _ rfl
  have c5 := check 5 _ rfl
  have c6 := check 6 _ rfl
  have c7 := all _ (check 7 _ rfl)
  have c8 := all _ (check 8 _ rfl)
  have c10 := all _ (check 10 _ rfl)
  have c12 := all _ (check 12 _ rfl)
  refine ⟨by simpa using c1, fun x hx => ?_, c3, c5, fun s hs => ?_, fun u hu => ?_, fun u hu => ?_,
    fun u hu hfailed => ?_, c12⟩
  · simpa using List.any_eq_false.mp c2 x hx
  · simpa using List.any_eq_false.mp c6 s hs
  · simpa using c7 u hu
  · simpa using c8 u hu
  · simpa [hfailed] using c10 u hu

theorem Passed.committed {r : Revision} {domainErrors : ℕ} (P : Passed db r)
    (clean : completionErrors db r domainErrors = false) {u : UnitRow} (hu : u ∈ unitsOf db r.id) :
    u.state = .committed := by
  simp only [completionErrors, Bool.or_eq_false_iff] at clean
  obtain ⟨⟨⟨⟨hfailures, -⟩, -⟩, hskipped⟩, -⟩ := clean
  have hterminal := P.terminal u hu
  cases hstate : u.state with
  | committed => rfl
  | cancelled => exact absurd hstate (P.uncancelled u hu)
  | failedPermanent =>
    have hno := List.any_eq_false.mp hfailures u hu
    exact absurd (P.tolerated u hu hstate) hno
  | skipped =>
    have hno := List.any_eq_false.mp hskipped u hu
    exact absurd (decide_eq_true hstate) hno
  | pending | leased | running | retryWait | needsAttention =>
    rw [hstate] at hterminal
    cases hterminal

theorem Passed.ready {r : Revision} {domainErrors : ℕ} (P : Passed db r)
    (clean : completionErrors db r domainErrors = false) {x : Source} (hx : x ∈ sourcesOf db r.id) :
    x.state = .ready := by
  simp only [completionErrors, Bool.or_eq_false_iff] at clean
  obtain ⟨⟨⟨⟨-, -⟩, hskipped⟩, -⟩, -⟩ := clean
  have hstable := List.any_eq_false.mp P.stable x hx
  have hskip := List.any_eq_false.mp hskipped x hx
  cases hstate : x.state with
  | ready => rfl
  | unstable | missing => exact absurd (by rw [hstate]; rfl) hstable
  | skipped => exact absurd (by rw [hstate]; rfl) hskip

theorem mem_unitsOf {k : Key} {u : UnitRow} :
    u ∈ unitsOf db k ↔ u ∈ db.units.rows ∧ u.revisionId = k := by
  simp [unitsOf]

theorem mem_sourcesOf {k : Key} {x : Source} :
    x ∈ sourcesOf db k ↔ x ∈ db.sources.rows ∧ x.revisionId = k := by
  simp [sourcesOf]

theorem Sourced.covers {s : Stage} {c : StageCursor} {n : ℕ} (S : Sourced db s c)
    (sources : (sourcesOf db s.revisionId).length ≤ n)
    (units : n ≤ (unitsOf db s.revisionId).countP (fun u => u.stageId = s.id)) {x : Source}
    (hx : x ∈ sourcesOf db s.revisionId) :
    ∃ u ∈ unitsOf db s.revisionId, u.stageId = s.id ∧ u.sourceRowId = some x.id := by
  let stageUnits := (unitsOf db s.revisionId).filter (fun u => u.stageId = s.id)
  have mem : ∀ u ∈ stageUnits, u ∈ db.units.rows ∧ u.stageId = s.id := fun u hu =>
    ⟨(mem_unitsOf.mp (List.mem_filter.mp hu).1).1, of_decide_eq_true (List.mem_filter.mp hu).2⟩
  have nodup : (stageUnits.map UnitRow.sourceRowId).Nodup := by
    refine List.Nodup.map_on (fun u hu v hv heq => ?_) ?_
    · exact S.single u (mem u hu).1 v (mem v hv).1 (mem u hu).2 (mem v hv).2 heq
    · exact ((List.Nodup.of_map _ db.units.nodup).filter _).filter _
  have subset : stageUnits.map UnitRow.sourceRowId ⊆
      (sourcesOf db s.revisionId).map (fun x => some x.id) := by
    intro id hid
    obtain ⟨u, hu, rfl⟩ := List.mem_map.mp hid
    obtain ⟨y, hy, hyid, hyr, -⟩ := S.source u (mem u hu).1 (mem u hu).2
    exact List.mem_map.mpr ⟨y, mem_sourcesOf.mpr ⟨hy, hyr⟩, hyid.symm⟩
  have length : ((sourcesOf db s.revisionId).map (fun x => some x.id)).length ≤
      (stageUnits.map UnitRow.sourceRowId).length := by
    rw [List.length_map, List.length_map, ← List.countP_eq_length_filter]
    omega
  have perm := (List.subperm_of_subset nodup subset).perm_of_length_le length
  have hmem : some x.id ∈ stageUnits.map UnitRow.sourceRowId :=
    perm.mem_iff.mpr (List.mem_map.mpr ⟨x, hx, rfl⟩)
  obtain ⟨u, hu, hid⟩ := List.mem_map.mp hmem
  exact ⟨u, (List.mem_filter.mp hu).1, (mem u hu).2, hid⟩

theorem Passed.finished {r : Revision} {domainErrors : ℕ} (P : Passed db r)
    (clean : completionErrors db r domainErrors = false)
    (L : Linked (fun _ _ c => c.Shape) db) (C : Coverage db) : Finished db r.id := by
  have committed : ∀ u ∈ db.units.rows, u.revisionId = r.id → u.state = .committed :=
    fun u hu hr => P.committed clean (mem_unitsOf.mpr ⟨hu, hr⟩)
  refine ⟨fun u hu hr => ⟨committed u hu hr, ?_⟩, fun s hs hr => ?_, fun x hx hr => ?_,
    fun s hs hr hrequired hcard x hx hxr => ?_⟩
  · obtain ⟨s, g, -, -, shape⟩ := L.cells (Table.find?_of_mem hu)
    obtain ⟨x, hresults, hid, hunit, -⟩ := shape.committed.result (committed u hu hr)
    have hx : x ∈ db.resultsOf u.id := by
      change (db.cell u).results = [x] at hresults
      change x ∈ (db.cell u).results
      rw [hresults]
      exact List.mem_singleton_self x
    have hdeficit := P.dependencies u (mem_unitsOf.mpr ⟨hu, hr⟩)
    change u.committedResultId = some x.id at hid
    simp only [dependencyDeficit, committed u hu hr, hid] at hdeficit
    exact ⟨x, (mem_resultsOf.mp hx).1, hid, hunit, by simpa using hdeficit⟩
  · obtain ⟨c, hc, hrevision, -⟩ := C.cursor s.id s (Table.find?_of_mem hs)
    have hopen := List.any_eq_false.mp P.materialized c (Table.mem_of_find? hc)
    simp only [hrevision, hr, decide_true, Bool.true_and, Bool.or_eq_true, not_or,
      Bool.not_eq_true', Bool.not_eq_false, Option.isSome_iff_ne_none, not_not] at hopen
    exact ⟨c, hc, hopen⟩
  · exact ⟨P.accounted x (mem_sourcesOf.mpr ⟨hx, hr⟩), P.ready clean (mem_sourcesOf.mpr ⟨hx, hr⟩)⟩
  · obtain ⟨c, -, -, hsourced⟩ := C.cursor s.id s (Table.find?_of_mem hs)
    have S := hsourced hcard
    have htype : s.stageType ≠ .inventory := fun h => by
      have hsingle := C.inventory s hs h
      rw [hcard] at hsingle
      cases hsingle
    have hcount := P.planned s hs
    simp only [unitsMissing, hr, hrequired, htype, hcard, expectedUnits, decide_true, decide_false,
      Bool.not_false, Bool.and_true, Bool.true_and, decide_eq_false_iff_not, not_lt] at hcount
    have hx' : x ∈ sourcesOf db s.revisionId := by
      rw [hr]
      exact mem_sourcesOf.mpr ⟨hx, hxr⟩
    obtain ⟨u, hu, hstage, hsource⟩ := S.covers (n := r.expectedSourceCount)
      (by rw [hr, P.sourceCount]) (by rw [hr]; exact hcount) hx'
    rw [hr, mem_unitsOf] at hu
    refine ⟨u, ⟨hu.1, hstage, hsource, committed u hu.1 hu.2⟩, fun v hv => ?_⟩
    exact S.single v hv.1 u hu.1 hv.2.1 hstage (hv.2.2.1.trans hsource.symm)

/-! ## What is closed stays closed -/

/-- A known revision without open units or cursors. -/
structure Closed (db : Store) (r : Key) : Prop where
  known : (db.generation r).isSome = true
  units : ∀ u ∈ db.units.rows, u.revisionId = r → u.state = .committed
  cursors : ∀ s ∈ db.stages.rows, s.revisionId = r →
    ∃ c, db.cursors.find? s.id = some c ∧ c.completed = true

/-- The rows of the revision are the same. -/
structure SameRevision (r : Key) (db db' : Store) : Prop where
  units : ∀ u, u.revisionId = r → (u ∈ db'.units.rows ↔ u ∈ db.units.rows)
  stages : ∀ s, s.revisionId = r → (s ∈ db'.stages.rows ↔ s ∈ db.stages.rows)
  cursors : ∀ s ∈ db.stages.rows, s.revisionId = r →
    db'.cursors.find? s.id = db.cursors.find? s.id
  sources : ∀ x, x.revisionId = r → (x ∈ db'.sources.rows ↔ x ∈ db.sources.rows)

theorem SameRevision.refl (r : Key) (db : Store) : SameRevision r db db :=
  ⟨fun _ _ => .rfl, fun _ _ => .rfl, fun _ _ _ => rfl, fun _ _ => .rfl⟩

theorem SameRevision.trans {r : Key} {a b c : Store} (h : SameRevision r a b)
    (h' : SameRevision r b c) : SameRevision r a c := by
  refine ⟨fun u hu => (h'.units u hu).trans (h.units u hu),
    fun s hs => (h'.stages s hs).trans (h.stages s hs), fun s hs hr => ?_,
    fun x hx => (h'.sources x hx).trans (h.sources x hx)⟩
  exact (h'.cursors s ((h.stages s hr).mpr hs) hr).trans (h.cursors s hs hr)

theorem Closed.keep {r : Key} (C : Closed db r) (S : SameRevision r db db')
    (known : (db'.generation r).isSome = true) : Closed db' r := by
  refine ⟨known, fun u hu hr => C.units u ((S.units u hr).mp hu) hr, fun s hs hr => ?_⟩
  have hs := (S.stages s hr).mp hs
  rw [S.cursors s hs hr]
  exact C.cursors s hs hr

theorem CellStep.committed_unit {s : Stage} {g : ℕ} {aside : UnitRow → Prop}
    {result : UnitRow → ResultRow → Prop} {c c' : Cell} (h : CellStep s g aside result c c')
    (hc : c.unit.state = .committed) : c'.unit = c.unit := by
  cases h with
  | amend => rfl
  | lease _ _ _ _ ready =>
    rcases ready with ⟨hp, -⟩ | ⟨hp, -⟩ <;> rw [hc] at hp <;> cases hp
  | extend _ _ unit | release _ _ _ _ _ _ _ _ _ unit =>
    rcases unit with hu | hu <;> rw [hc] at hu <;> cases hu
  | cancel _ unit => rcases unit with hu | hu | hu <;> rw [hc] at hu <;> cases hu
  | start _ _ _ _ unit | commit _ _ _ _ unit | promote _ unit | exhaust _ unit
  | adopt _ _ _ unit | setAside _ _ unit => rw [hc] at unit; cases unit

theorem Closed.cells_units {P : Stage → ℕ → Cell → Prop} {r : Key} (C : Closed db r)
    (L : Linked P db)
    (old : ∀ k u, db.units.find? k = some u →
      ∃ u', db'.units.find? k = some u' ∧ CellChange G db db' u u')
    (new : ∀ k, db.units.find? k = none → db'.units.find? k = none) (u : UnitRow)
    (hr : u.revisionId = r) : u ∈ db'.units.rows ↔ u ∈ db.units.rows := by
  have same : ∀ {v v' : UnitRow}, v ∈ db.units.rows → CellChange G db db' v v' →
      (v.revisionId = r ∨ v'.revisionId = r) → v' = v := by
    intro v v' hv change hvr
    rcases change with hcell | step
    · exact congrArg Cell.unit hcell
    · obtain ⟨s, g, hstage, hg, -⟩ := L.cells (Table.find?_of_mem hv)
      have hstep := step s g hstage hg
      have hid : v'.revisionId = v.revisionId := revisionId_of_identity hstep.identity_eq
      have hvr : v.revisionId = r := hvr.elim id fun h => hid.symm.trans h
      exact hstep.committed_unit (C.units v hv hvr)
  constructor
  · intro hu
    cases hv : db.units.find? u.id with
    | none =>
      have hnone := new _ hv
      rw [Table.find?_of_mem hu] at hnone
      cases hnone
    | some v =>
      obtain ⟨v', hv', change⟩ := old _ v hv
      obtain rfl : u = v' := Option.some.inj ((Table.find?_of_mem hu).symm.trans hv')
      have hmem := Table.mem_of_find? hv
      rw [same hmem change (.inr hr)]
      exact hmem
  · intro hu
    obtain ⟨u', hu', change⟩ := old _ u (Table.find?_of_mem hu)
    rw [← same hu change (.inl hr)]
    exact Table.mem_of_find? hu'

theorem Closed.round {m : Round} {cursor : StageCursor} {r : Key} (C : Closed db r)
    (N : Counted db) (N' : Counted db')
    (next : nextMaterializationStage db m.revision.id = some (m.stage, cursor))
    (h : materializeRound D m db cursor = .ok db') : SameRevision r db db' := by
  obtain ⟨hcursor, hstage, -, -, hid, hopen, -⟩ := nextStage_facts next
  obtain ⟨c, hc, legacy, -⟩ := N.cursor _ _ hstage
  obtain rfl : cursor = c := Option.some.inj (hcursor.symm.trans hc)
  have frame := materializeRound_frame hid legacy h
  have other : ∀ s ∈ db.stages.rows, s.revisionId = r → s.id ≠ m.stage.id := by
    intro s hs hr heq
    obtain ⟨c, hc, hdone⟩ := C.cursors s hs hr
    rw [heq, hcursor, Option.some.injEq] at hc
    rw [← hc, hopen] at hdone
    cases hdone
  have place : ∀ {d : Store} {u : UnitRow}, Counted d → d.stages = db.stages → u ∈ d.units.rows →
      u.revisionId = r → u.stageId ≠ m.stage.id := by
    intro d u Nd hstages hu hr
    obtain ⟨s, hs, hrevision⟩ := Nd.stage _ u (Table.find?_of_mem hu)
    rw [hstages] at hs
    rw [← Table.key_of_find? hs]
    exact other s (Table.mem_of_find? hs) (hrevision.symm.trans hr)
  refine ⟨fun u hr => ⟨fun hu => ?_, fun hu => ?_⟩, fun s _ => by rw [frame.stages],
    fun s hs hr => frame.cursors _ (other s hs hr),
    fun x _ => by rw [(materializeRound_ledger h).facts.sources]⟩
  · exact Table.mem_of_find? (frame.new _ u (Table.find?_of_mem hu) (place N' frame.stages hu hr))
  · exact Table.mem_of_find? (frame.old _ u (Table.find?_of_mem hu) (place N rfl hu hr))

theorem Closed.admitted {ids : FreshIds} {adm : Admission} {now : ℕ} {workloadId r : Key}
    {sources : List Source} {units : List UnitRow} (C : Closed db r) (N : Counted db)
    (S : Seeded ids adm workloadId db db' sources units) (A : Admitted D ids adm now db db') :
    SameRevision r db db' := by
  have hne : r ≠ adm.revisionId := by
    rintro rfl
    have hknown := C.known
    rw [Store.generation, A.revision] at hknown
    cases hknown
  have stage : ∀ s ∈ stageRows ids adm, s.revisionId ≠ r := fun s hs heq =>
    hne (heq.symm.trans (mem_stageRows hs))
  refine ⟨fun u hr => ⟨fun hu => ?_, A.units u⟩, fun s hr => ?_, fun s hs hr => ?_, fun x hr => ?_⟩
  · rcases A.newUnits u hu with hu | ⟨s, hs, id, source, rfl⟩
    · exact hu
    · exact absurd hr (stage s (initialRows_subset hs))
  · rw [A.stages, List.mem_append]
    exact or_iff_left fun hs => stage s hs hr
  · obtain ⟨c, hc, -⟩ := N.cursor s.id s (Table.find?_of_mem hs)
    rw [hc, A.cursor_old hc]
  · rw [S.sources, List.mem_append]
    exact or_iff_left fun hx => hne (hr.symm.trans (S.owned x hx))

theorem Act.sameRevision {P : Stage → ℕ → Cell → Prop} {r : Key} (h : Act D G db db')
    (L : Linked P db) (N : Counted db) (C : Closed db r) : SameRevision r db db' := by
  have N' := h.counted L N
  cases h with
  | cells frame old new =>
    exact ⟨C.cells_units L old fun k hk => (new k hk).1, fun s _ => by rw [frame.stages],
      fun s _ _ => by rw [frame.cursors], fun x _ => by rw [frame.sources]⟩
  | grant revision allowed blocked granted =>
    exact ⟨fun u _ => by rw [granted.units], fun s _ => by rw [granted.stages],
      fun s _ _ => by rw [granted.cursors], fun x _ => by rw [granted.sources]⟩
  | round m cursor next revision allowed done => exact C.round N N' next done
  | admitted ids workloadId adm now allowed valid done =>
    obtain ⟨sources, units, S⟩ := insertRevisionRows_seeded done
    exact C.admitted N S (insertRevisionRows_admitted done)

theorem Act.known {r : Key} (h : Act D G db db') (known : (db.generation r).isSome = true) :
    (db'.generation r).isSome = true := by
  cases h with
  | cells frame old new => rw [frame.generation, known]
  | grant revision allowed blocked granted => rw [granted.generation, Option.isSome_map, known]
  | round m cursor next revision allowed done =>
    rw [Store.generation, (materializeRound_cells done).revisions]
    exact known
  | admitted ids workloadId adm now allowed valid done =>
    rw [(insertRevisionRows_admitted done).generation]
    split
    · rfl
    · exact known

theorem Acts.sameRevision {r : Key} (h : Acts D G db db') (L : Linked (fun _ _ _ => True) db)
    (N : Counted db) (C : Closed db r) : SameRevision r db db' ∧ Closed db' r := by
  induction h with
  | refl => exact ⟨.refl r db, C⟩
  | tail pre last ih =>
    obtain ⟨S, C'⟩ := ih
    have S' := last.sameRevision (Acts.linked (any_rule G) pre L) (Acts.counted pre L N) C'
    exact ⟨S.trans S', C'.keep S' (last.known C'.known)⟩

/-! ## Results -/

/-- Results stay, with as many dependency rows as they had. -/
def ResultsKept (db db' : Store) : Prop :=
  ∀ x ∈ db.results.rows, x ∈ db'.results.rows ∧ dependencyCount db' x.id = dependencyCount db x.id

theorem ResultsKept.of_same (S : SameResults db db') : ResultsKept db db' := by
  intro x hx
  rw [S.results, dependencyCount, S.dependencies]
  exact ⟨hx, rfl⟩

theorem ResultsKept.trans {a b c : Store} (h : ResultsKept a b) (h' : ResultsKept b c) :
    ResultsKept a c := fun x hx =>
  ⟨(h' x (h x hx).1).1, (h' x (h x hx).1).2.trans (h x hx).2⟩

theorem Recorded.resultsKept {r : ResultRow} (R : Recorded r db db') : ResultsKept db db' := by
  obtain ⟨fresh, rows⟩ := Table.insert?_some R.inserted
  obtain ⟨added, hadded, own⟩ := R.dependencies
  intro x hx
  refine ⟨by rw [rows]; exact List.mem_append_left _ hx, ?_⟩
  have hne : r.id ≠ x.id := by
    intro heq
    rw [heq, Table.find?_of_mem hx] at fresh
    cases fresh
  have hzero : added.countP (fun d => d.1 = x.id) = 0 := by
    rw [List.countP_eq_zero]
    intro d hd
    rw [own d hd]
    simpa using hne
  rw [dependencyCount, hadded, List.countP_append, hzero, Nat.add_zero, dependencyCount]

theorem Writes.resultsKept (h : Writes D op db db') : ResultsKept db db' := by
  induction h with
  | refl => exact fun x hx => ⟨hx, rfl⟩
  | tail _ write ih =>
    refine ih.trans ?_
    cases write with
    | quiet history facts results tokens => exact .of_same results
    | result r recorded history facts tokens => exact recorded.resultsKept
    | draft k drafted facts results tokens => exact .of_same results
    | move k w w' moved facts results tokens => exact .of_same results
    | admitted ids workloadId adm v now admits valid history results done => exact .of_same results

theorem Finished.closed {r : Key} (F : Finished db r)
    (known : (db.generation r).isSome = true) : Closed db r := by
  refine ⟨known, fun u hu hr => (F.units u hu hr).1, fun s hs hr => ?_⟩
  obtain ⟨c, hc, hdone, -⟩ := F.cursors s hs hr
  exact ⟨c, hc, hdone⟩

theorem Finished.keep {r : Key} (F : Finished db r) (N : Counted db) (S : SameRevision r db db')
    (N' : Counted db') (K : ResultsKept db db') : Finished db' r := by
  refine ⟨fun u hu hr => ?_, fun s hs hr => ?_, fun x hx hr => F.sources x ((S.sources x hr).mp hx) hr,
    fun s hs hr hrequired hcard x hx hxr => ?_⟩
  · obtain ⟨hstate, x, hx, hid, hunit, hcount⟩ := F.units u ((S.units u hr).mp hu) hr
    exact ⟨hstate, x, (K x hx).1, hid, hunit, (K x hx).2.trans hcount⟩
  · have hs := (S.stages s hr).mp hs
    rw [S.cursors s hs hr]
    exact F.cursors s hs hr
  · have hold := (S.stages s hr).mp hs
    -- the units of a stage belong to its revision
    have revision : ∀ {d : Store}, Counted d → s ∈ d.stages.rows → ∀ u ∈ d.units.rows,
        u.stageId = s.id → u.revisionId = r := by
      intro d Nd hsd u hu hstage
      obtain ⟨t, ht, hrevision⟩ := Nd.stage _ u (Table.find?_of_mem hu)
      rw [hstage, Table.find?_of_mem hsd, Option.some.injEq] at ht
      rw [hrevision, ← ht, hr]
    obtain ⟨u, ⟨hu, hstage, hsource, hstate⟩, hunique⟩ :=
      F.perSource s hold hr hrequired hcard x ((S.sources x hxr).mp hx) hxr
    have hur := revision N hold u hu hstage
    refine ⟨u, ⟨(S.units u hur).mpr hu, hstage, hsource, hstate⟩, fun v hv => ?_⟩
    have hvr := revision N' hs v hv.1 hv.2.1
    exact hunique v ⟨(S.units v hvr).mp hv.1, hv.2⟩

/-! ## Completed workloads -/

/-- The states that only the assessment reaches. -/
def WorkloadState.assessed (s : WorkloadState) : Bool :=
  s = .completed || s = .completedWithErrors

theorem running_of_edge {a b : WorkloadState} (edge : canTransitionWorkload a b = true)
    (hb : b.assessed = true) : a = .running := by
  cases b <;> cases hb <;> cases a <;> first | rfl | cases edge

theorem Write.assessed {k : Key} {w' : Workload} (h : Write D op db db')
    (hw' : db'.workloads.find? k = some w') (hs : w'.state.assessed = true) :
    (∃ w, db.workloads.find? k = some w ∧ w.ledger = w'.ledger) ∨
    (op.assesses = true ∧ ∃ w, db.workloads.find? k = some w ∧ w.state = .running) := by
  have same : ∀ {j}, db'.workloads.find? j = some w' →
      (db'.workloads.find? j).map Workload.ledger = (db.workloads.find? j).map Workload.ledger →
      ∃ w, db.workloads.find? j = some w ∧ w.ledger = w'.ledger := by
    intro j hj heq
    rw [hj, Option.map_some] at heq
    exact Option.map_eq_some_iff.mp heq.symm
  cases h with
  | quiet history facts results tokens => exact .inl (same hw' (history.workloads k))
  | result r recorded history facts tokens => exact .inl (same hw' (history.workloads k))
  | admitted ids workloadId adm v now admits valid history results done =>
    exact .inl (same hw' (history.workloads k))
  | draft j drafted facts results tokens =>
    by_cases hj : k = j
    · subst hj
      have hrow := drafted.row
      rw [hw', Option.map_some, Option.some.injEq] at hrow
      have hdraft : w'.state = .draft := congrArg Prod.fst hrow
      rw [hdraft] at hs
      cases hs
    · exact .inl (same hw' (by rw [drafted.others k hj]))
  | move j w w1 moved facts results tokens =>
    by_cases hj : k = j
    · subst hj
      have hw1 := moved.after
      rw [hw', Option.some.injEq] at hw1
      subst hw1
      refine .inr ⟨moved.completes ?_, w, moved.before, running_of_edge moved.edge hs⟩
      simpa [WorkloadState.assessed] using hs
    · exact .inl (same hw' (moved.others k hj))

theorem Writes.assessed {k : Key} {w' : Workload} (h : Writes D op db db')
    (hw' : db'.workloads.find? k = some w') (hs : w'.state.assessed = true) :
    (∃ w, db.workloads.find? k = some w ∧ w.ledger = w'.ledger) ∨ op.assesses = true := by
  induction h generalizing w' with
  | refl => exact .inl ⟨w', hw', rfl⟩
  | tail _ write ih =>
    rcases write.assessed hw' hs with ⟨w, hw, hledger⟩ | ⟨assesses, -⟩
    · have hstate : w.state = w'.state := congrArg Prod.fst hledger
      rcases ih hw (by rw [hstate]; exact hs) with ⟨v, hv, hv'⟩ | assesses
      · exact .inl ⟨v, hv, hv'.trans hledger⟩
      · exact .inr assesses
    · exact .inr assesses

theorem completeWorkload_find {w : Workload} {target : WorkloadState} {type : EventType} {now : ℕ}
    (hw : db.workloads.find? w.id = some w) (h : completeWorkload db w target type now = .ok db') :
    (∃ w', db'.workloads.find? w.id = some w' ∧ w'.state = target ∧
      w'.activeRevisionId = w.activeRevisionId) ∧
    ∀ j, j ≠ w.id → db'.workloads.find? j = db.workloads.find? j := by
  unfold completeWorkload at h
  simp only [bind_eq_ok] at h
  obtain ⟨db1, h1, h2⟩ := h
  obtain ⟨v, A⟩ := appendEvent_ok h1
  have hv := A.before
  rw [hw, Option.some.injEq] at hv
  subst hv
  obtain ⟨self, others⟩ := casWorkload_find h2 A.after
  exact ⟨⟨_, self, rfl, rfl⟩, fun j hj => (others j hj).trans (A.others j hj)⟩

theorem transact_assessed {k : Key} {w' : Workload} (h : transact D db op = .ok db')
    (hw' : db'.workloads.find? k = some w') (hs : w'.state.assessed = true) :
    (∃ w, db.workloads.find? k = some w ∧ w.ledger = w'.ledger) ∨
    ∃ w r domainErrors, db.workloads.find? k = some w ∧ w.state = .running ∧
      w'.activeRevisionId = some r.id ∧ db.revisions.find? r.id = some r ∧ Passed db r ∧
      (w'.state = .completed → completionErrors db r domainErrors = false) := by
  rcases (transact_writes h).assessed hw' hs with same | assesses
  · exact .inl same
  cases op with
  | evaluateCompletion id artifacts domainErrors now =>
    obtain ⟨x, h⟩ := stored_ok h
    rcases evaluateCompletion_ok h with rfl | ⟨w, r, hw, hact, hr, -, reasons, done⟩
    · exact .inl ⟨w', hw', rfl⟩
    · obtain rfl : w.id = id := Table.key_of_find? hw
      obtain ⟨⟨v, hv, hstate, hrevision⟩, others⟩ := completeWorkload_find hw done
      by_cases hk : k = w.id
      · subst hk
        obtain rfl : w' = v := Option.some.inj (hw'.symm.trans hv)
        refine .inr ⟨w, r, domainErrors, hw, completionReasons_running reasons,
          hrevision.trans hact, hr, passed_of_reasons reasons, fun hdone => ?_⟩
        by_contra herrors
        rw [hstate, if_pos (by simpa using herrors)] at hdone
        cases hdone
      · rw [others k hk] at hw'
        exact .inl ⟨w', hw', rfl⟩
  | _ => cases assesses

/-- Every completed workload has finished its revision. -/
def CompletedSound (db : Store) : Prop :=
  ∀ k w, db.workloads.find? k = some w → w.state = .completed →
    ∃ r, w.activeRevisionId = some r ∧ (db.generation r).isSome = true ∧ Finished db r

/-- What completion rests on. -/
structure Completions (db : Store) : Prop where
  linked : Linked (fun _ _ c => c.Shape) db
  counted : Counted db
  coverage : Coverage db
  completed : CompletedSound db

theorem Linked.weaken {P : Stage → ℕ → Cell → Prop} (L : Linked P db) :
    Linked (fun _ _ _ => True) db := by
  refine ⟨fun hu => ?_, L.orphans⟩
  obtain ⟨s, g, hs, hg, -⟩ := L.cells hu
  exact ⟨s, g, hs, hg, trivial⟩

theorem Finished.transact {r : Key} (F : Finished db r) (S : Completions db)
    (known : (db.generation r).isSome = true) (h : transact D db op = .ok db') :
    (db'.generation r).isSome = true ∧ Finished db' r := by
  have acts := transact_acts (Op.meets_none D db op) h
  have L := S.linked.weaken
  obtain ⟨same, closed⟩ := acts.sameRevision L S.counted (F.closed known)
  exact ⟨closed.known, F.keep S.counted same (acts.counted L S.counted)
    (transact_writes h).resultsKept⟩

theorem Completions.transact (S : Completions db) (h : transact D db op = .ok db') : Completions db' := by
  have acts := transact_acts (Op.meets_none D db op) h
  have L := S.linked.weaken
  refine ⟨acts.linked (shape_rule Guard.none) S.linked, acts.counted L S.counted,
    acts.coverage L S.counted S.coverage, fun k w' hw' hdone => ?_⟩
  rcases transact_assessed h hw' (by rw [hdone]; rfl) with
    ⟨w, hw, hledger⟩ | ⟨w, r, domainErrors, -, -, hact, hr, passed, clean⟩
  · simp only [Workload.ledger, Prod.mk.injEq] at hledger
    obtain ⟨r, hact, known, F⟩ := S.completed k w hw (hledger.1.trans hdone)
    exact ⟨r, hledger.2.2.2.symm.trans hact, F.transact S known h⟩
  · have F := passed.finished (clean hdone) S.linked S.coverage
    have known : (db.generation r.id).isSome = true := by
      rw [Store.generation, hr]
      rfl
    exact ⟨r.id, hact, F.transact S known h⟩

end

/-! ## Runs -/

theorem completions_empty : Completions Store.empty :=
  ⟨linked_empty, ⟨fun _ _ h => (by cases h), fun _ _ h => (by cases h)⟩,
    ⟨fun _ h => (by cases h), fun _ h => (by cases h), fun _ _ h => (by cases h)⟩,
    fun _ _ h => (by cases h)⟩

theorem run_completions (D : Digests) {db : Store} (S : Completions db) (ops : List Op) :
    Completions (run D db ops) :=
  run_invariant (fun _ h S => S.transact h) (meets_of_forall (Op.meets_none D) db ops) S

/-- A terminal workload keeps its state and its revision. -/
def LedgersKept (db db' : Store) : Prop :=
  ∀ k w, db.workloads.find? k = some w → w.state.terminal = true →
    ∃ w', db'.workloads.find? k = some w' ∧ w'.ledger = w.ledger

theorem LedgersKept.trans {a b c : Store} (h : LedgersKept a b) (h' : LedgersKept b c) :
    LedgersKept a c := by
  intro k w hw hterminal
  obtain ⟨w', hw', hledger⟩ := h k w hw hterminal
  have hstate : w'.state = w.state := congrArg Prod.fst hledger
  obtain ⟨w'', hw'', hledger'⟩ := h' k w' hw' (by rw [hstate]; exact hterminal)
  exact ⟨w'', hw'', hledger'.trans hledger⟩

theorem Write.ledgersKept {D : Digests} {op : Op} {db db' : Store} (h : Write D op db db') :
    LedgersKept db db' := by
  have same : ∀ {j w}, db.workloads.find? j = some w →
      (db'.workloads.find? j).map Workload.ledger = (db.workloads.find? j).map Workload.ledger →
      ∃ w', db'.workloads.find? j = some w' ∧ w'.ledger = w.ledger := by
    intro j w hj heq
    rw [hj, Option.map_some] at heq
    exact Option.map_eq_some_iff.mp heq
  intro k w hw hterminal
  cases h with
  | quiet history facts results tokens => exact same hw (history.workloads k)
  | result r recorded history facts tokens => exact same hw (history.workloads k)
  | admitted ids workloadId adm v now admits valid history results done =>
    exact same hw (history.workloads k)
  | draft j drafted facts results tokens =>
    have hj : k ≠ j := by
      rintro rfl
      rw [drafted.fresh] at hw
      cases hw
    exact same hw (by rw [drafted.others k hj])
  | move j v v' moved facts results tokens =>
    by_cases hj : k = j
    · subst hj
      obtain rfl : v = w := Option.some.inj (moved.before.symm.trans hw)
      have hedge := moved.edge
      rw [canTransitionWorkload_terminal hterminal] at hedge
      cases hedge
    · exact same hw (moved.others k hj)

theorem run_ledgersKept (D : Digests) (db : Store) (later : List Op) :
    LedgersKept db (run D db later) := by
  have refl : ∀ a, LedgersKept a a := fun _ _ w hw _ => ⟨w, hw, rfl⟩
  refine run_rel (R := LedgersKept) refl LedgersKept.trans (fun {a op b} _ h => ?_)
    (meets_of_forall (fun _ _ => trivial : ∀ (_ : Store) (_ : Op), True) db later)
  have writes := transact_writes h
  clear h
  induction writes with
  | refl => exact refl a
  | tail _ write ih => exact ih.trans write.ledgersKept

/-- **Completion.**  A completed workload has finished its active revision, in every reachable
store, and it stays completed with that revision finished in every later one; a workload becomes
completed, with or without errors, only while it is running. -/
theorem completion_sound (D : Digests) (ops later : List Op) (op : Op) :
    (∀ k w, (run D Store.empty ops).workloads.find? k = some w → w.state = .completed →
      ∃ r, w.activeRevisionId = some r ∧ Finished (run D Store.empty ops) r ∧
        Finished (run D Store.empty (ops ++ later)) r ∧
        ∃ w', (run D Store.empty (ops ++ later)).workloads.find? k = some w' ∧
          w'.state = .completed ∧ w'.activeRevisionId = some r) ∧
    ∀ k w', (step D (run D Store.empty ops) op).workloads.find? k = some w' →
      w'.state = .completed ∨ w'.state = .completedWithErrors →
      ∃ w, (run D Store.empty ops).workloads.find? k = some w ∧
        (w.state = w'.state ∨ w.state = .running) := by
  have sound := run_completions D completions_empty
  refine ⟨fun k w hw hdone => ?_, fun k w' hw' hdone => ?_⟩
  · obtain ⟨r, hact, -, F⟩ := (sound ops).completed k w hw hdone
    obtain ⟨w', hw', hledger⟩ := run_ledgersKept D (run D Store.empty ops) later k w hw
      (by rw [hdone]; rfl)
    rw [← run_later] at hw'
    simp only [Workload.ledger, Prod.mk.injEq] at hledger
    have hdone' := hledger.1.trans hdone
    have hact' := hledger.2.2.2.trans hact
    obtain ⟨r', hact'', -, F'⟩ := (sound (ops ++ later)).completed k w' hw' hdone'
    obtain rfl : r' = r := Option.some.inj (hact''.symm.trans hact')
    exact ⟨r', hact, F, F', w', hw', hdone', hact'⟩
  · unfold step commit at hw'
    split at hw'
    · rename_i db' h
      have hassessed : w'.state.assessed = true := by simpa [WorkloadState.assessed] using hdone
      rcases transact_assessed h hw' hassessed with ⟨w, hw, hledger⟩ | ⟨w, -, -, hw, hrunning, -⟩
      · exact ⟨w, hw, .inl (congrArg Prod.fst hledger)⟩
      · exact ⟨w, hw, .inr hrunning⟩
    · exact ⟨w', hw', .inl rfl⟩

/-- One source is extracted and the workload assessed. -/
def completedRun : List Op :=
  let lease := sampleLease 1 1 sampleMap 100 7 1000 1 4 false
  sampleStart 1 1 [sampleInventory, sampleMap] 1000 [7] ++
  [sampleClaim 1000 4, .markRunning lease 5,
    .commitResult lease ⟨"result/1", ⟨10, none⟩, 3⟩ [] ⟨1, 2000⟩ 6,
    .evaluateCompletion ⟨1, 1⟩ [] 0 7]

/-- The workload of the run is completed; cancelling it does not change that. -/
theorem completion_sound_sample :
    let later := [Op.control ⟨1, 1⟩ .cancel 9 5 8]
    (∃ w, (run sampleDigests Store.empty completedRun).workloads.find? ⟨1, 1⟩ = some w ∧
      w.state = .completed) ∧
    Finished (run sampleDigests Store.empty (completedRun ++ later)) ⟨1, 1⟩ := by
  intro later
  have hrow : ((run sampleDigests Store.empty completedRun).workloads.find? ⟨1, 1⟩).map
      (fun w => (w.state, w.activeRevisionId)) = some (.completed, some ⟨1, 1⟩) := by decide +kernel
  obtain ⟨w, hw, hids⟩ := Option.map_eq_some_iff.mp hrow
  simp only [Prod.mk.injEq] at hids
  obtain ⟨r, hact, -, F, -⟩ := (completion_sound sampleDigests completedRun later
    (sampleClaim 1001 9)).1 _ w hw hids.1
  obtain rfl : r = ⟨1, 1⟩ := Option.some.inj (hact.symm.trans hids.2)
  exact ⟨⟨w, hw, hids.1⟩, F⟩

end Metnos.Durable
