import Metnos.Durable.Shape

/-!
# Durable.Frame — one result per unit, written under the current lease

Results are only ever added, one per unit, and by the holder of the unit's current fence; a call
with a superseded lease changes no row.
-/

namespace Metnos.Durable

open Transaction

section
variable {D : Digests} {G : Guard} {P : Stage → ℕ → Cell → Prop} {db db' : Store}

theorem mem_resultsOf {k : Key} {r : ResultRow} :
    r ∈ db.resultsOf k ↔ r ∈ db.results.rows ∧ r.unitId = k := by
  simp [Store.resultsOf]

theorem CellStep.results_cases {s : Stage} {g : ℕ} {aside : UnitRow → Prop}
    {result : UnitRow → ResultRow → Prop} {c c' : Cell} (h : CellStep s g aside result c c') :
    c'.results = c.results ∨ c.results = [] ∧ ∃ r, c'.results = [r] ∧ result c.unit r := by
  cases h with
  | commit a r now holds unit attempt first owner revision attemptId fence allowed =>
    exact .inr ⟨first, r, rfl, allowed⟩
  | adopt attempt r now unit count active pure fresh first owner revision attemptId fence allowed =>
    exact .inr ⟨first, r, rfl, allowed⟩
  | _ => exact .inl rfl

/-! ## Results only grow -/

/-- Results stay, and a new one is allowed by the guard. -/
structure ResultsGrow (G : Guard) (db db' : Store) : Prop where
  keep : ∀ r ∈ db.results.rows, r ∈ db'.results.rows
  new : ∀ r ∈ db'.results.rows, r ∉ db.results.rows → ∃ u, G.result u r

theorem ResultsGrow.of_eq (h : db'.results = db.results) : ResultsGrow G db db' :=
  ⟨fun r hr => by rw [h]; exact hr, fun r hr hn => absurd (h ▸ hr) hn⟩

theorem ResultsGrow.trans {a b c : Store} (h : ResultsGrow G a b) (h' : ResultsGrow G b c) :
    ResultsGrow G a c := by
  refine ⟨fun r hr => h'.keep r (h.keep r hr), fun r hr hn => ?_⟩
  by_cases hb : r ∈ b.results.rows
  · exact h.new r hb hn
  · exact h'.new r hr hb

theorem ResultsGrow.of_units (h : ∀ k, db'.resultsOf k = db.resultsOf k ∨
      db.resultsOf k = [] ∧ ∃ r u, db'.resultsOf k = [r] ∧ G.result u r) :
    ResultsGrow G db db' := by
  constructor
  · intro r hr
    have hm : r ∈ db.resultsOf r.unitId := mem_resultsOf.mpr ⟨hr, rfl⟩
    rcases h r.unitId with heq | ⟨hnil, -⟩
    · exact (mem_resultsOf.mp (heq ▸ hm)).1
    · rw [hnil] at hm
      cases hm
  · intro r hr hn
    have hm : r ∈ db'.resultsOf r.unitId := mem_resultsOf.mpr ⟨hr, rfl⟩
    rcases h r.unitId with heq | ⟨-, x, u, hx, hallowed⟩
    · exact absurd (mem_resultsOf.mp (heq ▸ hm)).1 hn
    · rw [hx, List.mem_singleton] at hm
      exact ⟨u, hm ▸ hallowed⟩

theorem Act.resultsGrow (h : Act D G db db') (L : Linked P db) : ResultsGrow G db db' := by
  cases h with
  | cells frame old new =>
    refine .of_units fun k => ?_
    cases hu : db.units.find? k with
    | none => exact .inl (new k hu).2.2
    | some u =>
      obtain ⟨u', hu', change⟩ := old k u hu
      obtain rfl : u.id = k := Table.key_of_find? hu
      have hid : u'.id = u.id := Table.key_of_find? hu'
      rcases change with hcell | hstep
      · have hr : db'.resultsOf u'.id = db.resultsOf u.id := congrArg Cell.results hcell
        rw [hid] at hr
        exact .inl hr
      · obtain ⟨s, g, hs, hg, -⟩ := L.cells hu
        have hr : db'.resultsOf u'.id = db.resultsOf u.id ∨ db.resultsOf u.id = [] ∧
            ∃ r, db'.resultsOf u'.id = [r] ∧ G.result u r := (hstep s g hs hg).results_cases
        rw [hid] at hr
        exact hr.imp_right fun ⟨hnil, r, hr, hallowed⟩ => ⟨hnil, r, u, hr, hallowed⟩
  | grant revision allowed blocked granted => exact .of_eq granted.results
  | round m cursor next revision allowed done => exact .of_eq (materializeRound_cells done).results
  | admitted ids workloadId adm now allowed valid done =>
    exact .of_eq (insertRevisionRows_admitted done).results

theorem Acts.resultsGrow (rule : CellRule G P) (h : Acts D G db db') (L : Linked P db) :
    ResultsGrow G db db' := by
  induction h with
  | refl => exact .of_eq rfl
  | tail acts act ih => exact ih.trans (act.resultsGrow (Acts.linked rule acts L))

/-! ## The lease under which a result is written -/

/-- The unit's attempt and fence at the moment `r` is written: the lease it is held under, or the
attempt that reuse makes for an unclaimed unit. -/
def WrittenUnder (db : Store) (r : ResultRow) : Prop :=
  ∃ u, db.units.find? r.unitId = some u ∧
    (u.activeAttemptId = some r.attemptId ∧ u.fence = r.fence ∨
      u.activeAttemptId = none ∧ r.fence = u.fence + 1)

/-- Only results written under the current lease. -/
def Guard.current (db : Store) : Guard := { Guard.none with result := fun _ r => WrittenUnder db r }

theorem Op.meets_current (op : Op) : op.meets D (Guard.current db) db := by
  unfold Op.meets
  split
  · rintro c hc
    have F := reuseCandidate_facts hc
    refine ⟨fun _ => trivial, fun r hunit hfence => ⟨c.unit, ?_, .inr ⟨F.active, hfence⟩⟩⟩
    rw [hunit]
    exact F.unit
  · rintro u r hu hactive hfence hunit hattempt hrfence
    refine ⟨u, by rw [hunit]; exact hu, .inl ⟨by rw [hattempt]; exact hactive, ?_⟩⟩
    rw [hrfence]
    exact hfence
  · exact fun _ _ _ _ => trivial
  · exact fun _ _ _ _ _ => roundsMeet_of_forall (fun _ _ _ => trivial) _ _ _ _ _
  · trivial
  · trivial

theorem step_resultsGrow (op : Op) (L : Linked (fun _ _ c => c.Shape) db) :
    ResultsGrow (Guard.current db) db (step D db op) := by
  unfold step commit
  cases h : transact D db op with
  | error e => exact .of_eq rfl
  | ok db' => exact (transact_acts op.meets_current h).resultsGrow (shape_rule _) L

theorem run_results_keep (L : Linked (fun _ _ c => c.Shape) db) (ops : List Op) :
    ∀ r ∈ db.results.rows, r ∈ (run D db ops).results.rows :=
  run_linked_rel (R := fun a b => ∀ r ∈ a.results.rows, r ∈ b.results.rows) (fun _ _ h => h)
    (fun h h' r hr => h' r (h r hr)) (shape_rule Guard.none) (fun L h => (h.resultsGrow L).keep) L
    (meets_of_forall (Op.meets_none D) _ _)

theorem result_unique (L : Linked (fun _ _ c => c.Shape) db) {r r' : ResultRow}
    (hr : r ∈ db.results.rows) (hr' : r' ∈ db.results.rows) (h : r.unitId = r'.unitId) : r = r' := by
  have hm : r ∈ db.resultsOf r.unitId := mem_resultsOf.mpr ⟨hr, rfl⟩
  have hm' : r' ∈ db.resultsOf r.unitId := mem_resultsOf.mpr ⟨hr', h.symm⟩
  cases hu : db.units.find? r.unitId with
  | none =>
    rw [(L.orphans hu).2] at hm
    cases hm
  | some u =>
    obtain ⟨s, g, -, -, S⟩ := L.cells hu
    have hk : u.id = r.unitId := Table.key_of_find? hu
    have hcell : (db.cell u).results = db.resultsOf r.unitId := congrArg db.resultsOf hk
    by_cases hc : u.state = .committed
    · obtain ⟨x, hx, -⟩ := S.committed.result hc
      rw [← hcell, hx, List.mem_singleton] at hm hm'
      rw [hm, hm']
    · have hnil := (S.committed.none hc).1
      rw [← hcell, hnil] at hm
      cases hm

theorem result_unit (L : Linked (fun _ _ c => c.Shape) db) {r : ResultRow}
    (hr : r ∈ db.results.rows) : ∃ u a, db.units.find? r.unitId = some u ∧
      db.attempts.find? r.attemptId = some a ∧ a.unitId = r.unitId ∧ a.fence = r.fence ∧
      u.fence = r.fence ∧ u.committedResultId = some r.id := by
  have hm : r ∈ db.resultsOf r.unitId := mem_resultsOf.mpr ⟨hr, rfl⟩
  cases hu : db.units.find? r.unitId with
  | none =>
    rw [(L.orphans hu).2] at hm
    cases hm
  | some u =>
    obtain ⟨s, g, -, -, S⟩ := L.cells hu
    have hk : u.id = r.unitId := Table.key_of_find? hu
    have hcell : (db.cell u).results = db.resultsOf r.unitId := congrArg db.resultsOf hk
    rw [← hcell] at hm
    by_cases hc : u.state = .committed
    · obtain ⟨x, hx, hcommitted, -, -, hfence, a, ha, haid, hafence, -⟩ := S.committed.result hc
      rw [hx, List.mem_singleton] at hm
      subst hm
      obtain ⟨ha, haunit⟩ := mem_attemptsOf.mp ha
      refine ⟨u, a, rfl, ?_, haunit.trans hk, hafence.trans hfence.symm, hfence.symm, hcommitted⟩
      rw [← haid]
      exact Table.find?_of_mem ha
    · rw [(S.committed.none hc).1] at hm
      cases hm

/-! ## Superseded leases -/

/-- The lease's fence is not the unit's current one. -/
def Lease.Superseded (lease : Lease) (db : Store) : Prop :=
  ∀ u, db.units.find? lease.unitId = some u → u.fence ≠ lease.fence

theorem withLease_superseded {β : Type} {stale b : β} {lease : Lease}
    {body : LeaseRow → Attempt → Tx (β × Store)} (stalled : lease.Superseded db)
    (h : withLease db lease stale body = .ok (b, db')) : db' = db := by
  rcases withLease_ok h with h | ⟨row, a, F, -⟩
  · exact h
  · exact absurd F.unitFence (stalled _ F.unit)

theorem transact_superseded {op : Op} {lease : Lease} (hl : op.lease? = some lease)
    (stalled : lease.Superseded db) (h : transact D db op = .ok db') : db' = db := by
  cases op <;> simp only [Op.lease?, Option.some.injEq, reduceCtorEq] at hl <;> subst hl <;>
    obtain ⟨b, h⟩ := stored_ok h
  case markRunning => exact withLease_superseded stalled h
  case heartbeat =>
    unfold heartbeat at h
    simp only [bind_eq_ok] at h
    obtain ⟨-, -, h⟩ := h
    exact withLease_superseded stalled h
  case executionInputs => exact withLease_superseded stalled h
  case recordExecutionFacts => exact withLease_superseded stalled h
  case recordAttemptUsage =>
    unfold recordAttemptUsage at h
    simp only [bind_eq_ok] at h
    obtain ⟨-, -, h⟩ := h
    exact withLease_superseded stalled h
  case commitResult =>
    unfold commitResult at h
    simp only [bind_eq_ok] at h
    obtain ⟨-, -, h⟩ := h
    split at h
    · simp only [pure_eq_ok, Prod.mk.injEq] at h
      exact h.2.symm
    · exact withLease_superseded stalled h
  case failAttempt => exact withLease_superseded stalled h
  case abandonAttempt =>
    unfold abandonAttempt at h
    split at h
    · cases h; rfl
    · split at h
      · cases h; rfl
      · exact withLease_superseded stalled h

end

/-! ## The result of a unit -/

/-- For any number of workers and any interleaving: a unit has at most one result over the whole
run; a result that an operation writes carries the attempt and the fence that are the unit's
current ones; an operation whose lease was superseded changes no unit, attempt, result or usage
row. -/
theorem result_exclusive (D : Digests) (ops later : List Op) (op : Op) :
    (∀ r ∈ (run D Store.empty ops).results.rows,
      ∀ r' ∈ (run D Store.empty (ops ++ later)).results.rows, r.unitId = r'.unitId → r = r') ∧
    (∀ r ∈ (step D (run D Store.empty ops) op).results.rows,
      r ∉ (run D Store.empty ops).results.rows →
      WrittenUnder (run D Store.empty ops) r ∧
      ∃ u a, (step D (run D Store.empty ops) op).units.find? r.unitId = some u ∧
        (step D (run D Store.empty ops) op).attempts.find? r.attemptId = some a ∧
        a.unitId = r.unitId ∧ a.fence = r.fence ∧ u.fence = r.fence ∧
        u.committedResultId = some r.id) ∧
    (∀ lease, op.lease? = some lease → lease.Superseded (run D Store.empty ops) →
      let db := run D Store.empty ops
      let db' := step D db op
      db'.units = db.units ∧ db'.attempts = db.attempts ∧ db'.results = db.results ∧
        db'.usage = db.usage) := by
  have L := run_shape D ops
  refine ⟨fun r hr r' hr' h => ?_, fun r hr hn => ?_, fun lease hl stalled => ?_⟩
  · rw [run_later] at hr'
    exact result_unique (run_later D _ ops later ▸ run_shape D (ops ++ later))
      (run_results_keep L later r hr) hr' h
  · obtain ⟨u, hw⟩ := (step_resultsGrow op L).new r hr hn
    exact ⟨hw, result_unit (run_snoc D _ ops op ▸ run_shape D (ops ++ [op])) hr⟩
  · dsimp only
    have hstep : step D (run D Store.empty ops) op = run D Store.empty ops := by
      unfold step commit
      cases h : transact D (run D Store.empty ops) op with
      | error e => rfl
      | ok db' => exact transact_superseded hl stalled h
    rw [hstep]
    exact ⟨rfl, rfl, rfl, rfl⟩

end Metnos.Durable

/-!
## What a stage sees of the acts of others

Between two rounds on a stage its units keep their identity, finished units stay finished, bound
dependencies stay bound.  `Evolution` says so for the units of one stage and `KeepsBindings` for
the dependencies; every act is one or the other for the stages it does not work on.
-/

namespace Metnos.Durable

open Transaction

/-! ## Finished and blocked units -/

/-- Reasons for which a reduction is set aside before it has inputs. -/
def UnitError.unavailable (e : UnitError) : Bool :=
  e = .dependencyResultUnavailable || e = .dependencyInputTooLarge || e = .reductionNotConverging

/-- A group in attention for lack of inputs that no retry was granted to. -/
structure Blocked (db : Store) (u : UnitRow) : Prop where
  level : u.reductionLevel.isSome = true
  state : u.state = .needsAttention
  error : u.errorClass.any UnitError.unavailable = true
  generation : db.generation u.revisionId = some u.manualRetryGeneration

theorem CellStep.terminal {s : Stage} {g : ℕ} {aside : UnitRow → Prop}
    {result : UnitRow → ResultRow → Prop} {c c' : Cell} (h : CellStep s g aside result c c')
    (ht : c.unit.state.terminal = true) : c'.unit.state = c.unit.state := by
  cases h with
  | amend => rfl
  | lease _ _ _ _ ready =>
    rcases ready with ⟨hp, -⟩ | ⟨hp, -⟩ <;> rw [hp] at ht <;> cases ht
  | extend _ _ unit | release _ _ _ _ _ _ _ _ _ unit =>
    rcases unit with hu | hu <;> rw [hu] at ht <;> cases ht
  | cancel _ unit => rcases unit with hu | hu | hu <;> rw [hu] at ht <;> cases ht
  | start _ _ _ _ unit | commit _ _ _ _ unit | promote _ unit | exhaust _ unit
  | adopt _ _ _ unit | setAside _ _ unit => rw [unit] at ht; cases ht

theorem CellStep.blocked {s : Stage} {g : ℕ} {aside : UnitRow → Prop}
    {result : UnitRow → ResultRow → Prop} {c c' : Cell} (h : CellStep s g aside result c c')
    (hs : c.unit.state = .needsAttention) (hg : c.unit.manualRetryGeneration = g) :
    c'.unit.state = .cancelled ∨ c'.unit = c.unit := by
  cases h with
  | amend => exact .inr rfl
  | cancel => exact .inl rfl
  | lease _ _ _ _ ready =>
    rcases ready with ⟨hp, -⟩ | ⟨-, hlt⟩
    · rw [hs] at hp
      cases hp
    · omega
  | extend _ _ unit | release _ _ _ _ _ _ _ _ _ unit =>
    rcases unit with hu | hu <;> rw [hs] at hu <;> cases hu
  | start _ _ _ _ unit | commit _ _ _ _ unit | promote _ unit | exhaust _ unit
  | adopt _ _ _ unit | setAside _ _ unit => rw [hs] at unit; cases unit

/-! ## Evolution of a stage -/

section
variable {D : Digests} {G : Guard} {P : Stage → ℕ → Cell → Prop} {db db' : Store}

/-- The units of the stage `x` are the same, up to what their owner and workers do to them. -/
structure Evolution (x : Key) (db db' : Store) : Prop where
  old : ∀ k u, db.units.find? k = some u → u.stageId = x → ∃ u', db'.units.find? k = some u' ∧
    u'.identity = u.identity ∧ (u.state.terminal = true → u'.state = u.state) ∧
    (Blocked db u → Blocked db' u' ∨ u'.state = .cancelled)
  new : ∀ k u', db'.units.find? k = some u' → u'.stageId = x →
    ∃ u, db.units.find? k = some u ∧ u.stageId = x

/-- Dependencies of existing units and results stay. -/
structure KeepsBindings (db db' : Store) : Prop where
  dependencies : ∀ k u, db.units.find? k = some u → unitDependenciesOf db' k = unitDependenciesOf db k
  results : ∀ id r, db.results.find? id = some r → db'.results.find? id = some r

/-- A round on the stage `t`, as the other stages see it. -/
structure RoundFrame (t : Key) (db db' : Store) : Prop where
  stages : db'.stages = db.stages
  revisions : db'.revisions = db.revisions
  results : db'.results = db.results
  cursors : ∀ j, j ≠ t → db'.cursors.find? j = db.cursors.find? j
  legacy : ∀ j c, db'.cursors.find? j = some c → db.cursors.find? j = some c ∨ c.legacyReplay = false
  dependencies : ∀ k u, db.units.find? k = some u → unitDependenciesOf db' k = unitDependenciesOf db k
  old : ∀ k u, db.units.find? k = some u → u.stageId ≠ t → db'.units.find? k = some u
  new : ∀ k u', db'.units.find? k = some u' → u'.stageId ≠ t → db.units.find? k = some u'
  distinct : DistinctUnits db → DistinctUnits db'

theorem RoundFrame.evolution {t x : Key} (F : RoundFrame t db db') (hx : x ≠ t) :
    Evolution x db db' := by
  constructor
  · intro k u hu hs
    refine ⟨u, F.old k u hu (hs ▸ hx), rfl, fun _ => rfl, fun B => .inl ⟨B.level, B.state, B.error, ?_⟩⟩
    rw [Store.generation, F.revisions]
    exact B.generation
  · exact fun k u' hu' hs => ⟨u', F.new k u' hu' (hs ▸ hx), hs⟩

theorem RoundFrame.keeps {t : Key} (F : RoundFrame t db db') : KeepsBindings db db' :=
  ⟨F.dependencies, fun id r h => by rw [F.results]; exact h⟩

/-! ## Rounds -/

theorem insertBinding_filter {k j : Key} (hk : k ≠ j) {rows : List UnitDependency}
    {d : UnitDependency} (hd : d.unitId = j) :
    (insertBinding rows d).filter (fun x => x.unitId = k) = rows.filter (fun x => x.unitId = k) := by
  unfold insertBinding
  split
  · rfl
  · rw [List.filter_append]
    simp [hd, Ne.symm hk]

theorem insertBindings_filter {k j : Key} (hk : k ≠ j) {l rows : List UnitDependency}
    (hl : ∀ d ∈ l, d.unitId = j) :
    (l.foldl insertBinding rows).filter (fun x => x.unitId = k) =
      rows.filter (fun x => x.unitId = k) := by
  induction l generalizing rows with
  | nil => rfl
  | cons d l ih =>
    rw [List.foldl_cons, ih fun x hx => hl x (List.mem_cons_of_mem _ hx)]
    exact insertBinding_filter hk (hl d (List.mem_cons_self ..))

theorem expectedBindings_unit {k : Key} {c : CandidateUnit} :
    ∀ d ∈ expectedBindings k c, d.unitId = k := by
  intro d hd
  obtain ⟨x, -, rfl⟩ := List.mem_map.mp hd
  rfl

/-- What inserting a candidate does, for a cursor that replays nothing: nothing but a note on the
cursor, or one new unit bound to its dependencies. -/
inductive Inserted (D : Digests) (m : Round) (c : CandidateUnit) (cursor : StageCursor)
    (db : Store) : Store → StageCursor → Prop
  | noted (code : AttentionCode) :
      Inserted D m c cursor db db { cursor with attentionCode := some code }
  | inserted {db' : Store} (id : Key) (units : Table UnitRow Key UnitRow.id)
      (fresh : db.units.find? id = none)
      (distinct : ∀ v ∈ db.units.rows,
        unitConflict (makeCandidate D m.stage m.revision c id m.now) v = false)
      (insert : db.units.insert? (makeCandidate D m.stage m.revision c id m.now) = some units)
      (after : db' = { db with
        units := units
        unitDependencies := (expectedBindings id c).foldl insertBinding db.unitDependencies })
      (bound : ((unitDependenciesOf db' id).take (maxUnitDependencies + 1)).map
          (fun d => (d.sourceResultId, d.slice, d.role)) =
        (expectedBindings id c).map (fun d => (d.sourceResultId, d.slice, d.role))) :
      Inserted D m c cursor db db'
        { cursor with unitCount := cursor.unitCount + 1, legacyReplay := false }

theorem insertCandidate_inserted {m : Round} {cursor cursor' : StageCursor} {c : CandidateUnit}
    (legacy : cursor.legacyReplay = false)
    (h : insertCandidate D m db cursor c = .ok (db', cursor')) :
    Inserted D m c cursor db db' cursor' := by
  unfold insertCandidate at h
  split at h
  · rw [if_neg (by rw [legacy]; simp)] at h
    split at h
    · cases h
      exact .noted _
    · cases h
  · split at h
    · cases h
      exact .noted _
    · simp only [bind_eq_ok, pure_eq_ok, Prod.mk.injEq] at h
      obtain ⟨db1, h1, db2, h2, rfl, rfl⟩ := h
      obtain ⟨distinct, units, insert, rfl⟩ := insertUnit_ok h1
      obtain ⟨rfl, bound⟩ := bindDependencies_ok h2
      exact .inserted _ units (Table.insert?_some insert).1 distinct insert rfl bound

theorem saveCursor_cursors {cursor : StageCursor} (h : saveCursor db cursor = .ok db') {j : Key}
    (hj : j ≠ cursor.stageId) : db'.cursors.find? j = db.cursors.find? j := by
  obtain ⟨cursors, hc, rfl⟩ := saveCursor_ok h
  obtain ⟨r, -, -, rfl⟩ := Table.cas_some hc
  exact Table.find?_update_ne cursor.overwrite_stageId hj

theorem saveCursor_self {cursor : StageCursor} (h : saveCursor db cursor = .ok db')
    (legacy : cursor.legacyReplay = false) :
    db'.cursors.find? cursor.stageId = some cursor := by
  obtain ⟨cursors, hc, rfl⟩ := saveCursor_ok h
  obtain ⟨r, hr, hrev, rfl⟩ := Table.cas_some hc
  dsimp only
  rw [Table.find?_update_self cursor.overwrite_stageId hr]
  unfold StageCursor.overwrite
  rw [legacy, Table.key_of_find? hr]
  cases cursor
  simp_all

theorem RoundFrame.save {t : Key} {db1 : Store} {cursor : StageCursor}
    (F : RoundFrame t db db1) (h : saveCursor db1 cursor = .ok db') (ht : cursor.stageId = t)
    (legacy : cursor.legacyReplay = false) : RoundFrame t db db' := by
  have hc := fun j (hj : j ≠ t) => saveCursor_cursors h (ht ▸ hj)
  have hself := saveCursor_self h legacy
  obtain ⟨cursors, -, rfl⟩ := saveCursor_ok h
  refine ⟨F.stages, F.revisions, F.results, fun j hj => (hc j hj).trans (F.cursors j hj),
    fun j c hj => ?_, F.dependencies, F.old, F.new, F.distinct⟩
  by_cases hjt : j = t
  · rw [hjt, ← ht, hself] at hj
    cases hj
    exact .inr legacy
  · rw [hc j hjt] at hj
    exact F.legacy j c hj

theorem RoundFrame.refl (t : Key) (db : Store) : RoundFrame t db db :=
  ⟨rfl, rfl, rfl, fun _ _ => rfl, fun _ _ h => .inl h, fun _ _ _ => rfl, fun _ _ h _ => h,
    fun _ _ h _ => h, fun U => U⟩

theorem Inserted.frame {m : Round} {c : CandidateUnit} {cursor cursor' : StageCursor}
    (I : Inserted D m c cursor db db' cursor') : RoundFrame m.stage.id db db' := by
  cases I with
  | noted code => exact .refl _ db
  | inserted id units fresh distinct insert after bound =>
    subst after
    refine ⟨rfl, rfl, rfl, fun _ _ => rfl, fun _ _ h => .inl h, fun k u hu => ?_,
      fun k u hu _ => ?_, fun k u' hu' hs => ?_, fun U => U.insert distinct insert rfl⟩
    · have hk : k ≠ id := by
        rintro rfl
        rw [fresh] at hu
        cases hu
      unfold unitDependenciesOf
      dsimp only
      rw [insertBindings_filter hk expectedBindings_unit]
    · dsimp only
      rw [find_insert insert, if_neg]
      · exact hu
      · intro hk
        rw [hk] at hu
        exact absurd (fresh.symm.trans hu) (by simp)
    · dsimp only at hu'
      rw [find_insert insert] at hu'
      split at hu'
      · cases hu'
        exact absurd rfl hs
      · exact hu'

theorem insertAndSave_frame {m : Round} {cursor : StageCursor} {c : CandidateUnit}
    {advance : StageCursor → StageCursor} (h : insertAndSave D m db cursor c advance = .ok db')
    (hc : cursor.stageId = m.stage.id) (legacy : cursor.legacyReplay = false)
    (keeps : ∀ x : StageCursor, x.Keeps (advance x)) :
    RoundFrame m.stage.id db db' := by
  unfold insertAndSave at h
  simp only [bind_eq_ok, Prod.exists] at h
  obtain ⟨db1, cursor1, h1, h2⟩ := h
  have I := insertCandidate_inserted legacy h1
  refine I.frame.save h2 ?_ ?_
  · rw [(keeps cursor1).stageId]
    cases I <;> exact hc
  · rw [(keeps cursor1).legacyReplay]
    cases I
    · exact legacy
    · rfl

theorem markRoot_frame {m : Round} {root : UnitRow} (hr : db.units.find? root.id = some root)
    (hs : root.stageId = m.stage.id) (h : markRoot db root m.now = .ok db') :
    RoundFrame m.stage.id db db' := by
  unfold markRoot at h
  simp only [bind_eq_ok] at h
  obtain ⟨-, -, h⟩ := h
  obtain ⟨v, -, -, rfl⟩ := casUnit_ok h
  refine ⟨rfl, rfl, rfl, fun _ _ => rfl, fun _ _ h => .inl h, fun _ _ _ => rfl,
    fun k u hu hne => ?_, fun k u' hu' hne => ?_, fun U => U.keep fun k u' hu' => ?_⟩
  · have hk : k ≠ root.id := by
      rintro rfl
      obtain rfl : u = root := Option.some.inj (hu.symm.trans hr)
      exact hne hs
    dsimp only
    rw [Table.find?_update_ne _ hk]
    exact hu
  · dsimp only at hu'
    by_cases hk : k = root.id
    · rw [hk, Table.find?_update_self _ hr] at hu'
      cases hu'
      exact absurd hs hne
    · rw [Table.find?_update_ne _ hk] at hu'
      exact hu'
  · dsimp only at hu'
    obtain ⟨u, hu, rfl⟩ := Table.find?_updateWhere_some hu'
    refine ⟨u, hu, ?_⟩
    split
    · exact ⟨rfl, rfl, rfl⟩
    · exact ⟨rfl, rfl, rfl⟩

theorem levelRoot_facts {s : Stage} {level : ℕ} {root : UnitRow}
    (h : levelRoot db s level = some root) : db.units.find? root.id = some root ∧
      inLevel s level root = true := by
  have hm := Table.mem_select (List.mem_of_head? h)
  exact ⟨Table.find?_of_mem hm.1, hm.2⟩

theorem inLevel_iff {s : Stage} {level : ℕ} {u : UnitRow} : inLevel s level u = true ↔
    u.revisionId = s.revisionId ∧ u.stageId = s.id ∧ u.reductionLevel = some level := by
  simp [inLevel, and_assoc]

theorem materializeRound_frame {m : Round} {cursor : StageCursor}
    (hc : cursor.stageId = m.stage.id) (legacy : cursor.legacyReplay = false)
    (h : materializeRound D m db cursor = .ok db') : RoundFrame m.stage.id db db' := by
  cases materializeRound_write h with
  | saved cursor' done keeps =>
    exact (RoundFrame.refl _ db).save done (keeps.stageId.trans hc) (keeps.legacyReplay.trans legacy)
  | inserted c advance done keeps => exact insertAndSave_frame done hc legacy keeps
  | rooted level root db1 cursor' picked marked done keeps =>
    obtain ⟨hfind, hin⟩ := levelRoot_facts picked
    exact (markRoot_frame hfind (inLevel_iff.mp hin).2.1 marked).save done
      (keeps.stageId.trans hc) (keeps.legacyReplay.trans legacy)

/-! ## Other acts -/

theorem cells_evolution (L : Linked P db) (frame : SameFrame db db')
    (old : ∀ k u, db.units.find? k = some u →
      ∃ u', db'.units.find? k = some u' ∧ CellChange G db db' u u')
    (new : ∀ k, db.units.find? k = none → db'.units.find? k = none ∧
      db'.attemptsOf k = db.attemptsOf k ∧ db'.resultsOf k = db.resultsOf k) (x : Key) :
    Evolution x db db' := by
  constructor
  · intro k u hu _
    obtain ⟨u', hu', change⟩ := old k u hu
    refine ⟨u', hu', ?_⟩
    rcases change with hcell | step
    · obtain rfl : u' = u := congrArg Cell.unit hcell
      refine ⟨rfl, fun _ => rfl, fun B => .inl ⟨B.level, B.state, B.error, ?_⟩⟩
      rw [frame.generation]
      exact B.generation
    · obtain ⟨s, g, hs, hg, -⟩ := L.cells hu
      have step := step s g hs hg
      refine ⟨step.identity_eq, step.terminal, fun B => ?_⟩
      have hgen : u.manualRetryGeneration = g := Option.some.inj (B.generation.symm.trans hg)
      rcases step.blocked B.state hgen with h | h
      · exact .inr h
      · obtain rfl : u' = u := h
        exact .inl ⟨B.level, B.state, B.error, (frame.generation _).trans B.generation⟩
  · intro k u' hu' hs'
    cases hu : db.units.find? k with
    | some u =>
      obtain ⟨v, hv, change⟩ := old k u hu
      obtain rfl : u' = v := Option.some.inj (hu'.symm.trans hv)
      refine ⟨u, rfl, ?_⟩
      rcases change with hcell | step
      · obtain rfl : u' = u := congrArg Cell.unit hcell
        exact hs'
      · obtain ⟨s, g, hs, hg, -⟩ := L.cells hu
        exact (stageId_of_identity (step s g hs hg).identity_eq).symm.trans hs'
    | none =>
      rw [(new k hu).1] at hu'
      cases hu'

theorem ResultsGrow.find (R : ResultsGrow G db db') {id : Key} {r : ResultRow}
    (h : db.results.find? id = some r) : db'.results.find? id = some r := by
  have hid := Table.key_of_find? h
  rw [← hid]
  exact Table.find?_of_mem (R.keep r (Table.mem_of_find? h))

theorem SameFrame.keeps (F : SameFrame db db') (R : ResultsGrow G db db') : KeepsBindings db db' := by
  refine ⟨fun k u _ => ?_, fun id r h => R.find h⟩
  unfold unitDependenciesOf
  rw [F.unitDependencies]

theorem Granted.evolution {revision : Key} (g : Granted revision db db')
    (free : ∀ u ∈ db.units.rows, u.revisionId = revision → ¬ Blocked db u) (x : Key) :
    Evolution x db db' := by
  constructor
  · intro k u hu _
    refine ⟨u, by rw [g.units]; exact hu, rfl, fun _ => rfl, fun B => .inl ⟨B.level, B.state, B.error, ?_⟩⟩
    have hne : u.revisionId ≠ revision := fun heq => free u (Table.mem_of_find? hu) heq B
    rw [g.generation, B.generation, Option.map_some, if_neg hne]
  · intro k u' hu' hs
    exact ⟨u', by rw [← g.units]; exact hu', hs⟩

theorem Granted.keeps {revision : Key} (g : Granted revision db db') : KeepsBindings db db' := by
  refine ⟨fun k u _ => ?_, fun id r h => by rw [g.results]; exact h⟩
  unfold unitDependenciesOf
  rw [g.dependencies]

theorem Admitted.evolution {ids : FreshIds} {adm : Admission} {now : ℕ}
    (A : Admitted D ids adm now db db') {x : Key} {s : Stage} (hx : db.stages.find? x = some s) :
    Evolution x db db' := by
  constructor
  · intro k u hu _
    refine ⟨u, A.unit_old hu, rfl, fun _ => rfl, fun B => .inl ⟨B.level, B.state, B.error, ?_⟩⟩
    have hgen := B.generation
    rw [A.generation, if_neg, hgen]
    intro heq
    rw [heq, Store.generation, A.revision] at hgen
    cases hgen
  · intro k u' hu' hs
    rcases A.unit_cases hu' with h | ⟨t, ht, id, source, rfl⟩
    · exact ⟨u', h, hs⟩
    · -- a new unit belongs to a stage that did not exist
      have hnew := A.stage_fresh (initialRows_subset ht)
      have hts : t.id = x := hs
      rw [hts, hx] at hnew
      cases hnew

theorem Admitted.keeps {ids : FreshIds} {adm : Admission} {now : ℕ}
    (A : Admitted D ids adm now db db') : KeepsBindings db db' := by
  refine ⟨fun k u _ => ?_, fun id r h => by rw [A.results]; exact h⟩
  unfold unitDependenciesOf
  rw [A.unitDependencies]

end

end Metnos.Durable
