import Metnos.Durable.Refine.Lease

/-!
# Durable.Refine.Claim — claiming, reconciling and reusing as acts

A claim promotes due retries and leases one unit; `reconcile_expired` releases a batch of units
that were read before the first of them was written, so its loop carries that a lease still open
is the one that was read.
-/

namespace Metnos.Durable

open Transaction

section
variable {D : Digests} {G : Guard} {db db' : Store}

/-! ## Claiming -/

theorem promoteDueRetries_act (now limit : ℕ) : Act D G db (promoteDueRetries db now limit) := by
  refine Act.unitsWhere fun u _ hp s g _ _ => ?_
  simp only [due, Bool.and_eq_true, decide_eq_true_eq] at hp
  exact .promote now hp.1.1

theorem insertAttempt_ok {a : Attempt} (h : insertAttempt db a = .ok db') :
    (∀ b ∈ db.attempts.rows, b.id ≠ a.id) ∧
    ∃ attempts, db.attempts.insert? a = some attempts ∧
      db' = { db with attempts := attempts } := by
  unfold insertAttempt at h
  simp only [bind_eq_ok, require_ok, orRaise_ok, pure_eq_ok] at h
  obtain ⟨-, -, attempts, h2, rfl⟩ := h
  exact ⟨Table.find?_eq_none.mp (Table.insert?_some h2).1, attempts, h2, rfl⟩

theorem attemptsOf_insert {a : Attempt} {attempts : Table Attempt Key Attempt.id}
    (h : db.attempts.insert? a = some attempts) (k : Key) :
    Store.attemptsOf { db with attempts := attempts } k =
      if k = a.unitId then db.attemptsOf k ++ [a] else db.attemptsOf k := by
  unfold Store.attemptsOf
  dsimp only
  rw [(Table.insert?_some h).2, List.filter_append]
  by_cases hk : k = a.unitId
  · simp [hk]
  · simp [hk, Ne.symm hk]

theorem claimable_iff {s : Stage} {r : Revision} {now : ℕ} {u : UnitRow}
    (h : claimable db s r now u = true) :
    u.revisionId = r.id ∧ u.stageId = s.id ∧ Claimable s r.manualRetryGeneration u := by
  simp only [claimable, Bool.and_eq_true, Bool.or_eq_true, decide_eq_true_eq] at h
  obtain ⟨⟨⟨⟨h1, h2⟩, h3⟩, -⟩, -⟩ := h
  refine ⟨h1, h2, ?_⟩
  rcases h3 with ⟨⟨h3, -⟩, h4⟩ | ⟨h3, h4⟩
  · exact .inl ⟨h3, h4⟩
  · exact .inr ⟨h3, h4⟩

theorem candidate_facts {now : ℕ} {caps : WorkerCapabilities} {c : Candidate}
    (h : (claimCandidates db now caps).head? = some c) :
    db.generation c.revision.id = some c.revision.manualRetryGeneration ∧
    db.stages.find? c.stage.id = some c.stage := by
  have hc := List.mem_of_head? h
  simp only [claimCandidates, List.mem_insertionSort, List.mem_filterMap] at hc
  obtain ⟨w, -, hw⟩ := hc
  unfold candidate? at hw
  simp only [Option.bind_eq_bind, Option.bind_eq_some_iff] at hw
  obtain ⟨id, -, r, hr, usage, -, hw⟩ := hw
  split at hw
  · simp only [Option.bind_eq_some_iff, Option.some.injEq] at hw
    obtain ⟨s, hs, rfl⟩ := hw
    have hid : r.id = id := Table.key_of_find? hr
    refine ⟨by rw [Store.generation, hid, hr]; rfl, ?_⟩
    exact Table.find?_of_mem (Table.mem_select (List.mem_of_head? hs)).1
  · cases hw

theorem leaseUnit_acts {c : Candidate} {u : UnitRow} {worker now duration attemptId : ℕ}
    {l : Option Lease}
    (hg : db.generation c.revision.id = some c.revision.manualRetryGeneration)
    (hs : db.stages.find? c.stage.id = some c.stage) (hu : u ∈ db.units.rows)
    (hc : claimable db c.stage c.revision now u = true)
    (h : leaseUnit db c u worker now duration attemptId = .ok (l, db')) : Acts D G db db' := by
  unfold leaseUnit at h
  simp only [bind_eq_ok, pure_eq_ok, Prod.mk.injEq] at h
  obtain ⟨db1, h1, db2, h2, db3, h3, db4, h4, -, rfl⟩ := h
  have hfind : db.units.find? u.id = some u := Table.find?_of_mem hu
  obtain ⟨fresh, attempts, hins, rfl⟩ := insertAttempt_ok h1
  obtain ⟨u', hu', -, rfl⟩ := casUnit_ok h2
  have huu : u' = u := Option.some.inj (hu'.symm.trans hfind)
  subst huu
  obtain ⟨hrev, hstage, ready⟩ := claimable_iff hc
  have rest := ((updateUsage_core h3).trans (startQueuedWorkload_core h4)).trans
    (creditSelection_core c.workload.id : SameCore db4 _)
  refine .head ?_ rest.acts
  refine .one (u'.lease worker ⟨u'.id.owner, attemptId⟩ (now + duration)
      (if tokenRetry u' then 1 else 0) c.revision.manualRetryGeneration now)
    ⟨rfl, rfl, rfl, rfl, fun _ => rfl⟩ hfind ?_ (fun j hj => ?_) (fun j hj => ?_) (fun _ _ => rfl) ?_
  · dsimp only
    exact Table.find?_update_self _ hfind
  · dsimp only
    exact Table.find?_update_ne _ hj
  · exact (attemptsOf_insert hins j).trans (if_neg hj)
  · intro s g hs' hg'
    rw [hstage, hs] at hs'
    rw [hrev, hg] at hg'
    cases hs'
    cases hg'
    have step : CellStep _ _ (G.aside db) G.result (db.cell u') _ :=
      CellStep.lease ⟨u'.id.owner, attemptId⟩ worker (now + duration) now ready fun a ha =>
        fresh a (mem_attemptsOf.mp ha).1
    convert step using 1
    unfold Store.cell
    dsimp only [UnitRow.lease]
    congr 1
    exact (attemptsOf_insert hins u'.id).trans (if_pos rfl)

theorem claimNext_acts {worker now duration attemptId : ℕ} {caps : WorkerCapabilities}
    {l : Option Lease} (h : claimNext db worker now duration caps attemptId = .ok (l, db')) :
    Acts D G db db' := by
  unfold claimNext at h
  simp only [bind_eq_ok] at h
  obtain ⟨-, -, h⟩ := h
  refine .head (promoteDueRetries_act now 1000) ?_
  generalize promoteDueRetries db now 1000 = db1 at h
  split at h
  · simp only [pure_eq_ok, Prod.mk.injEq] at h
    exact h.2 ▸ .refl
  · rename_i c hc
    obtain ⟨hg, hs⟩ := candidate_facts hc
    split at h
    · simp only [bind_eq_ok, pure_eq_ok, Prod.mk.injEq] at h
      obtain ⟨db2, h2, -, rfl⟩ := h
      exact (automaticWorkloadTransition_core h2).acts
    · simp only [bind_eq_ok, orRaise_ok] at h
      obtain ⟨u, hu, h⟩ := h
      obtain ⟨hmem, hcl⟩ := Table.mem_select (List.mem_of_head? hu)
      exact leaseUnit_acts hg hs hmem hcl h

/-! ## Reconciling -/

/-- What the expired rows were read from. -/
structure ExpiredFacts (db : Store) (row : ExpiredRow) : Prop where
  unit : db.units.find? row.unit.id = some row.unit
  generation : db.generation row.unit.revisionId = some row.revision.manualRetryGeneration
  stage : db.stages.find? row.unit.stageId = some row.stage
  attempt : db.attempts.find? row.attempt.id = some row.attempt
  active : row.unit.activeAttemptId = some row.attempt.id
  state : row.unit.state = .leased ∨ row.unit.state = .running

theorem expiredRow_facts {now : ℕ} {u : UnitRow} {row : ExpiredRow} (hu : u ∈ db.units.rows)
    (h : expiredRow? db now u = some row) : ExpiredFacts db row := by
  unfold expiredRow? at h
  simp only [Option.bind_eq_bind, Option.bind_eq_some_iff, Option.filter_eq_some_iff] at h
  obtain ⟨revision, hr, usage, -, stage, ⟨hs, -⟩, id, hid, attempt, ⟨ha, -⟩, h⟩ := h
  split at h
  · rename_i hcond
    cases h
    have hk : attempt.id = id := Table.key_of_find? ha
    exact ⟨Table.find?_of_mem hu, by rw [Store.generation, hr]; rfl, hs, by rw [hk]; exact ha,
      by rw [hk]; exact hid, hcond.1⟩
  · cases h

theorem expiredRows_facts {now batch : ℕ} {row : ExpiredRow} (h : row ∈ expiredRows db now batch) :
    ExpiredFacts db row := by
  have h1 := List.mem_of_mem_take h
  rw [List.mem_insertionSort, List.mem_filterMap] at h1
  obtain ⟨u, hu, h2⟩ := h1
  exact expiredRow_facts hu h2

theorem released_of_expiry {row : ExpiredRow} {u : UnitRow} {usageUnknown regressed : Bool}
    (hu : row.unit.state = .leased ∨ row.unit.state = .running)
    (same : u.state = row.unit.state) :
    Released row.stage u row.attempt (expiryTarget D row usageUnknown regressed).1
      (if decide (row.unit.state = .leased) && row.attempt.metrics.manualRetry then 1 else 0) := by
  unfold expiryTarget
  rcases hu with hu | hu
  · simp only [hu, decide_true, if_true]
    split
    · refine ⟨by simp, ?_, by simp, by simp, by simp⟩
      cases row.attempt.metrics.manualRetry <;> simp [same, hu]
    · split
      · refine ⟨by simp, ?_, ?_, by simp, by simp⟩
        · cases row.attempt.metrics.manualRetry <;> simp [same, hu]
        · intro _
          exact ⟨same.trans hu, fun hm => by simp [hm]⟩
      · refine ⟨by simp, ?_, by simp, by simp, by simp⟩
        cases row.attempt.metrics.manualRetry <;> simp [same, hu]
  · simp only [hu, reduceCtorEq, decide_false, Bool.false_and, Bool.false_eq_true, if_false]
    split
    · exact ⟨by simp, by simp, by simp, by simp, by simp⟩
    · split
      · exact ⟨by simp, by simp, by simp, by simp, by simp⟩
      · rename_i heff
        split
        · refine ⟨by simp, by simp, by simp, fun _ => ⟨same.trans hu, ?_⟩, by simp⟩
          simp only [Bool.or_eq_true, decide_eq_true_eq, not_or] at heff
          exact heff.1
        · exact ⟨by simp, by simp, by simp, by simp, by simp⟩

/-- What the reconciliation loop keeps about the store `db0` its rows were read from. -/
structure Reconciling (D : Digests) (G : Guard) (db0 db : Store) : Prop where
  acts : Acts D G db0 db
  frame : SameFrame db0 db
  units : ∀ k x, db.units.find? k = some x → ∃ u, db0.units.find? k = some u ∧
    x.stageId = u.stageId ∧ x.revisionId = u.revisionId
  attempts : ∀ k a, db.attempts.find? k = some a → a.endedAt = none →
    db0.attempts.find? k = some a

theorem Reconciling.of_core {db0 : Store} (R : Reconciling D G db0 db) (h : SameCore db db') :
    Reconciling D G db0 db' :=
  ⟨R.acts.tail h.act, R.frame.trans h.frame, fun k x hx => R.units k x (by rwa [h.units] at hx),
    fun k a ha => R.attempts k a (by rwa [h.attempts] at ha)⟩

theorem reconcileRow_step {db0 : Store} {row : ExpiredRow} {now : ℕ} (F : ExpiredFacts db0 row)
    (h : reconcileRow D now db row = .ok db') (R : Reconciling D G db0 db) :
    Reconciling D G db0 db' := by
  unfold reconcileRow at h
  simp only [bind_eq_ok, Prod.exists] at h
  obtain ⟨usageUnknown, db1, h1, db2, h2, db3, h3, h4⟩ := h
  refine Reconciling.of_core ?_ (advanceRevisionClock_core h4)
  have R1 := R.of_core (markReleasedUsage_core h1)
  obtain ⟨a, ha, hp, rfl⟩ := casAttempt_ok h2
  obtain ⟨x, hx, hq, rfl⟩ := casUnit_ok h3
  simp only [Bool.and_eq_true, decide_eq_true_eq, Option.isNone_iff_eq_none] at hp hq
  obtain ⟨⟨⟨⟨hpu, hpf⟩, -⟩, -⟩, hpe⟩ := hp
  obtain ⟨⟨⟨hqs, hqa⟩, hqf⟩, -⟩ := hq
  -- an attempt that is still open is the one that was read
  have haa : a = row.attempt := Option.some.inj ((R1.attempts _ a ha hpe).symm.trans F.attempt)
  subst haa
  simp only at hx
  obtain ⟨u, hu, hstage, hrevision⟩ := R1.units _ x hx
  have huu : u = row.unit := Option.some.inj (hu.symm.trans F.unit)
  subst huu
  refine ⟨R1.acts.tail ?_, R1.frame.trans ⟨rfl, rfl, rfl, rfl, fun _ => rfl⟩, ?_, ?_⟩
  · dsimp only
    refine Act.unitAttempt _ _ hx ha hpu (fun _ => rfl) fun s g hs hg => ?_
    rw [R1.frame.stages, hstage, F.stage] at hs
    rw [R1.frame.generation, hrevision, F.generation] at hg
    cases hs
    cases hg
    have hmem : row.attempt ∈ db1.attempts.rows := Table.mem_of_find? ha
    refine .release row.attempt _ .leaseLost _ _ _ _ now
      (holds_of_find hx hmem hpu (hqa.trans F.active) (hpf.trans hqf.symm) hpe) ?_ ?_ ?_
    · rw [Store.cell_unit, hqs]
      exact F.state
    · by_cases hl : row.unit.state = .leased <;> simp [hl]
    · exact released_of_expiry F.state hqs
  · intro k y hy
    dsimp only at hy
    obtain ⟨y0, hy0, rfl⟩ := Table.find?_updateWhere_some hy
    obtain ⟨v, hv, h5, h6⟩ := R1.units k y0 hy0
    refine ⟨v, hv, ?_, ?_⟩ <;> split <;> simpa [UnitRow.release]
  · intro k b hb he
    dsimp only at hb
    obtain ⟨b0, hb0, rfl⟩ := Table.find?_updateWhere_some hb
    split at he
    · simp [Attempt.finish] at he
    · rename_i hne
      rw [if_neg hne]
      exact R1.attempts k b0 hb0 he

theorem settleAll_acts {now : ℕ} {ws : List Key}
    (h : ws.foldlM (fun db w => do
      let (_, db) ← settle db w now false unitStateBatchSize
      return db) db = .ok db') : Acts D G db db' := by
  refine foldlM_invariant (I := fun x => Acts D G db x) (fun w _ a b hab hda => ?_) h .refl
  simp only [bind_eq_ok, pure_eq_ok, Prod.exists] at hab
  obtain ⟨n, b', hs, rfl⟩ := hab
  exact hda.trans (settle_acts hs)

theorem reconcileExpired_acts {now batch : ℕ} (h : reconcileExpired D db now batch = .ok db') :
    Acts D G db db' := by
  unfold reconcileExpired at h
  simp only [bind_eq_ok] at h
  obtain ⟨-, -, db1, h1, h2⟩ := h
  have R : Reconciling D G db db1 := by
    refine foldlM_invariant (fun row hrow a b hab hR => ?_) h1
      ⟨.refl, .refl db, fun k x hx => ⟨x, hx, rfl, rfl⟩, fun k a ha _ => ha⟩
    exact reconcileRow_step (expiredRows_facts hrow) hab hR
  exact R.acts.trans (.head (promoteDueRetries_act now _) (settleAll_acts h2))

end

end Metnos.Durable

/-!
## What materialization and admission insert

A materialization round inserts at most one unit or marks one as root, binds the dependencies of
the unit it inserted and writes its stage's cursor; admission inserts stages, sources, initial
units and cursors.  Both leave attempts, results and every other unit alone.
-/

namespace Metnos.Durable

open Transaction

/-- A unit as it is inserted, at the retry generation `g` of its revision. -/
structure UnitRow.Fresh (g : ℕ) (u : UnitRow) : Prop where
  state : u.state = .pending ∨ u.state = .needsAttention ∨ u.state = .skipped
  attemptCount : u.attemptCount = 0
  fence : u.fence = 0
  active : u.activeAttemptId = none
  worker : u.leaseWorkerId = none
  expiry : u.leaseExpiresAt = none
  committed : u.committedResultId = none
  tokens : u.manualRetryTokens = 0
  generation : u.manualRetryGeneration = g

section
variable {D : Digests} {G : Guard} {db db' : Store}

/-! ## Insertions -/

theorem insertUnit_ok {u : UnitRow} (h : insertUnit db u = .ok db') :
    (∀ v ∈ db.units.rows, unitConflict u v = false) ∧
    ∃ units, db.units.insert? u = some units ∧ db' = { db with units := units } := by
  unfold insertUnit at h
  simp only [bind_eq_ok, require_ok, orRaise_ok, pure_eq_ok, Bool.not_eq_true',
    List.any_eq_false, Bool.not_eq_true] at h
  obtain ⟨-, h1, units, h2, rfl⟩ := h
  exact ⟨h1, units, h2, rfl⟩

theorem bindDependencies_ok {k : Key} {c : CandidateUnit}
    (h : bindDependencies db k c = .ok db') :
    db' = { db with unitDependencies :=
              (expectedBindings k c).foldl insertBinding db.unitDependencies } ∧
    ((unitDependenciesOf db' k).take (maxUnitDependencies + 1)).map
      (fun d => (d.sourceResultId, d.slice, d.role)) =
      (expectedBindings k c).map (fun d => (d.sourceResultId, d.slice, d.role)) := by
  unfold bindDependencies at h
  simp only [bind_eq_ok, require_ok, pure_eq_ok, decide_eq_true_eq] at h
  obtain ⟨-, -, -, h2, rfl⟩ := h
  exact ⟨rfl, h2⟩

theorem saveCursor_ok {cursor : StageCursor} (h : saveCursor db cursor = .ok db') :
    ∃ cursors, db.cursors.cas cursor.stageId (fun c => c.revisionId = cursor.revisionId)
      cursor.overwrite cursor.overwrite_stageId = some cursors ∧
      db' = { db with cursors := cursors } := by
  unfold saveCursor at h
  split at h
  · rename_i cursors hc
    cases h
    exact ⟨cursors, hc, rfl⟩
  · cases h

/-- What a round leaves alone, and what it may do to the units. -/
structure RoundCells (m : Round) (db db' : Store) : Prop where
  revisions : db'.revisions = db.revisions
  stages : db'.stages = db.stages
  attempts : db'.attempts = db.attempts
  results : db'.results = db.results
  old : ∀ k u, db.units.find? k = some u →
    ∃ u', db'.units.find? k = some u' ∧ (u' = u ∨ u' = u.markRoot m.now)
  new : ∀ k u', db.units.find? k = none → db'.units.find? k = some u' →
    u'.Fresh m.revision.manualRetryGeneration ∧ u'.stageId = m.stage.id ∧
    u'.revisionId = m.stage.revisionId

theorem RoundCells.of_same {m : Round} (revisions : db'.revisions = db.revisions)
    (stages : db'.stages = db.stages) (attempts : db'.attempts = db.attempts)
    (results : db'.results = db.results) (units : db'.units = db.units) : RoundCells m db db' := by
  refine ⟨revisions, stages, attempts, results, fun k u hu => ⟨u, by rw [units]; exact hu, .inl rfl⟩,
    fun k u' hk hu' => ?_⟩
  rw [units, hk] at hu'
  cases hu'

theorem RoundCells.saveCursor {m : Round} {db1 : Store} {cursor : StageCursor}
    (R : RoundCells m db db1) (h : saveCursor db1 cursor = .ok db') : RoundCells m db db' := by
  obtain ⟨cursors, -, rfl⟩ := saveCursor_ok h
  exact ⟨R.revisions, R.stages, R.attempts, R.results, R.old, R.new⟩

theorem makeCandidate_fresh (s : Stage) (r : Revision) (c : CandidateUnit) (k : Key) (now : ℕ) :
    (makeCandidate D s r c k now).Fresh r.manualRetryGeneration := by
  refine ⟨?_, rfl, rfl, rfl, rfl, rfl, rfl, rfl, rfl⟩
  simp only [makeCandidate, candidateState]
  split
  · exact .inl rfl
  · split
    · exact .inr (.inl rfl)
    · exact .inr (.inr rfl)

theorem find_insert {u : UnitRow} {units : Table UnitRow Key UnitRow.id}
    (h : db.units.insert? u = some units) (k : Key) :
    units.find? k = if k = u.id then some u else db.units.find? k := by
  by_cases hk : k = u.id
  · rw [if_pos hk, hk]
    exact Table.find?_insert?_self h
  · rw [if_neg hk]
    exact Table.find?_insert?_ne h hk

theorem insertCandidate_cells {m : Round} {cursor cursor' : StageCursor} {c : CandidateUnit}
    (h : insertCandidate D m db cursor c = .ok (db', cursor')) : RoundCells m db db' := by
  unfold insertCandidate at h
  split at h
  · split at h
    · simp only [bind_eq_ok, pure_eq_ok, Prod.mk.injEq] at h
      obtain ⟨-, -, db1, h1, rfl, -⟩ := h
      obtain ⟨rfl, -⟩ := bindDependencies_ok h1
      exact .of_same rfl rfl rfl rfl rfl
    · split at h
      · cases h; exact .of_same rfl rfl rfl rfl rfl
      · cases h
  · split at h
    · cases h; exact .of_same rfl rfl rfl rfl rfl
    · simp only [bind_eq_ok, pure_eq_ok, Prod.mk.injEq] at h
      obtain ⟨db1, h1, db2, h2, rfl, -⟩ := h
      obtain ⟨-, units, hins, rfl⟩ := insertUnit_ok h1
      obtain ⟨rfl, -⟩ := bindDependencies_ok h2
      refine ⟨rfl, rfl, rfl, rfl, fun k u hu => ⟨u, ?_, .inl rfl⟩, fun k u' hk hu' => ?_⟩
      · dsimp only
        rw [find_insert hins, if_neg, hu]
        rintro rfl
        rw [(Table.insert?_some hins).1] at hu
        cases hu
      · dsimp only at hu'
        rw [find_insert hins, hk] at hu'
        split at hu'
        · cases hu'
          exact ⟨makeCandidate_fresh .., rfl, rfl⟩
        · cases hu'

theorem insertAndSave_cells {m : Round} {cursor : StageCursor} {c : CandidateUnit}
    {advance : StageCursor → StageCursor} (h : insertAndSave D m db cursor c advance = .ok db') :
    RoundCells m db db' := by
  unfold insertAndSave at h
  simp only [bind_eq_ok, Prod.exists] at h
  obtain ⟨db1, cursor1, h1, h2⟩ := h
  exact (insertCandidate_cells h1).saveCursor h2

theorem saveCursor_cells {m : Round} {cursor : StageCursor} (h : saveCursor db cursor = .ok db') :
    RoundCells m db db' :=
  (RoundCells.of_same rfl rfl rfl rfl rfl).saveCursor h

theorem markRoot_cells {m : Round} {root : UnitRow} (h : markRoot db root m.now = .ok db') :
    RoundCells m db db' := by
  unfold markRoot at h
  simp only [bind_eq_ok] at h
  obtain ⟨-, -, h⟩ := h
  obtain ⟨u, hu, -, rfl⟩ := casUnit_ok h
  refine ⟨rfl, rfl, rfl, rfl, fun k v hv => ?_, fun k v' hk hv' => ?_⟩
  · refine ⟨if v.id = root.id then v.markRoot m.now else v, ?_, ?_⟩
    · dsimp only
      rw [Table.find?_updateWhere_of_some _ hv]
      simp
    · by_cases hid : v.id = root.id
      · exact .inr (if_pos hid)
      · exact .inl (if_neg hid)
  · dsimp only at hv'
    obtain ⟨v, hv, -⟩ := Table.find?_updateWhere_some hv'
    rw [hk] at hv
    cases hv

/-! ## Rounds -/

/-- The columns of a cursor that a round changes only by inserting a unit. -/
structure StageCursor.Keeps (c c' : StageCursor) : Prop where
  stageId : c'.stageId = c.stageId
  revisionId : c'.revisionId = c.revisionId
  legacyReplay : c'.legacyReplay = c.legacyReplay
  unitCount : c'.unitCount = c.unitCount

/-- The three ways a round ends: it only moves the cursor, it inserts a candidate, or it marks the
root of a level. -/
inductive RoundWrite (D : Digests) (m : Round) (cursor : StageCursor) (db db' : Store) : Prop
  | saved (cursor' : StageCursor) (done : saveCursor db cursor' = .ok db')
      (keeps : cursor.Keeps cursor')
  | inserted (c : CandidateUnit) (advance : StageCursor → StageCursor)
      (done : insertAndSave D m db cursor c advance = .ok db')
      (keeps : ∀ x : StageCursor, x.Keeps (advance x))
  | rooted (level : ℕ) (root : UnitRow) (db1 : Store) (cursor' : StageCursor)
      (picked : levelRoot db m.stage level = some root)
      (marked : markRoot db root m.now = .ok db1) (done : saveCursor db1 cursor' = .ok db')
      (keeps : cursor.Keeps cursor')

theorem closeLevel_write {m : Round} {cursor : StageCursor}
    (h : closeLevel D m db cursor = .ok db') : RoundWrite D m cursor db db' := by
  unfold closeLevel at h
  dsimp only at h
  split at h
  · exact .inserted _ _ h (fun _ => ⟨rfl, rfl, rfl, rfl⟩)
  split at h
  · exact .saved _ h ⟨rfl, rfl, rfl, rfl⟩
  · simp only [bind_eq_ok, orRaise_ok] at h
    obtain ⟨root, hroot, db1, h1, h2⟩ := h
    exact .rooted _ root db1 _ hroot h1 h2 ⟨rfl, rfl, rfl, rfl⟩

theorem reduceGroup_write {m : Round} {cursor : StageCursor} {r : Reduction} {parent : Stage}
    (h : reduceGroup D m db cursor r parent = .ok db') : RoundWrite D m cursor db db' := by
  unfold reduceGroup at h
  dsimp only at h
  split at h
  · exact .inserted _ _ h (fun _ => ⟨rfl, rfl, rfl, rfl⟩)
  split at h
  · exact .inserted _ _ h (fun _ => ⟨rfl, rfl, rfl, rfl⟩)
  split at h
  · exact .inserted _ _ h (fun _ => ⟨rfl, rfl, rfl, rfl⟩)
  split at h
  · exact .saved _ h ⟨rfl, rfl, rfl, rfl⟩
  · exact .inserted _ _ h (fun _ => ⟨rfl, rfl, rfl, rfl⟩)

theorem perSourceRound_write {m : Round} {cursor : StageCursor}
    (h : perSourceRound D m db cursor = .ok db') : RoundWrite D m cursor db db' := by
  unfold perSourceRound at h
  split at h
  · exact .saved _ h ⟨rfl, rfl, rfl, rfl⟩
  · exact .inserted _ _ h (fun _ => ⟨rfl, rfl, rfl, rfl⟩)

theorem entryRound_write {m : Round} {cursor : StageCursor} {field : String} {parent : Parent}
    {source : Option Source} {position : ℕ}
    (h : entryRound D m db cursor field parent source position = .ok db') :
    RoundWrite D m cursor db db' := by
  unfold entryRound at h
  dsimp only at h
  split at h
  · exact .saved _ h ⟨rfl, rfl, rfl, rfl⟩
  split at h
  · exact .saved _ h ⟨rfl, rfl, rfl, rfl⟩
  split at h
  · exact .saved _ h ⟨rfl, rfl, rfl, rfl⟩
  split at h
  · exact .saved _ h ⟨rfl, rfl, rfl, rfl⟩
  · exact .inserted _ _ h (fun _ => ⟨rfl, rfl, rfl, rfl⟩)

theorem perDependencyRound_write {m : Round} {cursor : StageCursor}
    (h : perDependencyRound D m db cursor = .ok db') : RoundWrite D m cursor db db' := by
  unfold perDependencyRound at h
  split at h
  · exact .saved _ h ⟨rfl, rfl, rfl, rfl⟩
  dsimp only at h
  split at h
  · exact .inserted _ _ h (fun _ => ⟨rfl, rfl, rfl, rfl⟩)
  split at h
  · exact .inserted _ _ h (fun _ => ⟨rfl, rfl, rfl, rfl⟩)
  split at h
  · exact .inserted _ _ h (fun _ => ⟨rfl, rfl, rfl, rfl⟩)
  · exact entryRound_write h

theorem materializeRound_write {m : Round} {cursor : StageCursor}
    (h : materializeRound D m db cursor = .ok db') : RoundWrite D m cursor db db' := by
  unfold materializeRound at h
  split at h
  · unfold reduceRound at h
    split at h
    · exact closeLevel_write h
    · split at h
      · exact reduceGroup_write h
      · cases h
  split at h
  · unfold singletonRound at h
    exact .inserted _ _ h (fun _ => ⟨rfl, rfl, rfl, rfl⟩)
  · exact perSourceRound_write h
  · exact perDependencyRound_write h

theorem materializeRound_cells {m : Round} {cursor : StageCursor}
    (h : materializeRound D m db cursor = .ok db') : RoundCells m db db' := by
  cases materializeRound_write h with
  | saved cursor' done => exact saveCursor_cells done
  | inserted c advance done => exact insertAndSave_cells done
  | rooted level root db1 cursor' picked marked done => exact (markRoot_cells marked).saveCursor done

end

end Metnos.Durable
