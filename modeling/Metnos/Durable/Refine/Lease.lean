import Metnos.Durable.Refine.Core

/-!
# Durable.Refine.Lease — the calls of a worker as acts

What a matching lease says about the rows it was checked against, and from it the step of the
cell that each of `mark_running`, `heartbeat`, `execution_inputs`, `record_execution_facts`,
`record_attempt_usage`, `commit_result`, `fail_attempt` and `abandon_attempt` takes.
-/

namespace Metnos.Durable

open Transaction

/-- What `selectLeaseRow` and `leaseMatches` establish. -/
structure LeaseFacts (db : Store) (lease : Lease) (row : LeaseRow) (a : Attempt) : Prop where
  unit : db.units.find? lease.unitId = some row.unit
  generation : db.generation row.unit.revisionId = some row.revision.manualRetryGeneration
  stage : db.stages.find? row.unit.stageId = some row.stage
  attempt : db.attempts.find? lease.attemptId = some a
  attemptUnit : a.unitId = lease.unitId
  active : row.unit.activeAttemptId = some lease.attemptId
  revisionId : row.unit.revisionId = lease.revisionId
  unitFence : row.unit.fence = lease.fence
  fence : a.fence = lease.fence
  number : a.number = lease.attemptNumber
  effect : row.stage.effectProfile = lease.effectProfile
  manual : a.metrics.manualRetry = lease.manualRetry

section
variable {D : Digests} {G : Guard} {db db' : Store} {lease : Lease}

theorem selectLeaseRow_some {row : LeaseRow} (h : selectLeaseRow db lease = some row) :
    db.units.find? lease.unitId = some row.unit ∧
    db.revisions.find? row.unit.revisionId = some row.revision ∧
    db.stages.find? row.unit.stageId = some row.stage ∧
    row.attempt = (db.attempts.find? lease.attemptId).filter (fun a => a.unitId = row.unit.id) := by
  unfold selectLeaseRow at h
  simp only [Option.bind_eq_bind, Option.bind_eq_some_iff, Option.filter_eq_some_iff,
    Option.some.injEq] at h
  obtain ⟨unit, h1, revision, h2, workload, -, usage, -, stage, ⟨h3, -⟩, rfl⟩ := h
  exact ⟨h1, h2, h3, rfl⟩

theorem leaseFacts_of_matches {row : LeaseRow} {a : Attempt}
    (h : selectLeaseRow db lease = some row) (ha : row.attempt = some a)
    (hm : leaseMatches row a lease = true) : LeaseFacts db lease row a := by
  obtain ⟨h1, h2, h3, h4⟩ := selectLeaseRow_some h
  rw [ha] at h4
  obtain ⟨h5, h6⟩ := Option.filter_eq_some_iff.mp h4.symm
  simp only [leaseMatches, Bool.and_eq_true, decide_eq_true_eq] at hm h6
  obtain ⟨⟨⟨⟨⟨⟨⟨⟨⟨⟨⟨⟨⟨⟨⟨⟨⟨⟨⟨-, m2⟩, -⟩, -⟩, m5⟩, -⟩, m7⟩, m8⟩, m9⟩, m10⟩, -⟩, -⟩, -⟩, -⟩, m15⟩, -⟩,
    -⟩, -⟩, -⟩, m20⟩ := hm
  have generation : db.generation row.unit.revisionId = some row.revision.manualRetryGeneration := by
    rw [Store.generation, h2]
    rfl
  exact ⟨h1, generation, h3, h5, h6.trans m5, m7, (Table.key_of_find? h2).symm.trans m2, m9, m10, m8, m15,
    m20⟩

theorem withLease_ok {β : Type} {stale b : β} {body : LeaseRow → Attempt → Tx (β × Store)}
    (h : withLease db lease stale body = .ok (b, db')) :
    db' = db ∨ ∃ row a, LeaseFacts db lease row a ∧ body row a = .ok (b, db') := by
  unfold withLease at h
  split at h
  · cases h; exact .inl rfl
  · rename_i row hrow
    split at h
    · cases h; exact .inl rfl
    · rename_i a ha
      split at h
      · rename_i hm
        exact .inr ⟨row, a, leaseFacts_of_matches hrow ha hm, h⟩
      · cases h; exact .inl rfl

theorem LeaseFacts.holds {row : LeaseRow} {a : Attempt} (F : LeaseFacts db lease row a)
    (ended : a.endedAt = none) : (db.cell row.unit).Holds a := by
  have hid : a.id = lease.attemptId := Table.key_of_find? F.attempt
  exact holds_of_find F.unit (Table.mem_of_find? F.attempt) F.attemptUnit
    (by rw [F.active, hid]) (F.fence.trans F.unitFence.symm) ended

theorem ownsAttempt_iff {states : List AttemptState} {a : Attempt} :
    ownsAttempt lease states a = true ↔ a.unitId = lease.unitId ∧ a.fence = lease.fence ∧
      a.workerId = lease.workerId ∧ a.state ∈ states ∧ a.endedAt = none := by
  simp [ownsAttempt, Bool.and_eq_true, and_assoc]

theorem ownsUnit_iff {states : List UnitState} {u : UnitRow} :
    ownsUnit lease states u = true ↔ u.activeAttemptId = some lease.attemptId ∧
      u.fence = lease.fence ∧ u.leaseWorkerId = some lease.workerId ∧ u.state ∈ states := by
  simp [ownsUnit, Bool.and_eq_true, and_assoc]

theorem LeaseFacts.update {row : LeaseRow} {a : Attempt} (F : LeaseFacts db lease row a)
    {db1 db2 : Store} {ps : List AttemptState} {f : Attempt → Attempt}
    {hf : ∀ a, (f a).id = a.id} {us : List UnitState} {fu : UnitRow → UnitRow}
    {hfu : ∀ u, (fu u).id = u.id}
    (h1 : casAttempt db lease.attemptId (ownsAttempt lease ps) f hf = .ok db1)
    (h2 : casUnit db1 lease.unitId (ownsUnit lease us) fu hfu = .ok db2)
    (keeps : ∀ x, (f x).unitId = x.unitId)
    (change : ∀ g, db.generation row.unit.revisionId = some g → a.state ∈ ps →
      row.unit.state ∈ us → (db.cell row.unit).Holds a →
      CellStep row.stage g (G.aside db) G.result (db.cell row.unit)
        ⟨fu row.unit, updateAttempt a.id f (db.cell row.unit).attempts,
          (db.cell row.unit).results⟩) : Act D G db db2 := by
  obtain ⟨a', ha', hp, rfl⟩ := casAttempt_ok h1
  rw [F.attempt] at ha'
  cases ha'
  obtain ⟨u', hu', hq, rfl⟩ := casUnit_ok h2
  have hu : u' = row.unit := by
    have := F.unit
    simp only at hu'
    rw [hu'] at this
    exact Option.some.inj this
  subst hu
  rw [ownsAttempt_iff] at hp
  rw [ownsUnit_iff] at hq
  refine Act.unitAttempt hf hfu F.unit F.attempt F.attemptUnit keeps fun s g hs hg => ?_
  rw [F.stage] at hs
  cases hs
  exact change g hg hp.2.2.2.1 hq.2.2.2 (F.holds hp.2.2.2.2)

theorem LeaseFacts.amend {row : LeaseRow} {a : Attempt} (F : LeaseFacts db lease row a)
    {db1 : Store} {ps : List AttemptState} {f : Attempt → Attempt}
    {hf : ∀ a, (f a).id = a.id}
    (h1 : casAttempt db lease.attemptId (ownsAttempt lease ps) f hf = .ok db1)
    (keeps : ∀ x, (f x).protocol = x.protocol) :
    Act D G db db1 := by
  obtain ⟨a', ha', hp, rfl⟩ := casAttempt_ok h1
  rw [F.attempt] at ha'
  cases ha'
  rw [ownsAttempt_iff] at hp
  have hid : a.id = lease.attemptId := Table.key_of_find? F.attempt
  have keepsUnit : ∀ x, (f x).unitId = x.unitId := fun x => congrArg (fun t => t.2.1) (keeps x)
  have huk : row.unit.id = lease.unitId := Table.key_of_find? F.unit
  refine .one _ ⟨rfl, rfl, rfl, rfl, fun _ => rfl⟩ F.unit F.unit (fun _ _ => rfl)
    (fun j hj => ?_) (fun _ _ => rfl) ?_
  · rw [← updateAttempt_other (f := f) F.attempt (k := j) (by rw [F.attemptUnit]; exact hj)]
    exact attemptsOf_update hf keepsUnit
  · intro s g hs hg
    convert CellStep.amend a f (F.holds hp.2.2.2.2) keeps using 1
    unfold Store.cell
    congr 1
    rw [hid]
    exact attemptsOf_update hf keepsUnit

theorem markRunning_acts {now : ℕ} {b : LeaseMutationStatus}
    (h : markRunning db lease now = .ok (b, db')) : Acts D G db db' := by
  obtain rfl | ⟨row, a, F, h⟩ := withLease_ok h
  · exact .refl
  split at h
  · cases h; exact .refl
  simp only [bind_eq_ok] at h
  obtain ⟨expiry, -, h⟩ := h
  split at h
  · cases h; exact .refl
  split at h
  · cases h; exact .refl
  split at h
  · cases h; exact .refl
  rename_i hstates
  simp only [bind_eq_ok, pure_eq_ok, Prod.mk.injEq] at h
  obtain ⟨db1, h1, db2, h2, db3, h3, -, rfl⟩ := h
  refine .tail (.single (F.update h1 h2 (fun _ => rfl) fun g _ ha hu holds => ?_))
    (advanceRevisionClock_core h3).act
  exact .start a _ now holds (by simpa using hu) (by simpa using ha)

theorem heartbeat_acts {newExpiry now : ℕ} {b : LeaseMutationStatus}
    (h : heartbeat db lease newExpiry now = .ok (b, db')) : Acts D G db db' := by
  unfold heartbeat at h
  simp only [bind_eq_ok] at h
  obtain ⟨-, -, h⟩ := h
  obtain rfl | ⟨row, a, F, h⟩ := withLease_ok h
  · exact .refl
  split at h
  · cases h; exact .refl
  split at h
  · cases h; exact .refl
  simp only [bind_eq_ok] at h
  obtain ⟨stored, -, h⟩ := h
  split at h
  · cases h; exact .refl
  split at h
  · cases h; exact .refl
  simp only [bind_eq_ok, pure_eq_ok, Prod.mk.injEq] at h
  obtain ⟨-, -, -, -, db1, h1, db2, h2, -, rfl⟩ := h
  obtain ⟨u, hu, hp, rfl⟩ := casUnit_ok h1
  rw [Bool.and_eq_true, ownsUnit_iff] at hp
  refine .tail (.single (Act.unitOnly hu fun s g _ _ => ?_)) (advanceRevisionClock_core h2).act
  exact .extend newExpiry now (by simpa using hp.1.2.2.2)

theorem executionInputs_acts {bytes : ℕ} {b : Unit}
    (h : executionInputs db lease bytes = .ok (b, db')) : Acts D G db db' := by
  obtain rfl | ⟨row, a, F, h⟩ := withLease_ok h
  · exact .refl
  split at h
  · simp only [bind_eq_ok, pure_eq_ok, Prod.mk.injEq] at h
    obtain ⟨-, -, -, rfl⟩ := h
    exact .refl
  · simp only [bind_eq_ok, pure_eq_ok, Prod.mk.injEq] at h
    obtain ⟨db1, h1, db2, h2, -, rfl⟩ := h
    exact .tail (.single (F.amend h1 (fun _ => rfl))) (addRevisionUsage_core h2).act

theorem recordExecutionFacts_acts {executor : ExecutorSnapshot} {model : ModelSnapshot}
    {deviceId invocationId : Option ℕ} {now : ℕ} {b : LeaseMutationStatus}
    (h : recordExecutionFacts db lease executor model deviceId invocationId now = .ok (b, db')) :
    Acts D G db db' := by
  obtain rfl | ⟨row, a, F, h⟩ := withLease_ok h
  · exact .refl
  split at h
  · cases h; exact .refl
  split at h
  · cases h; exact .refl
  simp only [bind_eq_ok] at h
  obtain ⟨expiry, -, h⟩ := h
  split at h
  · cases h; exact .refl
  simp only [bind_eq_ok, pure_eq_ok, Prod.mk.injEq] at h
  obtain ⟨-, -, -, -, -, -, db1, h1, db2, h2, -, rfl⟩ := h
  exact .tail (.single (F.amend h1 (fun _ => rfl))) (advanceRevisionClock_core h2).act

theorem recordAttemptUsage_acts {usage : ModelUsage} {now : ℕ} {b : LeaseMutationStatus}
    (h : recordAttemptUsage db lease usage now = .ok (b, db')) : Acts D G db db' := by
  unfold recordAttemptUsage at h
  simp only [bind_eq_ok] at h
  obtain ⟨-, -, h⟩ := h
  obtain rfl | ⟨row, a, F, h⟩ := withLease_ok h
  · exact .refl
  split at h
  · cases h; exact .refl
  split at h
  · cases h; exact .refl
  simp only [bind_eq_ok] at h
  obtain ⟨expiry, -, h⟩ := h
  split at h
  · cases h; exact .refl
  split at h
  · cases h
  simp only [bind_eq_ok] at h
  obtain ⟨-, -, h⟩ := h
  split at h
  · simp only [bind_eq_ok, pure_eq_ok, Prod.mk.injEq] at h
    obtain ⟨-, -, -, rfl⟩ := h
    exact .refl
  · simp only [bind_eq_ok, pure_eq_ok, Prod.mk.injEq] at h
    obtain ⟨db1, h1, db2, h2, db3, h3, -, rfl⟩ := h
    exact .tail (.single (F.amend h1 (fun _ => rfl)))
      ((addRevisionUsage_core h2).trans (advanceRevisionClock_core h3)).act

/-! ## Committing -/

theorem LeaseFacts.of_core {row : LeaseRow} {a : Attempt} (F : LeaseFacts db lease row a)
    (h : SameCore db db') : LeaseFacts db' lease row a :=
  { F with
    unit := by rw [h.units]; exact F.unit
    generation := by rw [h.frame.generation]; exact F.generation
    stage := by rw [h.frame.stages]; exact F.stage
    attempt := by rw [h.attempts]; exact F.attempt }

theorem insertResult_ok {r : ResultRow} (h : insertResult db r = .ok db') :
    db.resultsOf r.unitId = [] ∧
    ∃ results, db.results.insert? r = some results ∧ db' = { db with results := results } := by
  unfold insertResult at h
  simp only [bind_eq_ok, require_ok, orRaise_ok, pure_eq_ok, Bool.not_eq_true',
    List.any_eq_false, decide_eq_true_eq] at h
  obtain ⟨-, h1, -, -, results, h2, rfl⟩ := h
  refine ⟨?_, results, h2, rfl⟩
  rw [Store.resultsOf, List.filter_eq_nil_iff]
  simpa using h1

theorem resultsOf_insert {r : ResultRow} {results : Table ResultRow Key ResultRow.id}
    (h : db.results.insert? r = some results) (k : Key) :
    Store.resultsOf { db with results := results } k =
      if k = r.unitId then db.resultsOf k ++ [r] else db.resultsOf k := by
  unfold Store.resultsOf
  dsimp only
  rw [(Table.insert?_some h).2, List.filter_append]
  by_cases hk : k = r.unitId
  · simp [hk]
  · simp [hk, Ne.symm hk]

theorem LeaseFacts.commit {row : LeaseRow} {a : Attempt} (F : LeaseFacts db lease row a)
    {r : ResultRow} {deps : List (UnitDependency × ResultRow × UnitRow)} {now : ℕ}
    {db1 db2 db3 : Store} (hr : r.unitId = lease.unitId) (hrev : r.revisionId = lease.revisionId)
    (hatt : r.attemptId = lease.attemptId) (hfence : r.fence = lease.fence)
    (allowed : G.result row.unit r)
    (h1 : insertResult db r = .ok db1)
    (h2 : casAttempt (insertResultDependencies db1 r.id deps) lease.attemptId
      (ownsAttempt lease [.running]) (Attempt.finish .succeeded none now) (fun _ => rfl) = .ok db2)
    (h3 : casUnit db2 lease.unitId (ownsUnit lease [.running]) (UnitRow.commit r.id now)
      (fun _ => rfl) = .ok db3) : Act D G db db3 := by
  obtain ⟨first, results, hins, rfl⟩ := insertResult_ok h1
  have core : SameCore { db with results := results } _ := insertResultDependencies_core r.id deps
  generalize insertResultDependencies { db with results := results } r.id deps = dbm at core h2
  obtain ⟨a', ha', hp, rfl⟩ := casAttempt_ok h2
  obtain ⟨u', hu', hq, rfl⟩ := casUnit_ok h3
  rw [core.attempts] at ha'
  have haa : a' = a := Option.some.inj (ha'.symm.trans F.attempt)
  simp only [core.units] at hu'
  have huu : u' = row.unit := Option.some.inj (hu'.symm.trans F.unit)
  subst haa huu
  rw [ownsAttempt_iff] at hp
  rw [ownsUnit_iff] at hq
  have hid : a'.id = lease.attemptId := Table.key_of_find? F.attempt
  have huk : row.unit.id = lease.unitId := Table.key_of_find? F.unit
  have attempts : ∀ k, dbm.attemptsOf k = db.attemptsOf k := by
    intro k
    rw [Store.attemptsOf, core.attempts]
    rfl
  have resultsOf : ∀ k, dbm.resultsOf k =
      if k = r.unitId then db.resultsOf k ++ [r] else db.resultsOf k := by
    intro k
    rw [← resultsOf_insert hins, Store.resultsOf, core.results]
    rfl
  let finish := Attempt.finish .succeeded none now
  have finished : ∀ k, Store.attemptsOf { dbm with
      attempts := dbm.attempts.updateWhere (fun x => x.id = lease.attemptId) finish
        (fun _ => rfl) } k = updateAttempt lease.attemptId finish (dbm.attemptsOf k) :=
    fun k => attemptsOf_update _ (fun _ => rfl)
  refine .one (UnitRow.commit r.id now row.unit) ?_ F.unit ?_ ?_ ?_ ?_ ?_
  · exact ⟨core.frame.stages, core.frame.sources, core.frame.cursors,
      core.frame.unitDependencies, core.frame.generation⟩
  · dsimp only
    rw [core.units]
    exact Table.find?_update_self _ F.unit
  · intro j hj
    dsimp only
    rw [core.units]
    exact Table.find?_update_ne _ hj
  · intro j hj
    refine (finished j).trans ?_
    rw [attempts]
    refine updateAttempt_other F.attempt ?_
    rw [F.attemptUnit]
    exact hj
  · intro j hj
    refine (resultsOf j).trans (if_neg ?_)
    rw [hr]
    exact hj
  · intro s g _ _
    have holds := F.holds hp.2.2.2.2
    have step : CellStep s g (G.aside db) G.result _ _ := CellStep.commit a' r now holds
      (by simpa using hq.2.2.2) (by simpa using hp.2.2.2.1) (by
        rw [Store.cell, huk, ← hr]
        exact first) (hr.trans huk.symm) (hrev.trans F.revisionId.symm) (hatt.trans hid.symm)
      (hfence.trans F.unitFence.symm) allowed
    convert step using 1
    unfold Store.cell
    dsimp only [UnitRow.commit]
    congr 1
    · rw [hid, ← attempts]
      exact finished _
    · refine (resultsOf _).trans ?_
      rw [huk, if_pos hr.symm, ← hr, first]
      rfl

theorem commitResult_parts {validated : ValidatedResult} {deps : List Key} {resultId : Key}
    {now : ℕ} {b : CommitStatus}
    (meets : ∀ u r, db.units.find? lease.unitId = some u →
      u.activeAttemptId = some lease.attemptId → u.fence = lease.fence → r.unitId = lease.unitId →
      r.attemptId = lease.attemptId → r.fence = lease.fence → G.result u r)
    (h : commitResult db lease validated deps resultId now = .ok (b, db')) :
    db' = db ∨ ∃ r db1 n, db.results.insert? r = some db1.results ∧ r.digest = validated.digest ∧
      r.schemaVersion = validated.schemaVersion ∧ r.payload = validated.payload ∧ Acts D G db db1 ∧
      settle db1 lease.workloadId now false unitStateBatchSize = .ok (n, db') := by
  unfold commitResult at h
  simp only [bind_eq_ok] at h
  obtain ⟨-, -, h⟩ := h
  split at h
  · cases h; exact .inl rfl
  obtain rfl | ⟨row, a, F, h⟩ := withLease_ok h
  · exact .inl rfl
  split at h
  · cases h; exact .inl rfl
  split at h
  · cases h; exact .inl rfl
  split at h
  · cases h; exact .inl rfl
  simp only [bind_eq_ok] at h
  obtain ⟨expiry, -, h⟩ := h
  split at h
  · cases h; exact .inl rfl
  simp only [bind_eq_ok, pure_eq_ok, Prod.mk.injEq, Prod.exists] at h
  obtain ⟨-, -, rows, -, -, -, -, -, db1, h1, -, -, db2, h2, db3, h3, db4, h4, db5, h5, n, db6, h6,
    -, rfl⟩ := h
  have core := (addRevisionUsage_core h1).trans (advanceRevisionClock_core h2)
  have act : Act D G db2 db5 := (F.of_core core).commit rfl rfl rfl rfl
    (meets row.unit _ F.unit F.active F.unitFence rfl rfl rfl) h3 h4 h5
  obtain ⟨-, results, hins, rfl⟩ := insertResult_ok h3
  have core' : SameCore { db2 with results } _ := insertResultDependencies_core resultId rows
  obtain ⟨-, -, -, hdb4⟩ := casAttempt_ok h4
  obtain ⟨-, -, -, hdb5⟩ := casUnit_ok h5
  have kept : db5.results = results := by
    rw [hdb5, hdb4]
    exact core'.results
  rw [core.results, ← kept] at hins
  exact .inr ⟨_, db5, n, hins, rfl, rfl, rfl, .head core.act (.single act), h6⟩

theorem commitResult_acts {validated : ValidatedResult} {deps : List Key} {resultId : Key}
    {now : ℕ} {b : CommitStatus}
    (meets : ∀ u r, db.units.find? lease.unitId = some u →
      u.activeAttemptId = some lease.attemptId → u.fence = lease.fence → r.unitId = lease.unitId →
      r.attemptId = lease.attemptId → r.fence = lease.fence → G.result u r)
    (h : commitResult db lease validated deps resultId now = .ok (b, db')) : Acts D G db db' := by
  obtain rfl | ⟨r, db1, n, -, -, -, -, acts, h⟩ := commitResult_parts meets h
  · exact .refl
  · exact acts.trans (settle_acts h)

/-! ## Failing and abandoning -/

theorem decideRetry_effect {effect : DurableEffect} {policy : RetryPolicy} {n : ℕ}
    {e : ErrorClass} {manual : Bool} (h : decideRetry effect policy n e manual ≠ .needsAttention) :
    effect ≠ .reconcilable ∧ effect ≠ .manualOnly := by
  unfold decideRetry at h
  split at h
  · exact absurd rfl h
  split at h
  · exact absurd rfl h
  · rename_i hne
    exact not_or.mp hne

theorem released_of_decision {s : Stage} {u : UnitRow} {a : Attempt} {d : RetryDecision}
    (hu : u.state = .running)
    (he : d ≠ .needsAttention → s.effectProfile ≠ .reconcilable ∧ s.effectProfile ≠ .manualOnly) :
    Released s u a d.unitState 0 := by
  cases d with
  | retry =>
    exact ⟨by simp [RetryDecision.unitState], .inl rfl, by simp [RetryDecision.unitState],
      fun _ => ⟨hu, he (by simp)⟩, by simp [RetryDecision.unitState]⟩
  | needsAttention =>
    exact ⟨by simp [RetryDecision.unitState], .inl rfl, by simp [RetryDecision.unitState],
      by simp [RetryDecision.unitState], by simp [RetryDecision.unitState]⟩
  | failPermanent =>
    exact ⟨by simp [RetryDecision.unitState], .inl rfl, by simp [RetryDecision.unitState],
      by simp [RetryDecision.unitState], fun _ => ⟨hu, he (by simp)⟩⟩

theorem failAttempt_acts {e : ErrorClass} {decision : RetryDecision} {timedOut : Bool} {now : ℕ}
    {b : FailureStatus} (h : failAttempt D db lease e decision timedOut now = .ok (b, db')) :
    Acts D G db db' := by
  obtain rfl | ⟨row, a, F, h⟩ := withLease_ok h
  · exact .refl
  split at h
  · cases h; exact .refl
  simp only [bind_eq_ok] at h
  obtain ⟨expiry, -, h⟩ := h
  split at h
  · cases h; exact .refl
  simp only [bind_eq_ok, require_ok, decide_eq_true_eq, Prod.exists] at h
  obtain ⟨-, hd, usageUnknown, db1, h1, h⟩ := h
  simp only [pure_eq_ok, Prod.mk.injEq] at h
  obtain ⟨db2, h2, db3, h3, db4, h4, n, db5, h5, -, rfl⟩ := h
  have core := markUnaccounted_core h1
  have F1 := F.of_core core
  refine .head core.act (.head ?_ (.head (advanceRevisionClock_core h4).act (settle_acts h5)))
  refine F1.update h2 h3 (fun _ => rfl) fun g hg ha hu holds => ?_
  rw [F1.generation] at hg
  cases hg
  refine .release a _ e _ _ _ 0 now holds (.inr (by simpa using hu))
    (by cases timedOut <;> simp) ?_
  refine released_of_decision (by simpa using hu) fun hne => ?_
  rw [F.effect]
  by_cases hc : (usageUnknown || clockRegressed row.usage.clockHighWaterAt now) = true
  · simp [hc] at hne
  · simp only [hc, Bool.false_eq_true, if_false] at hne
    exact decideRetry_effect hne

theorem released_of_abandon {s : Stage} {u : UnitRow} {a : Attempt} {available manual : Bool}
    (pure : s.effectProfile = .pure) (hu : u.state = .leased ∨ u.state = .running)
    (hm : a.metrics.manualRetry = manual) :
    Released s u a (abandonTarget available (decide (u.state = .leased)))
      (if manual && decide (u.state = .leased) then 1 else 0) := by
  have effect : s.effectProfile ≠ .reconcilable ∧ s.effectProfile ≠ .manualOnly := by
    rw [pure]
    exact ⟨by simp, by simp⟩
  subst hm
  unfold abandonTarget
  rcases hu with hu | hu
  · refine ⟨?_, ?_, ?_, ?_, ?_⟩ <;> cases available <;> simp [hu]
  · refine ⟨?_, ?_, ?_, ?_, ?_⟩ <;> cases available <;> simp [hu, effect]

theorem abandonAttempt_acts {now : ℕ} {b : LeaseMutationStatus}
    (h : abandonAttempt db lease now = .ok (b, db')) : Acts D G db db' := by
  unfold abandonAttempt at h
  split at h
  · cases h; exact .refl
  split at h
  · cases h; exact .refl
  obtain rfl | ⟨row, a, F, h⟩ := withLease_ok h
  · exact .refl
  split at h
  · cases h; exact .refl
  rename_i hstate
  split at h
  · cases h; exact .refl
  rename_i hpure
  simp only [bind_eq_ok, Prod.exists] at h
  obtain ⟨usageUnknown, db1, h1, h⟩ := h
  simp only [pure_eq_ok, Prod.mk.injEq] at h
  obtain ⟨db2, h2, db3, h3, db4, h4, n, db5, h5, -, rfl⟩ := h
  have core := markReleasedUsage_core h1
  have F1 := F.of_core core
  refine .head core.act (.head ?_ (.head (advanceRevisionClock_core h4).act (settle_acts h5)))
  refine F1.update h2 h3 (fun _ => rfl) fun g hg ha hu holds => ?_
  rw [F1.generation] at hg
  cases hg
  have hu' : row.unit.state = .leased ∨ row.unit.state = .running := by simpa using hu
  refine .release a _ .cancelled _ _ _ _ now holds hu' (.inr (.inr rfl)) ?_
  refine released_of_abandon ?_ hu' F.manual
  rw [F.effect]
  exact not_not.mp hpure

end

end Metnos.Durable
