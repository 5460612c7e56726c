import Metnos.Durable.Refine.Claim

/-!
# Durable.Refine.Transact — every transaction is a sequence of acts

Reuse of prior results, owner commands, materialization batches and admission, and then
`transact_acts` over all operations.
-/

namespace Metnos.Durable

open Transaction

section
variable {D : Digests} {G : Guard} {db db' : Store}

/-! ## Reuse -/

/-- What the candidate query of reuse establishes. -/
structure ReuseFacts (db : Store) (c : ReuseCandidate) : Prop where
  unit : db.units.find? c.unit.id = some c.unit
  stage : db.stages.find? c.unit.stageId = some c.stage
  state : c.unit.state = .pending
  count : c.unit.attemptCount = 0
  active : c.unit.activeAttemptId = none
  pure : c.stage.effectProfile = .pure

theorem reuseCandidate_facts {c : ReuseCandidate} (h : reuseCandidate? db = some c) :
    ReuseFacts db c := by
  have hc := List.mem_of_head? h
  rw [List.mem_insertionSort, List.mem_flatMap] at hc
  obtain ⟨u, hu, hc⟩ := hc
  unfold reuseCandidates at hc
  split at hc
  · cases hc
  rename_i revision workload usage stage heq
  rw [List.mem_map] at hc
  obtain ⟨r, -, rfl⟩ := hc
  simp only [Option.bind_eq_bind, Option.bind_eq_some_iff, Option.filter_eq_some_iff] at heq
  obtain ⟨revision', -, workload', -, usage', -, stage', ⟨hs, -⟩, heq⟩ := heq
  split at heq
  · rename_i hcond
    simp only [Option.some.injEq, Prod.mk.injEq] at heq
    obtain ⟨rfl, rfl, rfl, rfl⟩ := heq
    have hr := hcond.2
    simp only [reusable, Bool.and_eq_true, decide_eq_true_eq, Option.isNone_iff_eq_none] at hr
    obtain ⟨⟨⟨⟨⟨h1, h2⟩, h3⟩, h4⟩, -⟩, -⟩ := hr
    exact ⟨Table.find?_of_mem hu, hs, h1, h2, h3, h4⟩
  · cases heq

theorem requireAttention_acts {c : ReuseCandidate} {reason : UnitError} {now : ℕ}
    (F : ReuseFacts db c) (allowed : G.aside db c.unit)
    (h : requireAttention db c reason now = .ok db') : Acts D G db db' := by
  unfold requireAttention at h
  simp only [bind_eq_ok, pure_eq_ok, Prod.exists] at h
  obtain ⟨db1, h1, n, db2, h2, rfl⟩ := h
  obtain ⟨u, hu, -, rfl⟩ := casUnit_ok h1
  have huu : u = c.unit := Option.some.inj (hu.symm.trans F.unit)
  subst huu
  refine .head (Act.unitOnly hu fun s g _ _ => ?_) (settle_acts h2)
  exact .setAside reason now F.state F.count F.active allowed

theorem adoptResult_parts {c : ReuseCandidate} {attemptId resultId now : ℕ} (F : ReuseFacts db c)
    (allowed : ∀ r, r.unitId = c.unit.id → r.fence = c.unit.fence + 1 → G.result c.unit r)
    (h : adoptResult db c attemptId resultId now = .ok db') :
    ∃ db1 n, db.results.insert? (reuseResult c ⟨c.unit.id.owner, attemptId⟩
        ⟨c.unit.id.owner, resultId⟩ now) = some db1.results ∧
      db1.units.find? c.unit.id = some (c.unit.adopt ⟨c.unit.id.owner, resultId⟩ now) ∧
      Acts D G db db1 ∧ settle db1 c.workload.id now false unitStateBatchSize = .ok (n, db') := by
  unfold adoptResult at h
  simp only [bind_eq_ok, pure_eq_ok, Prod.exists] at h
  obtain ⟨rows, -, db1, h1, db2, h2, db3, h3, db4, h4, db5, h5, n, db6, h6, rfl⟩ := h
  have after := (addRevisionUsage_core h4).trans (startQueuedWorkload_core h5)
  obtain ⟨fresh, attempts, hatt, rfl⟩ := insertAttempt_ok h1
  obtain ⟨first, results, hres, rfl⟩ := insertResult_ok h2
  have core : SameCore { db with attempts := attempts, results := results } _ :=
    insertResultDependencies_core ⟨c.unit.id.owner, resultId⟩ rows
  generalize insertResultDependencies { db with attempts := attempts, results := results }
    ⟨c.unit.id.owner, resultId⟩ rows = dbm at core h3
  obtain ⟨u, hu, -, rfl⟩ := casUnit_ok h3
  rw [core.units] at hu
  have huu : u = c.unit := Option.some.inj (hu.symm.trans F.unit)
  subst huu
  have attemptsOf : ∀ k, dbm.attemptsOf k = if k = c.unit.id then
      db.attemptsOf k ++ [reuseAttempt c.unit ⟨c.unit.id.owner, attemptId⟩ now]
      else db.attemptsOf k := fun k => by
    rw [Store.attemptsOf, core.attempts]
    exact attemptsOf_insert hatt k
  have resultsOf : ∀ k, dbm.resultsOf k = if k = c.unit.id then
      db.resultsOf k ++ [reuseResult c ⟨c.unit.id.owner, attemptId⟩ ⟨c.unit.id.owner, resultId⟩ now]
      else db.resultsOf k := fun k => by
    rw [Store.resultsOf, core.results]
    have inserted : ({ db with attempts := attempts } : Store).results.insert? _ = some results := hres
    exact resultsOf_insert inserted k
  have adopted : (dbm.units.updateWhere (fun x => decide (x.id = c.unit.id))
      (UnitRow.adopt ⟨c.unit.id.owner, resultId⟩ now) (UnitRow.adopt_id _ now)).find? c.unit.id =
      some (c.unit.adopt ⟨c.unit.id.owner, resultId⟩ now) := by
    rw [core.units]
    exact Table.find?_update_self _ F.unit
  refine ⟨db5, n, ?_, by rw [after.units]; exact adopted, .head ?_ after.acts, h6⟩
  · rw [after.results]
    dsimp only
    rw [core.results]
    exact hres
  refine .one (c.unit.adopt ⟨c.unit.id.owner, resultId⟩ now) ⟨core.frame.stages,
    core.frame.sources, core.frame.cursors, core.frame.unitDependencies, core.frame.generation⟩
    F.unit adopted (fun j hj => ?_) (fun j hj => ?_) (fun j hj => ?_) ?_
  · dsimp only
    rw [core.units]
    exact Table.find?_update_ne _ hj
  · exact (attemptsOf j).trans (if_neg hj)
  · exact (resultsOf j).trans (if_neg hj)
  · intro s g hs _
    rw [F.stage] at hs
    cases hs
    have step : CellStep c.stage g (G.aside db) G.result (db.cell c.unit) _ :=
      CellStep.adopt ⟨c.unit.id.owner, attemptId⟩
      (reuseResult c ⟨c.unit.id.owner, attemptId⟩ ⟨c.unit.id.owner, resultId⟩ now) now F.state
      F.count F.active F.pure (fun a ha => fresh a (mem_attemptsOf.mp ha).1) first rfl rfl rfl rfl
      (allowed _ rfl rfl)
    convert step using 1
    unfold Store.cell
    dsimp only [UnitRow.adopt]
    congr 1
    · exact (attemptsOf c.unit.id).trans (if_pos rfl)
    · refine (resultsOf c.unit.id).trans ((if_pos rfl).trans ?_)
      have hfirst : db.resultsOf c.unit.id = [] := first
      rw [hfirst]
      rfl

theorem adoptResult_acts {c : ReuseCandidate} {attemptId resultId now : ℕ} (F : ReuseFacts db c)
    (allowed : ∀ r, r.unitId = c.unit.id → r.fence = c.unit.fence + 1 → G.result c.unit r)
    (h : adoptResult db c attemptId resultId now = .ok db') : Acts D G db db' := by
  obtain ⟨db1, n, -, -, acts, h⟩ := adoptResult_parts F allowed h
  exact acts.trans (settle_acts h)

theorem adoptReusableResult_acts {attemptId resultId now : ℕ}
    (meets : ∀ c, reuseCandidate? db = some c →
      ((reuseConflict D db c).isSome → G.aside db c.unit) ∧
      ∀ r, r.unitId = c.unit.id → r.fence = c.unit.fence + 1 → G.result c.unit r)
    (h : adoptReusableResult D db attemptId resultId now = .ok db') : Acts D G db db' := by
  unfold adoptReusableResult at h
  split at h
  · cases h; exact .refl
  rename_i c hc
  have F := reuseCandidate_facts hc
  split at h
  · simp only [bind_eq_ok, pure_eq_ok, Prod.exists] at h
    obtain ⟨n, db1, h1, -, -, rfl⟩ := h
    exact settle_acts h1
  split at h
  · rename_i reason hreason
    exact requireAttention_acts F ((meets c hc).1 (by rw [hreason]; rfl)) h
  · exact adoptResult_acts F (meets c hc).2 h

/-! ## Owner commands -/

theorem control_acts {k : Key} {command : ControlCommand} {key v now : ℕ}
    (h : control db k command key v now = .ok db') : Acts D G db db' := by
  unfold control at h
  simp only [bind_eq_ok] at h
  obtain ⟨replay, -, h⟩ := h
  split at h
  · simp only [pure_eq_ok] at h
    exact h ▸ .refl
  simp only [bind_eq_ok] at h
  obtain ⟨w, -, -, -, target, -, h⟩ := h
  have settled : ∀ {db1 db2 : Store}, settleAfterControl db1 k now = .ok db2 → Acts D G db1 db2 := by
    intro db1 db2 hs
    unfold settleAfterControl at hs
    simp only [bind_eq_ok] at hs
    obtain ⟨w, -, hs⟩ := hs
    split at hs
    · simp only [pure_eq_ok] at hs
      exact hs ▸ .refl
    split at hs
    · simp only [bind_eq_ok, pure_eq_ok, Prod.exists] at hs
      obtain ⟨n, db3, h3, rfl⟩ := hs
      exact settle_acts h3
    split at hs
    · simp only [pure_eq_ok] at hs
      exact hs ▸ .single (cancelWaitingUnits_act ..)
    · simp only [pure_eq_ok] at hs
      exact hs ▸ .refl
  split at h
  · simp only [bind_eq_ok, pure_eq_ok] at h
    obtain ⟨db1, rfl, db2, h2, rfl⟩ := h
    exact (settled h2).tail (recordCommand_core ..).act
  · simp only [bind_eq_ok, pure_eq_ok] at h
    obtain ⟨-, -, db1, h1, type, -, db2, h2, db3, h3, rfl⟩ := h
    exact .head ((updateState_core h1).trans (appendEvent_core h2)).act
      ((settled h3).tail (recordCommand_core ..).act)

theorem Granted.core {revision : Key} {a b c : Store} (h : Granted revision a b)
    (h' : SameCore b c) : Granted revision a c :=
  ⟨h'.units.trans h.units, h'.attempts.trans h.attempts, h'.results.trans h.results,
    h'.frame.stages.trans h.stages, h'.frame.sources.trans h.sources,
    h'.frame.cursors.trans h.cursors,
    h'.frame.unitDependencies.trans h.dependencies,
    fun r => (h'.frame.generation r).trans (h.generation r)⟩

theorem grantManualRetry_ok {k revision : Key} {now : ℕ}
    (h : grantManualRetry db k revision now = .ok db') :
    db.units.rows.any (blockedDependencyAttention revision) = false ∧
    Granted revision db db' := by
  unfold grantManualRetry at h
  simp only [bind_eq_ok, require_ok, orRaise_ok, pure_eq_ok, Bool.not_eq_true'] at h
  obtain ⟨-, -, -, hblocked, -, -, -, -, r, hr, -, -, -, -, rfl⟩ := h
  refine ⟨hblocked, rfl, rfl, rfl, rfl, rfl, rfl, rfl, fun r' => ?_⟩
  unfold Store.generation
  dsimp only
  rw [Table.find?_updateWhere]
  cases hr' : db.revisions.find? r' with
  | none => rfl
  | some x =>
    have hx : x.id = r' := Table.key_of_find? hr'
    by_cases hrr : r' = revision
    · simp [hx, hrr]
    · simp [hx, hrr]

theorem recordAttentionResolution_retry {k : Key} {note : Option ℕ} {key v now : ℕ}
    (h : recordAttentionResolution db k .retry note key v now = .ok db') :
    db' = db ∨ ∃ w revision, db.workloads.find? k = some w ∧
      w.activeRevisionId = some revision ∧
      db.units.rows.any (blockedDependencyAttention revision) = false ∧
      Granted revision db db' := by
  unfold recordAttentionResolution at h
  simp only [bind_eq_ok] at h
  obtain ⟨replay, -, h⟩ := h
  split at h
  · simp only [pure_eq_ok] at h
    exact .inl h.symm
  simp only [bind_eq_ok, selectWorkload, orRaise_ok, pure_eq_ok] at h
  obtain ⟨w, hw, -, -, -, -, revision, hrev, db1, h1, db2, h2, db3, h3, rfl⟩ := h
  obtain ⟨hblocked, G⟩ := grantManualRetry_ok h1
  exact .inr ⟨w, revision, hw, hrev, hblocked,
    G.core (((updateState_core h2).trans (appendEvent_core h3)).trans (recordCommand_core ..))⟩

theorem recordAttentionResolution_acts {k : Key} {decision : AttentionDecision}
    {note : Option ℕ} {key v now : ℕ}
    (meets : decision = .retry → ∀ w revision, db.workloads.find? k = some w →
      w.activeRevisionId = some revision → G.grant db revision)
    (h : recordAttentionResolution db k decision note key v now = .ok db') : Acts D G db db' := by
  cases decision with
  | retry =>
    rcases recordAttentionResolution_retry h with rfl | ⟨w, revision, hw, hrev, hblocked, g⟩
    · exact .refl
    · exact .single (.grant revision (meets rfl w revision hw hrev) hblocked g)
  | cancel =>
    unfold recordAttentionResolution at h
    simp only [bind_eq_ok] at h
    obtain ⟨replay, -, h⟩ := h
    split at h
    · simp only [pure_eq_ok] at h
      exact h ▸ .refl
    simp only [bind_eq_ok, selectWorkload, orRaise_ok, pure_eq_ok, Prod.exists] at h
    obtain ⟨w, hw, -, -, -, -, revision, hrev, db1, h1, db2, h2, n, db3, h3, rfl⟩ := h
    exact .head ((updateState_core h1).trans (appendEvent_core h2)).act
      ((settle_acts h3).tail (recordCommand_core ..).act)

/-! ## Materialization and admission -/

theorem materializeRounds_acts {ids : FreshIds} {revision : Revision} {now limit : ℕ}
    (hr : db.revisions.find? revision.id = some revision)
    (meets : roundsMeet D G ids revision now limit db)
    (h : materializeRounds D ids revision now limit db = .ok db') : Acts D G db db' := by
  induction limit generalizing db with
  | zero =>
    simp only [materializeRounds] at h
    cases h
    exact .refl
  | succ n ih =>
    unfold materializeRounds at h
    unfold roundsMeet at meets
    split at h
    · cases h; exact .refl
    · rename_i stage cursor hnext
      rw [hnext] at meets
      simp only [bind_eq_ok] at h
      obtain ⟨db1, h1, h2⟩ := h
      have cells := materializeRound_cells h1
      refine .head (.round ⟨stage, revision, ids, now⟩ cursor hnext hr meets.1 h1) ?_
      exact ih (by rw [cells.revisions]; exact hr) (meets.2 db1 h1) h2

theorem materializeReadyUnits_acts {ids : FreshIds} {k : Key} {limit now : ℕ}
    (meets : ∀ w revision, db.workloads.find? k = some w → w.activeRevisionId = some revision.id →
      db.revisions.find? revision.id = some revision → roundsMeet D G ids revision now limit db)
    (h : materializeReadyUnits D ids db k limit now = .ok db') : Acts D G db db' := by
  unfold materializeReadyUnits at h
  simp only [bind_eq_ok, selectWorkload, orRaise_ok] at h
  obtain ⟨w, hw, h⟩ := h
  split at h
  · simp only [pure_eq_ok] at h
    exact h ▸ .refl
  rename_i revisionId hact
  split at h
  · simp only [pure_eq_ok] at h
    exact h ▸ .refl
  simp only [bind_eq_ok, orRaise_ok, Option.filter_eq_some_iff] at h
  obtain ⟨revision, ⟨hr, -⟩, h⟩ := h
  have hid : revision.id = revisionId := Table.key_of_find? hr
  subst hid
  exact materializeRounds_acts hr (meets w revision hw hact hr) h

theorem admitRevision_acts {ids : FreshIds} {k : Key} {adm : Admission} {v now : ℕ}
    (allowed : G.admission adm) (h : admitRevision D ids db k adm v now = .ok db') : Acts D G db db' := by
  unfold admitRevision at h
  simp only [bind_eq_ok, require_ok] at h
  obtain ⟨-, valid, -, -, -, -, w, -, h⟩ := h
  split at h
  · simp only [bind_eq_ok, pure_eq_ok] at h
    obtain ⟨-, -, rfl⟩ := h
    exact .refl
  · simp only [bind_eq_ok] at h
    obtain ⟨-, -, -, -, -, -, db1, h1, db2, h2, h3⟩ := h
    exact .head (.admitted ids k adm now allowed valid h1)
      ((casWorkload_core h2).trans (appendEvent_core h3)).acts

theorem createDraft_core {k : Key} {key digest now : ℕ} {p : Priority}
    (h : createDraft db k key digest p now = .ok db') : SameCore db db' := by
  unfold createDraft at h
  split at h
  · simp only [bind_eq_ok, pure_eq_ok] at h
    obtain ⟨-, -, rfl⟩ := h
    exact .refl db
  · simp only [bind_eq_ok] at h
    obtain ⟨workloads, -, h⟩ := h
    have core : SameCore db { db with workloads := workloads } :=
      ⟨⟨rfl, rfl, rfl, rfl, fun _ => rfl⟩, rfl, rfl, rfl⟩
    exact core.trans (appendEvent_core h)

theorem transitionWorkload_core {k : Key} {target : WorkloadState} {v now : ℕ}
    (h : transitionWorkload db k target v now = .ok db') : SameCore db db' := by
  unfold transitionWorkload at h
  simp only [bind_eq_ok] at h
  obtain ⟨-, -, type, -, w, -, -, -, -, -, db1, h1, h2⟩ := h
  exact (updateState_core h1).trans (appendEvent_core h2)

theorem evaluateCompletion_ok {k : Key} {artifacts : List ArtifactRow} {domainErrors now : ℕ}
    {x : CompletionAssessment} (h : evaluateCompletion db k artifacts domainErrors now = .ok (x, db')) :
    db' = db ∨ ∃ w r, db.workloads.find? k = some w ∧ w.activeRevisionId = some r.id ∧
      db.revisions.find? r.id = some r ∧ r.workloadId = k ∧
      completionReasons db w r artifacts now = [] ∧
      completeWorkload db w
        (if completionErrors db r domainErrors then .completedWithErrors else .completed)
        (if completionErrors db r domainErrors then .completedWithErrors else .completed) now =
          .ok db' := by
  unfold evaluateCompletion at h
  simp only [bind_eq_ok, selectWorkload, orRaise_ok] at h
  obtain ⟨w, hw, h⟩ := h
  split at h
  · simp only [pure_eq_ok, Prod.mk.injEq] at h
    exact .inl h.2.symm
  split at h
  · simp only [pure_eq_ok, Prod.mk.injEq] at h
    exact .inl h.2.symm
  rename_i revision hact
  split at h
  · simp only [pure_eq_ok, Prod.mk.injEq] at h
    exact .inl h.2.symm
  rename_i r hr
  obtain ⟨hr, hworkload⟩ := Option.filter_eq_some_iff.mp hr
  have hid : r.id = revision := Table.key_of_find? hr
  subst hid
  split at h
  · simp only [pure_eq_ok, Prod.mk.injEq] at h
    exact .inl h.2.symm
  · rename_i hreasons
    simp only [bind_eq_ok, pure_eq_ok, Prod.mk.injEq] at h
    obtain ⟨db1, h1, -, rfl⟩ := h
    refine .inr ⟨w, r, hw, hact, hr, by simpa using hworkload, ?_, h1⟩
    simpa using hreasons

theorem evaluateCompletion_core {k : Key} {artifacts : List ArtifactRow} {domainErrors now : ℕ}
    {x : CompletionAssessment} (h : evaluateCompletion db k artifacts domainErrors now = .ok (x, db')) :
    SameCore db db' := by
  rcases evaluateCompletion_ok h with rfl | ⟨w, r, -, -, -, -, -, h⟩
  · exact .refl _
  · unfold completeWorkload at h
    simp only [bind_eq_ok] at h
    obtain ⟨db1, h1, h2⟩ := h
    exact (appendEvent_core h1).trans (casWorkload_core h2)

theorem refreshUsageComplete_core {k : Key} {complete : Bool}
    (h : refreshUsageComplete db k complete = .ok db') : SameCore db db' := by
  unfold refreshUsageComplete at h
  simp only [bind_eq_ok] at h
  obtain ⟨w, -, h⟩ := h
  split at h
  · simp only [pure_eq_ok] at h
    exact h ▸ .refl db
  · simp only [pure_eq_ok] at h
    subst h
    exact ⟨⟨rfl, rfl, rfl, rfl, generation_updateWhere (fun _ => rfl)⟩, rfl, rfl, rfl⟩

theorem recordArtifacts_core {k : Key} {n : ℕ} {attention : List Key}
    (h : recordArtifacts db k n attention = .ok db') : SameCore db db' := by
  unfold recordArtifacts at h
  simp only [bind_eq_ok, pure_eq_ok] at h
  obtain ⟨db1, h1, rfl⟩ := h
  exact (addRevisionUsage_core h1).trans ⟨⟨rfl, rfl, rfl, rfl, fun _ => rfl⟩, rfl, rfl, rfl⟩

theorem stored_ok {α : Type} {x : Tx (α × Store)} (h : stored x = .ok db') :
    ∃ a, x = .ok (a, db') := by
  unfold stored at h
  simp only [bind_eq_ok, pure_eq_ok, Prod.exists] at h
  obtain ⟨a, db1, h1, rfl⟩ := h
  exact ⟨a, h1⟩

/-- **Refinement.**  Every transaction is a sequence of acts, and it meets the guard in each of
them when the operation meets it in the store it starts from. -/
theorem transact_acts {op : Op} (meets : op.meets D G db) (h : transact D db op = .ok db') :
    Acts D G db db' := by
  cases op with
  | createDraft => exact (createDraft_core h).acts
  | admitRevision => exact admitRevision_acts meets h
  | transitionWorkload => exact (transitionWorkload_core h).acts
  | control => exact control_acts h
  | recordAttentionResolution k decision =>
    refine recordAttentionResolution_acts (fun hd => ?_) h
    subst hd
    exact meets
  | settleWorkload =>
    simp only [transact, settleWorkload, bind_eq_ok, pure_eq_ok, Prod.exists] at h
    obtain ⟨n, db1, h1, rfl⟩ := h
    exact settle_acts h1
  | evaluateCompletion =>
    obtain ⟨x, h⟩ := stored_ok h
    exact (evaluateCompletion_core h).acts
  | refreshUsageComplete => exact (refreshUsageComplete_core h).acts
  | recordArtifacts => exact (recordArtifacts_core h).acts
  | materializeReadyUnits => exact materializeReadyUnits_acts meets h
  | adoptReusableResult => exact adoptReusableResult_acts meets h
  | claimNext =>
    obtain ⟨_, h⟩ := stored_ok h
    exact claimNext_acts h
  | markRunning =>
    obtain ⟨_, h⟩ := stored_ok h
    exact markRunning_acts h
  | heartbeat =>
    obtain ⟨_, h⟩ := stored_ok h
    exact heartbeat_acts h
  | executionInputs =>
    obtain ⟨_, h⟩ := stored_ok h
    exact executionInputs_acts h
  | recordExecutionFacts =>
    obtain ⟨_, h⟩ := stored_ok h
    exact recordExecutionFacts_acts h
  | recordAttemptUsage =>
    obtain ⟨_, h⟩ := stored_ok h
    exact recordAttemptUsage_acts h
  | commitResult =>
    obtain ⟨_, h⟩ := stored_ok h
    exact commitResult_acts meets h
  | failAttempt =>
    obtain ⟨_, h⟩ := stored_ok h
    exact failAttempt_acts h
  | abandonAttempt =>
    obtain ⟨_, h⟩ := stored_ok h
    exact abandonAttempt_acts h
  | reconcileExpired => exact reconcileExpired_acts h

end

end Metnos.Durable
