import Metnos.Durable.Writes

/-!
# Durable.Snapshots — which operations change the model facts of an attempt

The model snapshot and the recorded usage of an attempt are written by `record_execution_facts`
and `record_attempt_usage`; a new attempt starts without either.  Every other operation keeps
them, and opens no attempt.
-/

namespace Metnos.Durable

open Transaction

/-- The unit of an attempt, its model snapshot and its recorded usage. -/
def Attempt.model (a : Attempt) : Key × ModelSnapshot × Option ModelUsage :=
  (a.unitId, a.modelSnapshot, a.metrics.llmUsage)

/-- Existing attempts keep their model facts and stay ended; a new one is ended and has none. -/
structure SameModels (db db' : Store) : Prop where
  old : ∀ k a, db.attempts.find? k = some a → ∃ a', db'.attempts.find? k = some a' ∧
    a'.model = a.model ∧ (a.endedAt ≠ none → a'.endedAt ≠ none)
  new : ∀ k a', db.attempts.find? k = none → db'.attempts.find? k = some a' →
    a'.modelSnapshot = .unbound 0 ∧ a'.endedAt ≠ none

theorem SameModels.of_eq {db db' : Store} (h : db'.attempts = db.attempts) : SameModels db db' := by
  refine ⟨fun k a ha => ⟨a, by rw [h]; exact ha, rfl, fun he => he⟩, fun k a' hk ha' => ?_⟩
  rw [h, hk] at ha'
  cases ha'

theorem SameModels.refl (db : Store) : SameModels db db := .of_eq rfl

theorem SameModels.trans {a b c : Store} (h : SameModels a b) (h' : SameModels b c) :
    SameModels a c := by
  refine ⟨fun k x hx => ?_, fun k z hk hz => ?_⟩
  · obtain ⟨y, hy, hm, he⟩ := h.old k x hx
    obtain ⟨z, hz, hm', he'⟩ := h'.old k y hy
    exact ⟨z, hz, hm'.trans hm, fun hx => he' (he hx)⟩
  · cases hb : b.attempts.find? k with
    | none => exact h'.new k z hb hz
    | some y =>
      obtain ⟨hs, he⟩ := h.new k y hk hb
      obtain ⟨z', hz', hm, he'⟩ := h'.old k y hb
      obtain rfl : z = z' := Option.some.inj (hz.symm.trans hz')
      have hsnap : z.modelSnapshot = y.modelSnapshot := congrArg (fun t => t.2.1) hm
      exact ⟨hsnap.trans hs, he' he⟩

section
variable {D : Digests} {db db' : Store}

theorem SameCore.models (h : SameCore db db') : SameModels db db' := .of_eq h.attempts

theorem casUnit_models {k : Key} {p : UnitRow → Bool} {f : UnitRow → UnitRow}
    {hf : ∀ u, (f u).id = u.id} (h : casUnit db k p f hf = .ok db') : SameModels db db' := by
  obtain ⟨u, -, -, rfl⟩ := casUnit_ok h
  exact .of_eq rfl

theorem casAttempt_models {k : Key} {p : Attempt → Bool} {f : Attempt → Attempt}
    {hf : ∀ a, (f a).id = a.id} (h : casAttempt db k p f hf = .ok db')
    (model : ∀ a, (f a).model = a.model) (ended : ∀ a, a.endedAt ≠ none → (f a).endedAt ≠ none) :
    SameModels db db' := by
  obtain ⟨b, -, -, rfl⟩ := casAttempt_ok h
  refine ⟨fun j a ha => ?_, fun j a' hj ha' => ?_⟩
  · refine ⟨_, Table.find?_updateWhere_of_some hf ha, ?_, fun he => ?_⟩
    · split
      · exact model a
      · rfl
    · split
      · exact ended a he
      · exact he
  · dsimp only at ha'
    rw [Table.find?_updateWhere, hj] at ha'
    cases ha'

theorem finish_models {k : Key} {p : Attempt → Bool} {state : AttemptState}
    {error : Option ErrorClass} {now : ℕ} {hf : ∀ a, (Attempt.finish state error now a).id = a.id}
    (h : casAttempt db k p (Attempt.finish state error now) hf = .ok db') : SameModels db db' :=
  casAttempt_models h (fun _ => rfl) (fun _ _ => by simp [Attempt.finish])

/-! ## Settlement -/

theorem repairExhausted_models (revision : Key) (now limit : ℕ) :
    SameModels db (repairExhaustedUnits db revision now limit).2 := by
  unfold repairExhaustedUnits
  split
  · exact .of_eq rfl
  · exact .of_eq rfl

theorem settleCancelRequested_models {w : Workload} {revision : Key} {now limit n : ℕ}
    (h : settleCancelRequested db w revision now limit = .ok (n, db')) : SameModels db db' := by
  unfold settleCancelRequested at h
  have cancelled : SameModels db (cancelWaitingUnits db revision now limit).2 := .of_eq rfl
  revert h cancelled
  generalize cancelWaitingUnits db revision now limit = x
  obtain ⟨m, db1⟩ := x
  intro h cancelled
  simp only at h
  split at h
  · simp only [pure_eq_ok, Prod.mk.injEq] at h
    exact h.2 ▸ cancelled
  · simp only [bind_eq_ok, pure_eq_ok, Prod.mk.injEq] at h
    obtain ⟨db2, h1, -, rfl⟩ := h
    exact cancelled.trans (automaticWorkloadTransition_core h1).models

theorem settleFailures_models {w : Workload} {r : Revision} {e now limit n : ℕ}
    (h : settleFailures db w r e now limit = .ok (n, db')) : SameModels db db' := by
  unfold settleFailures at h
  split at h
  · have cancelled : SameModels db (cancelWaitingUnits db r.id now limit).2 := .of_eq rfl
    revert h cancelled
    generalize cancelWaitingUnits db r.id now limit = x
    obtain ⟨m, db1⟩ := x
    intro h cancelled
    simp only at h
    split at h
    · simp only [pure_eq_ok, Prod.mk.injEq] at h
      exact h.2 ▸ cancelled
    · simp only [bind_eq_ok, pure_eq_ok, Prod.mk.injEq] at h
      obtain ⟨db2, h1, -, rfl⟩ := h
      exact cancelled.trans (automaticWorkloadTransition_core h1).models
  · split at h
    · simp only [bind_eq_ok, pure_eq_ok, Prod.mk.injEq] at h
      obtain ⟨db2, h1, -, rfl⟩ := h
      exact (automaticWorkloadTransition_core h1).models
    · simp only [pure_eq_ok, Prod.mk.injEq] at h
      exact h.2 ▸ .refl db

theorem settleAttention_models {w : Workload} {revision : Key} {e now limit n : ℕ}
    (h : settleAttention db w revision e now limit = .ok (n, db')) : SameModels db db' := by
  unfold settleAttention at h
  split at h
  · simp only [pure_eq_ok, Prod.mk.injEq] at h
    exact h.2 ▸ .refl db
  split at h
  · simp only [bind_eq_ok, pure_eq_ok, Prod.mk.injEq] at h
    obtain ⟨db2, h1, -, rfl⟩ := h
    exact (automaticWorkloadTransition_core h1).models
  · simp only [bind_eq_ok, orRaise_ok] at h
    obtain ⟨r, -, h⟩ := h
    split at h
    · simp only [bind_eq_ok, pure_eq_ok, Prod.mk.injEq] at h
      obtain ⟨db2, h1, -, rfl⟩ := h
      exact (automaticWorkloadTransition_core h1).models
    · exact settleFailures_models h

theorem settle_models {k : Key} {now limit n : ℕ} {repair : Bool}
    (h : settle db k now repair limit = .ok (n, db')) : SameModels db db' := by
  unfold settle at h
  simp only [bind_eq_ok] at h
  obtain ⟨w, -, h⟩ := h
  split at h
  · simp only [pure_eq_ok, Prod.mk.injEq] at h
    exact h.2 ▸ .refl db
  · rename_i revision _
    split at h
    · simp only [pure_eq_ok] at h
      have same : SameModels db (cancelWaitingUnits db revision now limit).2 := .of_eq rfl
      rw [h] at same
      exact same
    split at h
    · simp only [pure_eq_ok, Prod.mk.injEq] at h
      exact h.2 ▸ .refl db
    split at h
    · exact settleCancelRequested_models h
    split at h
    · simp only [bind_eq_ok, pure_eq_ok, Prod.mk.injEq] at h
      obtain ⟨db2, h1, -, rfl⟩ := h
      exact (automaticWorkloadTransition_core h1).models
    split at h
    · have repaired : SameModels db (repairExhaustedUnits db revision now limit).2 :=
        repairExhausted_models revision now limit
      revert h repaired
      generalize repairExhaustedUnits db revision now limit = x
      obtain ⟨m, db1⟩ := x
      intro h repaired
      simp only at h
      split at h
      · simp only [pure_eq_ok, Prod.mk.injEq] at h
        exact h.2 ▸ repaired
      · exact repaired.trans (settleAttention_models h)
    · exact settleAttention_models h

/-! ## Calls of a worker -/

section
variable {lease : Lease}

theorem markRunning_models {now : ℕ} {b : LeaseMutationStatus}
    (h : markRunning db lease now = .ok (b, db')) : SameModels db db' := by
  obtain rfl | ⟨row, a, -, h⟩ := withLease_ok h
  · exact .refl _
  split at h
  · cases h; exact .refl _
  simp only [bind_eq_ok] at h
  obtain ⟨expiry, -, h⟩ := h
  split at h
  · cases h; exact .refl _
  split at h
  · cases h; exact .refl _
  split at h
  · cases h; exact .refl _
  simp only [bind_eq_ok, pure_eq_ok, Prod.mk.injEq] at h
  obtain ⟨db1, h1, db2, h2, db3, h3, -, rfl⟩ := h
  exact ((casAttempt_models h1 (fun _ => rfl) (fun _ he => he)).trans (casUnit_models h2)).trans
    (advanceRevisionClock_core h3).models

theorem heartbeat_models {newExpiry now : ℕ} {b : LeaseMutationStatus}
    (h : heartbeat db lease newExpiry now = .ok (b, db')) : SameModels db db' := by
  unfold heartbeat at h
  simp only [bind_eq_ok] at h
  obtain ⟨-, -, h⟩ := h
  obtain rfl | ⟨row, a, -, h⟩ := withLease_ok h
  · exact .refl _
  split at h
  · cases h; exact .refl _
  split at h
  · cases h; exact .refl _
  simp only [bind_eq_ok] at h
  obtain ⟨stored, -, h⟩ := h
  split at h
  · cases h; exact .refl _
  split at h
  · cases h; exact .refl _
  simp only [bind_eq_ok, pure_eq_ok, Prod.mk.injEq] at h
  obtain ⟨-, -, -, -, db1, h1, db2, h2, -, rfl⟩ := h
  exact (casUnit_models h1).trans (advanceRevisionClock_core h2).models

theorem executionInputs_models {bytes : ℕ} {b : Unit}
    (h : executionInputs db lease bytes = .ok (b, db')) : SameModels db db' := by
  obtain rfl | ⟨row, a, -, h⟩ := withLease_ok h
  · exact .refl _
  split at h
  · simp only [bind_eq_ok, pure_eq_ok, Prod.mk.injEq] at h
    obtain ⟨-, -, -, rfl⟩ := h
    exact .refl _
  · simp only [bind_eq_ok, pure_eq_ok, Prod.mk.injEq] at h
    obtain ⟨db1, h1, db2, h2, -, rfl⟩ := h
    exact (casAttempt_models h1 (fun _ => rfl) (fun _ he => he)).trans
      (addRevisionUsage_core h2).models

theorem insertResult_models {r : ResultRow} (h : insertResult db r = .ok db') (child : Key)
    (rows : List (UnitDependency × ResultRow × UnitRow)) :
    SameModels db (insertResultDependencies db' child rows) := by
  obtain ⟨-, results, -, rfl⟩ := insertResult_ok h
  exact .of_eq (insertResultDependencies_core child rows).attempts

theorem commitResult_models {validated : ValidatedResult} {ids : List Key} {resultId : Key}
    {now : ℕ} {b : CommitStatus}
    (h : commitResult db lease validated ids resultId now = .ok (b, db')) :
    SameModels db db' := by
  unfold commitResult at h
  simp only [bind_eq_ok] at h
  obtain ⟨-, -, h⟩ := h
  split at h
  · simp only [pure_eq_ok, Prod.mk.injEq] at h
    exact h.2 ▸ .refl _
  obtain rfl | ⟨row, a, -, h⟩ := withLease_ok h
  · exact .refl _
  split at h
  · cases h; exact .refl _
  split at h
  · cases h; exact .refl _
  split at h
  · cases h; exact .refl _
  simp only [bind_eq_ok] at h
  obtain ⟨expiry, -, h⟩ := h
  split at h
  · cases h; exact .refl _
  simp only [bind_eq_ok, pure_eq_ok, Prod.mk.injEq, Prod.exists] at h
  obtain ⟨-, -, rows, -, -, -, -, -, db1, h1, -, -, db2, h2, db3, h3, db4, h4, db5, h5, n, db6, h6,
    -, rfl⟩ := h
  have counted := ((addRevisionUsage_core h1).trans (advanceRevisionClock_core h2)).models
  exact (((counted.trans (insertResult_models h3 _ rows)).trans (finish_models h4)).trans
    (casUnit_models h5)).trans (settle_models h6)

theorem failAttempt_models {errorClass : ErrorClass} {decision : RetryDecision} {timedOut : Bool}
    {now : ℕ} {b : FailureStatus}
    (h : failAttempt D db lease errorClass decision timedOut now = .ok (b, db')) :
    SameModels db db' := by
  obtain rfl | ⟨row, a, -, h⟩ := withLease_ok h
  · exact .refl _
  split at h
  · cases h; exact .refl _
  simp only [bind_eq_ok] at h
  obtain ⟨expiry, -, h⟩ := h
  split at h
  · cases h; exact .refl _
  simp only [bind_eq_ok, pure_eq_ok, Prod.mk.injEq, Prod.exists] at h
  obtain ⟨-, -, unknown, db1, h1, db2, h2, db3, h3, db4, h4, n, db5, h5, -, rfl⟩ := h
  exact ((((markUnaccounted_core h1).models.trans (finish_models h2)).trans
    (casUnit_models h3)).trans (advanceRevisionClock_core h4).models).trans (settle_models h5)

theorem abandonAttempt_models {now : ℕ} {b : LeaseMutationStatus}
    (h : abandonAttempt db lease now = .ok (b, db')) : SameModels db db' := by
  unfold abandonAttempt at h
  split at h
  · cases h; exact .refl _
  split at h
  · cases h; exact .refl _
  obtain rfl | ⟨row, a, -, h⟩ := withLease_ok h
  · exact .refl _
  split at h
  · cases h; exact .refl _
  split at h
  · cases h; exact .refl _
  simp only [bind_eq_ok, pure_eq_ok, Prod.mk.injEq, Prod.exists] at h
  obtain ⟨unknown, db1, h1, db2, h2, db3, h3, db4, h4, n, db5, h5, -, rfl⟩ := h
  exact ((((markReleasedUsage_core h1).models.trans (finish_models h2)).trans
    (casUnit_models h3)).trans (advanceRevisionClock_core h4).models).trans (settle_models h5)

end

/-! ## Reconciliation, reuse and the owner -/

theorem reconcileExpired_models {now batch : ℕ} (h : reconcileExpired D db now batch = .ok db') :
    SameModels db db' := by
  unfold reconcileExpired at h
  simp only [bind_eq_ok] at h
  obtain ⟨-, -, db1, h1, h2⟩ := h
  have rows : SameModels db db1 := by
    refine foldlM_invariant (I := fun x => SameModels db x) (fun row _ a b hab hI => ?_) h1 (.refl db)
    unfold reconcileRow at hab
    simp only [bind_eq_ok, Prod.exists] at hab
    obtain ⟨unknown, db2, h2, db3, h3, db4, h4, h5⟩ := hab
    exact hI.trans ((((markReleasedUsage_core h2).models.trans (finish_models h3)).trans
      (casUnit_models h4)).trans (advanceRevisionClock_core h5).models)
  have promoted : SameModels db (promoteDueRetries db1 now
      (batch - (expiredRows db now batch).length)) := rows.trans (.of_eq rfl)
  refine foldlM_invariant (I := fun x => SameModels db x) (fun w _ a b hab hI => ?_) h2 promoted
  simp only [bind_eq_ok, pure_eq_ok, Prod.exists] at hab
  obtain ⟨n, db3, h3, rfl⟩ := hab
  exact hI.trans (settle_models h3)

theorem insertReuse_models {u : UnitRow} {id : Key} {now : ℕ}
    (h : insertAttempt db (reuseAttempt u id now) = .ok db') : SameModels db db' := by
  obtain ⟨fresh, attempts, hins, rfl⟩ := insertAttempt_ok h
  refine ⟨fun k a ha => ⟨a, ?_, rfl, fun he => he⟩, fun k a' hk ha' => ?_⟩
  · have hne : k ≠ id := by
      rintro rfl
      exact fresh a (Table.mem_of_find? ha) (Table.key_of_find? ha)
    exact (Table.find?_insert?_ne hins hne).trans ha
  · by_cases hne : k = id
    · subst hne
      have hself : attempts.find? k = some (reuseAttempt u k now) := Table.find?_insert?_self hins
      obtain rfl := Option.some.inj (hself.symm.trans ha')
      exact ⟨rfl, by simp [reuseAttempt]⟩
    · have hold : attempts.find? k = db.attempts.find? k := Table.find?_insert?_ne hins hne
      rw [hold, hk] at ha'
      cases ha'

theorem adoptReusableResult_models {attemptId resultId now : ℕ}
    (h : adoptReusableResult D db attemptId resultId now = .ok db') : SameModels db db' := by
  unfold adoptReusableResult at h
  split at h
  · cases h; exact .refl _
  split at h
  · simp only [bind_eq_ok, pure_eq_ok, Prod.exists] at h
    obtain ⟨n, db1, h1, -, -, rfl⟩ := h
    exact settle_models h1
  split at h
  · unfold requireAttention at h
    simp only [bind_eq_ok, pure_eq_ok, Prod.exists] at h
    obtain ⟨db1, h1, n, db2, h2, rfl⟩ := h
    exact (casUnit_models h1).trans (settle_models h2)
  · unfold adoptResult at h
    simp only [bind_eq_ok, pure_eq_ok, Prod.exists] at h
    obtain ⟨rows, -, db1, h1, db2, h2, db3, h3, db4, h4, db5, h5, n, db6, h6, rfl⟩ := h
    exact ((((insertReuse_models h1).trans (insertResult_models h2 _ rows)).trans
      (casUnit_models h3)).trans
      ((addRevisionUsage_core h4).trans (startQueuedWorkload_core h5)).models).trans
      (settle_models h6)

theorem settleAfterControl_models {k : Key} {now : ℕ}
    (h : settleAfterControl db k now = .ok db') : SameModels db db' := by
  unfold settleAfterControl at h
  simp only [bind_eq_ok] at h
  obtain ⟨w, -, h⟩ := h
  split at h
  · simp only [pure_eq_ok] at h
    exact h ▸ .refl _
  split at h
  · simp only [bind_eq_ok, pure_eq_ok, Prod.exists] at h
    obtain ⟨n, db3, h3, rfl⟩ := h
    exact settle_models h3
  split at h
  · simp only [pure_eq_ok] at h
    exact h ▸ .of_eq rfl
  · simp only [pure_eq_ok] at h
    exact h ▸ .refl _

theorem control_models {k : Key} {command : ControlCommand} {key v now : ℕ}
    (h : control db k command key v now = .ok db') : SameModels db db' := by
  unfold control at h
  simp only [bind_eq_ok] at h
  obtain ⟨replay, -, h⟩ := h
  split at h
  · simp only [pure_eq_ok] at h
    exact h ▸ .refl _
  simp only [bind_eq_ok] at h
  obtain ⟨w, -, -, -, target, -, h⟩ := h
  split at h
  · simp only [bind_eq_ok, pure_eq_ok] at h
    obtain ⟨db1, rfl, db2, h2, rfl⟩ := h
    exact (settleAfterControl_models h2).trans (recordCommand_core ..).models
  · simp only [bind_eq_ok, pure_eq_ok] at h
    obtain ⟨-, -, db1, h1, type, -, db2, h2, db3, h3, rfl⟩ := h
    exact (((updateState_core h1).trans (appendEvent_core h2)).models.trans
      (settleAfterControl_models h3)).trans (recordCommand_core ..).models

theorem recordAttentionResolution_models {k : Key} {decision : AttentionDecision}
    {note : Option ℕ} {key v now : ℕ}
    (h : recordAttentionResolution db k decision note key v now = .ok db') :
    SameModels db db' := by
  cases decision with
  | retry =>
    rcases recordAttentionResolution_retry h with rfl | ⟨w, revision, -, -, -, granted⟩
    · exact .refl _
    · exact .of_eq granted.attempts
  | cancel =>
    unfold recordAttentionResolution at h
    simp only [bind_eq_ok] at h
    obtain ⟨replay, -, h⟩ := h
    split at h
    · simp only [pure_eq_ok] at h
      exact h ▸ .refl _
    simp only [bind_eq_ok, pure_eq_ok, Prod.exists] at h
    obtain ⟨w, -, -, -, -, -, revision, -, db1, h1, db2, h2, n, db3, h3, rfl⟩ := h
    exact (((updateState_core h1).trans (appendEvent_core h2)).models.trans
      (settle_models h3)).trans (recordCommand_core ..).models

/-! ## Materialization and admission -/

theorem materializeReadyUnits_models {ids : FreshIds} {k : Key} {limit now : ℕ}
    (h : materializeReadyUnits D ids db k limit now = .ok db') : SameModels db db' := by
  have rounds : ∀ {n : ℕ} {revision : Revision} {a b : Store},
      materializeRounds D ids revision now n a = .ok b → SameModels a b := by
    intro n revision
    induction n with
    | zero =>
      intro a b hab
      cases hab
      exact .refl _
    | succ n ih =>
      intro a b hab
      unfold materializeRounds at hab
      split at hab
      · cases hab; exact .refl _
      · simp only [bind_eq_ok] at hab
        obtain ⟨db1, h1, h2⟩ := hab
        exact (SameModels.of_eq (materializeRound_cells h1).attempts).trans (ih h2)
  unfold materializeReadyUnits at h
  simp only [bind_eq_ok] at h
  obtain ⟨w, -, h⟩ := h
  split at h
  · simp only [pure_eq_ok] at h
    exact h ▸ .refl _
  split at h
  · simp only [pure_eq_ok] at h
    exact h ▸ .refl _
  simp only [bind_eq_ok] at h
  obtain ⟨revision, -, h⟩ := h
  exact rounds h

theorem admitRevision_models {ids : FreshIds} {k : Key} {adm : Admission} {v now : ℕ}
    (h : admitRevision D ids db k adm v now = .ok db') : SameModels db db' := by
  unfold admitRevision at h
  simp only [bind_eq_ok] at h
  obtain ⟨-, -, -, -, -, -, w, -, h⟩ := h
  split at h
  · simp only [bind_eq_ok, pure_eq_ok] at h
    obtain ⟨-, -, rfl⟩ := h
    exact .refl _
  · simp only [bind_eq_ok] at h
    obtain ⟨-, -, -, -, -, -, db1, h1, db2, h2, h3⟩ := h
    exact (SameModels.of_eq (insertRevisionRows_admitted h1).attempts).trans
      ((casWorkload_core h2).trans (appendEvent_core h3)).models

/-! ## Every transaction -/

/-- The operations that open an attempt or write its model facts. -/
def Op.writesModel : Op → Bool
  | .claimNext .. | .recordExecutionFacts .. | .recordAttemptUsage .. => true
  | _ => false

theorem transact_models {op : Op} (hop : op.writesModel = false) (h : transact D db op = .ok db') :
    SameModels db db' := by
  cases op with
  | createDraft => exact (createDraft_core h).models
  | admitRevision => exact admitRevision_models h
  | transitionWorkload => exact (transitionWorkload_core h).models
  | control => exact control_models h
  | recordAttentionResolution => exact recordAttentionResolution_models h
  | settleWorkload =>
    simp only [transact, settleWorkload, bind_eq_ok, pure_eq_ok, Prod.exists] at h
    obtain ⟨n, db1, h1, rfl⟩ := h
    exact settle_models h1
  | evaluateCompletion =>
    obtain ⟨x, h⟩ := stored_ok h
    exact (evaluateCompletion_core h).models
  | refreshUsageComplete => exact (refreshUsageComplete_core h).models
  | recordArtifacts => exact (recordArtifacts_core h).models
  | materializeReadyUnits => exact materializeReadyUnits_models h
  | adoptReusableResult => exact adoptReusableResult_models h
  | claimNext => cases hop
  | markRunning =>
    obtain ⟨_, h⟩ := stored_ok h
    exact markRunning_models h
  | heartbeat =>
    obtain ⟨_, h⟩ := stored_ok h
    exact heartbeat_models h
  | executionInputs =>
    obtain ⟨_, h⟩ := stored_ok h
    exact executionInputs_models h
  | recordExecutionFacts => cases hop
  | recordAttemptUsage => cases hop
  | commitResult =>
    obtain ⟨_, h⟩ := stored_ok h
    exact commitResult_models h
  | failAttempt =>
    obtain ⟨_, h⟩ := stored_ok h
    exact failAttempt_models h
  | abandonAttempt =>
    obtain ⟨_, h⟩ := stored_ok h
    exact abandonAttempt_models h
  | reconcileExpired => exact reconcileExpired_models h

end

end Metnos.Durable
