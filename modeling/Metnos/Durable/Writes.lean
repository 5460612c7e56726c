import Metnos.Durable.Ledger

/-!
# Durable.Writes — every transaction is a sequence of writes

Settlement, the calls of a worker, claims, reuse, owner commands, admission, materialization and
completion in turn, and then `transact_writes` over all operations.
-/

namespace Metnos.Durable

open Transaction

section
variable {D : Digests} {op : Op} {db db' : Store}

/-! ## Settlement -/

theorem find_cancelWaiting {k revision : Key} {now limit : ℕ} {w : Workload}
    (hw : db.workloads.find? k = some w) :
    (cancelWaitingUnits db revision now limit).2.workloads.find? k = some w := hw

theorem find_repairExhausted {k revision : Key} {now limit : ℕ} {w : Workload}
    (hw : db.workloads.find? k = some w) :
    (repairExhaustedUnits db revision now limit).2.workloads.find? k = some w := by
  unfold repairExhaustedUnits
  split
  · exact hw
  · exact hw

theorem settleCancelRequested_writes {k : Key} {w : Workload} {revision : Key} {now limit n : ℕ}
    (hw : db.workloads.find? k = some w)
    (h : settleCancelRequested db w revision now limit = .ok (n, db')) : Writes D op db db' := by
  unfold settleCancelRequested at h
  refine .head (cancelWaitingUnits_ledger revision now limit).write ?_
  have hw1 : (cancelWaitingUnits db revision now limit).2.workloads.find? k = some w :=
    find_cancelWaiting hw
  revert h hw1
  generalize cancelWaitingUnits db revision now limit = x
  obtain ⟨m, db1⟩ := x
  intro h hw1
  simp only at h
  split at h
  · simp only [pure_eq_ok, Prod.mk.injEq] at h
    exact h.2 ▸ .refl
  · simp only [bind_eq_ok, pure_eq_ok, Prod.mk.injEq] at h
    obtain ⟨db2, h1, -, rfl⟩ := h
    exact .single (automaticWorkloadTransition_write hw1 h1)

theorem settleFailures_writes {k : Key} {w : Workload} {r : Revision} {e now limit n : ℕ}
    (hw : db.workloads.find? k = some w)
    (h : settleFailures db w r e now limit = .ok (n, db')) : Writes D op db db' := by
  unfold settleFailures at h
  split at h
  · refine .head (cancelWaitingUnits_ledger r.id now limit).write ?_
    have hw1 : (cancelWaitingUnits db r.id now limit).2.workloads.find? k = some w :=
      find_cancelWaiting hw
    revert h hw1
    generalize cancelWaitingUnits db r.id now limit = x
    obtain ⟨m, db1⟩ := x
    intro h hw1
    simp only at h
    split at h
    · simp only [pure_eq_ok, Prod.mk.injEq] at h
      exact h.2 ▸ .refl
    · simp only [bind_eq_ok, pure_eq_ok, Prod.mk.injEq] at h
      obtain ⟨db2, h1, -, rfl⟩ := h
      exact .single (automaticWorkloadTransition_write hw1 h1)
  · split at h
    · simp only [bind_eq_ok, pure_eq_ok, Prod.mk.injEq] at h
      obtain ⟨db2, h1, -, rfl⟩ := h
      exact .single (automaticWorkloadTransition_write hw h1)
    · simp only [pure_eq_ok, Prod.mk.injEq] at h
      exact h.2 ▸ .refl

theorem settleAttention_writes {k : Key} {w : Workload} {revision : Key} {e now limit n : ℕ}
    (hw : db.workloads.find? k = some w)
    (h : settleAttention db w revision e now limit = .ok (n, db')) : Writes D op db db' := by
  unfold settleAttention at h
  split at h
  · simp only [pure_eq_ok, Prod.mk.injEq] at h
    exact h.2 ▸ .refl
  split at h
  · simp only [bind_eq_ok, pure_eq_ok, Prod.mk.injEq] at h
    obtain ⟨db2, h1, -, rfl⟩ := h
    exact .single (automaticWorkloadTransition_write hw h1)
  · simp only [bind_eq_ok, orRaise_ok] at h
    obtain ⟨r, -, h⟩ := h
    split at h
    · simp only [bind_eq_ok, pure_eq_ok, Prod.mk.injEq] at h
      obtain ⟨db2, h1, -, rfl⟩ := h
      exact .single (automaticWorkloadTransition_write hw h1)
    · exact settleFailures_writes hw h

theorem settle_writes {k : Key} {now limit n : ℕ} {repair : Bool}
    (h : settle db k now repair limit = .ok (n, db')) : Writes D op db db' := by
  unfold settle at h
  simp only [bind_eq_ok, selectWorkload, orRaise_ok] at h
  obtain ⟨w, hw, h⟩ := h
  split at h
  · simp only [pure_eq_ok, Prod.mk.injEq] at h
    exact h.2 ▸ .refl
  · rename_i revision _
    split at h
    · simp only [pure_eq_ok] at h
      have same : SameLedger db (cancelWaitingUnits db revision now limit).2 :=
        cancelWaitingUnits_ledger revision now limit
      rw [h] at same
      exact same.writes
    split at h
    · simp only [pure_eq_ok, Prod.mk.injEq] at h
      exact h.2 ▸ .refl
    split at h
    · exact settleCancelRequested_writes hw h
    split at h
    · simp only [bind_eq_ok, pure_eq_ok, Prod.mk.injEq] at h
      obtain ⟨db2, h1, -, rfl⟩ := h
      exact .single (automaticWorkloadTransition_write hw h1)
    split at h
    · refine .head (repairExhaustedUnits_ledger revision now limit).write ?_
      have hw1 : (repairExhaustedUnits db revision now limit).2.workloads.find? k = some w :=
        find_repairExhausted hw
      revert h hw1
      generalize repairExhaustedUnits db revision now limit = x
      obtain ⟨m, db1⟩ := x
      intro h hw1
      simp only at h
      split at h
      · simp only [pure_eq_ok, Prod.mk.injEq] at h
        exact h.2 ▸ .refl
      · exact settleAttention_writes hw1 h
    · exact settleAttention_writes hw h

/-! ## Calls of a worker -/

section
variable {lease : Lease}

theorem markRunning_writes {now : ℕ} {b : LeaseMutationStatus}
    (h : markRunning db lease now = .ok (b, db')) : Writes D op db db' := by
  obtain rfl | ⟨row, a, -, h⟩ := withLease_ok h
  · exact .refl
  split at h
  · cases h; exact .refl
  simp only [bind_eq_ok] at h
  obtain ⟨expiry, -, h⟩ := h
  split at h
  · cases h; exact .refl
  split at h
  · cases h; exact .refl
  split at h
  · cases h; exact .refl
  simp only [bind_eq_ok, pure_eq_ok, Prod.mk.injEq] at h
  obtain ⟨db1, h1, db2, h2, db3, h3, -, rfl⟩ := h
  exact (((casAttempt_ledger h1).trans (casUnit_ledger h2)).trans
    (advanceRevisionClock_ledger h3)).writes

theorem heartbeat_writes {newExpiry now : ℕ} {b : LeaseMutationStatus}
    (h : heartbeat db lease newExpiry now = .ok (b, db')) : Writes D op db db' := by
  unfold heartbeat at h
  simp only [bind_eq_ok] at h
  obtain ⟨-, -, h⟩ := h
  obtain rfl | ⟨row, a, -, h⟩ := withLease_ok h
  · exact .refl
  split at h
  · cases h; exact .refl
  split at h
  · cases h; exact .refl
  simp only [bind_eq_ok] at h
  obtain ⟨stored, -, h⟩ := h
  split at h
  · cases h; exact .refl
  split at h
  · cases h; exact .refl
  simp only [bind_eq_ok, pure_eq_ok, Prod.mk.injEq] at h
  obtain ⟨-, -, -, -, db1, h1, db2, h2, -, rfl⟩ := h
  exact ((casUnit_ledger h1).trans (advanceRevisionClock_ledger h2)).writes

theorem executionInputs_writes {bytes : ℕ} {b : Unit}
    (h : executionInputs db lease bytes = .ok (b, db')) : Writes D op db db' := by
  obtain rfl | ⟨row, a, -, h⟩ := withLease_ok h
  · exact .refl
  split at h
  · simp only [bind_eq_ok, pure_eq_ok, Prod.mk.injEq] at h
    obtain ⟨-, -, -, rfl⟩ := h
    exact .refl
  · simp only [bind_eq_ok, pure_eq_ok, Prod.mk.injEq] at h
    obtain ⟨db1, h1, db2, h2, -, rfl⟩ := h
    exact ((casAttempt_ledger h1).trans (addRevisionUsage_ledger h2 rfl rfl)).writes

theorem recordExecutionFacts_writes {executor : ExecutorSnapshot} {model : ModelSnapshot}
    {deviceId invocationId : Option ℕ} {now : ℕ} {b : LeaseMutationStatus}
    (h : recordExecutionFacts db lease executor model deviceId invocationId now = .ok (b, db')) :
    Writes D op db db' := by
  obtain rfl | ⟨row, a, -, h⟩ := withLease_ok h
  · exact .refl
  split at h
  · cases h; exact .refl
  split at h
  · cases h; exact .refl
  simp only [bind_eq_ok] at h
  obtain ⟨expiry, -, h⟩ := h
  split at h
  · cases h; exact .refl
  simp only [bind_eq_ok, pure_eq_ok, Prod.mk.injEq] at h
  obtain ⟨-, -, -, -, -, -, db1, h1, db2, h2, -, rfl⟩ := h
  exact ((casAttempt_ledger h1).trans (advanceRevisionClock_ledger h2)).writes

theorem insertResultDependencies_ok (db : Store) (child : Key)
    (rows : List (UnitDependency × ResultRow × UnitRow)) :
    ∃ added, (insertResultDependencies db child rows) =
      { db with resultDependencies := db.resultDependencies ++ added } ∧
      ∀ d ∈ added, d.1 = child := by
  unfold insertResultDependencies
  induction rows generalizing db with
  | nil => exact ⟨[], by simp, by simp⟩
  | cons row rows ih =>
    rw [List.foldl_cons]
    generalize db.resultDependencies.countP
      (fun x => decide (x.1 = child) && decide (x.2.2.1 = row.1.role)) = ordinal
    obtain ⟨added, hadded, hchild⟩ := ih { db with
      resultDependencies := db.resultDependencies ++ [(child, row.2.1.id, row.1.role, ordinal)] }
    refine ⟨(child, row.2.1.id, row.1.role, ordinal) :: added, hadded.trans ?_,
      List.forall_mem_cons.mpr ⟨rfl, hchild⟩⟩
    simp only [List.append_assoc, List.singleton_append]

theorem insertResult_write {r : ResultRow} {db1 : Store} (h : insertResult db r = .ok db1)
    (rows : List (UnitDependency × ResultRow × UnitRow)) :
    Write D op db (insertResultDependencies db1 r.id rows) := by
  obtain ⟨-, results, hres, rfl⟩ := insertResult_ok h
  obtain ⟨added, hadded, hchild⟩ :=
    insertResultDependencies_ok { db with results := results } r.id rows
  rw [hadded]
  exact .result r ⟨hres, added, rfl, hchild⟩ ⟨fun _ => rfl, rfl⟩ ⟨fun _ => rfl, rfl, rfl⟩
    (.of_eq rfl)

theorem commitResult_writes {validated : ValidatedResult} {ids : List Key} {resultId : Key}
    {now : ℕ} {b : CommitStatus}
    (h : commitResult db lease validated ids resultId now = .ok (b, db')) :
    Writes D op db db' := by
  unfold commitResult at h
  simp only [bind_eq_ok] at h
  obtain ⟨-, -, h⟩ := h
  split at h
  · simp only [pure_eq_ok, Prod.mk.injEq] at h
    exact h.2 ▸ .refl
  obtain rfl | ⟨row, a, -, h⟩ := withLease_ok h
  · exact .refl
  split at h
  · cases h; exact .refl
  split at h
  · cases h; exact .refl
  split at h
  · cases h; exact .refl
  simp only [bind_eq_ok] at h
  obtain ⟨expiry, -, h⟩ := h
  split at h
  · cases h; exact .refl
  simp only [bind_eq_ok, pure_eq_ok, Prod.mk.injEq, Prod.exists] at h
  obtain ⟨-, -, rows, -, -, -, -, -, db1, h1, -, -, db2, h2, db3, h3, db4, h4, db5, h5, n, db6, h6,
    -, rfl⟩ := h
  refine .head ((addRevisionUsage_ledger h1 rfl rfl).trans (advanceRevisionClock_ledger h2)).write ?_
  refine .head (insertResult_write h3 rows) ?_
  exact .head ((casAttempt_ledger h4).trans (casUnit_ledger h5)).write (settle_writes h6)

theorem failAttempt_writes {errorClass : ErrorClass} {decision : RetryDecision} {timedOut : Bool}
    {now : ℕ} {b : FailureStatus}
    (h : failAttempt D db lease errorClass decision timedOut now = .ok (b, db')) :
    Writes D op db db' := by
  obtain rfl | ⟨row, a, -, h⟩ := withLease_ok h
  · exact .refl
  split at h
  · cases h; exact .refl
  simp only [bind_eq_ok] at h
  obtain ⟨expiry, -, h⟩ := h
  split at h
  · cases h; exact .refl
  simp only [bind_eq_ok, pure_eq_ok, Prod.mk.injEq, Prod.exists] at h
  obtain ⟨-, -, unknown, db1, h1, db2, h2, db3, h3, db4, h4, n, db5, h5, -, rfl⟩ := h
  exact .head ((((markUnaccounted_ledger h1).trans (casAttempt_ledger h2)).trans
    (casUnit_ledger h3)).trans (advanceRevisionClock_ledger h4)).write (settle_writes h5)

theorem abandonAttempt_writes {now : ℕ} {b : LeaseMutationStatus}
    (h : abandonAttempt db lease now = .ok (b, db')) : Writes D op db db' := by
  unfold abandonAttempt at h
  split at h
  · cases h; exact .refl
  split at h
  · cases h; exact .refl
  obtain rfl | ⟨row, a, -, h⟩ := withLease_ok h
  · exact .refl
  split at h
  · cases h; exact .refl
  split at h
  · cases h; exact .refl
  simp only [bind_eq_ok, pure_eq_ok, Prod.mk.injEq, Prod.exists] at h
  obtain ⟨unknown, db1, h1, db2, h2, db3, h3, db4, h4, n, db5, h5, -, rfl⟩ := h
  exact .head ((((markReleasedUsage_ledger h1).trans (casAttempt_ledger h2)).trans
    (casUnit_ledger h3)).trans (advanceRevisionClock_ledger h4)).write (settle_writes h5)

theorem recordAttemptUsage_writes {usage : ModelUsage} {now : ℕ} {b : LeaseMutationStatus}
    (records : op.recordsUsage = true)
    (h : recordAttemptUsage db lease usage now = .ok (b, db')) : Writes D op db db' := by
  unfold recordAttemptUsage at h
  simp only [bind_eq_ok] at h
  obtain ⟨-, -, h⟩ := h
  obtain rfl | ⟨row, a, -, h⟩ := withLease_ok h
  · exact .refl
  split at h
  · cases h; exact .refl
  split at h
  · cases h; exact .refl
  simp only [bind_eq_ok] at h
  obtain ⟨expiry, -, h⟩ := h
  split at h
  · cases h; exact .refl
  split at h
  · cases h
  simp only [bind_eq_ok] at h
  obtain ⟨-, -, h⟩ := h
  split at h
  · simp only [bind_eq_ok, pure_eq_ok, Prod.mk.injEq] at h
    obtain ⟨-, -, -, rfl⟩ := h
    exact .refl
  · simp only [bind_eq_ok, pure_eq_ok, Prod.mk.injEq] at h
    obtain ⟨db1, h1, db2, h2, db3, h3, -, rfl⟩ := h
    refine .head (casAttempt_ledger h1).write ?_
    refine .head ?_ (advanceRevisionClock_ledger h3).writes
    obtain ⟨history, facts, results⟩ := addRevisionUsage_outer h2
    exact .quiet history facts results (fun hr => by rw [records] at hr; cases hr)

end

/-! ## Claims -/

theorem startQueuedWorkload_writes {w : Workload} {now : ℕ}
    (hw : db.workloads.find? w.id = some w) (h : startQueuedWorkload db w now = .ok db') :
    Writes D op db db' := by
  unfold startQueuedWorkload at h
  split at h
  · cases h; exact .refl
  · rename_i hstate
    simp only [bind_eq_ok] at h
    obtain ⟨db1, h1, h2⟩ := h
    have queued : w.state = .queued := by simpa using hstate
    refine .single (move_write (t := .running) hw h1 ⟨rfl, rfl, rfl, .inl rfl, ?_, ?_⟩ (.refl _) h2
      (fun _ => rfl) (by simp))
    · rw [queued]; rfl
    · rintro (h | h) <;> cases h

theorem candidate_workload {now : ℕ} {caps : WorkerCapabilities} {c : Candidate}
    (h : (claimCandidates db now caps).head? = some c) :
    db.workloads.find? c.workload.id = some c.workload := by
  have hc := List.mem_of_head? h
  simp only [claimCandidates, List.mem_insertionSort, List.mem_filterMap] at hc
  obtain ⟨w, hmem, hw⟩ := hc
  unfold candidate? at hw
  simp only [Option.bind_eq_bind, Option.bind_eq_some_iff] at hw
  obtain ⟨id, -, r, -, usage, -, hw⟩ := hw
  split at hw
  · simp only [Option.bind_eq_some_iff, Option.some.injEq] at hw
    obtain ⟨s, -, rfl⟩ := hw
    exact Table.find?_of_mem hmem
  · cases hw

theorem leaseUnit_writes {c : Candidate} {u : UnitRow} {worker now duration attemptId : ℕ}
    {l : Option Lease} (hw : db.workloads.find? c.workload.id = some c.workload)
    (h : leaseUnit db c u worker now duration attemptId = .ok (l, db')) : Writes D op db db' := by
  unfold leaseUnit at h
  simp only [bind_eq_ok, pure_eq_ok, Prod.mk.injEq] at h
  obtain ⟨db1, h1, db2, h2, db3, h3, db4, h4, -, rfl⟩ := h
  have quiet := ((insertAttempt_ledger h1).trans (casUnit_ledger h2)).trans
    (updateUsage_ledger h3 (fun _ => ⟨rfl, rfl⟩) (fun _ hu => hu))
  have hw3 : db3.workloads.find? c.workload.id = some c.workload := by
    obtain ⟨-, attempts, -, rfl⟩ := insertAttempt_ok h1
    obtain ⟨-, -, -, rfl⟩ := casUnit_ok h2
    obtain rfl := updateUsage_ok h3
    exact hw
  exact .head quiet.write ((startQueuedWorkload_writes hw3 h4).tail (creditSelection_ledger _).write)

theorem claimNext_writes {worker now duration attemptId : ℕ} {caps : WorkerCapabilities}
    {l : Option Lease} (h : claimNext db worker now duration caps attemptId = .ok (l, db')) :
    Writes D op db db' := by
  unfold claimNext at h
  simp only [bind_eq_ok] at h
  obtain ⟨-, -, h⟩ := h
  refine .head (promoteDueRetries_ledger now 1000).write ?_
  generalize promoteDueRetries db now 1000 = db1 at h
  split at h
  · simp only [pure_eq_ok, Prod.mk.injEq] at h
    exact h.2 ▸ .refl
  · rename_i c hc
    have hw := candidate_workload hc
    split at h
    · simp only [bind_eq_ok, pure_eq_ok, Prod.mk.injEq] at h
      obtain ⟨db2, h2, -, rfl⟩ := h
      exact .single (automaticWorkloadTransition_write hw h2)
    · simp only [bind_eq_ok] at h
      obtain ⟨u, -, h⟩ := h
      exact leaseUnit_writes hw h

theorem reconcileRow_ledger {now : ℕ} {row : ExpiredRow}
    (h : reconcileRow D now db row = .ok db') : SameLedger db db' := by
  unfold reconcileRow at h
  simp only [bind_eq_ok, Prod.exists] at h
  obtain ⟨unknown, db1, h1, db2, h2, db3, h3, h4⟩ := h
  exact (((markReleasedUsage_ledger h1).trans (casAttempt_ledger h2)).trans
    (casUnit_ledger h3)).trans (advanceRevisionClock_ledger h4)

theorem reconcileExpired_writes {now batch : ℕ} (h : reconcileExpired D db now batch = .ok db') :
    Writes D op db db' := by
  unfold reconcileExpired at h
  simp only [bind_eq_ok] at h
  obtain ⟨-, -, db1, h1, h2⟩ := h
  have rows : Writes D op db db1 :=
    foldlM_invariant (I := fun x => Writes D op db x)
      (fun _ _ _ _ hab hI => hI.tail (reconcileRow_ledger hab).write) h1 .refl
  have promoted := rows.tail (promoteDueRetries_ledger now (batch - (expiredRows db now batch).length)).write
  refine foldlM_invariant (I := fun x => Writes D op db x) (fun w _ a b hab hI => ?_) h2 promoted
  simp only [bind_eq_ok, pure_eq_ok, Prod.exists] at hab
  obtain ⟨n, db3, h3, rfl⟩ := hab
  exact hI.trans (settle_writes h3)

/-! ## Reuse -/

theorem reuseCandidate_workload {c : ReuseCandidate} (h : reuseCandidate? db = some c) :
    db.workloads.find? c.workload.id = some c.workload := by
  have hc := List.mem_of_head? h
  rw [List.mem_insertionSort, List.mem_flatMap] at hc
  obtain ⟨u, -, hc⟩ := hc
  unfold reuseCandidates at hc
  split at hc
  · cases hc
  rename_i revision workload usage stage heq
  rw [List.mem_map] at hc
  obtain ⟨r, -, rfl⟩ := hc
  simp only [Option.bind_eq_bind, Option.bind_eq_some_iff, Option.filter_eq_some_iff] at heq
  obtain ⟨revision', -, workload', ⟨hw, -⟩, usage', -, stage', -, heq⟩ := heq
  split at heq
  · simp only [Option.some.injEq, Prod.mk.injEq] at heq
    obtain ⟨rfl, rfl, rfl, rfl⟩ := heq
    exact Table.find?_of_mem (Table.mem_of_find? hw)
  · cases heq

theorem adoptResult_writes {c : ReuseCandidate} {attemptId resultId now : ℕ}
    (hw : db.workloads.find? c.workload.id = some c.workload)
    (h : adoptResult db c attemptId resultId now = .ok db') : Writes D op db db' := by
  unfold adoptResult at h
  simp only [bind_eq_ok, pure_eq_ok, Prod.exists] at h
  obtain ⟨rows, -, db1, h1, db2, h2, db3, h3, db4, h4, db5, h5, n, db6, h6, rfl⟩ := h
  refine .head (insertAttempt_ledger h1).write (.head (insertResult_write h2 rows) ?_)
  have quiet := (casUnit_ledger h3).trans (addRevisionUsage_ledger h4 rfl rfl)
  refine .head quiet.write (.trans (startQueuedWorkload_writes ?_ h5) (settle_writes h6))
  obtain ⟨revisions, rfl, -⟩ := addRevisionUsage_ok h4
  obtain ⟨-, attempts, -, rfl⟩ := insertAttempt_ok h1
  obtain ⟨-, results, -, rfl⟩ := insertResult_ok h2
  obtain ⟨-, -, -, rfl⟩ := casUnit_ok h3
  obtain ⟨added, hadded, -⟩ := insertResultDependencies_ok
    { db with attempts := attempts, results := results } ⟨c.unit.id.owner, resultId⟩ rows
  dsimp only
  rw [hadded]
  exact hw

theorem adoptReusableResult_writes {attemptId resultId now : ℕ}
    (h : adoptReusableResult D db attemptId resultId now = .ok db') : Writes D op db db' := by
  unfold adoptReusableResult at h
  split at h
  · cases h; exact .refl
  rename_i c hc
  split at h
  · simp only [bind_eq_ok, pure_eq_ok, Prod.exists] at h
    obtain ⟨n, db1, h1, -, -, rfl⟩ := h
    exact settle_writes h1
  split at h
  · unfold requireAttention at h
    simp only [bind_eq_ok, pure_eq_ok, Prod.exists] at h
    obtain ⟨db1, h1, n, db2, h2, rfl⟩ := h
    exact .head (casUnit_ledger h1).write (settle_writes h2)
  · exact adoptResult_writes (reuseCandidate_workload hc) h

/-! ## Owner commands -/

theorem transitionWorkload_write {k : Key} {target : WorkloadState} {v now : ℕ}
    (h : transitionWorkload db k target v now = .ok db') : Write D op db db' := by
  unfold transitionWorkload at h
  simp only [bind_eq_ok, require_ok, orRaise_ok, selectWorkload] at h
  obtain ⟨-, -, type, htype, w, hw, -, -, -, edge, db1, h1, h2⟩ := h
  exact updateState_write hw rfl h1 h2 edge (eventByTarget_reserved htype) rfl
    (eventByTarget_ne_draft htype)

theorem settleAfterControl_writes {k : Key} {now : ℕ}
    (h : settleAfterControl db k now = .ok db') : Writes D op db db' := by
  unfold settleAfterControl at h
  simp only [bind_eq_ok] at h
  obtain ⟨w, -, h⟩ := h
  split at h
  · simp only [pure_eq_ok] at h
    exact h ▸ .refl
  split at h
  · simp only [bind_eq_ok, pure_eq_ok, Prod.exists] at h
    obtain ⟨n, db3, h3, rfl⟩ := h
    exact settle_writes h3
  split at h
  · simp only [pure_eq_ok] at h
    exact h ▸ (cancelWaitingUnits_ledger ..).writes
  · simp only [pure_eq_ok] at h
    exact h ▸ .refl

theorem control_writes {k : Key} {command : ControlCommand} {key v now : ℕ}
    (h : control db k command key v now = .ok db') : Writes D op db db' := by
  unfold control at h
  simp only [bind_eq_ok] at h
  obtain ⟨replay, -, h⟩ := h
  split at h
  · simp only [pure_eq_ok] at h
    exact h ▸ .refl
  simp only [bind_eq_ok, selectWorkload, orRaise_ok] at h
  obtain ⟨w, hw, -, -, target, -, h⟩ := h
  split at h
  · simp only [bind_eq_ok, pure_eq_ok] at h
    obtain ⟨db1, rfl, db2, h2, rfl⟩ := h
    exact (settleAfterControl_writes h2).tail (recordCommand_ledger ..).write
  · simp only [bind_eq_ok, pure_eq_ok, require_ok, orRaise_ok] at h
    obtain ⟨-, edge, db1, h1, type, htype, db2, h2, db3, h3, rfl⟩ := h
    have moved : Write D op db db2 := updateState_write hw rfl h1 h2 edge
      (eventByTarget_reserved htype) rfl (eventByTarget_ne_draft htype)
    exact .head moved ((settleAfterControl_writes h3).tail (recordCommand_ledger ..).write)

theorem grantManualRetry_ledger {k revision : Key} {now : ℕ}
    (h : grantManualRetry db k revision now = .ok db') :
    SameLedger db db' ∧ db'.workloads = db.workloads := by
  unfold grantManualRetry at h
  simp only [bind_eq_ok, pure_eq_ok] at h
  obtain ⟨-, -, -, -, -, -, -, -, r, -, -, -, -, -, rfl⟩ := h
  exact ⟨revisions_ledger fun _ => rfl, rfl⟩

theorem recordAttentionResolution_writes {k : Key} {decision : AttentionDecision}
    {note : Option ℕ} {key v now : ℕ}
    (h : recordAttentionResolution db k decision note key v now = .ok db') :
    Writes D op db db' := by
  unfold recordAttentionResolution at h
  simp only [bind_eq_ok] at h
  obtain ⟨replay, -, h⟩ := h
  split at h
  · simp only [pure_eq_ok] at h
    exact h ▸ .refl
  simp only [bind_eq_ok, selectWorkload, orRaise_ok, require_ok, decide_eq_true_eq] at h
  obtain ⟨w, hw, -, -, -, hstate, revision, -, h⟩ := h
  split at h
  · simp only [bind_eq_ok, pure_eq_ok] at h
    obtain ⟨db1, h1, db2, h2, db3, h3, rfl⟩ := h
    obtain ⟨granted, same⟩ := grantManualRetry_ledger h1
    have hw1 : db1.workloads.find? k = some w := by rw [same]; exact hw
    have moved : Write D op db1 db3 := by
      refine updateState_write hw1 rfl h2 h3 ?_ ?_ rfl (by simp)
      · rw [hstate]
        split <;> rfl
      · split <;> simp
    exact .head granted.write (.head moved (recordCommand_ledger ..).writes)
  · simp only [bind_eq_ok, pure_eq_ok, Prod.exists] at h
    obtain ⟨db1, h1, db2, h2, n, db3, h3, rfl⟩ := h
    have moved : Write D op db db2 :=
      updateState_write hw rfl h1 h2 (by rw [hstate]; rfl) (by simp) rfl (by simp)
    exact .head moved ((settle_writes h3).tail (recordCommand_ledger ..).write)

/-! ## Drafts and admission -/

theorem createDraft_writes {k : Key} {key digest now : ℕ} {p : Priority}
    (h : createDraft db k key digest p now = .ok db') : Writes D op db db' := by
  unfold createDraft at h
  split at h
  · simp only [bind_eq_ok, pure_eq_ok] at h
    obtain ⟨-, -, rfl⟩ := h
    exact .refl
  · simp only [bind_eq_ok, orRaise_ok] at h
    obtain ⟨workloads, hins, h⟩ := h
    obtain ⟨w, A⟩ := appendEvent_ok h
    have hnew := Table.find?_insert?_self hins
    have hw : w = _ := Option.some.inj (A.before.symm.trans hnew)
    subst hw
    refine .single (.draft k ⟨(Table.insert?_some hins).1, ?_, fun j hj => ?_, ?_⟩
      ⟨A.facts.revisions, A.facts.stages, A.facts.sources⟩
      ⟨A.results.results, A.results.dependencies⟩ ⟨A.tokens.tokens, A.tokens.unknown⟩)
    · rw [A.after]
      rfl
    · exact (A.others j hj).trans (Table.find?_insert?_ne hins hj)
    · exact ⟨_, A.events, rfl, rfl, rfl, rfl⟩

theorem insertRevisionRows_outer {ids : FreshIds} {k : Key} {adm : Admission} {now : ℕ}
    (h : insertRevisionRows D ids db k adm now = .ok db') :
    db'.workloads = db.workloads ∧ db'.events = db.events ∧ SameResults db db' := by
  unfold insertRevisionRows at h
  simp only [bind_eq_ok] at h
  obtain ⟨revisions, -, usage, -, db1, h1, db2, h2, db3, h3, h4⟩ := h
  have initial : ∀ {source : Option Source} {l : List Stage} {a b : Store},
      l.foldlM (insertInitialUnit D ids now source) a = .ok b →
      b.workloads = a.workloads ∧ b.events = a.events ∧ SameResults a b := by
    intro source l a b hab
    refine foldlM_invariant (I := fun x => x.workloads = a.workloads ∧ x.events = a.events ∧
      SameResults a x) (fun s _ x y hxy hI => ?_) hab ⟨rfl, rfl, .refl a⟩
    obtain ⟨-, units, -, rfl⟩ := insertUnit_ok hxy
    exact ⟨hI.1, hI.2.1, hI.2.2.results, hI.2.2.dependencies⟩
  have stages : db1.workloads = db.workloads ∧ db1.events = db.events ∧ SameResults db db1 := by
    refine foldlM_invariant (I := fun x => x.workloads = db.workloads ∧ x.events = db.events ∧
      SameResults db x) (fun s _ x y hxy hI => ?_) h1 ⟨rfl, rfl, rfl, rfl⟩
    unfold insertStage at hxy
    simp only [bind_eq_ok, pure_eq_ok] at hxy
    obtain ⟨stages, -, rfl⟩ := hxy
    exact ⟨hI.1, hI.2.1, hI.2.2.results, hI.2.2.dependencies⟩
  have sources : db2.workloads = db.workloads ∧ db2.events = db.events ∧ SameResults db db2 := by
    refine foldlM_invariant (I := fun x => x.workloads = db.workloads ∧ x.events = db.events ∧
      SameResults db x) (fun item _ x y hxy hI => ?_) h2 stages
    unfold insertSource at hxy
    simp only [bind_eq_ok] at hxy
    obtain ⟨-, -, sources, -, hxy⟩ := hxy
    obtain ⟨a1, a2, a3⟩ := initial hxy
    exact ⟨a1.trans hI.1, a2.trans hI.2.1, a3.results.trans hI.2.2.results,
      a3.dependencies.trans hI.2.2.dependencies⟩
  obtain ⟨b1, b2, b3⟩ := initial h3
  refine foldlM_invariant (I := fun x => x.workloads = db.workloads ∧ x.events = db.events ∧
    SameResults db x) (fun s _ x y hxy hI => ?_) h4
    ⟨b1.trans sources.1, b2.trans sources.2.1, sources.2.2.trans b3⟩
  unfold insertCursor at hxy
  simp only [bind_eq_ok, pure_eq_ok] at hxy
  obtain ⟨cursors, -, rfl⟩ := hxy
  exact ⟨hI.1, hI.2.1, hI.2.2.results, hI.2.2.dependencies⟩

theorem admitRevision_writes {ids : FreshIds} {k : Key} {adm : Admission} {v now : ℕ}
    (admits : op = .admitRevision ids k adm v now)
    (h : admitRevision D ids db k adm v now = .ok db') : Writes D op db db' := by
  unfold admitRevision at h
  simp only [bind_eq_ok, require_ok, selectWorkload, orRaise_ok] at h
  obtain ⟨-, valid, -, -, -, -, w, hw, h⟩ := h
  split at h
  · simp only [bind_eq_ok, pure_eq_ok] at h
    obtain ⟨-, -, rfl⟩ := h
    exact .refl
  · simp only [bind_eq_ok, require_ok, decide_eq_true_eq] at h
    obtain ⟨-, -, -, hdraft, -, -, db1, h1, db2, h2, h3⟩ := h
    obtain ⟨workloads, events, results⟩ := insertRevisionRows_outer h1
    have hw1 : db1.workloads.find? k = some w := by rw [workloads]; exact hw
    refine .head (.admitted ids k adm v now admits valid ⟨fun _ => by rw [workloads], events⟩
      results h1) (.single (move_write (t := .admitted) hw1 h2 ⟨rfl, rfl, rfl, .inr hdraft, ?_, ?_⟩ (.refl _) h3
        (fun _ => rfl) (by simp)))
    · rw [hdraft]; rfl
    · rintro (h | h) <;> cases h

/-! ## Materialization -/

theorem saveCursor_ledger {cursor : StageCursor} (h : saveCursor db cursor = .ok db') :
    SameLedger db db' := by
  obtain ⟨cursors, -, rfl⟩ := saveCursor_ok h
  exact .of_eq rfl rfl rfl rfl rfl rfl rfl rfl

theorem insertCandidate_ledger {m : Round} {cursor cursor' : StageCursor} {c : CandidateUnit}
    (h : insertCandidate D m db cursor c = .ok (db', cursor')) : SameLedger db db' := by
  unfold insertCandidate at h
  split at h
  · split at h
    · simp only [bind_eq_ok, pure_eq_ok, Prod.mk.injEq] at h
      obtain ⟨-, -, db1, h1, rfl, -⟩ := h
      obtain ⟨rfl, -⟩ := bindDependencies_ok h1
      exact .of_eq rfl rfl rfl rfl rfl rfl rfl rfl
    · split at h
      · cases h; exact .refl _
      · cases h
  · split at h
    · cases h; exact .refl _
    · simp only [bind_eq_ok, pure_eq_ok, Prod.mk.injEq] at h
      obtain ⟨db1, h1, db2, h2, rfl, -⟩ := h
      obtain ⟨-, units, -, rfl⟩ := insertUnit_ok h1
      obtain ⟨rfl, -⟩ := bindDependencies_ok h2
      exact .of_eq rfl rfl rfl rfl rfl rfl rfl rfl

theorem materializeRound_ledger {m : Round} {cursor : StageCursor}
    (h : materializeRound D m db cursor = .ok db') : SameLedger db db' := by
  cases materializeRound_write h with
  | saved cursor' done => exact saveCursor_ledger done
  | inserted c advance done =>
    unfold insertAndSave at done
    simp only [bind_eq_ok, Prod.exists] at done
    obtain ⟨db1, cursor1, h1, h2⟩ := done
    exact (insertCandidate_ledger h1).trans (saveCursor_ledger h2)
  | rooted level root db1 cursor' picked marked done =>
    unfold markRoot at marked
    simp only [bind_eq_ok] at marked
    obtain ⟨-, -, marked⟩ := marked
    exact (casUnit_ledger marked).trans (saveCursor_ledger done)

theorem materializeRounds_ledger {ids : FreshIds} {revision : Revision} {now limit : ℕ}
    (h : materializeRounds D ids revision now limit db = .ok db') : SameLedger db db' := by
  induction limit generalizing db with
  | zero =>
    cases h
    exact .refl _
  | succ n ih =>
    unfold materializeRounds at h
    split at h
    · cases h; exact .refl _
    · simp only [bind_eq_ok] at h
      obtain ⟨db1, h1, h2⟩ := h
      exact (materializeRound_ledger h1).trans (ih h2)

theorem materializeReadyUnits_ledger {ids : FreshIds} {k : Key} {limit now : ℕ}
    (h : materializeReadyUnits D ids db k limit now = .ok db') : SameLedger db db' := by
  unfold materializeReadyUnits at h
  simp only [bind_eq_ok] at h
  obtain ⟨w, -, h⟩ := h
  split at h
  · simp only [pure_eq_ok] at h
    exact h ▸ .refl _
  split at h
  · simp only [pure_eq_ok] at h
    exact h ▸ .refl _
  simp only [bind_eq_ok] at h
  obtain ⟨revision, -, h⟩ := h
  exact materializeRounds_ledger h

/-! ## Completion -/

theorem completeWorkload_write {w : Workload} {target : WorkloadState} {type : EventType} {now : ℕ}
    (assesses : op.assesses = true) (edge : canTransitionWorkload w.state target = true)
    (hw : db.workloads.find? w.id = some w) (kind : type ≠ .draftCreated)
    (h : completeWorkload db w target type now = .ok db') : Write D op db db' := by
  unfold completeWorkload at h
  simp only [bind_eq_ok] at h
  obtain ⟨db1, h1, h2⟩ := h
  obtain ⟨w1, A⟩ := appendEvent_ok h1
  obtain rfl : w = w1 := Option.some.inj (hw.symm.trans A.before)
  obtain ⟨self, others⟩ := casWorkload_find h2 A.after
  obtain ⟨w2, hw2, -, rfl⟩ := casWorkload_ok h2
  refine .move w.id w _ ⟨hw, self, fun j hj => ?_, edge, rfl, rfl, .inl rfl, fun _ => assesses,
      ?_⟩ ⟨A.facts.revisions, A.facts.stages, A.facts.sources⟩
    ⟨A.results.results, A.results.dependencies⟩ ⟨A.tokens.tokens, A.tokens.unknown⟩
  · rw [others j hj, A.others j hj]
  · exact ⟨_, A.events, rfl, rfl, rfl, kind⟩

theorem completionReasons_running {w : Workload} {r : Revision} {artifacts : List ArtifactRow}
    {now : ℕ} (h : completionReasons db w r artifacts now = []) : w.state = .running := by
  by_contra hne
  have hmem : CompletionReason.workloadNotRunning ∈ completionReasons db w r artifacts now := by
    simp [completionReasons, completionChecks, hne]
  rw [h] at hmem
  cases hmem

theorem evaluateCompletion_writes {k : Key} {artifacts : List ArtifactRow} {domainErrors now : ℕ}
    {x : CompletionAssessment} (assesses : op.assesses = true)
    (h : evaluateCompletion db k artifacts domainErrors now = .ok (x, db')) :
    Writes D op db db' := by
  rcases evaluateCompletion_ok h with rfl | ⟨w, r, hw, -, -, -, reasons, done⟩
  · exact .refl
  · have running := completionReasons_running reasons
    obtain rfl : w.id = k := Table.key_of_find? hw
    refine .single (completeWorkload_write assesses ?_ hw ?_ done)
    · rw [running]
      split <;> rfl
    · split <;> simp

/-! ## Every transaction -/

theorem transact_writes {op : Op} (h : transact D db op = .ok db') : Writes D op db db' := by
  cases op with
  | createDraft => exact createDraft_writes h
  | admitRevision => exact admitRevision_writes rfl h
  | transitionWorkload => exact .single (transitionWorkload_write h)
  | control => exact control_writes h
  | recordAttentionResolution => exact recordAttentionResolution_writes h
  | settleWorkload =>
    simp only [transact, settleWorkload, bind_eq_ok, pure_eq_ok, Prod.exists] at h
    obtain ⟨n, db1, h1, rfl⟩ := h
    exact settle_writes h1
  | evaluateCompletion =>
    obtain ⟨x, h⟩ := stored_ok h
    exact evaluateCompletion_writes rfl h
  | refreshUsageComplete =>
    simp only [transact, refreshUsageComplete, bind_eq_ok] at h
    obtain ⟨w, -, h⟩ := h
    split at h
    · simp only [pure_eq_ok] at h
      exact h ▸ .refl
    · simp only [pure_eq_ok] at h
      subst h
      exact (revisions_ledger fun _ => by rfl).writes
  | recordArtifacts =>
    simp only [transact, recordArtifacts, bind_eq_ok, pure_eq_ok] at h
    obtain ⟨db1, h1, rfl⟩ := h
    refine .head (addRevisionUsage_ledger h1 rfl rfl).write (SameLedger.writes ?_)
    exact .of_eq rfl rfl rfl rfl rfl rfl rfl rfl
  | materializeReadyUnits => exact (materializeReadyUnits_ledger h).writes
  | adoptReusableResult => exact adoptReusableResult_writes h
  | claimNext =>
    obtain ⟨_, h⟩ := stored_ok h
    exact claimNext_writes h
  | markRunning =>
    obtain ⟨_, h⟩ := stored_ok h
    exact markRunning_writes h
  | heartbeat =>
    obtain ⟨_, h⟩ := stored_ok h
    exact heartbeat_writes h
  | executionInputs =>
    obtain ⟨_, h⟩ := stored_ok h
    exact executionInputs_writes h
  | recordExecutionFacts =>
    obtain ⟨_, h⟩ := stored_ok h
    exact recordExecutionFacts_writes h
  | recordAttemptUsage =>
    obtain ⟨_, h⟩ := stored_ok h
    exact recordAttemptUsage_writes rfl h
  | commitResult =>
    obtain ⟨_, h⟩ := stored_ok h
    exact commitResult_writes h
  | failAttempt =>
    obtain ⟨_, h⟩ := stored_ok h
    exact failAttempt_writes h
  | abandonAttempt =>
    obtain ⟨_, h⟩ := stored_ok h
    exact abandonAttempt_writes h
  | reconcileExpired => exact reconcileExpired_writes h

end

/-- **Invariant rule.**  What every write of the operations in `ok` preserves holds in every store
of every run of them. -/
theorem run_write_invariant {D : Digests} {ok : Op → Prop} {I : Store → Prop}
    (step : ∀ {op a b}, ok op → Write D op a b → I a → I b) {db : Store} {ops : List Op}
    (hops : ∀ op ∈ ops, ok op) (h : I db) : I (run D db ops) := by
  have meets : Meets (transact D) (fun _ op => ok op) db ops :=
    meets_of_mem (fun op hop _ => hops op hop) db
  refine run_invariant (fun {a op b} hop hab ha => ?_) meets h
  have writes : Writes D op a b := transact_writes hab
  clear hab
  induction writes with
  | refl => exact ha
  | tail _ write ih => exact step hop write ih

theorem run_writes_invariant {D : Digests} {I : Store → Prop}
    (step : ∀ {op a b}, Write D op a b → I a → I b) {db : Store} (h : I db) (ops : List Op) :
    I (run D db ops) := by
  have hops : ∀ op ∈ ops, (fun _ : Op => True) op := fun _ _ => trivial
  exact run_write_invariant (fun _ write ha => step write ha) hops h

end Metnos.Durable
