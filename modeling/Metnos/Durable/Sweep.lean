import Metnos.Durable.Writes

/-!
# Durable.Sweep — the query of the periodic sweep selects what settlement changes

`settle_workloads` finds its workloads by a query that writes the conditions of settlement a second
time.  `settleable` is its `WHERE`, with instants compared as numbers; `sweepRows` is the query.
-/

namespace Metnos.Durable

open Transaction

/-! ## The query -/

/-- `state IN ('leased','running')`. -/
def activeUnit (revision : Key) (u : UnitRow) : Bool :=
  decide (u.revisionId = revision) && (u.state = .leased || u.state = .running)

/-- The condition on a revision and its usage row. -/
def overBudget (r : Revision) (usage : RevisionUsage) (now : ℕ) : Bool :=
  usage.usageUnknown ||
  usage.clockHighWaterAt.any (fun h => decide (now + clockRegressionTolerance < h)) ||
  decide (r.budgets.maxBytesRead < usage.inputBytes) ||
  decide (r.budgets.maxBytesWritten < usage.outputBytes) ||
  decide ((r.budgets.maxTokens : ℤ) - usage.outputTokens < usage.inputTokens) ||
  decide (r.budgets.maxCostMicros < usage.costMicros) ||
  decide (r.budgets.maxArtifacts < usage.artifactCount) ||
  usage.startedAt.any (fun t => decide ((seconds r.budgets.maxWallTimeS : ℤ) ≤ (now : ℤ) - t))

/-- A pause without active units, a cancellation without active or with waiting ones. -/
def drains (db : Store) (w : Workload) (revision : Key) : Bool :=
  (w.state = .pauseRequested || w.state = .cancelRequested) &&
  (!db.units.rows.any (activeUnit revision) ||
    (w.state = .cancelRequested && db.units.rows.any (waiting revision)))

/-- The `EXISTS` conditions of a workload that is not being cancelled. -/
def converges (db : Store) (r : Revision) (now : ℕ) : Bool :=
  (db.usage.find? r.id).any (fun usage => overBudget r usage now) ||
  db.cursors.rows.any (fun c => decide (c.revisionId = r.id) && c.attentionCode.isSome) ||
  db.units.rows.any (fun u =>
    (untolerated r u && (!db.units.rows.any (activeUnit r.id) || db.units.rows.any (waiting r.id))) ||
    openAttention r u) ||
  db.artifactAttention.any (fun k => k = r.id) ||
  db.units.rows.any (exhausted db r.id)

/-- The `WHERE` of `settle_workloads`, with the joined active revision. -/
def settleable (db : Store) (now : ℕ) (w : Workload) : Bool :=
  match w.activeRevisionId.bind db.revisions.find? with
  | none => false
  | some r =>
    ((w.state = .cancelled || w.state = .failed) && db.units.rows.any (waiting r.id)) ||
    (!(w.state = .cancelled || w.state = .failed || w.state = .completed ||
        w.state = .completedWithErrors || w.state = .needsAttention) &&
      (drains db w r.id || (!(w.state = .cancelRequested) && converges db r now)))

/-- `ORDER BY updated_at, owner_user_id, id`. -/
def sweepOrder (a b : Workload) : Bool :=
  Table.orderBy [a.updatedAt, a.id.owner, a.id.id] [b.updatedAt, b.id.owner, b.id.id]

def sweepRows (db : Store) (now limit : ℕ) : List Workload :=
  db.workloads.select (settleable db now) sweepOrder limit

/-- The rows that admission writes for an active revision: the revision is the workload's own, with a
positive wall time, and its usage row is there. -/
structure HasRevision (db : Store) (w : Workload) : Prop where
  revision : ∀ k, w.activeRevisionId = some k → ∃ r, db.revisions.find? k = some r ∧
    r.workloadId = w.id ∧ 1 ≤ r.budgets.maxWallTimeS
  usage : ∀ k, w.activeRevisionId = some k → (db.usage.find? k).isSome = true

section
variable {db db' : Store} {revision : Key} {r : Revision} {usage : RevisionUsage} {w : Workload}
  {now limit n : ℕ}

/-! ## What settlement leaves alone -/

theorem cancelWaitingUnits_idle (h : db.units.rows.any (waiting revision) = false) :
    (cancelWaitingUnits db revision now limit).2 = db := by
  unfold cancelWaitingUnits
  dsimp only
  rw [Table.updateWhere_idle]
  intro u hu
  have idle := List.any_eq_false.mp h u hu
  simp [idle]

theorem repairExhaustedUnits_idle (h : db.units.rows.any (exhausted db revision) = false) :
    (repairExhaustedUnits db revision now limit).2 = db := by
  unfold repairExhaustedUnits
  split
  · rfl
  · dsimp only
    rw [Table.updateWhere_idle]
    intro u hu
    have idle := List.any_eq_false.mp h u hu
    simp [idle]

theorem activeUnitCount_zero :
    activeUnitCount db revision = 0 ↔ db.units.rows.any (activeUnit revision) = false := by
  unfold activeUnitCount Table.count
  rw [List.countP_eq_zero, List.any_eq_false]
  rfl

theorem clockRegressed_any {h : Option ℕ} :
    clockRegressed h now = h.any (fun h => decide (now + clockRegressionTolerance < h)) := by
  unfold clockRegressed
  split
  · rfl
  · rw [Option.any_some]

theorem budgetViolation_none {k : Key} (found : db.revisions.find? revision = some r)
    (own : r.workloadId = k) (wall : 1 ≤ r.budgets.maxWallTimeS)
    (row : db.usage.find? revision = some usage) (within : overBudget r usage now = false) :
    budgetViolation db k revision now = none := by
  unfold overBudget at within
  simp only [Bool.or_eq_false_iff, decide_eq_false_iff_not] at within
  obtain ⟨⟨⟨⟨⟨⟨⟨known, clock⟩, read⟩, written⟩, tokens⟩, cost⟩, artifacts⟩, started⟩ := within
  unfold budgetViolation
  rw [found, row]
  dsimp only
  rw [clockRegressed_any, clock]
  rw [if_neg (by simp [own, known]), if_neg (by simp), if_neg (by omega)]
  cases hs : usage.startedAt with
  | none => rfl
  | some t =>
    rw [hs] at started
    have later : ¬(seconds r.budgets.maxWallTimeS : ℤ) ≤ (now : ℤ) - t := by simpa using started
    have positive : 1 ≤ seconds r.budgets.maxWallTimeS := by
      unfold seconds
      omega
    dsimp only
    rw [if_neg (by omega)]

/-! ## Settlement of a workload that is not selected -/

theorem settleCancelRequested_idle (active : db.units.rows.any (activeUnit revision) = true)
    (idle : db.units.rows.any (waiting revision) = false)
    (h : settleCancelRequested db w revision now limit = .ok (n, db')) : db' = db := by
  unfold settleCancelRequested at h
  have same : (cancelWaitingUnits db revision now limit).2 = db := cancelWaitingUnits_idle idle
  revert h same
  generalize cancelWaitingUnits db revision now limit = x
  obtain ⟨m, db1⟩ := x
  rintro h rfl
  have busy : ¬activeUnitCount db1 revision = 0 := by
    rw [activeUnitCount_zero, active]
    simp
  dsimp only at h
  rw [if_pos (by simp [busy])] at h
  cases h
  rfl

theorem settleFailures_idle {e : ℕ}
    (failures : db.units.rows.any (untolerated r) = true →
      db.units.rows.any (activeUnit r.id) = true ∧ db.units.rows.any (waiting r.id) = false)
    (drained : w.state = .pauseRequested → db.units.rows.any (activeUnit r.id) = true)
    (h : settleFailures db w r e now limit = .ok (n, db')) : db' = db := by
  unfold settleFailures at h
  split at h
  · rename_i failed
    obtain ⟨active, idle⟩ := failures failed
    have same : (cancelWaitingUnits db r.id now limit).2 = db := cancelWaitingUnits_idle idle
    revert h same
    generalize cancelWaitingUnits db r.id now limit = x
    obtain ⟨m, db1⟩ := x
    rintro h rfl
    have busy : ¬activeUnitCount db1 r.id = 0 := by
      rw [activeUnitCount_zero, active]
      simp
    dsimp only at h
    rw [if_pos (by simp [busy])] at h
    cases h
    rfl
  · rw [if_neg] at h
    · cases h
      rfl
    · simp only [Bool.and_eq_true, decide_eq_true_eq, not_and]
      intro pausing
      rw [activeUnitCount_zero, drained pausing]
      simp

theorem settleAttention_idle {e : ℕ} (found : db.revisions.find? revision = some r)
    (state : w.state ≠ .needsAttention) (quiet : converges db r now = false)
    (drained : w.state = .pauseRequested → db.units.rows.any (activeUnit r.id) = true)
    (h : settleAttention db w revision e now limit = .ok (n, db')) : db' = db := by
  obtain rfl : r.id = revision := Table.key_of_find? found
  unfold converges at quiet
  simp only [Bool.or_eq_false_iff] at quiet
  obtain ⟨⟨⟨⟨-, cursors⟩, units⟩, artifacts⟩, -⟩ := quiet
  unfold settleAttention at h
  rw [if_neg state, cursors] at h
  simp only [Bool.false_eq_true, if_false, bind_eq_ok, orRaise_ok] at h
  obtain ⟨r', hr', h⟩ := h
  obtain rfl : r = r' := Option.some.inj (found.symm.trans hr')
  have answered : db.units.rows.any (openAttention r) = false := by
    rw [List.any_eq_false] at units ⊢
    intro u hu
    have hu' := units u hu
    simp only [Bool.or_eq_true, not_or] at hu'
    exact hu'.2
  have published : artifactAttentionCount db r.id = 0 := by
    unfold artifactAttentionCount
    rw [List.countP_eq_zero]
    exact List.any_eq_false.mp artifacts
  rw [answered, published] at h
  simp only [ne_eq, not_true_eq_false, decide_false, Bool.or_self, Bool.false_eq_true,
    if_false] at h
  refine settleFailures_idle ?_ drained h
  intro failed
  obtain ⟨u, hu, hfail⟩ := List.any_eq_true.mp failed
  have hu' := List.any_eq_false.mp units u hu
  simp only [hfail, Bool.true_and, Bool.or_eq_true, not_or, Bool.not_eq_true',
    Bool.not_eq_false, Bool.not_eq_true] at hu'
  exact hu'.1

theorem settle_idle (hw : db.workloads.find? w.id = some w) (own : HasRevision db w)
    (state : w.state ≠ .needsAttention) (skipped : settleable db now w = false)
    (h : settle db w.id now true limit = .ok (n, db')) : db' = db := by
  unfold settle at h
  simp only [bind_eq_ok, selectWorkload, orRaise_ok] at h
  obtain ⟨w', hw', h⟩ := h
  obtain rfl : w = w' := Option.some.inj (hw.symm.trans hw')
  split at h
  · cases h
    rfl
  rename_i revision hrevision
  obtain ⟨r, found, mine, wall⟩ := own.revision revision hrevision
  obtain ⟨usage, row⟩ := Option.isSome_iff_exists.mp (own.usage revision hrevision)
  obtain rfl : r.id = revision := Table.key_of_find? found
  unfold settleable at skipped
  rw [hrevision, Option.bind_some, found] at skipped
  dsimp only at skipped
  obtain ⟨residual, live⟩ := Bool.or_eq_false_iff.mp skipped
  split at h
  · rename_i ended
    have idle : db.units.rows.any (waiting r.id) = false := by
      rw [ended, Bool.true_and] at residual
      exact residual
    have same : (cancelWaitingUnits db r.id now limit).2 = db := cancelWaitingUnits_idle idle
    simp only [pure_eq_ok] at h
    rw [h] at same
    exact same
  rename_i running
  split at h
  · cases h
    rfl
  rename_i incomplete
  have open_ : (!(w.state = .cancelled || w.state = .failed || w.state = .completed ||
      w.state = .completedWithErrors || w.state = .needsAttention)) = true := by
    simp only [Bool.or_eq_true, decide_eq_true_eq, not_or] at running incomplete
    simp [running, incomplete, state]
  rw [open_, Bool.true_and] at live
  obtain ⟨undrained, quiet⟩ := Bool.or_eq_false_iff.mp live
  split at h
  · rename_i cancelling
    have busy : db.units.rows.any (activeUnit r.id) = true ∧
        db.units.rows.any (waiting r.id) = false := by
      unfold drains at undrained
      simpa [cancelling] using undrained
    exact settleCancelRequested_idle busy.1 busy.2 h
  rename_i uncancelled
  have quiet' : converges db r now = false := by
    simpa [uncancelled] using quiet
  have drained : w.state = .pauseRequested → db.units.rows.any (activeUnit r.id) = true := by
    intro pausing
    unfold drains at undrained
    simpa [pausing] using undrained
  have within : overBudget r usage now = false := by
    unfold converges at quiet'
    simp only [Bool.or_eq_false_iff] at quiet'
    have quiet_usage := quiet'.1.1.1.1
    rw [row, Option.any_some] at quiet_usage
    exact quiet_usage
  rw [budgetViolation_none found mine wall row within] at h
  simp only [Option.isSome_none, Bool.and_false, Bool.false_eq_true, if_false, if_true] at h
  have same : (repairExhaustedUnits db r.id now limit).2 = db := by
    unfold converges at quiet'
    simp only [Bool.or_eq_false_iff] at quiet'
    exact repairExhaustedUnits_idle quiet'.2
  revert h same
  generalize repairExhaustedUnits db r.id now limit = x
  obtain ⟨m, db1⟩ := x
  rintro h rfl
  dsimp only at h
  split at h
  · cases h
    rfl
  · exact settleAttention_idle found state quiet' drained h

theorem sweepOrder_total (a b : Workload) : sweepOrder a b = true ∨ sweepOrder b a = true :=
  Table.orderBy_total _ _

theorem sweepOrder_trans {a b c : Workload} (h : sweepOrder a b = true) (h' : sweepOrder b c = true) :
    sweepOrder a c = true := Table.orderBy_trans h h'

/-- What settlement changes is selected by the query of the sweep, or the sweep is full with
workloads that come before it. -/
theorem settled_is_selected (hw : db.workloads.find? w.id = some w) (own : HasRevision db w)
    (state : w.state ≠ .needsAttention) (h : settle db w.id now true limit = .ok (n, db'))
    (changed : db' ≠ db) (size : ℕ) : settleable db now w = true ∧
      (w ∈ sweepRows db now size ∨ (sweepRows db now size).length = size ∧
        ∀ x ∈ sweepRows db now size, sweepOrder x w = true) := by
  have selected : settleable db now w = true := by
    by_contra skipped
    exact changed (settle_idle hw own state (Bool.not_eq_true _ ▸ skipped) h)
  exact ⟨selected, Table.mem_select_or_full sweepOrder_total (fun _ _ _ => sweepOrder_trans)
    (Table.mem_of_find? hw) selected⟩

end

/-! ## A sweep of one workload -/

/-- Two queued workloads whose wall time is over at the instant 1000 s. -/
def sampleOverdue : Store :=
  run sampleDigests Store.empty
    (sampleStart 1 0 [sampleInventory, sampleMap] 100 [7] ++
      sampleStart 2 0 [sampleInventory, sampleMap] 100 [8])

/-- Settlement would change the workload. -/
def Settles (db : Store) (k : Key) (now : ℕ) : Prop :=
  ∃ w n db', db.workloads.find? k = some w ∧ w.state ≠ .needsAttention ∧
    settle db k now true unitStateBatchSize = .ok (n, db') ∧ db' ≠ db

theorem overdue_settles : Settles sampleOverdue ⟨1, 1⟩ (seconds 1000) := by
  refine ⟨_, _, _, rfl, by decide, rfl, fun h => ?_⟩
  exact absurd (congrArg (fun db => db.events.length) h) (by decide)

theorem overdue_is_selected : ∃ w, sampleOverdue.workloads.find? ⟨1, 1⟩ = some w ∧
    settleable sampleOverdue (seconds 1000) w = true := by
  obtain ⟨w, n, db', hw, state, h, changed⟩ := overdue_settles
  have key : w.id = ⟨1, 1⟩ := Table.key_of_find? hw
  have active : (sampleOverdue.workloads.find? ⟨1, 1⟩).bind Workload.activeRevisionId =
    some ⟨1, 1⟩ := rfl
  rw [hw, Option.bind_some] at active
  have own : HasRevision sampleOverdue w := by
    constructor
    · intro k hk
      obtain rfl : k = ⟨1, 1⟩ := Option.some.inj (hk.symm.trans active)
      rw [key]
      exact ⟨_, rfl, rfl, by decide⟩
    · intro k hk
      obtain rfl : k = ⟨1, 1⟩ := Option.some.inj (hk.symm.trans active)
      rfl
  rw [← key] at hw h
  exact ⟨w, key ▸ hw, (settled_is_selected hw own state h changed 1).1⟩

/-- A sweep of one workload leaves out the second one, and without its usage row a workload is not
selected at all. -/
theorem sweep_leaves_out :
    (Settles sampleOverdue ⟨1, 2⟩ (seconds 1000) ∧
      (sweepRows sampleOverdue (seconds 1000) 1).map Workload.id = [⟨1, 1⟩]) ∧
    Settles { sampleOverdue with usage := .empty } ⟨1, 1⟩ (seconds 1000) ∧
      sweepRows { sampleOverdue with usage := .empty } (seconds 1000) 200 = [] := by
  refine ⟨⟨⟨_, _, _, rfl, by decide, rfl, fun h => ?_⟩, rfl⟩,
    ⟨_, _, _, rfl, by decide, rfl, fun h => ?_⟩, rfl⟩
  · exact absurd (congrArg (fun db => db.events.length) h) (by decide)
  · exact absurd (congrArg (fun db => db.events.length) h) (by decide)

end Metnos.Durable
