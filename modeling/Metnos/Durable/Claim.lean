import Mathlib
import Metnos.Durable.Attempts

/-!
# Durable.Claim — choosing, leasing and reconciling units

`claim_next` with its candidate query (budgets, concurrency, model reservations, fairness), the
promotion of due retries, and `reconcile_expired`.
-/

namespace Metnos.Durable

/-! ## Due retries -/

def UnitRow.promote (now : ℕ) (u : UnitRow) : UnitRow :=
  { u with state := .pending, nextAttemptAt := none, errorClass := none, updatedAt := now }

theorem UnitRow.promote_id (now : ℕ) (u : UnitRow) : (u.promote now).id = u.id := rfl

def due (now : ℕ) (u : UnitRow) : Bool :=
  u.state = .retryWait && u.nextAttemptAt.any (fun t => decide (t ≤ now))

/-- `ORDER BY next_attempt_at, owner_user_id, id`. -/
def dueOrder (a b : UnitRow) : Bool :=
  Table.orderBy [a.nextAttemptAt.getD 0, a.id.owner, a.id.id]
    [b.nextAttemptAt.getD 0, b.id.owner, b.id.id]

def promoteDueRetries (db : Store) (now limit : ℕ) : Store :=
  let ids := (db.units.select (due now) dueOrder limit).map UnitRow.id
  { db with units := db.units.updateWhere (fun u => due now u && ids.contains u.id)
              (UnitRow.promote now) (UnitRow.promote_id now) }

/-! ## Model reservations -/

/-- A stage with a row in `model_limits`. -/
def Stage.usesModel (s : Stage) : Bool := decide (0 < s.resources.llm) || decide (0 < s.resources.vlm)

/-- The attempt that backs a reservation: the unit's active one, still open. -/
def reservingAttempt (db : Store) (u : UnitRow) : Option Attempt := do
  let a ← db.attempts.find? (← u.activeAttemptId)
  if a.unitId = u.id ∧ a.fence = u.fence ∧ u.leaseWorkerId = some a.workerId ∧
      (a.state = .leased ∨ a.state = .running) ∧ a.endedAt = none then some a else none

/-- Whether the attempt's model usage is already accounted exactly. -/
def usageAccounted (a : Attempt) : Bool :=
  match a.modelSnapshot with
  | .unbound _ => false
  | .llm _ => (a.metrics.llmUsage.map ModelUsage.complete).getD false

/-- One row of `model_reservations`: whether it is unbounded, and its reserved tokens. -/
def modelReservation (db : Store) (revision : Key) (u : UnitRow) : Option (Bool × ℕ) := do
  let s ← db.stages.find? u.stageId
  if u.revisionId = revision ∧ s.revisionId = revision ∧ s.usesModel ∧
      (u.state = .leased ∨ u.state = .running) then
    match reservingAttempt db u with
    | none => some (true, s.modelMaxTokens.getD 0)
    | some a =>
      some (s.modelMaxTokens.isNone, if usageAccounted a then 0 else s.modelMaxTokens.getD 0)
  else none

def modelReservations (db : Store) (revision : Key) : List (Bool × ℕ) :=
  db.units.rows.filterMap (modelReservation db revision)

/-! ## Candidates -/

structure WorkerCapabilities where
  runnerBindings : List (RunnerKind × String)
  resourceLimits : Resources
  effectProfiles : List DurableEffect

/-- The `WHERE` clause of a ready unit of stage `s` in revision `r`. -/
def claimable (db : Store) (s : Stage) (r : Revision) (now : ℕ) (u : UnitRow) : Bool :=
  decide (u.revisionId = r.id) && decide (u.stageId = s.id) &&
  ((u.state = .pending && u.nextAttemptAt.all (fun t => decide (t ≤ now)) &&
      (decide (u.attemptCount < s.retry.maxAttempts) || decide (0 < u.manualRetryTokens))) ||
    (u.state = .needsAttention && decide (u.manualRetryGeneration < r.manualRetryGeneration))) &&
  decide (u.expectedDependencyCount ≤ maxUnitDependencies) &&
  decide (u.expectedDependencyCount =
    db.unitDependencies.countP (fun d => d.unitId = u.id))

/-- `max_tokens - input_tokens - output_tokens`. -/
def remainingTokens (r : Revision) (usage : RevisionUsage) : ℤ :=
  (r.budgets.maxTokens : ℤ) - usage.inputTokens - usage.outputTokens

/-- Whether the frozen model contract does not fit into what is left. -/
def overReserved (s : Stage) (r : Revision) (usage : RevisionUsage) : Bool :=
  s.usesModel && s.modelMaxTokens.any (fun t => decide (remainingTokens r usage < t))

def modelAdmitted (db : Store) (s : Stage) (r : Revision) (usage : RevisionUsage) : Bool :=
  let reservations := modelReservations db r.id
  let unbounded := reservations.any (fun x => x.1)
  let reserved := (reservations.map (fun x => x.2)).sum
  !s.usesModel ||
  ((decide (usage.inputTokens + usage.outputTokens < r.budgets.maxTokens) ||
      (s.modelMaxTokens.isSome && reservations.isEmpty)) &&
    (r.budgets.maxCostMicros = 0 || decide (usage.costMicros < r.budgets.maxCostMicros)) &&
    match s.modelMaxTokens with
    | none => reservations.isEmpty
    | some tokens =>
      !unbounded &&
      (decide ((tokens : ℤ) + reserved ≤ remainingTokens r usage) || reservations.isEmpty))

/-- The stages of a revision from which the worker may take a unit. -/
def readyStage (db : Store) (r : Revision) (usage : RevisionUsage) (now : ℕ)
    (caps : WorkerCapabilities) (s : Stage) : Bool :=
  decide (s.revisionId = r.id) && db.units.rows.any (claimable db s r now) &&
  caps.effectProfiles.contains s.effectProfile &&
  caps.runnerBindings.contains (s.runnerKind, s.runnerName) &&
  s.resources.within caps.resourceLimits && modelAdmitted db s r usage

/-- `ORDER BY` an unaffordable contract last, then position and id. -/
def stageOrder (r : Revision) (usage : RevisionUsage) (a b : Stage) : Bool :=
  Table.orderBy [(overReserved a r usage).toNat, a.position, a.id.id]
    [(overReserved b r usage).toNat, b.position, b.id.id]

/-- The workload-level `WHERE` clause of `claim_next`. -/
def workloadAdmits (db : Store) (w : Workload) (r : Revision) (usage : RevisionUsage) (now : ℕ) :
    Bool :=
  (w.state = .queued || w.state = .running) && !usage.usageUnknown &&
  !clockRegressed usage.clockHighWaterAt now &&
  decide (usage.inputBytes ≤ r.budgets.maxBytesRead) &&
  decide (usage.outputBytes ≤ r.budgets.maxBytesWritten) &&
  decide (usage.inputTokens + usage.outputTokens ≤ r.budgets.maxTokens) &&
  decide (usage.costMicros ≤ r.budgets.maxCostMicros) &&
  decide (usage.artifactCount ≤ r.budgets.maxArtifacts) &&
  usage.startedAt.all (fun t => decide (now < t + seconds r.budgets.maxWallTimeS)) &&
  !db.units.rows.any (untolerated r) &&
  decide (activeUnitCount db r.id < r.budgets.maxConcurrency)

/-- A row of the candidate query. -/
structure Candidate where
  workload : Workload
  revision : Revision
  usage : RevisionUsage
  stage : Stage

def candidate? (db : Store) (now : ℕ) (caps : WorkerCapabilities) (w : Workload) :
    Option Candidate := do
  let r ← db.revisions.find? (← w.activeRevisionId)
  let usage ← db.usage.find? r.id
  if workloadAdmits db w r usage now then
    let s ← (db.stages.select (readyStage db r usage now caps) (stageOrder r usage) 1).head?
    some ⟨w, r, usage, s⟩
  else none

def Priority.rank : Priority → ℕ
  | .high => 0
  | .normal => 1
  | .low => 2

/-- `owner_selected_seq`: the newest credit of the owner. -/
def ownerSelectedSeq (db : Store) (owner : ℕ) : ℕ :=
  (db.workloads.rows.map (fun w => if w.id.owner = owner then w.lastSelectedSeq.getD 0 else 0)).foldr
    max 0

def candidateOrder (db : Store) (a b : Candidate) : Bool :=
  let key := fun c : Candidate => [(overReserved c.stage c.revision c.usage).toNat,
    ownerSelectedSeq db c.workload.id.owner, c.workload.lastSelectedSeq.getD 0,
    c.workload.priority.rank, c.workload.createdAt, c.workload.id.owner, c.workload.id.id]
  Table.orderBy (key a) (key b)

def claimCandidates (db : Store) (now : ℕ) (caps : WorkerCapabilities) : List Candidate :=
  (db.workloads.rows.filterMap (candidate? db now caps)).insertionSort
    (fun a b => candidateOrder db a b = true)

/-- `ORDER BY next_attempt_at, created_at, unit_key`. -/
def claimOrder (a b : UnitRow) : Bool :=
  let key := fun u : UnitRow =>
    [(u.nextAttemptAt.map (· + 1)).getD 0, u.createdAt, u.unitKey]
  Table.orderBy (key a) (key b)

/-! ## Leasing -/

/-- `_start_queued_workload_in_transaction`. -/
def startQueuedWorkload (db : Store) (w : Workload) (now : ℕ) : Tx Store :=
  if w.state ≠ .queued then .ok db
  else do
    let db ← casWorkload db w.id (fun x => x.state = .queued && x.version = w.version)
      (fun x => { x with state := .running, version := x.version + 1, updatedAt := now })
      (fun _ => rfl)
    appendEvent db w.id .running {
      previousState := some .queued, newState := some .running, newVersion := some (w.version + 1) }

/-- The fairness credit of the selected workload: one more than every other. -/
def creditSelection (db : Store) (workloadId : Key) : Store :=
  let newest := (db.workloads.rows.map (fun w => w.lastSelectedSeq.getD 0)).foldr max 0
  { db with workloads := db.workloads.updateWhere (fun w => w.id = workloadId)
              (fun w => { w with lastSelectedSeq := some (newest + 1) }) (fun _ => rfl) }

def UnitRow.lease (worker : ℕ) (attempt : Key) (expiry tokens generation now : ℕ) (u : UnitRow) :
    UnitRow :=
  { u with
    state := .leased
    attemptCount := u.attemptCount + 1
    leaseWorkerId := some worker
    activeAttemptId := some attempt
    fence := u.fence + 1
    leaseExpiresAt := some expiry
    manualRetryTokens := u.manualRetryTokens - tokens
    manualRetryGeneration := if u.state = .needsAttention then generation
      else u.manualRetryGeneration
    errorClass := none
    nextAttemptAt := none
    updatedAt := now }

theorem UnitRow.lease_id (worker : ℕ) (attempt : Key) (expiry tokens generation now : ℕ)
    (u : UnitRow) : (u.lease worker attempt expiry tokens generation now).id = u.id := rfl

/-- A claim that spends the owner's answer to an attention. -/
def attentionRetry (u : UnitRow) : Bool := u.state = .needsAttention

/-- A claim that spends a returned manual token. -/
def tokenRetry (u : UnitRow) : Bool := u.state = .pending && decide (0 < u.manualRetryTokens)

def newAttempt (u : UnitRow) (id : Key) (worker now : ℕ) : Attempt :=
  { id := id
    unitId := u.id
    number := u.attemptCount + 1
    fence := u.fence + 1
    workerId := worker
    deviceId := none
    invocationId := none
    state := .leased
    startedAt := now
    endedAt := none
    error := none
    executorSnapshot := ⟨true, 0⟩
    modelSnapshot := .unbound 0
    metrics := ⟨false, none, attentionRetry u || tokenRetry u, none, none⟩ }

def makeLease (c : Candidate) (u : UnitRow) (attempt : Key) (worker expiry : ℕ) : Lease :=
  { workloadId := c.workload.id
    revisionId := c.revision.id
    stageId := c.stage.id
    stageKey := c.stage.stageKey
    unitId := u.id
    unitKey := u.unitKey
    attemptId := attempt
    attemptNumber := u.attemptCount + 1
    fence := u.fence + 1
    workerId := worker
    leaseExpiresAt := expiry
    runnerKind := c.stage.runnerKind
    runnerName := c.stage.runnerName
    effectProfile := c.stage.effectProfile
    outputSchemaVersion := c.stage.outputSchema
    resourceClaims := c.stage.resources
    retryPolicy := c.stage.retry
    timeoutS := c.stage.timeoutS
    manualRetry := attentionRetry u || tokenRetry u }

theorem RevisionUsage.started_id (now : ℕ) (x : RevisionUsage) :
    { x with
      startedAt := x.startedAt.or (some now)
      clockHighWaterAt := advanceClock x.clockHighWaterAt now }.revisionId = x.revisionId := rfl

def leaseUnit (db : Store) (c : Candidate) (u : UnitRow) (worker now duration attemptId : ℕ) :
    Tx (Option Lease × Store) := do
  let attempt : Key := ⟨u.id.owner, attemptId⟩
  let db ← insertAttempt db (newAttempt u attempt worker now)
  let db ← casUnit db u.id
    (fun x => decide (x.state = u.state) && decide (x.attemptCount = u.attemptCount) &&
      decide (x.fence = u.fence) && (!tokenRetry u || decide (0 < x.manualRetryTokens)) &&
      (!attentionRetry u ||
        decide (x.manualRetryGeneration < c.revision.manualRetryGeneration)))
    (UnitRow.lease worker attempt (now + duration) (if tokenRetry u then 1 else 0)
      c.revision.manualRetryGeneration now) (UnitRow.lease_id worker attempt _ _ _ now)
  let db ← updateUsage db c.revision.id (fun x => { x with
    startedAt := x.startedAt.or (some now)
    clockHighWaterAt := advanceClock x.clockHighWaterAt now }) (RevisionUsage.started_id now)
  let db ← startQueuedWorkload db c.workload now
  let db := creditSelection db c.workload.id
  return (some (makeLease c u attempt worker (now + duration)), db)

/-- Atomically choose and fence one admitted unit. -/
def claimNext (db : Store) (worker now duration : ℕ) (caps : WorkerCapabilities)
    (attemptId : ℕ) : Tx (Option Lease × Store) := do
  require .valueError (decide (0 < duration ∧ duration ≤ maxLeaseDuration))
  let db := promoteDueRetries db now 1000
  match (claimCandidates db now caps).head? with
  | none => return (none, db)
  | some c =>
    if overReserved c.stage c.revision c.usage then
      let db ← automaticWorkloadTransition db c.workload .needsAttention now
      return (none, db)
    let u ← orRaise .durableStore
      (db.units.select (claimable db c.stage c.revision now) claimOrder 1).head?
    leaseUnit db c u worker now duration attemptId

/-! ## Reconciling expired leases -/

/-- The joined row of an expired or clock-suspect lease. -/
structure ExpiredRow where
  unit : UnitRow
  attempt : Attempt
  stage : Stage
  revision : Revision
  usage : RevisionUsage

def expiredRow? (db : Store) (now : ℕ) (u : UnitRow) : Option ExpiredRow := do
  let revision ← db.revisions.find? u.revisionId
  let usage ← db.usage.find? u.revisionId
  let stage ← (db.stages.find? u.stageId).filter (fun s => s.revisionId = u.revisionId)
  let attempt ← (db.attempts.find? (← u.activeAttemptId)).filter
    (fun a => a.unitId = u.id ∧ a.fence = u.fence)
  if (u.state = .leased ∨ u.state = .running) ∧
      (u.leaseExpiresAt.any (fun t => decide (t ≤ now)) ∨
        clockRegressed usage.clockHighWaterAt now ∨ clockRegressed (some u.updatedAt) now) then
    some ⟨u, attempt, stage, revision, usage⟩
  else none

/-- `ORDER BY lease_expires_at, owner_user_id, id`. -/
def expiryOrder (a b : ExpiredRow) : Bool :=
  let key := fun x : ExpiredRow =>
    [(x.unit.leaseExpiresAt.map (· + 1)).getD 0, x.unit.id.owner, x.unit.id.id]
  Table.orderBy (key a) (key b)

def expiredRows (db : Store) (now batchSize : ℕ) : List ExpiredRow :=
  ((db.units.rows.filterMap (expiredRow? db now)).insertionSort
    (fun a b => expiryOrder a b = true)).take batchSize

/-- Where an expired unit goes, and when it may be retried. -/
def expiryTarget (D : Digests) (row : ExpiredRow) (usageUnknown regressed : Bool) :
    UnitState × Option ℕ :=
  let beforeExecution : Bool := row.unit.state = .leased
  let policy := row.stage.retry
  let number := row.unit.attemptCount
  let manual := row.attempt.metrics.manualRetry
  if usageUnknown || regressed then (.needsAttention, none)
  else if beforeExecution then
    if decide (number < policy.maxAttempts) || manual then (.pending, none)
    else (.needsAttention, none)
  else if row.stage.effectProfile = .reconcilable || row.stage.effectProfile = .manualOnly ||
      manual then (.needsAttention, none)
  else if number < policy.maxAttempts then
    (.retryWait, some (row.unit.leaseExpiresAt.getD 0 + 1000 * deterministicRetryDelayMs D
      row.unit.unitKey number policy.baseDelayMs policy.maxDelayMs))
  else (.needsAttention, none)

def reconcileRow (D : Digests) (now : ℕ) (db : Store) (row : ExpiredRow) : Tx Store := do
  let u := row.unit
  let beforeExecution : Bool := u.state = .leased
  let regressed := clockRegressed row.usage.clockHighWaterAt now ||
    clockRegressed (some u.updatedAt) now
  let (usageUnknown, db) ← markReleasedUsage db beforeExecution u.revisionId row.attempt
  let (target, nextAttemptAt) := expiryTarget D row usageUnknown regressed
  let db ← casAttempt db row.attempt.id
    (fun a => decide (a.unitId = u.id) && decide (a.fence = u.fence) &&
      decide (some a.workerId = u.leaseWorkerId) && decide (a.state = row.attempt.state) &&
      a.endedAt.isNone)
    (Attempt.finish (if beforeExecution then .abandoned else .timedOut) (some .leaseLost) now)
    (Attempt.finish_id _ _ now)
  let db ← casUnit db u.id
    (fun x => decide (x.state = u.state) && decide (x.activeAttemptId = u.activeAttemptId) &&
      decide (x.fence = u.fence) && decide (x.leaseWorkerId = u.leaseWorkerId))
    (UnitRow.release target nextAttemptAt (some (.attempt .leaseLost))
      (if beforeExecution && row.attempt.metrics.manualRetry then 1 else 0)
      row.revision.manualRetryGeneration now) (UnitRow.release_id _ _ _ _ _ now)
  advanceRevisionClock db u.revisionId now

/-- `sorted(affected_workloads)`. -/
def affectedWorkloads (rows : List ExpiredRow) : List Key :=
  (rows.map (fun row => row.revision.workloadId)).dedup.insertionSort
    (fun a b => Table.orderBy [a.owner, a.id] [b.owner, b.id] = true)

def reconcileExpired (D : Digests) (db : Store) (now batchSize : ℕ) : Tx Store := do
  require .valueError (decide (1 ≤ batchSize ∧ batchSize ≤ 1000))
  let rows := expiredRows db now batchSize
  let db ← rows.foldlM (reconcileRow D now) db
  let db := promoteDueRetries db now (batchSize - rows.length)
  (affectedWorkloads rows).foldlM (fun db w => do
    let (_, db) ← settle db w now false unitStateBatchSize
    return db) db

end Metnos.Durable

/-!
## Adopting prior results

One round of `adopt_reusable_results`: the first pending, never attempted unit of a pure stage
that another revision of the same owner committed under the same unit key.  A conflict moves the
unit to attention; otherwise the prior result is committed through an attempt that never ran.
-/

namespace Metnos.Durable

/-- The stage columns that a reusable result has to agree on. -/
def sameContract (current prior : Stage) : Bool :=
  decide (prior.stageKey = current.stageKey) && decide (prior.stageType = current.stageType) &&
  decide (prior.runnerKind = current.runnerKind) &&
  decide (prior.runnerName = current.runnerName) &&
  decide (prior.effectProfile = current.effectProfile) &&
  decide (prior.outputSchema = current.outputSchema) &&
  decide (prior.invalidationDigest = current.invalidationDigest) &&
  decide (prior.reduction = current.reduction)

/-- The committed results of other revisions under the unit's key and contract. -/
def priorResult? (db : Store) (unit : UnitRow) (stage : Stage) (prior : UnitRow) :
    Option ResultRow := do
  let priorStage ← (db.stages.find? prior.stageId).filter
    (fun s => s.revisionId = prior.revisionId)
  let result ← (db.results.find? (← prior.committedResultId)).filter
    (fun r => r.revisionId = prior.revisionId)
  if prior.id.owner = unit.id.owner ∧ prior.unitKey = unit.unitKey ∧
      prior.revisionId ≠ unit.revisionId ∧ prior.state = .committed ∧
      sameContract stage priorStage then some result else none

def priorResults (db : Store) (unit : UnitRow) (stage : Stage) : List ResultRow :=
  db.units.rows.filterMap (priorResult? db unit stage)

/-- A unit that may take over a prior result. -/
def reusable (db : Store) (stage : Stage) (u : UnitRow) : Bool :=
  u.state = .pending && u.attemptCount = 0 && u.activeAttemptId.isNone &&
  stage.effectProfile = .pure && decide (u.expectedDependencyCount ≤ maxUnitDependencies) &&
  decide (u.expectedDependencyCount = db.unitDependencies.countP (fun d => d.unitId = u.id))

structure ReuseCandidate where
  unit : UnitRow
  workload : Workload
  revision : Revision
  usage : RevisionUsage
  stage : Stage
  prior : ResultRow

def reuseCandidates (db : Store) (u : UnitRow) : List ReuseCandidate :=
  match (do
    let revision ← db.revisions.find? u.revisionId
    let workload ← (db.workloads.find? revision.workloadId).filter
      (fun w => w.activeRevisionId = some revision.id)
    let usage ← db.usage.find? revision.id
    let stage ← (db.stages.find? u.stageId).filter (fun s => s.revisionId = u.revisionId)
    if (workload.state = .queued ∨ workload.state = .running) ∧ reusable db stage u then
      some (revision, workload, usage, stage)
    else none) with
  | none => []
  | some (revision, workload, usage, stage) =>
    (priorResults db u stage).map (fun r => ⟨u, workload, revision, usage, stage, r⟩)

/-- `ORDER BY` workload age, unit age and key, result age. -/
def reuseOrder (a b : ReuseCandidate) : Bool :=
  let key := fun c : ReuseCandidate => [c.workload.updatedAt, c.workload.id.owner,
    c.workload.id.id, c.unit.createdAt, c.unit.unitKey, c.prior.committedAt, c.prior.id.id]
  Table.orderBy (key a) (key b)

def reuseCandidate? (db : Store) : Option ReuseCandidate :=
  ((db.units.rows.flatMap (reuseCandidates db)).insertionSort
    (fun a b => reuseOrder a b = true)).head?

/-- The update of `require_attention`: the retry generation of the unit stays as it is. -/
def UnitRow.setAside (reason : UnitError) (now : ℕ) (u : UnitRow) : UnitRow :=
  { u with state := .needsAttention, errorClass := some reason, updatedAt := now }

theorem UnitRow.setAside_id (reason : UnitError) (now : ℕ) (u : UnitRow) :
    (u.setAside reason now).id = u.id := rfl

def requireAttention (db : Store) (c : ReuseCandidate) (reason : UnitError) (now : ℕ) :
    Tx Store := do
  let db ← casUnit db c.unit.id
    (fun u => decide (u.revisionId = c.unit.revisionId) && u.state = .pending &&
      u.attemptCount = 0 && u.activeAttemptId.isNone)
    (UnitRow.setAside reason now) (UnitRow.setAside_id reason now)
  let (_, db) ← settle db c.workload.id now false unitStateBatchSize
  return db

/-- The worker name `result-reuse`. -/
def reuseWorker : ℕ := 0

def reuseAttempt (u : UnitRow) (id : Key) (now : ℕ) : Attempt :=
  { id := id
    unitId := u.id
    number := u.attemptCount + 1
    fence := u.fence + 1
    workerId := reuseWorker
    deviceId := none
    invocationId := none
    state := .succeeded
    startedAt := now
    endedAt := some now
    error := none
    executorSnapshot := ⟨false, 0⟩
    modelSnapshot := .unbound 0
    metrics := ⟨false, none, false, none, none⟩ }

def UnitRow.adopt (result : Key) (now : ℕ) (u : UnitRow) : UnitRow :=
  { u with
    state := .committed
    attemptCount := u.attemptCount + 1
    fence := u.fence + 1
    committedResultId := some result
    nextAttemptAt := none
    errorClass := none
    updatedAt := now }

theorem UnitRow.adopt_id (result : Key) (now : ℕ) (u : UnitRow) :
    (u.adopt result now).id = u.id := rfl

/-- The result of the adopted unit: the prior one under the new attempt. -/
def reuseResult (c : ReuseCandidate) (attempt result : Key) (now : ℕ) : ResultRow :=
  { id := result
    revisionId := c.unit.revisionId
    unitId := c.unit.id
    attemptId := attempt
    fence := c.unit.fence + 1
    digest := c.prior.digest
    schemaVersion := c.prior.schemaVersion
    payload := c.prior.payload
    committedAt := now }

/-- Why the prior result cannot be taken over. -/
def reuseConflict (D : Digests) (db : Store) (c : ReuseCandidate) : Option UnitError :=
  if (priorResults db c.unit c.stage).any (fun r => r.digest ≠ c.prior.digest) then
    some .resultDigestConflict
  else if !D.digestBound c.prior.schemaVersion c.prior.payload c.prior.digest ||
      c.prior.schemaVersion ≠ c.stage.outputSchema then some .reusableResultInvalid
  else if c.revision.budgets.maxBytesWritten < c.usage.outputBytes + c.prior.payload.bytes then
    some .budgetLimitExceeded
  else none

def adoptResult (db : Store) (c : ReuseCandidate) (attemptId resultId now : ℕ) : Tx Store := do
  let u := c.unit
  let dependencies ← validatedResultDependencies db u c.stage
  let attempt : Key := ⟨u.id.owner, attemptId⟩
  let result : Key := ⟨u.id.owner, resultId⟩
  let db ← insertAttempt db (reuseAttempt u attempt now)
  let db ← insertResult db (reuseResult c attempt result now)
  let db := insertResultDependencies db result dependencies
  let db ← casUnit db u.id
    (fun x => decide (x.revisionId = u.revisionId) && x.state = .pending &&
      decide (x.attemptCount = u.attemptCount) && decide (x.fence = u.fence) &&
      x.activeAttemptId.isNone)
    (UnitRow.adopt result now) (UnitRow.adopt_id result now)
  let db ← addRevisionUsage db u.revisionId { outputBytes := c.prior.payload.bytes }
  let db ← startQueuedWorkload db c.workload now
  let (_, db) ← settle db c.workload.id now false unitStateBatchSize
  return db

/-- One round of `adopt_reusable_results`. -/
def adoptReusableResult (D : Digests) (db : Store) (attemptId resultId now : ℕ) : Tx Store :=
  match reuseCandidate? db with
  | none => .ok db
  | some c =>
    if (budgetViolation db c.workload.id c.revision.id now).isSome then do
      let (settled, db) ← settle db c.workload.id now false unitStateBatchSize
      require .durableStore (decide (1 ≤ settled))
      return db
    else match reuseConflict D db c with
      | some reason => requireAttention db c reason now
      | none => adoptResult db c attemptId resultId now

end Metnos.Durable
