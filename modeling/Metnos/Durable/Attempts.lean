import Mathlib
import Metnos.Durable.Settle

/-!
# Durable.Attempts — what a worker does with its lease

`mark_running`, `heartbeat`, `execution_inputs`, `record_execution_facts`,
`record_attempt_usage`, `commit_result`, `fail_attempt` and `abandon_attempt`.  Each checks the
lease against the current row and then updates attempt and unit by compare-and-set.
-/

namespace Metnos.Durable

/-! ## Outcomes -/

inductive LeaseMutationStatus
  | applied | alreadyApplied | staleFence | leaseExpired | invalidState
deriving DecidableEq

inductive CommitStatus
  | committed | idempotentReplay | staleFence | leaseExpired | deadlineExpired | digestConflict
  | invalidState
deriving DecidableEq

inductive RetryDecision
  | retry | failPermanent | needsAttention
deriving DecidableEq

inductive FailureStatus
  | retryScheduled | failedPermanent | needsAttention | staleFence | leaseExpired | invalidState
deriving DecidableEq

structure ValidatedResult where
  schemaVersion : String
  payload : Payload
  digest : ℕ

/-! ## Retry policy -/

/-- Capped exponential delay with stable 75..100% jitter. -/
def deterministicRetryDelayMs (D : Digests) (unitKey attemptNumber baseDelayMs maxDelayMs : ℕ) :
    ℕ :=
  if baseDelayMs = 0 ∨ maxDelayMs = 0 then 0
  else
    let exponent := min (attemptNumber - 1) 62
    let nominal := min maxDelayMs (baseDelayMs * 2 ^ exponent)
    let lower := nominal * 3 / 4
    lower + D.retryJitter unitKey attemptNumber % (nominal - lower + 1)

/-- Classes that need restored authority, reconciliation or a new revision. -/
def needsAuthority : ErrorClass → Bool
  | .budgetExhausted | .capabilityUnavailable | .publicationAmbiguous | .sourceMissing
  | .executorUnknown => true
  | _ => false

def decideRetry (effect : DurableEffect) (policy : RetryPolicy) (attemptNumber : ℕ)
    (errorClass : ErrorClass) (manualRetry : Bool) : RetryDecision :=
  if needsAuthority errorClass then .needsAttention
  else if effect = .reconcilable ∨ effect = .manualOnly then .needsAttention
  else if errorClass = .executorPermanent ∨ errorClass = .contractViolation ∨
      errorClass = .invalidPlan then .failPermanent
  else if policy.retryableErrorClasses.contains errorClass then
    if manualRetry || decide (policy.maxAttempts ≤ attemptNumber) then .needsAttention
    else .retry
  else .failPermanent

/-! ## Model usage -/

def ModelUsage.complete (usage : ModelUsage) : Bool := !usage.usageMissing && !usage.costUnknown

def modelUsageIsComplete (stage : Stage) (a : Attempt) : Bool :=
  match a.modelSnapshot with
  | .unbound _ => !stage.frozenModelContract
  | .llm _ =>
    match a.metrics.llmUsage with
    | none => false
    | some usage => usage.complete

/-- Poison the revision when an executed model attempt lacks exact usage. -/
def markUnaccountedModelUsageUnknown (db : Store) (revision : Key) (a : Attempt) :
    Tx (Bool × Store) :=
  match a.modelSnapshot with
  | .unbound _ => .ok (false, db)
  | .llm _ =>
    if (a.metrics.llmUsage.map ModelUsage.complete).getD false then .ok (false, db)
    else do
      let db ← addRevisionUsage db revision { usageUnknown := true }
      return (true, db)

/-- The same for a lease that ends: before execution there is nothing to account. -/
def markReleasedUsage (db : Store) (beforeExecution : Bool) (revision : Key) (a : Attempt) :
    Tx (Bool × Store) :=
  if beforeExecution then .ok (false, db) else markUnaccountedModelUsageUnknown db revision a

/-- `_MAX_LLM_USAGE_RECORDS`, `_MAX_LLM_CALL_COUNTER`. -/
def maxLlmUsageRecords : ℕ := 256
def maxLlmCallCounter : ℕ := 10 ^ 12

/-- Recompute every aggregate from the bounded calls (identities are the lease's own). -/
def validatedAttemptUsage (u : ModelUsage) : Bool :=
  decide (u.records.length ≤ maxLlmUsageRecords) &&
  decide (u.dropped ≤ sqliteIntegerMax) && decide (u.inputTokens ≤ sqliteIntegerMax) &&
  decide (u.outputTokens ≤ sqliteIntegerMax) && decide (u.costMicros ≤ sqliteIntegerMax) &&
  u.records.all (fun c =>
    decide (c.inTokens.getD 0 ≤ maxLlmCallCounter) &&
    decide (c.outTokens.getD 0 ≤ maxLlmCallCounter) &&
    decide (c.latencyMs.getD 0 ≤ maxLlmCallCounter) &&
    decide (c.costMicros.getD 0 ≤ maxLlmCallCounter)) &&
  decide (u.inputTokens = (u.records.map (fun c => c.inTokens.getD 0)).sum) &&
  decide (u.outputTokens = (u.records.map (fun c => c.outTokens.getD 0)).sum) &&
  decide (u.costMicros = (u.records.map (fun c => c.costMicros.getD 0)).sum) &&
  decide (u.usageMissing = ((u.records.isEmpty && !u.zeroCallsVerified) ||
    decide (0 < u.dropped) ||
    u.records.any (fun c => c.inTokens.isNone || c.outTokens.isNone))) &&
  decide (u.costUnknown = u.records.any (fun c => c.costMicros.isNone)) &&
  (!u.zeroCallsVerified || (u.records.isEmpty && decide (u.dropped = 0)))

/-- Bind measured calls to the model contract frozen at admission. -/
def validateUsageAgainstModelSnapshot (u : ModelUsage) (m : ModelContract) : Bool :=
  decide (1 ≤ m.maxCalls ∧ m.maxCalls ≤ 64) &&
  decide (1 ≤ m.maxInputTokens ∧ m.maxInputTokens ≤ 16777216) &&
  decide (1 ≤ m.maxOutputTokens ∧ m.maxOutputTokens ≤ 1000000) && m.costPolicyZero &&
  decide (u.records.length + u.dropped ≤ m.maxCalls) &&
  u.records.all (fun c =>
    decide (c.provider = m.provider) && decide (c.modelDigest = m.modelDigest) &&
    decide (c.tier = m.tier) && decide (c.kind = m.kind) &&
    decide (c.inTokens.getD 0 ≤ m.maxInputTokens) &&
    decide (c.outTokens.getD 0 ≤ m.maxOutputTokens) && decide (c.costMicros = some 0))

/-! ## Starting and keeping a lease -/

def Attempt.start (now : ℕ) (a : Attempt) : Attempt :=
  { a with
    state := .running
    metrics := { a.metrics with executionStarted := true, executionStartedAt := some now } }

theorem Attempt.start_id (now : ℕ) (a : Attempt) : (a.start now).id = a.id := rfl

def UnitRow.start (expiry now : ℕ) (u : UnitRow) : UnitRow :=
  { u with state := .running, leaseExpiresAt := some expiry, updatedAt := now }

theorem UnitRow.start_id (expiry now : ℕ) (u : UnitRow) : (u.start expiry now).id = u.id := rfl

def markRunning (db : Store) (lease : Lease) (now : ℕ) : Tx (LeaseMutationStatus × Store) :=
  withLease db lease .staleFence fun row a => do
    if clockRegressed row.usage.clockHighWaterAt now then
      return (.leaseExpired, db)
    let expiry ← leaseExpiry row.unit
    if expiry ≤ now then
      return (.leaseExpired, db)
    if row.unit.state = .running ∧ a.state = .running then
      return (.alreadyApplied, db)
    if row.unit.state ≠ .leased ∨ a.state ≠ .leased then
      return (.invalidState, db)
    let db ← casAttempt db lease.attemptId (ownsAttempt lease [.leased]) (Attempt.start now)
      (Attempt.start_id now)
    let db ← casUnit db lease.unitId (ownsUnit lease [.leased])
      (UnitRow.start (min expiry (now + seconds lease.timeoutS)) now) (UnitRow.start_id _ now)
    let db ← advanceRevisionClock db lease.revisionId now
    return (.applied, db)

def UnitRow.extend (expiry now : ℕ) (u : UnitRow) : UnitRow :=
  { u with leaseExpiresAt := some expiry, updatedAt := now }

theorem UnitRow.extend_id (expiry now : ℕ) (u : UnitRow) : (u.extend expiry now).id = u.id := rfl

/-- `MAX_LEASE_DURATION`: one day. -/
def maxLeaseDuration : ℕ := seconds 86400

def heartbeat (db : Store) (lease : Lease) (newExpiry now : ℕ) :
    Tx (LeaseMutationStatus × Store) := do
  require .valueError (decide (now < newExpiry ∧ newExpiry ≤ now + maxLeaseDuration))
  withLease db lease .staleFence fun row a => do
    if clockRegressed row.usage.clockHighWaterAt now then
      return (.leaseExpired, db)
    if row.unit.state ≠ .leased ∧ row.unit.state ≠ .running then
      return (.invalidState, db)
    let stored ← leaseExpiry row.unit
    if stored ≤ now then
      return (.leaseExpired, db)
    if row.unit.state = .running ∧ a.metrics.executionStartedAt = none then
      return (.invalidState, db)
    require .valueError (!(row.unit.state = .running &&
      decide (a.metrics.executionStartedAt.getD 0 + seconds lease.timeoutS < newExpiry)))
    require .valueError (decide (stored < newExpiry))
    let db ← casUnit db lease.unitId
      (fun u => ownsUnit lease [.leased, .running] u && decide (now < u.leaseExpiresAt.getD 0))
      (UnitRow.extend newExpiry now) (UnitRow.extend_id newExpiry now)
    let db ← advanceRevisionClock db lease.revisionId now
    return (.applied, db)

/-! ## Recorded facts -/

/-- The accounting of `execution_inputs`; `inputBytes` is the measured size of the inputs. -/
def executionInputs (db : Store) (lease : Lease) (inputBytes : ℕ) : Tx (Unit × Store) :=
  withLease db lease () fun _ a => do
    match a.metrics.inputBytes with
    | some accounted =>
      require .durableStore (accounted = inputBytes)
      return ((), db)
    | none =>
      let db ← casAttempt db lease.attemptId (ownsAttempt lease [.leased, .running])
        (fun x => { x with metrics := { x.metrics with inputBytes := some inputBytes } })
        (fun _ => rfl)
      let db ← addRevisionUsage db lease.revisionId { inputBytes := inputBytes }
      return ((), db)

def recordExecutionFacts (db : Store) (lease : Lease) (executor : ExecutorSnapshot)
    (model : ModelSnapshot) (deviceId invocationId : Option ℕ) (now : ℕ) :
    Tx (LeaseMutationStatus × Store) :=
  withLease db lease .staleFence fun row a => do
    if row.unit.state ≠ .running ∨ a.state ≠ .running then
      return (.invalidState, db)
    if clockRegressed row.usage.clockHighWaterAt now then
      return (.leaseExpired, db)
    let expiry ← leaseExpiry row.unit
    if expiry ≤ now then
      return (.leaseExpired, db)
    require .durableStore
      (a.executorSnapshot.dummy || (a.executorSnapshot = executor && a.modelSnapshot = model))
    require .durableStore (a.deviceId.isNone || deviceId.isNone || a.deviceId = deviceId)
    require .durableStore
      (a.invocationId.isNone || invocationId.isNone || a.invocationId = invocationId)
    let db ← casAttempt db lease.attemptId (ownsAttempt lease [.running])
      (fun x => { x with
        executorSnapshot := executor
        modelSnapshot := model
        deviceId := x.deviceId.or deviceId
        invocationId := x.invocationId.or invocationId }) (fun _ => rfl)
    let db ← advanceRevisionClock db lease.revisionId now
    return (.applied, db)

def recordAttemptUsage (db : Store) (lease : Lease) (usage : ModelUsage) (now : ℕ) :
    Tx (LeaseMutationStatus × Store) := do
  require .modelUsageContract (validatedAttemptUsage usage)
  withLease db lease .staleFence fun row a => do
    if row.unit.state ≠ .running ∨ a.state ≠ .running then
      return (.invalidState, db)
    if clockRegressed row.usage.clockHighWaterAt now then
      return (.leaseExpired, db)
    let expiry ← leaseExpiry row.unit
    if expiry ≤ now then
      return (.leaseExpired, db)
    match a.modelSnapshot with
    | .unbound _ => .error .modelUsageContract
    | .llm contract =>
      require .modelUsageContract (validateUsageAgainstModelSnapshot usage contract)
      match a.metrics.llmUsage with
      | some existing =>
        require .durableStore (existing = usage)
        return (.alreadyApplied, db)
      | none =>
        let db ← casAttempt db lease.attemptId (ownsAttempt lease [.running])
          (fun x => { x with metrics := { x.metrics with llmUsage := some usage } })
          (fun _ => rfl)
        let db ← addRevisionUsage db lease.revisionId {
          inputTokens := usage.inputTokens
          outputTokens := usage.outputTokens
          costMicros := usage.costMicros
          usageUnknown := usage.usageMissing || usage.costUnknown }
        let db ← advanceRevisionClock db lease.revisionId now
        return (.applied, db)

/-! ## Committing a result -/

/-- `_MAX_UNIT_DEPENDENCIES`. -/
def maxUnitDependencies : ℕ := 1024

/-- `unit_dependencies` of a unit, `ORDER BY ordinal`. -/
def unitDependenciesOf (db : Store) (unitId : Key) : List UnitDependency :=
  (db.unitDependencies.filter (fun d => d.unitId = unitId)).insertionSort
    (fun a b => a.ordinal ≤ b.ordinal)

/-- The joined rows of a unit's planned dependencies: the dependency, its result and the unit
that produced it. -/
def plannedDependencies (db : Store) (unitId : Key) :
    List (UnitDependency × ResultRow × UnitRow) :=
  (unitDependenciesOf db unitId).filterMap fun d => do
    let result ← db.results.find? d.sourceResultId
    let parent ← db.units.find? result.unitId
    some (d, result, parent)

def validatedResultDependencies (db : Store) (unit : UnitRow) (stage : Stage) :
    Tx (List (UnitDependency × ResultRow × UnitRow)) := do
  require .resultContract (decide (unit.expectedDependencyCount ≤ maxUnitDependencies))
  let rows := plannedDependencies db unit.id
  require .resultContract (rows.length = unit.expectedDependencyCount)
  require .resultContract (rows.all fun (d, _, parent) =>
    match db.stages.rows.find? (fun s => decide (s.revisionId = unit.revisionId) &&
        decide (s.stageKey = d.role)) with
    | none => false
    | some roleStage =>
      stage.dependsOn.contains roleStage.id &&
      (decide (parent.stageId = roleStage.id) ||
        (stage.reduction.isSome && decide (0 < unit.reductionLevel.getD 0) &&
          decide (parent.stageId = stage.id) &&
          decide (parent.reductionLevel = some (unit.reductionLevel.getD 0 - 1)))))
  return rows

/-- `_insert_result_dependencies_in_transaction`: ordinals count up within each role. -/
def insertResultDependencies (db : Store) (child : Key)
    (rows : List (UnitDependency × ResultRow × UnitRow)) : Store :=
  rows.foldl (fun db row =>
    let ordinal := db.resultDependencies.countP
      (fun x => decide (x.1 = child) && decide (x.2.2.1 = row.1.role))
    { db with resultDependencies :=
                db.resultDependencies ++ [(child, row.2.1.id, row.1.role, ordinal)] }) db

def Attempt.finish (state : AttemptState) (error : Option ErrorClass) (now : ℕ) (a : Attempt) :
    Attempt :=
  { a with state := state, endedAt := some now, error := error }

theorem Attempt.finish_id (state : AttemptState) (error : Option ErrorClass) (now : ℕ)
    (a : Attempt) : (a.finish state error now).id = a.id := rfl

def UnitRow.commit (result : Key) (now : ℕ) (u : UnitRow) : UnitRow :=
  { u with
    state := .committed
    committedResultId := some result
    leaseWorkerId := none
    activeAttemptId := none
    leaseExpiresAt := none
    nextAttemptAt := none
    errorClass := none
    updatedAt := now }

theorem UnitRow.commit_id (result : Key) (now : ℕ) (u : UnitRow) :
    (u.commit result now).id = u.id := rfl

/-- What `commit_result` answers when the unit already has a result. -/
def replayStatus (existing : ResultRow) (lease : Lease) (validated : ValidatedResult) :
    CommitStatus :=
  if existing.attemptId ≠ lease.attemptId ∨ existing.fence ≠ lease.fence then .staleFence
  else if existing.digest = validated.digest then .idempotentReplay
  else .digestConflict

def commitResult (db : Store) (lease : Lease) (validated : ValidatedResult)
    (dependencyResultIds : List Key) (resultId : Key) (now : ℕ) : Tx (CommitStatus × Store) := do
  require .resultContract (decide dependencyResultIds.Nodup)
  match db.results.rows.find? (fun r => r.unitId = lease.unitId) with
  | some existing => return (replayStatus existing lease validated, db)
  | none =>
    withLease db lease .staleFence fun row a => do
      if row.unit.state ≠ .running ∨ a.state ≠ .running then
        return (.invalidState, db)
      match a.metrics.executionStartedAt with
      | none => return (.invalidState, db)
      | some startedAt =>
        if startedAt + seconds lease.timeoutS ≤ now then
          return (.deadlineExpired, db)
        let expiry ← leaseExpiry row.unit
        if expiry ≤ now then
          return (.leaseExpired, db)
        require .resultContract (row.stage.outputSchema = validated.schemaVersion)
        let dependencies ← validatedResultDependencies db row.unit row.stage
        let planned := dependencies.map (fun d => d.2.1.id)
        require .resultContract
          (dependencyResultIds.all planned.contains && planned.all dependencyResultIds.contains)
        require .budgetExceeded (modelUsageIsComplete row.stage a)
        let db ← addRevisionUsage db lease.revisionId { outputBytes := validated.payload.bytes }
        require .budgetExceeded
          (budgetViolation db lease.workloadId lease.revisionId now).isNone
        let db ← advanceRevisionClock db lease.revisionId now
        let db ← insertResult db {
          id := resultId
          revisionId := lease.revisionId
          unitId := lease.unitId
          attemptId := lease.attemptId
          fence := lease.fence
          digest := validated.digest
          schemaVersion := validated.schemaVersion
          payload := validated.payload
          committedAt := now }
        let db := insertResultDependencies db resultId dependencies
        let db ← casAttempt db lease.attemptId (ownsAttempt lease [.running])
          (Attempt.finish .succeeded none now) (Attempt.finish_id .succeeded none now)
        let db ← casUnit db lease.unitId (ownsUnit lease [.running])
          (UnitRow.commit resultId now) (UnitRow.commit_id resultId now)
        let (_, db) ← settle db lease.workloadId now false unitStateBatchSize
        return (.committed, db)

/-! ## Failing and abandoning -/

/-- Release a unit into `state`; entering attention takes over the revision's generation. -/
def UnitRow.release (state : UnitState) (nextAttemptAt : Option ℕ) (error : Option UnitError)
    (tokens generation now : ℕ) (u : UnitRow) : UnitRow :=
  { u with
    state := state
    nextAttemptAt := nextAttemptAt
    leaseWorkerId := none
    activeAttemptId := none
    leaseExpiresAt := none
    errorClass := error
    manualRetryTokens := u.manualRetryTokens + tokens
    manualRetryGeneration := if state = .needsAttention then generation
      else u.manualRetryGeneration
    updatedAt := now }

theorem UnitRow.release_id (state : UnitState) (nextAttemptAt : Option ℕ)
    (error : Option UnitError) (tokens generation now : ℕ) (u : UnitRow) :
    (u.release state nextAttemptAt error tokens generation now).id = u.id := rfl

def RetryDecision.unitState : RetryDecision → UnitState
  | .retry => .retryWait
  | .needsAttention => .needsAttention
  | .failPermanent => .failedPermanent

def RetryDecision.status : RetryDecision → FailureStatus
  | .retry => .retryScheduled
  | .needsAttention => .needsAttention
  | .failPermanent => .failedPermanent

/-- Whether the execution deadline of a started attempt has passed. -/
def deadlineReached (a : Attempt) (timeoutS now : ℕ) : Bool :=
  match a.metrics.executionStartedAt with
  | none => false
  | some startedAt => decide (startedAt + seconds timeoutS ≤ now)

/-- `fail_attempt`; `timedOut` is `attempt_state = timed_out`. -/
def failAttempt (D : Digests) (db : Store) (lease : Lease) (errorClass : ErrorClass)
    (decision : RetryDecision) (timedOut : Bool) (now : ℕ) : Tx (FailureStatus × Store) :=
  withLease db lease .staleFence fun row a => do
    if row.unit.state ≠ .running ∨ a.state ≠ .running then
      return (.invalidState, db)
    let expiry ← leaseExpiry row.unit
    if expiry ≤ now && !(timedOut && deadlineReached a lease.timeoutS now) then
      return (.leaseExpired, db)
    let policy := row.stage.retry
    let derived := decideRetry lease.effectProfile policy lease.attemptNumber errorClass
      lease.manualRetry
    require .retryDecisionConflict (decision = derived)
    let regressed := clockRegressed row.usage.clockHighWaterAt now
    let (usageUnknown, db) ← markUnaccountedModelUsageUnknown db lease.revisionId a
    let derived := if usageUnknown || regressed then .needsAttention else derived
    let nextAttemptAt := match derived with
      | .retry => some (now + 1000 * deterministicRetryDelayMs D lease.unitKey
          lease.attemptNumber policy.baseDelayMs policy.maxDelayMs)
      | _ => none
    let db ← casAttempt db lease.attemptId (ownsAttempt lease [.running])
      (Attempt.finish (if timedOut then .timedOut else .failed) (some errorClass) now)
      (Attempt.finish_id _ _ now)
    let db ← casUnit db lease.unitId (ownsUnit lease [.running])
      (UnitRow.release derived.unitState nextAttemptAt (some (.attempt errorClass)) 0
        row.revision.manualRetryGeneration now) (UnitRow.release_id _ _ _ 0 _ now)
    let db ← advanceRevisionClock db lease.revisionId now
    let (_, db) ← settle db lease.workloadId now false unitStateBatchSize
    return (derived.status, db)

def abandonTarget (retryAvailable beforeExecution : Bool) : UnitState :=
  if !retryAvailable then .needsAttention
  else if beforeExecution then .pending
  else .retryWait

def abandonAttempt (db : Store) (lease : Lease) (now : ℕ) : Tx (LeaseMutationStatus × Store) :=
  match selectLeaseRow db lease with
  | none => .ok (.staleFence, db)
  | some row =>
    if row.attempt.any (fun a => a.fence = lease.fence && a.state = .abandoned) then
      .ok (.alreadyApplied, db)
    else withLease db lease .staleFence fun row a => do
      if row.unit.state ≠ .leased ∧ row.unit.state ≠ .running then
        return (.invalidState, db)
      if lease.effectProfile ≠ .pure then
        return (.invalidState, db)
      let beforeExecution : Bool := row.unit.state = .leased
      let regressed := clockRegressed row.usage.clockHighWaterAt now
      let (usageUnknown, db) ← markReleasedUsage db beforeExecution lease.revisionId a
      -- a manual grant may be returned only while the runner has not started
      let grantReturned := lease.manualRetry && beforeExecution
      let retryAvailable := (decide (lease.attemptNumber < lease.retryPolicy.maxAttempts) ||
        grantReturned) && !usageUnknown && !regressed
      let target := abandonTarget retryAvailable beforeExecution
      let nextAttemptAt := if target = .retryWait then some now else none
      let error := if retryAvailable then none else some (UnitError.attempt .cancelled)
      let db ← casAttempt db lease.attemptId (ownsAttempt lease [.leased, .running])
        (Attempt.finish .abandoned (some .cancelled) now) (Attempt.finish_id _ _ now)
      let db ← casUnit db lease.unitId (ownsUnit lease [.leased, .running])
        (UnitRow.release target nextAttemptAt error (if grantReturned then 1 else 0)
          row.revision.manualRetryGeneration now) (UnitRow.release_id _ _ _ _ _ now)
      let db ← advanceRevisionClock db lease.revisionId now
      let (_, db) ← settle db lease.workloadId now false unitStateBatchSize
      return (.applied, db)

end Metnos.Durable
