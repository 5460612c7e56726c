import Metnos.Durable.Store

/-!
# Durable.Settle — workload states: budgets, settlement, owner commands

`settle` is `_settle_workload_in_transaction`, which every attempt outcome runs at its end;
`control` and `recordAttentionResolution` are the owner's commands.  An event keeps its type, states
and version; the evidence in events, notifications and terminal reasons is not kept: no operation
here reads it back.
-/

namespace Metnos.Durable

/-! ## Budgets -/

inductive BudgetViolation
  | accountingIncomplete | limitExceeded
deriving DecidableEq

def budgetViolation (db : Store) (workloadId revisionId : Key) (now : ℕ) :
    Option BudgetViolation :=
  match db.revisions.find? revisionId, db.usage.find? revisionId with
  | some revision, some usage =>
    if revision.workloadId ≠ workloadId ∨ usage.usageUnknown then some .accountingIncomplete
    else if clockRegressed usage.clockHighWaterAt now then some .accountingIncomplete
    else if revision.budgets.maxBytesRead < usage.inputBytes ∨
        revision.budgets.maxBytesWritten < usage.outputBytes ∨
        revision.budgets.maxTokens < usage.inputTokens + usage.outputTokens ∨
        revision.budgets.maxCostMicros < usage.costMicros ∨
        revision.budgets.maxArtifacts < usage.artifactCount then some .limitExceeded
    else match usage.startedAt with
      | none => none
      | some started =>
        if seconds revision.budgets.maxWallTimeS ≤ now - started then some .limitExceeded
        else none
  | _, _ => some .accountingIncomplete

/-! ## Workload state changes -/

def updateState (db : Store) (id : Key) (source target : WorkloadState)
    (expectedVersion now : ℕ) : Tx Store := do
  let live := target = .queued || target = .running
  let db ← casWorkload db id
    (fun w => w.state = source && w.version = expectedVersion)
    (fun w => { w with
      state := target
      version := w.version + 1
      updatedAt := now
      lastSelectedSeq := if live then w.lastSelectedSeq else none }) (fun _ => rfl)
  if !live then
    return db
  let w ← selectWorkload db id
  let revision ← orRaise .durableStore w.activeRevisionId
  updateUsage db revision (fun x => { x with
    startedAt := x.startedAt.or (some now)
    clockHighWaterAt := advanceClock x.clockHighWaterAt now }) (fun _ => rfl)

def automaticWorkloadTransition (db : Store) (w : Workload) (target : WorkloadState) (now : ℕ) :
    Tx Store := do
  require .invalidTransition (canTransitionWorkload w.state target)
  let db ← updateState db w.id w.state target w.version now
  let type ← orRaise .valueError (eventByTarget target)
  appendEvent db w.id type {
    previousState := some w.state, newState := some target, newVersion := some (w.version + 1) }

/-- `transition_workload`: completion is reserved, every other edge of the graph is allowed. -/
def transitionWorkload (db : Store) (id : Key) (target : WorkloadState)
    (expectedVersion now : ℕ) : Tx Store := do
  require .reservedCompletion (!(target = .completed || target = .completedWithErrors))
  let type ← orRaise .invalidTransition (eventByTarget target)
  let w ← selectWorkload db id
  require .versionConflict (w.version = expectedVersion)
  require .invalidTransition (canTransitionWorkload w.state target)
  let db ← updateState db id w.state target expectedVersion now
  appendEvent db id type {
    previousState := some w.state, newState := some target, newVersion := some (w.version + 1) }

/-! ## Waiting and exhausted units -/

def waiting (revision : Key) (u : UnitRow) : Bool :=
  decide (u.revisionId = revision) &&
  (u.state = .pending || u.state = .retryWait || u.state = .needsAttention) &&
  u.activeAttemptId.isNone

/-- `ORDER BY updated_at, id`. -/
def oldestFirst (a b : UnitRow) : Bool :=
  decide (a.updatedAt < b.updatedAt) ||
  (decide (a.updatedAt = b.updatedAt) && decide (a.id.id ≤ b.id.id))

def UnitRow.cancel (now : ℕ) (u : UnitRow) : UnitRow :=
  { u with
    state := .cancelled
    nextAttemptAt := none
    errorClass := u.errorClass.or (some (.attempt .cancelled))
    manualRetryTokens := 0
    updatedAt := now }

theorem UnitRow.cancel_id (now : ℕ) (u : UnitRow) : (u.cancel now).id = u.id := rfl

/-- Cancel one bounded batch; returns how many units changed. -/
def cancelWaitingUnits (db : Store) (revision : Key) (now limit : ℕ) : ℕ × Store :=
  let ids := (db.units.select (waiting revision) oldestFirst limit).map UnitRow.id
  (ids.length,
    { db with units := db.units.updateWhere (fun u => waiting revision u && ids.contains u.id)
                (UnitRow.cancel now) (UnitRow.cancel_id now) })

def waitingUnitExists (db : Store) (revision : Key) : Bool := db.units.rows.any (waiting revision)

/-- A pending unit with neither automatic attempts nor a manual token left. -/
def exhausted (db : Store) (revision : Key) (u : UnitRow) : Bool :=
  decide (u.revisionId = revision) && u.state = .pending && u.manualRetryTokens = 0 &&
  match db.stages.find? u.stageId with
  | some stage => decide (stage.revisionId = revision) &&
      decide (stage.retry.maxAttempts ≤ u.attemptCount)
  | none => false

def UnitRow.exhaust (generation now : ℕ) (u : UnitRow) : UnitRow :=
  { u with
    state := .needsAttention
    nextAttemptAt := none
    errorClass := u.errorClass.or (some (.attempt .budgetExhausted))
    manualRetryGeneration := generation
    updatedAt := now }

theorem UnitRow.exhaust_id (generation now : ℕ) (u : UnitRow) :
    (u.exhaust generation now).id = u.id := rfl

/-- Materialize one bounded batch of exhausted automatic retries. -/
def repairExhaustedUnits (db : Store) (revision : Key) (now limit : ℕ) : ℕ × Store :=
  match db.revisions.find? revision with
  | none => (0, db)
  | some r =>
    let ids := (db.units.select (exhausted db revision) oldestFirst limit).map UnitRow.id
    (ids.length,
      { db with units := db.units.updateWhere
                  (fun u => exhausted db revision u && ids.contains u.id)
                  (UnitRow.exhaust r.manualRetryGeneration now) (UnitRow.exhaust_id _ now) })

def exhaustedPendingExists (db : Store) (revision : Key) : Bool :=
  db.units.rows.any (exhausted db revision)

def activeUnitCount (db : Store) (revision : Key) : ℕ :=
  db.units.count (fun u => decide (u.revisionId = revision) &&
    (u.state = .leased || u.state = .running))

def artifactAttentionCount (db : Store) (revision : Key) : ℕ :=
  db.artifactAttention.countP (fun k => k = revision)

/-- A failed unit whose error the revision does not tolerate. -/
def untolerated (r : Revision) (u : UnitRow) : Bool :=
  decide (u.revisionId = r.id) && u.state = .failedPermanent &&
  (!r.failureDeclared ||
    match u.errorClass with
    | none => true
    | some e => !r.toleratedErrorClasses.contains e)

/-- A unit whose attention the owner has not answered yet. -/
def openAttention (r : Revision) (u : UnitRow) : Bool :=
  decide (u.revisionId = r.id) && u.state = .needsAttention &&
  decide (r.manualRetryGeneration ≤ u.manualRetryGeneration)

/-! ## Settlement -/

/-- `_UNIT_STATE_BATCH_SIZE`. -/
def unitStateBatchSize : ℕ := 256

def settleCancelRequested (db : Store) (w : Workload) (revision : Key) (now limit : ℕ) :
    Tx (ℕ × Store) := do
  let (cancelled, db) := cancelWaitingUnits db revision now limit
  if activeUnitCount db revision ≠ 0 || waitingUnitExists db revision then
    return (cancelled, db)
  let db ← automaticWorkloadTransition db w .cancelled now
  return (cancelled + 1, db)

/-- The part of settlement that reads unit failures, after attention has been ruled out. -/
def settleFailures (db : Store) (w : Workload) (r : Revision) (exhausted now limit : ℕ) :
    Tx (ℕ × Store) := do
  if db.units.rows.any (untolerated r) then
    let (cancelled, db) := cancelWaitingUnits db r.id now limit
    if activeUnitCount db r.id ≠ 0 || waitingUnitExists db r.id then
      return (exhausted + cancelled, db)
    let db ← automaticWorkloadTransition db w .failed now
    return (exhausted + cancelled + 1, db)
  if w.state = .pauseRequested && activeUnitCount db r.id = 0 then
    let db ← automaticWorkloadTransition db w .paused now
    return (exhausted + 1, db)
  return (exhausted, db)

def settleAttention (db : Store) (w : Workload) (revision : Key) (exhausted now limit : ℕ) :
    Tx (ℕ × Store) := do
  if w.state = .needsAttention then
    return (exhausted, db)
  if db.cursors.rows.any (fun c => decide (c.revisionId = revision) && c.attentionCode.isSome) then
    let db ← automaticWorkloadTransition db w .needsAttention now
    return (exhausted + 1, db)
  let r ← orRaise .durableStore (db.revisions.find? revision)
  if db.units.rows.any (openAttention r) || artifactAttentionCount db revision ≠ 0 then
    let db ← automaticWorkloadTransition db w .needsAttention now
    return (exhausted + 1, db)
  settleFailures db w r exhausted now limit

/-- States in which a budget violation stops the workload. -/
def budgeted (s : WorkloadState) : Bool :=
  s = .admitted || s = .queued || s = .running || s = .pauseRequested || s = .paused

/-- `_settle_workload_in_transaction`; returns how much changed. -/
def settle (db : Store) (workloadId : Key) (now : ℕ) (repairExhausted : Bool) (limit : ℕ) :
    Tx (ℕ × Store) := do
  let w ← selectWorkload db workloadId
  match w.activeRevisionId with
  | none => return (0, db)
  | some revision =>
    if w.state = .cancelled || w.state = .failed then
      return cancelWaitingUnits db revision now limit
    if w.state = .completed || w.state = .completedWithErrors then
      return (0, db)
    if w.state = .cancelRequested then
      return ← settleCancelRequested db w revision now limit
    if budgeted w.state && (budgetViolation db workloadId revision now).isSome then
      let db ← automaticWorkloadTransition db w .needsAttention now
      return (1, db)
    if repairExhausted then
      let (exhausted, db) := repairExhaustedUnits db revision now limit
      if exhaustedPendingExists db revision then
        return (exhausted, db)
      return ← settleAttention db w revision exhausted now limit
    settleAttention db w revision 0 now limit

/-- `settle_workload`, and one workload of `settle_workloads` with its remaining batch. -/
def settleWorkload (db : Store) (workloadId : Key) (now limit : ℕ) : Tx Store := do
  let (_, db) ← settle db workloadId now true limit
  return db

/-! ## Owner commands -/

/-- `some true` replays an accepted command; a used key with another payload raises. -/
def existingCommand (db : Store) (workloadId : Key) (key : ℕ) (payload : CommandPayload) :
    Tx Bool :=
  match db.commands.find? (fun c => decide (c.workloadId = workloadId) &&
      decide (c.idempotencyKey = key)) with
  | none => .ok false
  | some c => if c.payload = payload then .ok true else .error .idempotencyConflict

def recordCommand (db : Store) (workloadId : Key) (key : ℕ) (payload : CommandPayload) : Store :=
  { db with commands := ⟨workloadId, key, payload⟩ :: db.commands }

/-- The settlement `_control` runs when the command left the workload draining or cancelled. -/
def settleAfterControl (db : Store) (workloadId : Key) (now : ℕ) : Tx Store := do
  let w ← selectWorkload db workloadId
  match w.activeRevisionId with
  | none => return db
  | some revision =>
    if w.state = .pauseRequested || w.state = .cancelRequested then
      let (_, db) ← settle db workloadId now false unitStateBatchSize
      return db
    if w.state = .cancelled then
      return (cancelWaitingUnits db revision now unitStateBatchSize).2
    return db

/-- `request_pause`, `request_resume` and `request_cancel`. -/
def control (db : Store) (workloadId : Key) (command : ControlCommand)
    (idempotencyKey expectedVersion now : ℕ) : Tx Store := do
  let payload := CommandPayload.control command expectedVersion
  if ← existingCommand db workloadId idempotencyKey payload then
    return db
  let w ← selectWorkload db workloadId
  require .versionConflict (w.version = expectedVersion)
  let target ← orRaise .invalidTransition (controlTransition command w.state)
  let db ← match target with
    | none => pure db
    | some target => do
      require .invalidTransition (canTransitionWorkload w.state target)
      let db ← updateState db workloadId w.state target expectedVersion now
      let type ← orRaise .valueError (eventByTarget target)
      appendEvent db workloadId type {
        previousState := some w.state, newState := some target, newVersion := some (w.version + 1) }
  let db ← settleAfterControl db workloadId now
  return recordCommand db workloadId idempotencyKey payload

/-- Attention that only a new revision or a cancellation can answer. -/
def blockedDependencyAttention (revision : Key) (u : UnitRow) : Bool :=
  decide (u.revisionId = revision) && u.state = .needsAttention &&
  (u.errorClass = some (.attempt .budgetExhausted) ||
    u.errorClass = some .dependencyFanInExceeded ||
    u.errorClass = some .dependencyResultMissing ||
    u.errorClass = some .dependencyResultUnavailable)

/-- The retry decision's checks and its grant: one more manual retry generation. -/
def grantManualRetry (db : Store) (workloadId revision : Key) (now : ℕ) : Tx Store := do
  require .invalidTransition (artifactAttentionCount db revision = 0)
  require .invalidTransition (!db.units.rows.any (blockedDependencyAttention revision))
  require .invalidTransition
    (!db.cursors.rows.any (fun c => decide (c.revisionId = revision) && c.attentionCode.isSome))
  require .invalidTransition (budgetViolation db workloadId revision now).isNone
  let r ← orRaise .durableStore (db.revisions.find? revision)
  require .durableStore (r.workloadId = workloadId)
  require .invalidTransition (decide (r.manualRetryGeneration < 1000000))
  let revisions := db.revisions.updateWhere (fun x => x.id = revision)
    (fun x => { x with manualRetryGeneration := x.manualRetryGeneration + 1 }) (fun _ => rfl)
  return { db with revisions := revisions }

def recordAttentionResolution (db : Store) (workloadId : Key) (decision : AttentionDecision)
    (note : Option ℕ) (idempotencyKey expectedVersion now : ℕ) : Tx Store := do
  let payload := CommandPayload.resolveAttention decision expectedVersion note
  if ← existingCommand db workloadId idempotencyKey payload then
    return db
  let w ← selectWorkload db workloadId
  require .versionConflict (w.version = expectedVersion)
  require .invalidTransition (w.state = .needsAttention)
  let revision ← orRaise .invalidTransition w.activeRevisionId
  let active := activeUnitCount db revision
  match decision with
  | .retry =>
    let db ← grantManualRetry db workloadId revision now
    let target := if active ≠ 0 then .running else .queued
    let db ← updateState db workloadId w.state target expectedVersion now
    let db ← appendEvent db workloadId .attentionResolved {
      newState := some target, newVersion := some (w.version + 1), decision := some decision }
    return recordCommand db workloadId idempotencyKey payload
  | .cancel =>
    let db ← updateState db workloadId w.state .cancelRequested expectedVersion now
    let db ← appendEvent db workloadId .attentionResolved {
      newState := some .cancelRequested, newVersion := some (w.version + 1)
      decision := some decision }
    let (_, db) ← settle db workloadId now false unitStateBatchSize
    return recordCommand db workloadId idempotencyKey payload

end Metnos.Durable
