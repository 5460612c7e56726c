import Metnos.Lib.Table

/-!
# Durable.Models — state vocabularies and rows of the durable-workload store

The closed vocabularies of `models.py` and `coordinator.py`, and one structure for every table
of `migrations.py` that the store operations read or write.  A primary key
`(owner_user_id, id)` is a `Key`; an instant is a number of microseconds; the canonical
digests (`sha256:` and 64 hex digits) are numbers, whose order is the order of the texts.
-/

namespace Metnos.Durable

/-- A primary key: the owner and the identifier of a row. -/
structure Key where
  owner : ℕ
  id : ℕ
deriving DecidableEq

/-! ## Vocabularies -/

inductive WorkloadState
  | draft | admitted | queued | running | pauseRequested | paused | cancelRequested | cancelled
  | needsAttention | failed | completedWithErrors | completed
deriving DecidableEq

inductive UnitState
  | pending | leased | running | retryWait | committed | failedPermanent | needsAttention
  | cancelled | skipped
deriving DecidableEq

inductive AttemptState
  | leased | running | succeeded | failed | timedOut | lateRejected | abandoned
deriving DecidableEq

inductive StageType
  | inventory | map | reduce | validate | publish
deriving DecidableEq

inductive RunnerKind
  | internal | executor | workload
deriving DecidableEq

inductive DurableEffect
  | pure | idempotent | reconcilable | manualOnly
deriving DecidableEq

inductive Cardinality
  | singleton | perSource | perDependency
deriving DecidableEq

inductive Priority
  | low | normal | high
deriving DecidableEq

inductive SourceState
  | ready | unstable | missing | skipped
deriving DecidableEq

inductive ArtifactState
  | prepared | committed | published | needsAttention | expired
deriving DecidableEq

inductive EventType
  | draftCreated | revisionAdmitted | queued | running | pauseRequested | paused | resumed
  | cancelRequested | cancelled | needsAttention | attentionResolved | failed
  | completedWithErrors | completed
deriving DecidableEq

/-- The frozen error vocabulary of an attempt. -/
inductive ErrorClass
  | invalidPlan | inventoryUnstable | sourceMissing | executorTransient | executorPermanent
  | executorUnknown | contractViolation | budgetExhausted | leaseLost | publicationAmbiguous
  | capabilityUnavailable | cancelled
deriving DecidableEq

/-- `units.error_class`: the class of the last attempt, or the reason of a unit the engine set
aside itself. -/
inductive UnitError
  | attempt (c : ErrorClass)
  | dependencyResultUnavailable | dependencyResultMissing | dependencyFanInExceeded
  | dependencyInputTooLarge | reductionNotConverging
  | resultDigestConflict | reusableResultInvalid | budgetLimitExceeded
deriving DecidableEq

/-- `WORKLOAD_TRANSITIONS`. -/
def workloadTransitions : WorkloadState → List WorkloadState
  | .draft => [.admitted, .cancelled, .failed]
  | .admitted => [.queued, .cancelRequested, .cancelled, .needsAttention, .failed]
  | .queued => [.running, .paused, .cancelRequested, .cancelled, .needsAttention, .failed]
  | .running => [.pauseRequested, .cancelRequested, .needsAttention, .failed,
      .completedWithErrors, .completed]
  | .pauseRequested => [.paused, .cancelRequested, .needsAttention, .failed]
  | .paused => [.queued, .cancelRequested, .cancelled, .needsAttention, .failed]
  | .cancelRequested => [.cancelled, .needsAttention, .failed]
  | .needsAttention => [.queued, .running, .cancelRequested, .cancelled, .failed]
  | .cancelled | .failed | .completedWithErrors | .completed => []

def canTransitionWorkload (source destination : WorkloadState) : Bool :=
  (workloadTransitions source).contains destination

inductive ControlCommand
  | pause | resume | cancel
deriving DecidableEq

/-- `_EVENT_BY_TARGET`: the event of every state that is not reserved. -/
def eventByTarget : WorkloadState → Option EventType
  | .admitted => some .revisionAdmitted
  | .queued => some .queued
  | .running => some .running
  | .pauseRequested => some .pauseRequested
  | .paused => some .paused
  | .cancelRequested => some .cancelRequested
  | .cancelled => some .cancelled
  | .needsAttention => some .needsAttention
  | .failed => some .failed
  | .draft | .completedWithErrors | .completed => none

/-- `CONTROL_STATE_MATRIX`: `none` is an illegal command, `some none` an idempotent no-op. -/
def controlTransition : ControlCommand → WorkloadState → Option (Option WorkloadState)
  | .pause, .queued => some (some .paused)
  | .pause, .running => some (some .pauseRequested)
  | .pause, .pauseRequested => some none
  | .pause, .paused => some none
  | .resume, .queued => some none
  | .resume, .paused => some (some .queued)
  | .cancel, .draft => some (some .cancelled)
  | .cancel, .admitted => some (some .cancelRequested)
  | .cancel, .queued => some (some .cancelRequested)
  | .cancel, .running => some (some .cancelRequested)
  | .cancel, .pauseRequested => some (some .cancelRequested)
  | .cancel, .paused => some (some .cancelRequested)
  | .cancel, .cancelRequested => some none
  | .cancel, .cancelled => some none
  | .cancel, .needsAttention => some (some .cancelRequested)
  | _, _ => none

/-! ## Frozen contracts -/

/-- Resource amounts, in the canonical order of `RESOURCE_KEYS`. -/
structure Resources where
  cpu : ℕ
  device : ℕ
  llm : ℕ
  localIo : ℕ
  networkIo : ℕ
  vlm : ℕ
deriving DecidableEq

/-- Every amount of `r` is within `limits`. -/
def Resources.within (r limits : Resources) : Bool :=
  decide (r.cpu ≤ limits.cpu) && decide (r.device ≤ limits.device) &&
  decide (r.llm ≤ limits.llm) && decide (r.localIo ≤ limits.localIo) &&
  decide (r.networkIo ≤ limits.networkIo) && decide (r.vlm ≤ limits.vlm)

structure RetryPolicy where
  maxAttempts : ℕ
  baseDelayMs : ℕ
  maxDelayMs : ℕ
  retryableErrorClasses : List ErrorClass
deriving DecidableEq

/-- `plan.budgets`. -/
structure Budgets where
  maxBytesRead : ℕ
  maxBytesWritten : ℕ
  maxTokens : ℕ
  maxCostMicros : ℕ
  maxArtifacts : ℕ
  maxWallTimeS : ℕ
  maxConcurrency : ℕ
deriving DecidableEq

/-- The hierarchical-reduction columns of a stage. -/
structure Reduction where
  fanIn : ℕ
  input : String
  maxInputBytes : ℕ
deriving DecidableEq

/-- One entry of `plan.required_artifacts`. -/
structure ArtifactRequirement where
  name : String
  mimeType : String
  schemaVersion : String
deriving DecidableEq

/-- One observed model call (`metnos.durable-llm-call/1`). -/
structure LlmCall where
  provider : String
  modelDigest : ℕ
  tier : String
  kind : String
  inTokens : Option ℕ
  outTokens : Option ℕ
  latencyMs : Option ℕ
  costMicros : Option ℕ
deriving DecidableEq

/-- `metnos.durable-model-usage/2`. -/
structure ModelUsage where
  records : List LlmCall
  dropped : ℕ
  inputTokens : ℕ
  outputTokens : ℕ
  costMicros : ℕ
  usageMissing : Bool
  costUnknown : Bool
  zeroCallsVerified : Bool
deriving DecidableEq

/-- The contract frozen in a `mode = llm` model snapshot. -/
structure ModelContract where
  provider : String
  modelDigest : ℕ
  tier : String
  kind : String
  maxCalls : ℕ
  maxInputTokens : ℕ
  maxOutputTokens : ℕ
  costPolicyZero : Bool
deriving DecidableEq

/-- `attempts.model_snapshot_json`: only `mode = llm` binds a model. -/
inductive ModelSnapshot
  | unbound (digest : ℕ)
  | llm (contract : ModelContract)
deriving DecidableEq

/-- `attempts.executor_snapshot_json`; `mode = dummy` until the runner facts are recorded. -/
structure ExecutorSnapshot where
  dummy : Bool
  digest : ℕ
deriving DecidableEq

/-! ## Rows -/

structure Workload where
  id : Key
  requestKey : ℕ
  requestDigest : ℕ
  state : WorkloadState
  priority : Priority
  activeRevisionId : Option Key
  version : ℕ
  nextEventId : ℕ
  createdAt : ℕ
  updatedAt : ℕ
  /-- `scheduler_credits.last_selected_seq`, when the workload has a credit row. -/
  lastSelectedSeq : Option ℕ

structure Revision where
  id : Key
  workloadId : Key
  planDigest : ℕ
  inventoryDigest : ℕ
  /-- The catalog and policy snapshots and the completion facts given at admission. -/
  snapshotDigest : ℕ
  budgets : Budgets
  /-- `plan.budgets.max_units`. -/
  maxUnits : ℕ
  expectedSourceCount : ℕ
  requiredArtifacts : List ArtifactRequirement
  /-- `failure_policy = declared`. -/
  failureDeclared : Bool
  toleratedErrorClasses : List UnitError
  capsTruncated : Bool
  partialOutputAccepted : Bool
  usageComplete : Bool
  manualRetryGeneration : ℕ

structure Stage where
  id : Key
  revisionId : Key
  stageKey : String
  position : ℕ
  stageType : StageType
  runnerKind : RunnerKind
  runnerName : String
  effectProfile : DurableEffect
  cardinality : Cardinality
  maxUnits : ℕ
  outputSchema : String
  retry : RetryPolicy
  timeoutS : ℕ
  resources : Resources
  requiredFlag : Bool
  invalidationDigest : ℕ
  reduction : Option Reduction
  /-- `cardinality.entry_identity_field` of the plan. -/
  entryIdentityField : Option String
  /-- `stage_dependencies`, in ordinal order. -/
  dependsOn : List Key
  /-- Whether the admitted catalog freezes a model binding for the stage. -/
  frozenModelContract : Bool
  /-- `model_limits.max_tokens`: the token bound of a complete frozen model contract. -/
  modelMaxTokens : Option ℕ

structure Source where
  id : Key
  revisionId : Key
  sourceId : ℕ
  ordinal : ℕ
  contentDigest : ℕ
  state : SourceState
  accounted : Bool

structure UnitRow where
  id : Key
  revisionId : Key
  stageId : Key
  unitKey : ℕ
  sourceRowId : Option Key
  state : UnitState
  attemptCount : ℕ
  expectedDependencyCount : ℕ
  nextAttemptAt : Option ℕ
  leaseWorkerId : Option ℕ
  activeAttemptId : Option Key
  fence : ℕ
  leaseExpiresAt : Option ℕ
  committedResultId : Option Key
  errorClass : Option UnitError
  manualRetryTokens : ℕ
  manualRetryGeneration : ℕ
  reductionLevel : Option ℕ
  reductionOrdinal : Option ℕ
  reductionRoot : Bool
  createdAt : ℕ
  updatedAt : ℕ

/-- The fields of `attempts.metrics_json` that an operation reads. -/
structure AttemptMetrics where
  executionStarted : Bool
  executionStartedAt : Option ℕ
  manualRetry : Bool
  /-- `input_bytes`, once accounted. -/
  inputBytes : Option ℕ
  llmUsage : Option ModelUsage

structure Attempt where
  id : Key
  unitId : Key
  number : ℕ
  fence : ℕ
  workerId : ℕ
  deviceId : Option ℕ
  invocationId : Option ℕ
  state : AttemptState
  startedAt : ℕ
  endedAt : Option ℕ
  error : Option ErrorClass
  executorSnapshot : ExecutorSnapshot
  modelSnapshot : ModelSnapshot
  metrics : AttemptMetrics

/-- One member of an `entries` array: where it starts, its length, and its text fields (values as
digests), `none` when it is no object. -/
structure EntryItem where
  start : ℕ
  length : ℕ
  fields : Option (List (String × ℕ))

/-- The parts of `results.payload_json` that the store reads: its size and the `entries` array,
with the array's own byte length; `none` when `$.entries` is no array. -/
structure Payload where
  bytes : ℕ
  entries : Option (ℕ × List EntryItem)

structure ResultRow where
  id : Key
  revisionId : Key
  unitId : Key
  attemptId : Key
  fence : ℕ
  digest : ℕ
  schemaVersion : String
  payload : Payload
  committedAt : ℕ

structure RevisionUsage where
  revisionId : Key
  inputBytes : ℕ
  outputBytes : ℕ
  inputTokens : ℕ
  outputTokens : ℕ
  costMicros : ℕ
  artifactCount : ℕ
  usageUnknown : Bool
  startedAt : Option ℕ
  clockHighWaterAt : Option ℕ

/-- One row of `unit_dependencies`. -/
structure UnitDependency where
  unitId : Key
  sourceResultId : Key
  ordinal : ℕ
  role : String
  /-- `entry_offset` and `entry_length` of a sliced dependency. -/
  slice : Option (ℕ × ℕ)

/-- Why a materialization cursor needs attention. -/
inductive AttentionCode
  | duplicateEntryIdentity | stageUnitCapExceeded | dependencyPayloadInvalid
  | entryIdentityInvalid
deriving DecidableEq

/-- `stage_materialization`: the cursor of one stage. -/
structure StageCursor where
  stageId : Key
  revisionId : Key
  completed : Bool
  sourceOrdinal : ℤ
  parentPosition : ℤ
  parentUnitId : Option Key
  entryOffset : ℤ
  legacyReplay : Bool
  unitCount : ℕ
  reductionLevel : ℕ
  reductionOrdinal : ℤ
  reductionWaiting : Bool
  reductionInputCount : ℤ
  attentionCode : Option AttentionCode

/-- The columns of `artifacts` that the completion checks read. -/
structure ArtifactRow where
  logicalName : String
  state : ArtifactState
  digestVerified : Bool
  schemaValid : Bool
  postconditionsValid : Bool
  schemaVersion : String
  mimeType : String
deriving DecidableEq

inductive AttentionDecision
  | retry | cancel
deriving DecidableEq

/-- What an event payload says about state and version; the remaining evidence is not kept. -/
structure EventPayload where
  previousState : Option WorkloadState := none
  newState : Option WorkloadState := none
  targetState : Option WorkloadState := none
  newVersion : Option ℕ := none
  decision : Option AttentionDecision := none
deriving DecidableEq

/-- One row of `events`. -/
structure EventRow where
  workloadId : Key
  eventId : ℕ
  type : EventType
  payload : EventPayload
deriving DecidableEq

/-- The canonical payload of an owner command. -/
inductive CommandPayload
  | control (command : ControlCommand) (expectedVersion : ℕ)
  | resolveAttention (decision : AttentionDecision) (expectedVersion : ℕ) (note : Option ℕ)
deriving DecidableEq

/-- One accepted command, for idempotent replay. -/
structure Command where
  workloadId : Key
  idempotencyKey : ℕ
  payload : CommandPayload
deriving DecidableEq

/-- `UNIT_TRANSITIONS`. -/
def unitTransitions : UnitState → List UnitState
  | .pending => [.leased, .cancelled, .skipped]
  | .leased => [.running, .pending, .needsAttention, .cancelled]
  | .running => [.committed, .retryWait, .failedPermanent, .needsAttention, .cancelled]
  | .retryWait => [.pending, .cancelled]
  | .needsAttention => [.pending, .cancelled]
  | .committed | .failedPermanent | .cancelled | .skipped => []

def canTransitionUnit (source destination : UnitState) : Bool :=
  (unitTransitions source).contains destination

/-- `TERMINAL_WORKLOAD_STATES`. -/
def WorkloadState.terminal : WorkloadState → Bool
  | .cancelled | .failed | .completedWithErrors | .completed => true
  | _ => false

/-- `TERMINAL_UNIT_STATES`. -/
def UnitState.terminal : UnitState → Bool
  | .committed | .failedPermanent | .cancelled | .skipped => true
  | _ => false

end Metnos.Durable
