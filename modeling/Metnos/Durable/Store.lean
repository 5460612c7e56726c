import Metnos.Durable.Models

/-!
# Durable.Store — the tables, transactions, clock, usage and lease look-up

A `BEGIN IMMEDIATE` transaction is a function `Store → Tx (α × Store)`: an exception
(`Except.error`) rolls back, so that the caller keeps the old store.  What `hashlib` computes is
a parameter (`Digests`): nothing below depends on the hash values.
-/

namespace Metnos.Durable

/-- The database. -/
structure Store where
  workloads : Table Workload Key Workload.id
  revisions : Table Revision Key Revision.id
  stages : Table Stage Key Stage.id
  sources : Table Source Key Source.id
  units : Table UnitRow Key UnitRow.id
  attempts : Table Attempt Key Attempt.id
  results : Table ResultRow Key ResultRow.id
  usage : Table RevisionUsage Key RevisionUsage.revisionId
  cursors : Table StageCursor Key StageCursor.stageId
  unitDependencies : List UnitDependency
  /-- `dependencies`: child result, source result, role, ordinal. -/
  resultDependencies : List (Key × Key × String × ℕ)
  commands : List Command
  events : List EventRow
  /-- The revision of every artifact or publication that needs attention. -/
  artifactAttention : List Key

/-- The database before the first draft. -/
def Store.empty : Store :=
  ⟨.empty, .empty, .empty, .empty, .empty, .empty, .empty, .empty, .empty, [], [], [], [], []⟩

/-- The exceptions of `storage.py` that roll a transaction back. -/
inductive StoreError
  | durableStore | workloadNotFound | versionConflict | idempotencyConflict | invalidTransition
  | reservedCompletion | resultContract | modelUsageContract | retryDecisionConflict
  | budgetExceeded | integrity | valueError
deriving DecidableEq

abbrev Tx (α : Type) := Except StoreError α

/-- The value of an option, or an exception. -/
def orRaise {α : Type} (e : StoreError) : Option α → Tx α
  | some a => .ok a
  | none => .error e

def require (e : StoreError) (b : Bool) : Tx Unit := if b then .ok () else .error e

/-- The texts that tell the units of one stage apart. -/
inductive ShardKey
  | reduction (level ordinal : ℕ)
  | reductionUnavailable (level : ℕ)
  | reductionInvalidInput (level : ℕ)
  | reductionReason (level : ℕ) (reason : UnitError)
  | unavailableSingleton
  | unavailableSource (sourceId : ℕ)
  | unavailableUnit (unitKey : ℕ)
  | result (unitKey : ℕ)
  | entry (field : String) (digest : ℕ)
deriving DecidableEq

/-- The semantic identity of a unit: what `digest_json("durable-unit-key", ..)` hashes. -/
structure UnitSemantic where
  stageKey : String
  stageInvalidationDigest : ℕ
  sourceDigest : Option ℕ
  sourceId : Option ℕ
  /-- Role, unit key and digest of every dependency; `none` for an initial unit. -/
  dependencies : Option (List (String × ℕ × ℕ))
  shardKey : Option ShardKey
deriving DecidableEq

/-- Hash values computed by `hashlib`. -/
structure Digests where
  unitKey : UnitSemantic → ℕ
  /-- The first eight bytes of the SHA-256 of a unit key and an attempt number. -/
  retryJitter : ℕ → ℕ → ℕ
  /-- Whether a stored result is canonical and bound to its digest. -/
  digestBound : String → Payload → ℕ → Bool

/-! ## Row updates -/

def casUnit (db : Store) (k : Key) (p : UnitRow → Bool) (f : UnitRow → UnitRow)
    (hf : ∀ u, (f u).id = u.id) : Tx Store :=
  match db.units.cas k p f hf with
  | some units => .ok { db with units := units }
  | none => .error .durableStore

def casAttempt (db : Store) (k : Key) (p : Attempt → Bool) (f : Attempt → Attempt)
    (hf : ∀ a, (f a).id = a.id) : Tx Store :=
  match db.attempts.cas k p f hf with
  | some attempts => .ok { db with attempts := attempts }
  | none => .error .durableStore

def casWorkload (db : Store) (k : Key) (p : Workload → Bool) (f : Workload → Workload)
    (hf : ∀ w, (f w).id = w.id) : Tx Store :=
  match db.workloads.cas k p f hf with
  | some workloads => .ok { db with workloads := workloads }
  | none => .error .versionConflict

def updateUsage (db : Store) (revision : Key) (f : RevisionUsage → RevisionUsage)
    (hf : ∀ x, (f x).revisionId = x.revisionId) : Tx Store :=
  match db.usage.cas revision (fun _ => true) f hf with
  | some usage => .ok { db with usage := usage }
  | none => .error .durableStore

/-- `UNIQUE (unit_id, number)` and `UNIQUE (unit_id, fence)`. -/
def attemptConflict (a b : Attempt) : Bool :=
  decide (b.unitId = a.unitId) && (decide (b.number = a.number) || decide (b.fence = a.fence))

def insertAttempt (db : Store) (a : Attempt) : Tx Store := do
  require .integrity (!db.attempts.rows.any (attemptConflict a))
  let attempts ← orRaise .integrity (db.attempts.insert? a)
  return { db with attempts := attempts }

/-- `UNIQUE (revision_id, stage_id, unit_key)` and the one root of a stage
(`units_reduction_root_idx`). -/
def unitConflict (u v : UnitRow) : Bool :=
  decide (v.revisionId = u.revisionId) && decide (v.stageId = u.stageId) &&
  (decide (v.unitKey = u.unitKey) || (u.reductionRoot && v.reductionRoot))

def insertUnit (db : Store) (u : UnitRow) : Tx Store := do
  require .integrity (!db.units.rows.any (unitConflict u))
  let units ← orRaise .integrity (db.units.insert? u)
  return { db with units := units }

/-- `UNIQUE (unit_id)` and the foreign key into `attempts`. -/
def insertResult (db : Store) (r : ResultRow) : Tx Store := do
  require .integrity (!db.results.rows.any (fun x => x.unitId = r.unitId))
  require .integrity (db.attempts.rows.any (fun a => decide (a.id = r.attemptId) &&
    decide (a.unitId = r.unitId) && decide (a.fence = r.fence)))
  let results ← orRaise .integrity (db.results.insert? r)
  return { db with results := results }

def selectWorkload (db : Store) (id : Key) : Tx Workload :=
  orRaise .workloadNotFound (db.workloads.find? id)

/-- `append_event_in_transaction`: the next event of a workload, under its own sequence. -/
def appendEvent (db : Store) (workloadId : Key) (type : EventType) (payload : EventPayload) :
    Tx Store := do
  let w ← selectWorkload db workloadId
  let workloads ← orRaise .durableStore (db.workloads.cas workloadId
    (fun x => x.nextEventId = w.nextEventId)
    (fun x => { x with nextEventId := x.nextEventId + 1 }) (fun _ => rfl))
  require .integrity (!db.events.any (fun e =>
    decide (e.workloadId = workloadId) && decide (e.eventId = w.nextEventId)))
  return { db with
    workloads := workloads
    events := db.events ++ [⟨workloadId, w.nextEventId, type, payload⟩] }

/-! ## Clock and usage -/

def seconds (n : ℕ) : ℕ := n * 1000000

/-- `_CLOCK_REGRESSION_TOLERANCE`. -/
def clockRegressionTolerance : ℕ := seconds 5

def clockRegressed (highWater : Option ℕ) (now : ℕ) : Bool :=
  match highWater with
  | none => false
  | some h => decide (now + clockRegressionTolerance < h)

def advanceClock (highWater : Option ℕ) (now : ℕ) : Option ℕ :=
  match highWater with
  | none => some now
  | some h => some (if h < now then now else h)

def advanceRevisionClock (db : Store) (revision : Key) (now : ℕ) : Tx Store :=
  updateUsage db revision
    (fun x => { x with clockHighWaterAt := advanceClock x.clockHighWaterAt now }) (fun _ => rfl)

/-- `_SQLITE_INTEGER_MAX`. -/
def sqliteIntegerMax : ℕ := 9223372036854775807

/-- The increments of one `_add_revision_usage_in_transaction` call. -/
structure UsageIncrement where
  inputBytes : ℕ := 0
  outputBytes : ℕ := 0
  inputTokens : ℕ := 0
  outputTokens : ℕ := 0
  costMicros : ℕ := 0
  artifacts : ℕ := 0
  usageUnknown : Bool := false

def addRevisionUsage (db : Store) (revision : Key) (inc : UsageIncrement) : Tx Store := do
  let row ← orRaise .durableStore (db.usage.find? revision)
  require .durableStore (
    decide (row.inputBytes + inc.inputBytes ≤ sqliteIntegerMax) &&
    decide (row.outputBytes + inc.outputBytes ≤ sqliteIntegerMax) &&
    decide (row.inputTokens + inc.inputTokens ≤ sqliteIntegerMax) &&
    decide (row.outputTokens + inc.outputTokens ≤ sqliteIntegerMax) &&
    decide (row.costMicros + inc.costMicros ≤ sqliteIntegerMax) &&
    decide (row.artifactCount + inc.artifacts ≤ sqliteIntegerMax))
  let db ← updateUsage db revision (fun x => { x with
    inputBytes := x.inputBytes + inc.inputBytes
    outputBytes := x.outputBytes + inc.outputBytes
    inputTokens := x.inputTokens + inc.inputTokens
    outputTokens := x.outputTokens + inc.outputTokens
    costMicros := x.costMicros + inc.costMicros
    artifactCount := x.artifactCount + inc.artifacts
    usageUnknown := x.usageUnknown || inc.usageUnknown }) (fun _ => rfl)
  if !inc.usageUnknown then
    return db
  let revisions := db.revisions.updateWhere (fun r => r.id = revision)
    (fun r => { r with usageComplete := false }) (fun _ => rfl)
  return { db with revisions := revisions }

/-! ## Leases -/

/-- What `claim_next` hands to a worker. -/
structure Lease where
  workloadId : Key
  revisionId : Key
  stageId : Key
  stageKey : String
  unitId : Key
  unitKey : ℕ
  attemptId : Key
  attemptNumber : ℕ
  fence : ℕ
  workerId : ℕ
  leaseExpiresAt : ℕ
  runnerKind : RunnerKind
  runnerName : String
  effectProfile : DurableEffect
  outputSchemaVersion : String
  resourceClaims : Resources
  retryPolicy : RetryPolicy
  timeoutS : ℕ
  manualRetry : Bool

/-- The joined row of `_select_lease_row`. -/
structure LeaseRow where
  unit : UnitRow
  revision : Revision
  workload : Workload
  usage : RevisionUsage
  stage : Stage
  attempt : Option Attempt

def selectLeaseRow (db : Store) (lease : Lease) : Option LeaseRow := do
  let unit ← db.units.find? lease.unitId
  let revision ← db.revisions.find? unit.revisionId
  let workload ← db.workloads.find? revision.workloadId
  let usage ← db.usage.find? revision.id
  let stage ← (db.stages.find? unit.stageId).filter (fun s => s.revisionId = unit.revisionId)
  let attempt := (db.attempts.find? lease.attemptId).filter (fun a => a.unitId = unit.id)
  some ⟨unit, revision, workload, usage, stage, attempt⟩

def leaseMatches (row : LeaseRow) (a : Attempt) (lease : Lease) : Bool :=
  decide (row.workload.id = lease.workloadId) &&
  decide (row.revision.id = lease.revisionId) &&
  decide (row.stage.id = lease.stageId) &&
  decide (row.stage.stageKey = lease.stageKey) &&
  decide (row.unit.id = lease.unitId) &&
  decide (row.unit.unitKey = lease.unitKey) &&
  decide (row.unit.activeAttemptId = some lease.attemptId) &&
  decide (a.number = lease.attemptNumber) &&
  decide (row.unit.fence = lease.fence) &&
  decide (a.fence = lease.fence) &&
  decide (row.unit.leaseWorkerId = some lease.workerId) &&
  decide (a.workerId = lease.workerId) &&
  decide (row.stage.runnerKind = lease.runnerKind) &&
  decide (row.stage.runnerName = lease.runnerName) &&
  decide (row.stage.effectProfile = lease.effectProfile) &&
  decide (row.stage.outputSchema = lease.outputSchemaVersion) &&
  decide (row.stage.resources = lease.resourceClaims) &&
  decide (row.stage.retry = lease.retryPolicy) &&
  decide (row.stage.timeoutS = lease.timeoutS) &&
  decide (a.metrics.manualRetry = lease.manualRetry)

/-- Run `body` on the row of a matching lease; any other lease gets `stale` and the same store. -/
def withLease {β : Type} (db : Store) (lease : Lease) (stale : β)
    (body : LeaseRow → Attempt → Tx (β × Store)) : Tx (β × Store) :=
  match selectLeaseRow db lease with
  | none => .ok (stale, db)
  | some row =>
    match row.attempt with
    | none => .ok (stale, db)
    | some a => if leaseMatches row a lease then body row a else .ok (stale, db)

/-- The part of `WHERE` that every attempt update repeats: the leased attempt, still open. -/
def ownsAttempt (lease : Lease) (states : List AttemptState) (a : Attempt) : Bool :=
  decide (a.unitId = lease.unitId) && decide (a.fence = lease.fence) &&
  decide (a.workerId = lease.workerId) && states.contains a.state && a.endedAt.isNone

/-- The part of `WHERE` that every unit update repeats: the unit under this lease. -/
def ownsUnit (lease : Lease) (states : List UnitState) (u : UnitRow) : Bool :=
  decide (u.activeAttemptId = some lease.attemptId) && decide (u.fence = lease.fence) &&
  decide (u.leaseWorkerId = some lease.workerId) && states.contains u.state

/-- `parse_instant(row["lease_expires_at"])`. -/
def leaseExpiry (u : UnitRow) : Tx ℕ := orRaise .valueError u.leaseExpiresAt

end Metnos.Durable
