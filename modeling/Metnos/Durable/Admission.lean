import Mathlib
import Metnos.Durable.Store

/-!
# Durable.Admission — drafts, plans and the first rows of a revision

`create_draft`, the plan checks of `schema.py` that the store relies on, and `admit_revision`,
which inserts the stages, the sources, the units of the stages that wait for nothing, and one
materialization cursor for every stage.  Identifiers drawn by `_new_id` come from `FreshIds`; an
identifier that is already used makes the insertion raise.
-/

namespace Metnos.Durable

/-- Identifiers drawn in one transaction: the n-th row of a table gets the n-th identifier. -/
structure FreshIds where
  stage : ℕ → ℕ
  source : ℕ → ℕ
  unit : ℕ → ℕ

/-! ## Plans -/

/-- One entry of `plan.stages`. -/
structure PlanStage where
  key : String
  stageType : StageType
  dependsOn : List String
  runnerKind : RunnerKind
  runnerName : String
  effectProfile : DurableEffect
  cardinality : Cardinality
  maxUnits : ℕ
  entryIdentityField : Option String
  reduction : Option Reduction
  outputSchema : String
  retry : RetryPolicy
  timeoutS : ℕ
  resources : Resources
  requiredFlag : Bool
  invalidationDigest : ℕ
  frozenModelContract : Bool
  modelMaxTokens : Option ℕ

structure Plan where
  stages : List PlanStage
  budgets : Budgets
  maxUnits : ℕ
  maxAttemptsPerUnit : ℕ
  maxSources : ℕ
  failureDeclared : Bool
  toleratedErrorClasses : List UnitError
  requiredArtifacts : List ArtifactRequirement
  digest : ℕ

/-- A hierarchical reduction is a singleton reduce stage over one dependency. -/
def validReduction (s : PlanStage) : Bool :=
  match s.reduction with
  | none => true
  | some r =>
    s.stageType = .reduce && s.cardinality = .singleton && decide (s.dependsOn.length = 1) &&
    decide (2 ≤ r.fanIn ∧ r.fanIn ≤ 1024) &&
    decide (1024 ≤ r.maxInputBytes ∧ r.maxInputBytes ≤ 16777216)

def validRetry (s : PlanStage) : Bool :=
  decide (1 ≤ s.retry.maxAttempts ∧ s.retry.maxAttempts ≤ 32) &&
  decide (s.retry.baseDelayMs ≤ s.retry.maxDelayMs) &&
  decide (s.retry.maxDelayMs ≤ 86400000) &&
  (!(s.effectProfile = .manualOnly) || s.retry.maxAttempts = 1)

/-- The checks of `_validate_stage` on the fields of the model. -/
def validStage (s : PlanStage) : Bool :=
  !s.dependsOn.contains s.key && decide s.dependsOn.Nodup &&
  decide (1 ≤ s.maxUnits ∧ s.maxUnits ≤ 10000000) &&
  (s.entryIdentityField.isNone || s.cardinality = .perDependency) &&
  validReduction s && validRetry s && decide (1 ≤ s.timeoutS ∧ s.timeoutS ≤ 86400) &&
  (!(s.stageType = .inventory) || (s.dependsOn.isEmpty && s.runnerKind = .internal &&
    s.runnerName = "sealed_inventory" && s.cardinality = .singleton)) &&
  (!(s.stageType = .publish && s.runnerKind = .internal) ||
    (s.runnerName = "artifact_store_publish" && s.effectProfile = .idempotent))

/-- One round of `_assert_acyclic`: keep the stages with a dependency among the kept ones. -/
def dependentOn (stages : List PlanStage) (kept : List String) : List String :=
  (stages.filter (fun s => kept.contains s.key && s.dependsOn.any kept.contains)).map
    PlanStage.key

/-- No stage is left after every stage without a remaining dependency was removed. -/
def acyclic (stages : List PlanStage) : Bool :=
  ((dependentOn stages)^[stages.length] (stages.map PlanStage.key)).isEmpty

def validatePlan (p : Plan) : Bool :=
  decide (1 ≤ p.stages.length ∧ p.stages.length ≤ 64) && p.stages.all validStage &&
  decide (p.stages.map PlanStage.key).Nodup &&
  decide (p.stages.countP (fun s => s.stageType = .inventory) = 1) &&
  p.stages.all (fun s => s.dependsOn.all (p.stages.map PlanStage.key).contains) &&
  acyclic p.stages && decide ((p.stages.map PlanStage.maxUnits).sum ≤ p.maxUnits) &&
  p.stages.all (fun s => decide (s.retry.maxAttempts ≤ p.maxAttemptsPerUnit)) &&
  decide (p.maxAttemptsPerUnit ≤ 32) &&
  decide (1 ≤ p.budgets.maxConcurrency ∧ p.budgets.maxConcurrency ≤ 256) &&
  decide (p.failureDeclared = !p.toleratedErrorClasses.isEmpty) &&
  decide (p.requiredArtifacts.map ArtifactRequirement.name).Nodup &&
  decide (p.requiredArtifacts.length ≤ 32 ∧ p.requiredArtifacts.length ≤ p.budgets.maxArtifacts)

/-- One source of the sealed inventory. -/
structure SourceItem where
  sourceId : ℕ
  ordinal : ℕ
  contentDigest : ℕ
  state : SourceState
  accounted : Bool

structure Inventory where
  sources : List SourceItem
  digest : ℕ

/-- A required per-source stage with fewer units than sources. -/
def undersized (sources : ℕ) (s : PlanStage) : Bool :=
  s.requiredFlag && s.cardinality = .perSource && decide (s.maxUnits < sources)

/-! ## Drafts -/

def createDraft (db : Store) (id : Key) (requestKey requestDigest : ℕ) (priority : Priority)
    (now : ℕ) : Tx Store :=
  match db.workloads.rows.find? (fun w => decide (w.id.owner = id.owner) &&
      decide (w.requestKey = requestKey)) with
  | some w => do
    require .idempotencyConflict (w.requestDigest = requestDigest)
    return db
  | none => do
    let workloads ← orRaise .integrity (db.workloads.insert? {
      id := id
      requestKey := requestKey
      requestDigest := requestDigest
      state := .draft
      priority := priority
      activeRevisionId := none
      version := 1
      nextEventId := 1
      createdAt := now
      updatedAt := now
      lastSelectedSeq := none })
    appendEvent { db with workloads := workloads } id .draftCreated { newVersion := some 1 }

/-! ## Admission -/

/-- The stage identifier given to a stage key of the plan. -/
def stageIdOf (stages : List PlanStage) (ids : FreshIds) (owner : ℕ) (key : String) : Key :=
  ⟨owner, ids.stage (stages.findIdx (fun s => s.key = key))⟩

def makeStage (stages : List PlanStage) (ids : FreshIds) (revision : Key) (position : ℕ)
    (s : PlanStage) : Stage :=
  { id := ⟨revision.owner, ids.stage position⟩
    revisionId := revision
    stageKey := s.key
    position := position
    stageType := s.stageType
    runnerKind := s.runnerKind
    runnerName := s.runnerName
    effectProfile := s.effectProfile
    cardinality := s.cardinality
    maxUnits := s.maxUnits
    outputSchema := s.outputSchema
    retry := s.retry
    timeoutS := s.timeoutS
    resources := s.resources
    requiredFlag := s.requiredFlag
    invalidationDigest := s.invalidationDigest
    reduction := s.reduction
    entryIdentityField := s.entryIdentityField
    dependsOn := s.dependsOn.map (stageIdOf stages ids revision.owner)
    frozenModelContract := s.frozenModelContract
    modelMaxTokens := s.modelMaxTokens }

def insertStage (db : Store) (s : Stage) : Tx Store := do
  let stages ← orRaise .integrity (db.stages.insert? s)
  return { db with stages := stages }

/-- Whether every dependency of a stage is the inventory. -/
def dependsOnlyOnInventory (stages : List PlanStage) (s : PlanStage) : Bool :=
  s.dependsOn.all (fun k => stages.any (fun t => t.key = k && t.stageType = .inventory))

/-- The stages whose units exist from admission on. -/
def initialStage (stages : List PlanStage) (s : PlanStage) : Bool :=
  !(s.stageType = .inventory) && dependsOnlyOnInventory stages s

def makeInitialUnit (D : Digests) (id : Key) (s : Stage) (source : Option Source) (now : ℕ) :
    UnitRow :=
  { id := id
    revisionId := s.revisionId
    stageId := s.id
    unitKey := D.unitKey {
      stageKey := s.stageKey
      stageInvalidationDigest := s.invalidationDigest
      sourceDigest := source.map Source.contentDigest
      sourceId := source.map Source.sourceId
      dependencies := none
      shardKey := none }
    sourceRowId := source.map Source.id
    state := .pending
    attemptCount := 0
    expectedDependencyCount := 0
    nextAttemptAt := none
    leaseWorkerId := none
    activeAttemptId := none
    fence := 0
    leaseExpiresAt := none
    committedResultId := none
    errorClass := none
    manualRetryTokens := 0
    manualRetryGeneration := 0
    reductionLevel := none
    reductionOrdinal := none
    reductionRoot := false
    createdAt := now
    updatedAt := now }

def insertInitialUnit (D : Digests) (ids : FreshIds) (now : ℕ) (source : Option Source)
    (db : Store) (s : Stage) : Tx Store :=
  insertUnit db (makeInitialUnit D ⟨s.id.owner, ids.unit db.units.rows.length⟩ s source now)

/-- `UNIQUE (revision_id, source_id)` and `UNIQUE (revision_id, ordinal)`. -/
def sourceConflict (a b : Source) : Bool :=
  decide (b.revisionId = a.revisionId) &&
  (decide (b.sourceId = a.sourceId) || decide (b.ordinal = a.ordinal))

/-- Insert one source and its units of the per-source initial stages. -/
def insertSource (D : Digests) (ids : FreshIds) (now : ℕ) (revision : Key)
    (initial : List Stage) (db : Store) (item : SourceItem) : Tx Store := do
  let source : Source :=
    ⟨⟨revision.owner, ids.source db.sources.rows.length⟩, revision, item.sourceId,
      item.ordinal, item.contentDigest, item.state, item.accounted⟩
  require .integrity (!db.sources.rows.any (sourceConflict source))
  let sources ← orRaise .integrity (db.sources.insert? source)
  (initial.filter (fun s => s.cardinality = .perSource)).foldlM
    (insertInitialUnit D ids now (some source)) { db with sources := sources }

def makeCursor (completed : Bool) (s : Stage) (unitCount : ℕ) : StageCursor :=
  { stageId := s.id
    revisionId := s.revisionId
    completed := completed
    sourceOrdinal := -1
    parentPosition := -1
    parentUnitId := none
    entryOffset := -1
    legacyReplay := false
    unitCount := unitCount
    reductionLevel := 0
    reductionOrdinal := -1
    reductionWaiting := false
    reductionInputCount := -1
    attentionCode := none }

def stageUnitCount (db : Store) (stage : Key) : ℕ := db.units.count (fun u => u.stageId = stage)

def insertCursor (stages : List PlanStage) (db : Store) (s : PlanStage × Stage) : Tx Store := do
  let completed := s.1.stageType = .inventory || dependsOnlyOnInventory stages s.1
  let cursors ← orRaise .integrity
    (db.cursors.insert? (makeCursor completed s.2 (stageUnitCount db s.2.id)))
  return { db with cursors := cursors }

def makeRevision (id workloadId : Key) (plan : Plan) (inventory : Inventory)
    (snapshotDigest : ℕ) (capsTruncated partialOutputAccepted usageComplete : Bool) : Revision :=
  { id := id
    workloadId := workloadId
    planDigest := plan.digest
    inventoryDigest := inventory.digest
    snapshotDigest := snapshotDigest
    budgets := plan.budgets
    maxUnits := plan.maxUnits
    expectedSourceCount := inventory.sources.length
    requiredArtifacts := plan.requiredArtifacts
    failureDeclared := plan.failureDeclared
    toleratedErrorClasses := plan.toleratedErrorClasses
    capsTruncated := capsTruncated
    partialOutputAccepted := partialOutputAccepted
    usageComplete := usageComplete
    manualRetryGeneration := 0 }

/-- The inputs of one `admit_revision` call. -/
structure Admission where
  plan : Plan
  inventory : Inventory
  snapshotDigest : ℕ
  capsTruncated : Bool
  partialOutputAccepted : Bool
  usageComplete : Bool
  revisionId : Key

/-- The rows of a new revision: its usage, stages, sources, initial units and cursors. -/
def insertRevisionRows (D : Digests) (ids : FreshIds) (db : Store) (workloadId : Key)
    (adm : Admission) (now : ℕ) : Tx Store := do
  let stages := adm.plan.stages
  let revisions ← orRaise .integrity (db.revisions.insert? (makeRevision adm.revisionId workloadId
    adm.plan adm.inventory adm.snapshotDigest adm.capsTruncated adm.partialOutputAccepted
    adm.usageComplete))
  let usage ← orRaise .integrity
    (db.usage.insert? ⟨adm.revisionId, 0, 0, 0, 0, 0, 0, false, none, none⟩)
  let db := { db with revisions := revisions, usage := usage }
  let rows := stages.zipIdx.map (fun x => makeStage stages ids adm.revisionId x.2 x.1)
  let db ← rows.foldlM insertStage db
  let initial := ((stages.zip rows).filter (fun x => initialStage stages x.1)).map Prod.snd
  let db ← adm.inventory.sources.foldlM (insertSource D ids now adm.revisionId initial) db
  let db ← (initial.filter (fun s => s.cardinality = .singleton)).foldlM
    (insertInitialUnit D ids now none) db
  (stages.zip rows).foldlM (insertCursor stages) db

def admitRevision (D : Digests) (ids : FreshIds) (db : Store) (workloadId : Key)
    (adm : Admission) (expectedVersion now : ℕ) : Tx Store := do
  require .valueError (validatePlan adm.plan)
  require .valueError (decide (adm.inventory.sources.length ≤ adm.plan.maxSources))
  require .valueError (!adm.plan.stages.any (undersized adm.inventory.sources.length))
  let w ← selectWorkload db workloadId
  match db.revisions.rows.find? (fun r => decide (r.workloadId = workloadId) &&
      decide (r.planDigest = adm.plan.digest) &&
      decide (r.inventoryDigest = adm.inventory.digest)) with
  | some r =>
    require .idempotencyConflict (r.snapshotDigest = adm.snapshotDigest &&
      r.capsTruncated = adm.capsTruncated &&
      r.partialOutputAccepted = adm.partialOutputAccepted && r.usageComplete = adm.usageComplete)
    return db
  | none =>
    require .versionConflict (w.version = expectedVersion)
    require .invalidTransition (w.state = .draft)
    require .integrity (adm.revisionId.owner = workloadId.owner)
    let db ← insertRevisionRows D ids db workloadId adm now
    let db ← casWorkload db workloadId (fun x => x.version = expectedVersion && x.state = .draft)
      (fun x => { x with
        activeRevisionId := some adm.revisionId
        state := .admitted
        version := x.version + 1
        updatedAt := now }) (fun _ => rfl)
    appendEvent db workloadId .revisionAdmitted { newVersion := some (expectedVersion + 1) }

end Metnos.Durable
