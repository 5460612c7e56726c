import Metnos.Durable.Attempts

/-!
# Durable.Completion — the completion checks

`evaluate_completion` reads the inventory, the cursors, the units, the result dependencies, the
artifacts and the usage of the active revision in one transaction, and completes the workload only
if nothing blocks.  The artifact rows and the count of domain errors in committed receipts are read
from tables outside this model, so they are arguments.
-/

namespace Metnos.Durable

/-- Why a workload is not completed. -/
inductive CompletionReason
  | workloadNotRunning | inventoryNotSealed | sourceCountMismatch | sourcesUnaccounted
  | sourceUnstableOrMissing | sourceSkipUnaccepted | materializationIncomplete
  | requiredUnitsMissing | unitsNotTerminal | cancelledUnit | requiredUnitSkipped
  | untoleratedUnitFailure | committedUnitWithoutResult | resultDependenciesUnresolved
  | capOrTruncationUnaccepted | resultDependencyNotDeclared | requiredArtifactMissing
  | requiredArtifactNotCommitted | artifactSchemaVersionMismatch | artifactMimeTypeMismatch
  | artifactValidationIncomplete | usageNotMaterialized | budget (violation : BudgetViolation)
deriving DecidableEq

/-! ## What the checks read -/

def sourcesOf (db : Store) (revision : Key) : List Source :=
  db.sources.rows.filter (fun s => s.revisionId = revision)

def unitsOf (db : Store) (revision : Key) : List UnitRow :=
  db.units.rows.filter (fun u => u.revisionId = revision)

/-- Whether a source in the given state exists. -/
def anySource (db : Store) (revision : Key) (states : List SourceState) : Bool :=
  (sourcesOf db revision).any (fun s => states.contains s.state)

def materializationIncomplete (db : Store) (revision : Key) : Bool :=
  db.cursors.rows.any (fun c => decide (c.revisionId = revision) &&
    (!c.completed || c.attentionCode.isSome))

/-- How many units a required stage has to have. -/
def expectedUnits (r : Revision) : Cardinality → ℕ
  | .perSource => r.expectedSourceCount
  | .singleton => 1
  | .perDependency => 0

/-- A required stage below its cardinality. -/
def unitsMissing (db : Store) (r : Revision) (s : Stage) : Bool :=
  decide (s.revisionId = r.id) && s.requiredFlag && !(s.stageType = .inventory) &&
  decide ((unitsOf db r.id).countP (fun u => u.stageId = s.id) < expectedUnits r s.cardinality)

/-- Whether the unit belongs to a required stage. -/
def requiredUnit (db : Store) (u : UnitRow) : Bool :=
  (db.stages.find? u.stageId).any (fun s => decide (s.revisionId = u.revisionId) && s.requiredFlag)

/-- A failure that the revision declared tolerable. -/
def acceptedFailure (r : Revision) (u : UnitRow) : Bool :=
  u.state = .failedPermanent && r.failureDeclared &&
  u.errorClass.any (fun e => r.toleratedErrorClasses.contains e)

/-- How many dependency rows a result has. -/
def dependencyCount (db : Store) (result : Key) : ℕ :=
  db.resultDependencies.countP (fun d => d.1 = result)

/-- A committed unit whose result lacks, or exceeds, its planned dependencies. -/
def dependencyDeficit (db : Store) (u : UnitRow) : Bool :=
  u.state = .committed &&
  u.committedResultId.any (fun r => dependencyCount db r ≠ u.expectedDependencyCount)

/-- The units and stages at the two ends of a dependency row of the revision. -/
structure DependencyEnds where
  childUnit : UnitRow
  sourceUnit : UnitRow
  childStage : Stage
  sourceStage : Stage

def dependencyEnds (db : Store) (revision child source : Key) : Option DependencyEnds := do
  let childResult ← (db.results.find? child).filter (fun r : ResultRow => r.revisionId = revision)
  let childUnit ← db.units.find? childResult.unitId
  let sourceResult ← (db.results.find? source).filter (fun r : ResultRow => r.revisionId = revision)
  let sourceUnit ← db.units.find? sourceResult.unitId
  let childStage ← db.stages.find? childUnit.stageId
  let sourceStage ← db.stages.find? sourceUnit.stageId
  some ⟨childUnit, sourceUnit, childStage, sourceStage⟩

/-- A dependency row of the revision whose role the plan does not declare for it. -/
def undeclaredDependency (db : Store) (revision : Key) (d : Key × Key × String × ℕ) : Bool :=
  match dependencyEnds db revision d.1 d.2.1 with
  | none => false
  | some e =>
    match db.stages.rows.find? (fun s : Stage => decide (s.revisionId = revision) &&
        decide (s.stageKey = d.2.2.1)) with
    | none => true
    | some role =>
      !e.childStage.dependsOn.contains role.id ||
      !(decide (e.sourceStage.id = role.id) ||
        (e.childStage.reduction.isSome && decide (e.sourceStage.id = e.childStage.id) &&
          decide (0 < e.childUnit.reductionLevel.getD 0) &&
          decide (e.sourceUnit.reductionLevel = some (e.childUnit.reductionLevel.getD 0 - 1))))

/-- The artifact of a requirement, when there is one: the last row of that name. -/
def artifactOf (artifacts : List ArtifactRow) (q : ArtifactRequirement) : Option ArtifactRow :=
  artifacts.reverse.find? (fun a => a.logicalName = q.name)

/-- Some required artifact exists and fails the check. -/
def artifactFails (artifacts : List ArtifactRow) (r : Revision)
    (check : ArtifactRequirement → ArtifactRow → Bool) : Bool :=
  r.requiredArtifacts.any (fun q => (artifactOf artifacts q).any (fun a => !check q a))

/-! ## The checks -/

/-- Every check but the budget, with the reason it blocks for. -/
def completionChecks (db : Store) (w : Workload) (r : Revision) (artifacts : List ArtifactRow) :
    List (Bool × CompletionReason) :=
  let units := unitsOf db r.id
  [(w.state ≠ .running, .workloadNotRunning),
    ((sourcesOf db r.id).length ≠ r.expectedSourceCount, .sourceCountMismatch),
    ((sourcesOf db r.id).any (fun s => !s.accounted), .sourcesUnaccounted),
    (anySource db r.id [.unstable, .missing], .sourceUnstableOrMissing),
    (anySource db r.id [.skipped] && !r.partialOutputAccepted, .sourceSkipUnaccepted),
    (materializationIncomplete db r.id, .materializationIncomplete),
    (db.stages.rows.any (unitsMissing db r), .requiredUnitsMissing),
    (units.any (fun u => !u.state.terminal), .unitsNotTerminal),
    (units.any (fun u => u.state = .cancelled), .cancelledUnit),
    (units.any (fun u => u.state = .skipped && requiredUnit db u) && !r.partialOutputAccepted,
      .requiredUnitSkipped),
    (units.any (fun u => u.state = .failedPermanent && !acceptedFailure r u),
      .untoleratedUnitFailure),
    (units.any (fun u => u.state = .committed && u.committedResultId.isNone),
      .committedUnitWithoutResult),
    (units.any (dependencyDeficit db), .resultDependenciesUnresolved),
    (r.capsTruncated && !r.partialOutputAccepted, .capOrTruncationUnaccepted),
    (db.resultDependencies.any (undeclaredDependency db r.id), .resultDependencyNotDeclared),
    (r.requiredArtifacts.any (fun q => (artifactOf artifacts q).isNone), .requiredArtifactMissing),
    (artifactFails artifacts r (fun _ a => a.state = .committed || a.state = .published),
      .requiredArtifactNotCommitted),
    (artifactFails artifacts r (fun q a => a.schemaVersion = q.schemaVersion),
      .artifactSchemaVersionMismatch),
    (artifactFails artifacts r (fun q a => a.mimeType = q.mimeType), .artifactMimeTypeMismatch),
    (artifactFails artifacts r
      (fun _ a => a.digestVerified && a.schemaValid && a.postconditionsValid),
      .artifactValidationIncomplete),
    (!r.usageComplete, .usageNotMaterialized)]

def completionReasons (db : Store) (w : Workload) (r : Revision) (artifacts : List ArtifactRow)
    (now : ℕ) : List CompletionReason :=
  ((completionChecks db w r artifacts).filter (fun c => c.1)).map Prod.snd ++
  ((budgetViolation db w.id r.id now).map CompletionReason.budget).toList

/-- Whether an eligible workload completes with errors. -/
def completionErrors (db : Store) (r : Revision) (domainErrors : ℕ) : Bool :=
  (unitsOf db r.id).any (acceptedFailure r) || r.capsTruncated ||
  anySource db r.id [.skipped] || (unitsOf db r.id).any (fun u => u.state = .skipped) ||
  decide (domainErrors ≠ 0)

structure CompletionAssessment where
  eligible : Bool
  targetState : Option WorkloadState
  reasons : List CompletionReason
  eventId : Option ℕ
  workloadVersion : ℕ
deriving DecidableEq

/-- The terminal event and the guarded state update of an eligible workload. -/
def completeWorkload (db : Store) (w : Workload) (target : WorkloadState) (type : EventType)
    (now : ℕ) : Tx Store := do
  let db ← appendEvent db w.id type { targetState := some target }
  casWorkload db w.id (fun x => x.state = .running && x.version = w.version)
    (fun x => { x with
      state := target
      version := x.version + 1
      updatedAt := now
      lastSelectedSeq := none }) (fun _ => rfl)

def evaluateCompletion (db : Store) (id : Key) (artifacts : List ArtifactRow)
    (domainErrors now : ℕ) : Tx (CompletionAssessment × Store) := do
  let w ← selectWorkload db id
  if w.state = .completed || w.state = .completedWithErrors then
    return (⟨true, some w.state, [], none, w.version⟩, db)
  let running : List CompletionReason := if w.state = .running then [] else [.workloadNotRunning]
  match w.activeRevisionId with
  | none => return (⟨false, none, running ++ [.inventoryNotSealed], none, w.version⟩, db)
  | some revision =>
    match (db.revisions.find? revision).filter (fun r => r.workloadId = id) with
    | none => return (⟨false, none, running ++ [.inventoryNotSealed], none, w.version⟩, db)
    | some r =>
      let reasons := completionReasons db w r artifacts now
      if !reasons.isEmpty then
        return (⟨false, none, reasons, none, w.version⟩, db)
      let target := if completionErrors db r domainErrors then .completedWithErrors else .completed
      let type := if completionErrors db r domainErrors then EventType.completedWithErrors
        else .completed
      let db ← completeWorkload db w target type now
      return (⟨true, some target, [], some w.nextEventId, w.version + 1⟩, db)

end Metnos.Durable
