import Metnos.Durable.Claim
import Metnos.Durable.Completion
import Metnos.Durable.Materialize
import Metnos.Lib.Transaction

/-!
# Durable.System — the store operations as one transition system

Every operation is one `BEGIN IMMEDIATE` transaction, so a run of any number of workers, the
dispatcher and the owner is a list of operations.  What lies outside the store (instants, drawn
identifiers, measured sizes, artifact rows, domain errors) is part of the operation.
-/

namespace Metnos.Durable

inductive Op
  | createDraft (id : Key) (requestKey requestDigest : ℕ) (priority : Priority) (now : ℕ)
  | admitRevision (ids : FreshIds) (workloadId : Key) (admission : Admission)
      (expectedVersion now : ℕ)
  | transitionWorkload (workloadId : Key) (target : WorkloadState) (expectedVersion now : ℕ)
  | control (workloadId : Key) (command : ControlCommand) (idempotencyKey expectedVersion now : ℕ)
  | recordAttentionResolution (workloadId : Key) (decision : AttentionDecision)
      (note : Option ℕ) (idempotencyKey expectedVersion now : ℕ)
  | settleWorkload (workloadId : Key) (now limit : ℕ)
  | evaluateCompletion (workloadId : Key) (artifacts : List ArtifactRow) (domainErrors now : ℕ)
  | refreshUsageComplete (workloadId : Key) (complete : Bool)
  /-- What the artifact repository does to the store: usage, and what needs attention. -/
  | recordArtifacts (revision : Key) (count : ℕ) (attention : List Key)
  | materializeReadyUnits (ids : FreshIds) (workloadId : Key) (limit now : ℕ)
  | adoptReusableResult (attemptId resultId now : ℕ)
  | claimNext (worker now duration : ℕ) (caps : WorkerCapabilities) (attemptId : ℕ)
  | markRunning (lease : Lease) (now : ℕ)
  | heartbeat (lease : Lease) (newExpiry now : ℕ)
  | executionInputs (lease : Lease) (inputBytes : ℕ)
  | recordExecutionFacts (lease : Lease) (executor : ExecutorSnapshot) (model : ModelSnapshot)
      (deviceId invocationId : Option ℕ) (now : ℕ)
  | recordAttemptUsage (lease : Lease) (usage : ModelUsage) (now : ℕ)
  | commitResult (lease : Lease) (validated : ValidatedResult) (dependencyResultIds : List Key)
      (resultId : Key) (now : ℕ)
  | failAttempt (lease : Lease) (errorClass : ErrorClass) (decision : RetryDecision)
      (timedOut : Bool) (now : ℕ)
  | abandonAttempt (lease : Lease) (now : ℕ)
  | reconcileExpired (now batchSize : ℕ)

/-- `refresh_usage_complete`. -/
def refreshUsageComplete (db : Store) (workloadId : Key) (complete : Bool) : Tx Store := do
  let w ← selectWorkload db workloadId
  match w.activeRevisionId with
  | none => return db
  | some revision =>
    let revisions := db.revisions.updateWhere
      (fun r => decide (r.id = revision) && decide (r.workloadId = workloadId))
      (fun r => { r with usageComplete := complete }) (fun _ => rfl)
    return { db with revisions := revisions }

def recordArtifacts (db : Store) (revision : Key) (count : ℕ) (attention : List Key) :
    Tx Store := do
  let db ← addRevisionUsage db revision { artifacts := count }
  return { db with artifactAttention := attention }

/-- The store after a successful call; the value a worker sees is dropped. -/
def stored {α : Type} (x : Tx (α × Store)) : Tx Store := do
  let (_, db) ← x
  return db

def transact (D : Digests) (db : Store) : Op → Tx Store
  | .createDraft id requestKey requestDigest priority now =>
    createDraft db id requestKey requestDigest priority now
  | .admitRevision ids workloadId admission expectedVersion now =>
    admitRevision D ids db workloadId admission expectedVersion now
  | .transitionWorkload workloadId target expectedVersion now =>
    transitionWorkload db workloadId target expectedVersion now
  | .control workloadId command idempotencyKey expectedVersion now =>
    control db workloadId command idempotencyKey expectedVersion now
  | .recordAttentionResolution workloadId decision note idempotencyKey expectedVersion now =>
    recordAttentionResolution db workloadId decision note idempotencyKey expectedVersion now
  | .settleWorkload workloadId now limit => settleWorkload db workloadId now limit
  | .evaluateCompletion workloadId artifacts domainErrors now =>
    stored (evaluateCompletion db workloadId artifacts domainErrors now)
  | .refreshUsageComplete workloadId complete => refreshUsageComplete db workloadId complete
  | .recordArtifacts revision count attention => recordArtifacts db revision count attention
  | .materializeReadyUnits ids workloadId limit now =>
    materializeReadyUnits D ids db workloadId limit now
  | .adoptReusableResult attemptId resultId now => adoptReusableResult D db attemptId resultId now
  | .claimNext worker now duration caps attemptId =>
    stored (claimNext db worker now duration caps attemptId)
  | .markRunning lease now => stored (markRunning db lease now)
  | .heartbeat lease newExpiry now => stored (heartbeat db lease newExpiry now)
  | .executionInputs lease inputBytes => stored (executionInputs db lease inputBytes)
  | .recordExecutionFacts lease executor model deviceId invocationId now =>
    stored (recordExecutionFacts db lease executor model deviceId invocationId now)
  | .recordAttemptUsage lease usage now => stored (recordAttemptUsage db lease usage now)
  | .commitResult lease validated dependencyResultIds resultId now =>
    stored (commitResult db lease validated dependencyResultIds resultId now)
  | .failAttempt lease errorClass decision timedOut now =>
    stored (failAttempt D db lease errorClass decision timedOut now)
  | .abandonAttempt lease now => stored (abandonAttempt db lease now)
  | .reconcileExpired now batchSize => reconcileExpired D db now batchSize

/-- The lease a worker's call is made with. -/
def Op.lease? : Op → Option Lease
  | .markRunning lease _ | .heartbeat lease _ _ | .executionInputs lease _
  | .recordExecutionFacts lease _ _ _ _ _ | .recordAttemptUsage lease _ _
  | .commitResult lease _ _ _ _ | .failAttempt lease _ _ _ _ | .abandonAttempt lease _ =>
    some lease
  | _ => none

/-- The store after one operation. -/
abbrev step (D : Digests) (db : Store) (op : Op) : Store := Transaction.commit (transact D) db op

/-- The store after a run. -/
abbrev run (D : Digests) (db : Store) (ops : List Op) : Store := Transaction.run (transact D) db ops

theorem run_later (D : Digests) (db : Store) (ops later : List Op) :
    run D db (ops ++ later) = run D (run D db ops) later := Transaction.run_append ..

theorem run_snoc (D : Digests) (db : Store) (ops : List Op) (op : Op) :
    run D db (ops ++ [op]) = step D (run D db ops) op := Transaction.run_append ..

/-! ## A small instance

Plans, leases and digests on which statements about runs are evaluated. -/

def sampleStage (key : String) (stageType : StageType) (dependsOn : List String)
    (cardinality : Cardinality) (runner : String) (reduction : Option Reduction) : PlanStage :=
  { key := key
    stageType := stageType
    dependsOn := dependsOn
    runnerKind := .internal
    runnerName := runner
    effectProfile := .pure
    cardinality := cardinality
    maxUnits := 10
    entryIdentityField := none
    reduction := reduction
    outputSchema := "result/1"
    retry := ⟨1, 0, 0, [.executorTransient]⟩
    timeoutS := 60
    resources := ⟨1, 0, 0, 0, 0, 0⟩
    requiredFlag := true
    invalidationDigest := 0
    frozenModelContract := false
    modelMaxTokens := none }

def sampleInventory : PlanStage :=
  sampleStage "inventory" .inventory [] .singleton "sealed_inventory" none

def sampleMap : PlanStage := sampleStage "map" .map ["inventory"] .perSource "extract" none

def samplePlan (stages : List PlanStage) (maxBytesWritten digest : ℕ) : Plan :=
  { stages := stages
    budgets := ⟨1000, maxBytesWritten, 1000, 1000, 1000, 1000, 4⟩
    maxUnits := 100
    maxAttemptsPerUnit := 4
    maxSources := 10
    failureDeclared := false
    toleratedErrorClasses := []
    requiredArtifacts := []
    digest := digest }

def sampleIds (base : ℕ) : FreshIds := ⟨(base + ·), (base + ·), (base + ·)⟩

/-- Unit keys that follow the source, or the place in the reduction. -/
def sampleDigests : Digests :=
  { unitKey := fun s => match s.shardKey with
      | some (.reduction level ordinal) => 100 + 10 * level + ordinal
      | _ => s.sourceDigest.getD 0
    retryJitter := fun _ _ => 0
    digestBound := fun _ _ _ => true }

def sampleWorker : WorkerCapabilities :=
  ⟨[(.internal, "extract"), (.internal, "combine")], ⟨9, 9, 9, 9, 9, 9⟩, [.pure]⟩

/-- Draft, admission and start of workload `id`, whose revision has the same number. -/
def sampleStart (id now : ℕ) (stages : List PlanStage) (maxBytesWritten : ℕ)
    (contents : List ℕ) : List Op :=
  [.createDraft ⟨1, id⟩ id 0 .normal now,
    .admitRevision (sampleIds (100 * id)) ⟨1, id⟩
      { plan := samplePlan stages maxBytesWritten id
        inventory := ⟨contents.zipIdx.map (fun x => ⟨x.2, x.2, x.1, .ready, true⟩), id⟩
        snapshotDigest := 0
        capsTruncated := false
        partialOutputAccepted := false
        usageComplete := true
        revisionId := ⟨1, id⟩ } 1 now,
    .transitionWorkload ⟨1, id⟩ .queued 2 now]

def sampleClaim (attempt now : ℕ) : Op := .claimNext 1 now 1000000 sampleWorker attempt

/-- The lease that `sampleClaim` returns for the unit. -/
def sampleLease (id position : ℕ) (stage : PlanStage) (unit unitKey attempt fence now : ℕ)
    (manualRetry : Bool) : Lease :=
  { workloadId := ⟨1, id⟩
    revisionId := ⟨1, id⟩
    stageId := ⟨1, 100 * id + position⟩
    stageKey := stage.key
    unitId := ⟨1, unit⟩
    unitKey := unitKey
    attemptId := ⟨1, attempt⟩
    attemptNumber := fence
    fence := fence
    workerId := 1
    leaseExpiresAt := now + 1000000
    runnerKind := stage.runnerKind
    runnerName := stage.runnerName
    effectProfile := stage.effectProfile
    outputSchemaVersion := stage.outputSchema
    resourceClaims := stage.resources
    retryPolicy := stage.retry
    timeoutS := stage.timeoutS
    manualRetry := manualRetry }

end Metnos.Durable

/-!
## What can happen to one unit

A `Cell` is a unit with its attempts and results.  `CellStep` lists everything an operation can
do to a cell, with the guards the source checks; `Act` is one change of the whole store: some
cells take a step, the owner grants a retry, a materialization round runs, or a revision is
admitted.  `Durable.Refine` shows that every transaction is a sequence of acts, so that an
invariant is proved over the constructors below and never over the operations.
-/

namespace Metnos.Durable

/-! ## Cells -/

/-- A unit with the attempts and results that belong to it. -/
structure Cell where
  unit : UnitRow
  attempts : List Attempt
  results : List ResultRow

def Store.attemptsOf (db : Store) (k : Key) : List Attempt :=
  db.attempts.rows.filter (fun a => a.unitId = k)

def Store.resultsOf (db : Store) (k : Key) : List ResultRow :=
  db.results.rows.filter (fun r => r.unitId = k)

def Store.cell (db : Store) (u : UnitRow) : Cell := ⟨u, db.attemptsOf u.id, db.resultsOf u.id⟩

@[simp] theorem Store.cell_unit (db : Store) (u : UnitRow) : (db.cell u).unit = u := rfl

/-- The attempts of a cell with `f` applied to the one named `id`. -/
def updateAttempt (id : Key) (f : Attempt → Attempt) (l : List Attempt) : List Attempt :=
  l.map (fun a => if a.id = id then f a else a)

/-- The parts of an attempt that recorded facts and usage leave alone. -/
def Attempt.protocol (a : Attempt) :
    Key × Key × ℕ × ℕ × ℕ × AttemptState × Option ℕ × Bool × Option ℕ × Bool :=
  (a.id, a.unitId, a.number, a.fence, a.workerId, a.state, a.endedAt, a.metrics.executionStarted,
    a.metrics.executionStartedAt, a.metrics.manualRetry)

/-- The attempt under which a unit is held: active, open and with the unit's fence. -/
structure Cell.Holds (c : Cell) (a : Attempt) : Prop where
  mem : a ∈ c.attempts
  active : c.unit.activeAttemptId = some a.id
  fence : a.fence = c.unit.fence
  ended : a.endedAt = none

/-- Where a failed, abandoned or expired lease may put its unit, and whether it gives a manual
token back. -/
structure Released (s : Stage) (u : UnitRow) (a : Attempt) (target : UnitState) (tokens : ℕ) :
    Prop where
  targets : target = .pending ∨ target = .retryWait ∨ target = .needsAttention ∨
    target = .failedPermanent
  token : tokens = 0 ∨ tokens = 1 ∧ u.state = .leased ∧ a.metrics.manualRetry = true
  pending : target = .pending →
    u.state = .leased ∧ (a.metrics.manualRetry = true → tokens = 1)
  retryWait : target = .retryWait →
    u.state = .running ∧ s.effectProfile ≠ .reconcilable ∧ s.effectProfile ≠ .manualOnly
  failed : target = .failedPermanent →
    u.state = .running ∧ s.effectProfile ≠ .reconcilable ∧ s.effectProfile ≠ .manualOnly

/-- What `claim_next` asks of a unit before it leases it. -/
def Claimable (s : Stage) (g : ℕ) (u : UnitRow) : Prop :=
  (u.state = .pending ∧ (u.attemptCount < s.retry.maxAttempts ∨ 0 < u.manualRetryTokens)) ∨
  (u.state = .needsAttention ∧ u.manualRetryGeneration < g)

/-- One change of a cell, of stage `s`, at the revision's retry generation `g`; `aside` restricts
when a reuse conflict may set a unit aside, `result` which results may be committed. -/
inductive CellStep (s : Stage) (g : ℕ) (aside : UnitRow → Prop)
    (result : UnitRow → ResultRow → Prop) (c : Cell) : Cell → Prop
  | lease (attempt : Key) (worker expiry now : ℕ) (ready : Claimable s g c.unit)
      (fresh : ∀ a ∈ c.attempts, a.id ≠ attempt) :
      CellStep s g aside result c
        ⟨c.unit.lease worker attempt expiry (if tokenRetry c.unit then 1 else 0) g now,
          c.attempts ++ [newAttempt c.unit attempt worker now], c.results⟩
  | start (a : Attempt) (expiry now : ℕ) (holds : c.Holds a) (unit : c.unit.state = .leased)
      (attempt : a.state = .leased) :
      CellStep s g aside result c
        ⟨c.unit.start expiry now, updateAttempt a.id (Attempt.start now) c.attempts, c.results⟩
  | extend (expiry now : ℕ) (unit : c.unit.state = .leased ∨ c.unit.state = .running) :
      CellStep s g aside result c ⟨c.unit.extend expiry now, c.attempts, c.results⟩
  | amend (a : Attempt) (f : Attempt → Attempt) (holds : c.Holds a)
      (keeps : ∀ x, (f x).protocol = x.protocol) :
      CellStep s g aside result c ⟨c.unit, updateAttempt a.id f c.attempts, c.results⟩
  | commit (a : Attempt) (r : ResultRow) (now : ℕ) (holds : c.Holds a)
      (unit : c.unit.state = .running) (attempt : a.state = .running) (first : c.results = [])
      (owner : r.unitId = c.unit.id) (revision : r.revisionId = c.unit.revisionId)
      (attemptId : r.attemptId = a.id) (fence : r.fence = c.unit.fence)
      (allowed : result c.unit r) :
      CellStep s g aside result c
        ⟨c.unit.commit r.id now, updateAttempt a.id (Attempt.finish .succeeded none now) c.attempts,
          [r]⟩
  | release (a : Attempt) (state : AttemptState) (cause : ErrorClass) (target : UnitState)
      (next : Option ℕ) (error : Option UnitError) (tokens now : ℕ) (holds : c.Holds a)
      (unit : c.unit.state = .leased ∨ c.unit.state = .running)
      (closed : state = .failed ∨ state = .timedOut ∨ state = .abandoned)
      (released : Released s c.unit a target tokens) :
      CellStep s g aside result c
        ⟨c.unit.release target next error tokens g now,
          updateAttempt a.id (Attempt.finish state (some cause) now) c.attempts, c.results⟩
  | promote (now : ℕ) (unit : c.unit.state = .retryWait) :
      CellStep s g aside result c ⟨c.unit.promote now, c.attempts, c.results⟩
  | exhaust (now : ℕ) (unit : c.unit.state = .pending) (tokens : c.unit.manualRetryTokens = 0)
      (count : s.retry.maxAttempts ≤ c.unit.attemptCount) :
      CellStep s g aside result c ⟨c.unit.exhaust g now, c.attempts, c.results⟩
  | cancel (now : ℕ) (unit : c.unit.state = .pending ∨ c.unit.state = .retryWait ∨
        c.unit.state = .needsAttention) (active : c.unit.activeAttemptId = none) :
      CellStep s g aside result c ⟨c.unit.cancel now, c.attempts, c.results⟩
  | adopt (attempt : Key) (r : ResultRow) (now : ℕ) (unit : c.unit.state = .pending)
      (count : c.unit.attemptCount = 0) (active : c.unit.activeAttemptId = none)
      (pure : s.effectProfile = .pure) (fresh : ∀ a ∈ c.attempts, a.id ≠ attempt)
      (first : c.results = []) (owner : r.unitId = c.unit.id)
      (revision : r.revisionId = c.unit.revisionId) (attemptId : r.attemptId = attempt)
      (fence : r.fence = c.unit.fence + 1) (allowed : result c.unit r) :
      CellStep s g aside result c
        ⟨c.unit.adopt r.id now, c.attempts ++ [reuseAttempt c.unit attempt now], [r]⟩
  | setAside (reason : UnitError) (now : ℕ) (unit : c.unit.state = .pending)
      (count : c.unit.attemptCount = 0) (active : c.unit.activeAttemptId = none)
      (allowed : aside c.unit) :
      CellStep s g aside result c ⟨c.unit.setAside reason now, c.attempts, c.results⟩

def UnitRow.identity (u : UnitRow) :
    Key × Key × Key × ℕ × Option Key × ℕ × Option ℕ × Option ℕ × Bool :=
  (u.id, u.revisionId, u.stageId, u.unitKey, u.sourceRowId, u.expectedDependencyCount,
    u.reductionLevel, u.reductionOrdinal, u.reductionRoot)

theorem CellStep.identity_eq {s : Stage} {g : ℕ} {aside : UnitRow → Prop}
    {result : UnitRow → ResultRow → Prop} {c c' : Cell} (h : CellStep s g aside result c c') : c'.unit.identity = c.unit.identity := by
  cases h <;> rfl

/-! ## Acts -/

def Store.generation (db : Store) (revision : Key) : Option ℕ :=
  (db.revisions.find? revision).map Revision.manualRetryGeneration

/-- The tables that only admission and materialization write. -/
structure SameFrame (db db' : Store) : Prop where
  stages : db'.stages = db.stages
  sources : db'.sources = db.sources
  cursors : db'.cursors = db.cursors
  unitDependencies : db'.unitDependencies = db.unitDependencies
  generation : ∀ r, db'.generation r = db.generation r

/-- Additional conditions under which a run is considered: on setting a unit aside, on committing
a result, on granting a retry, on a materialization round and on an admission. -/
structure Guard where
  aside : Store → UnitRow → Prop
  result : UnitRow → ResultRow → Prop
  grant : Store → Key → Prop
  round : Store → Stage → StageCursor → Prop
  admission : Admission → Prop := fun _ => True

def Guard.none : Guard :=
  { aside := fun _ _ => True
    result := fun _ _ => True
    grant := fun _ _ => True
    round := fun _ _ _ => True }

/-- What happens to one cell in an act: nothing, or a step. -/
def CellChange (G : Guard) (db db' : Store) (u u' : UnitRow) : Prop :=
  db'.cell u' = db.cell u ∨
  ∀ s g, db.stages.find? u.stageId = some s → db.generation u.revisionId = some g →
    CellStep s g (G.aside db) G.result (db.cell u) (db'.cell u')

/-- A grant changes the generation of its revision and nothing else. -/
structure Granted (revision : Key) (db db' : Store) : Prop where
  units : db'.units = db.units
  attempts : db'.attempts = db.attempts
  results : db'.results = db.results
  stages : db'.stages = db.stages
  sources : db'.sources = db.sources
  cursors : db'.cursors = db.cursors
  dependencies : db'.unitDependencies = db.unitDependencies
  generation : ∀ r, db'.generation r =
    (db.generation r).map (fun n => if r = revision then n + 1 else n)

inductive Act (D : Digests) (G : Guard) (db : Store) : Store → Prop
  | cells {db' : Store} (frame : SameFrame db db')
      (old : ∀ k u, db.units.find? k = some u →
        ∃ u', db'.units.find? k = some u' ∧ CellChange G db db' u u')
      (new : ∀ k, db.units.find? k = none → db'.units.find? k = none ∧
        db'.attemptsOf k = db.attemptsOf k ∧ db'.resultsOf k = db.resultsOf k) :
      Act D G db db'
  | grant {db' : Store} (revision : Key) (allowed : G.grant db revision)
      (blocked : db.units.rows.any (blockedDependencyAttention revision) = false)
      (granted : Granted revision db db') : Act D G db db'
  | round {db' : Store} (m : Round) (cursor : StageCursor)
      (next : nextMaterializationStage db m.revision.id = some (m.stage, cursor))
      (revision : db.revisions.find? m.revision.id = some m.revision)
      (allowed : G.round db m.stage cursor)
      (done : materializeRound D m db cursor = .ok db') : Act D G db db'
  | admitted {db' : Store} (ids : FreshIds) (workloadId : Key) (admission : Admission) (now : ℕ)
      (allowed : G.admission admission) (valid : validatePlan admission.plan = true)
      (done : insertRevisionRows D ids db workloadId admission now = .ok db') : Act D G db db'

/-- A sequence of acts. -/
abbrev Acts (D : Digests) (G : Guard) : Store → Store → Prop := Relation.ReflTransGen (Act D G)

/-! ## When a run meets a guard -/

/-- Every round of a batch meets the guard. -/
def roundsMeet (D : Digests) (G : Guard) (ids : FreshIds) (revision : Revision) (now : ℕ) :
    ℕ → Store → Prop
  | 0, _ => True
  | limit + 1, db =>
    match nextMaterializationStage db revision.id with
    | none => True
    | some (stage, cursor) => G.round db stage cursor ∧
      ∀ db', materializeRound D ⟨stage, revision, ids, now⟩ db cursor = .ok db' →
        roundsMeet D G ids revision now limit db'

/-- The guard, as a condition on the store before an operation. -/
def Op.meets (D : Digests) (G : Guard) (db : Store) : Op → Prop
  | .adoptReusableResult _ _ _ => ∀ c, reuseCandidate? db = some c →
      ((reuseConflict D db c).isSome → G.aside db c.unit) ∧
      ∀ r, r.unitId = c.unit.id → r.fence = c.unit.fence + 1 → G.result c.unit r
  | .commitResult lease _ _ _ _ => ∀ u r, db.units.find? lease.unitId = some u →
      u.activeAttemptId = some lease.attemptId → u.fence = lease.fence → r.unitId = lease.unitId →
      r.attemptId = lease.attemptId → r.fence = lease.fence → G.result u r
  | .recordAttentionResolution workloadId .retry _ _ _ _ => ∀ w revision,
      db.workloads.find? workloadId = some w → w.activeRevisionId = some revision →
      G.grant db revision
  | .materializeReadyUnits ids workloadId limit now => ∀ w revision,
      db.workloads.find? workloadId = some w → w.activeRevisionId = some revision.id →
      db.revisions.find? revision.id = some revision →
      roundsMeet D G ids revision now limit db
  | .admitRevision _ _ admission _ _ => G.admission admission
  | _ => True

/-- Every operation of the run meets the guard. -/
abbrev RunMeets (D : Digests) (G : Guard) : Store → List Op → Prop :=
  Transaction.Meets (transact D) (Op.meets D G)

theorem roundsMeet_of_forall {D : Digests} {G : Guard} (h : ∀ db s c, G.round db s c)
    (ids : FreshIds) (revision : Revision) (now limit : ℕ) (db : Store) :
    roundsMeet D G ids revision now limit db := by
  induction limit generalizing db with
  | zero => trivial
  | succ n ih =>
    unfold roundsMeet
    split
    · trivial
    · exact ⟨h _ _ _, fun db' _ => ih db'⟩

theorem Op.meets_none (D : Digests) (db : Store) (op : Op) : op.meets D Guard.none db := by
  unfold Op.meets
  split
  · exact fun _ _ => ⟨fun _ => trivial, fun _ _ _ => trivial⟩
  · exact fun _ _ _ _ _ _ _ _ => trivial
  · exact fun _ _ _ _ => trivial
  · exact fun _ _ _ _ _ => roundsMeet_of_forall (fun _ _ _ => trivial) _ _ _ _ _
  · trivial
  · trivial

end Metnos.Durable
