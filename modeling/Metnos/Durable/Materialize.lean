import Metnos.Durable.Admission
import Metnos.Durable.Attempts

/-!
# Durable.Materialize — creating the units of later stages

`_materialize_ready_units_batch`: the next stage whose dependencies are finished, its cursor, and
one candidate unit per round, in all modes (hierarchical reduction, singleton, per source, per
dependency with or without entries).  An entry cursor counts items where the source counts
characters.
-/

namespace Metnos.Durable

/-! ## The next stage -/

/-- The declared dependencies that are no inventory. -/
def parentStages (db : Store) (s : Stage) : List Stage :=
  (s.dependsOn.filterMap db.stages.find?).filter
    (fun p => decide (p.revisionId = s.revisionId) && !(p.stageType = .inventory))

/-- A unit of the reduction stage's own level that keeps the level open. -/
def openInLevel (s : Stage) (level : ℕ) (u : UnitRow) : Bool :=
  decide (u.stageId = s.id) && decide (u.reductionLevel = some level) &&
  (u.state = .pending || u.state = .leased || u.state = .running || u.state = .retryWait)

/-- A unit of a dependency that keeps the dependent stage waiting. -/
def openInParent (p : Stage) (u : UnitRow) : Bool :=
  decide (u.stageId = p.id) &&
  (u.state = .pending || u.state = .leased || u.state = .running || u.state = .retryWait ||
    u.state = .needsAttention)

/-- A dependency that has all its units and all of them finished. -/
def parentReady (db : Store) (p : Stage) : Bool :=
  (db.cursors.find? p.id).any (fun c => c.completed) && !db.units.rows.any (openInParent p)

def materializable (db : Store) (revision : Key) (c : StageCursor) : Option (Stage × StageCursor) :=
  do
  let s ← (db.stages.find? c.stageId).filter (fun s => s.revisionId = c.revisionId)
  if c.revisionId = revision ∧ c.completed = false ∧ c.attentionCode = none ∧
      (c.reductionWaiting = false ∨ db.units.rows.any (openInLevel s c.reductionLevel) = false) ∧
      (parentStages db s).all (parentReady db) = true then some (s, c) else none

/-- `ORDER BY stage.position, stage.id`. -/
def stagePositionOrder (a b : Stage × StageCursor) : Bool :=
  Table.orderBy [a.1.position, a.1.id.id] [b.1.position, b.1.id.id]

def nextMaterializationStage (db : Store) (revision : Key) : Option (Stage × StageCursor) :=
  ((db.cursors.rows.filterMap (materializable db revision)).insertionSort
    (fun a b => stagePositionOrder a b = true)).head?

/-! ## Candidates -/

/-- A dependency unit with the role it plays and its committed result. -/
structure ParentRow where
  role : String
  unit : UnitRow
  result : Option ResultRow

/-- A dependency of a candidate unit. -/
structure Parent where
  role : String
  unit : UnitRow
  result : ResultRow

def committedResult (db : Store) (u : UnitRow) : Option ResultRow := do
  (db.results.find? (← u.committedResultId)).filter (fun r => r.revisionId = u.revisionId)

def parentRow (db : Store) (role : String) (u : UnitRow) : ParentRow :=
  ⟨role, u, committedResult db u⟩

/-- The committed dependency behind a row. -/
def ParentRow.committed? (p : ParentRow) : Option Parent := do
  let result ← p.result
  if p.unit.state = .committed then some ⟨p.role, p.unit, result⟩ else none

/-- The arguments of `insert_candidate`. -/
structure CandidateUnit where
  source : Option Source := none
  parents : List Parent := []
  shardKey : Option ShardKey := none
  unavailableReason : Option UnitError := none
  forceAttention : Bool := false
  duplicateIdentity : Bool := false
  dependencySlice : Option (ℕ × ℕ) := none
  reductionLevel : Option ℕ := none
  reductionOrdinal : Option ℕ := none
  reductionRoot : Bool := false

def candidateKey (D : Digests) (s : Stage) (c : CandidateUnit) : ℕ :=
  D.unitKey {
    stageKey := s.stageKey
    stageInvalidationDigest := s.invalidationDigest
    sourceDigest := c.source.map Source.contentDigest
    sourceId := c.source.map Source.sourceId
    dependencies := some (c.parents.map (fun p => (p.role, p.unit.unitKey, p.result.digest)))
    shardKey := c.shardKey }

def candidateState (s : Stage) (r : Revision) (c : CandidateUnit) : UnitState :=
  match c.unavailableReason with
  | none => .pending
  | some _ =>
    if c.forceAttention || (s.requiredFlag && !r.partialOutputAccepted) then .needsAttention
    else .skipped

def makeCandidate (D : Digests) (s : Stage) (r : Revision) (c : CandidateUnit) (id : Key)
    (now : ℕ) : UnitRow :=
  { id := id
    revisionId := s.revisionId
    stageId := s.id
    unitKey := candidateKey D s c
    sourceRowId := c.source.map Source.id
    state := candidateState s r c
    attemptCount := 0
    expectedDependencyCount := if c.unavailableReason.isSome then 0 else c.parents.length
    nextAttemptAt := none
    leaseWorkerId := none
    activeAttemptId := none
    fence := 0
    leaseExpiresAt := none
    committedResultId := none
    errorClass := c.unavailableReason
    manualRetryTokens := 0
    manualRetryGeneration := r.manualRetryGeneration
    reductionLevel := c.reductionLevel
    reductionOrdinal := c.reductionOrdinal
    reductionRoot := c.reductionRoot
    createdAt := now
    updatedAt := now }

/-- `expected_bindings` as rows. -/
def expectedBindings (unitId : Key) (c : CandidateUnit) : List UnitDependency :=
  c.parents.zipIdx.map (fun x => ⟨unitId, x.1.result.id, x.2, x.1.role, c.dependencySlice⟩)

/-- `INSERT .. ON CONFLICT DO NOTHING`. -/
def insertBinding (rows : List UnitDependency) (d : UnitDependency) : List UnitDependency :=
  if rows.any (fun x => decide (x.unitId = d.unitId) &&
      (decide (x.sourceResultId = d.sourceResultId) || decide (x.ordinal = d.ordinal))) then rows
  else rows ++ [d]

def bindDependencies (db : Store) (unitId : Key) (c : CandidateUnit) : Tx Store := do
  require .durableStore (c.dependencySlice.isNone || decide (c.parents.length = 1))
  let expected := expectedBindings unitId c
  let db := { db with unitDependencies := expected.foldl insertBinding db.unitDependencies }
  let stored := (unitDependenciesOf db unitId).take (maxUnitDependencies + 1)
  require .durableStore (decide (stored.map (fun d => (d.sourceResultId, d.slice, d.role)) =
    expected.map (fun d => (d.sourceResultId, d.slice, d.role))))
  return db

/-- What a round needs to know besides the store. -/
structure Round where
  stage : Stage
  revision : Revision
  ids : FreshIds
  now : ℕ

/-- `insert_candidate`; the cursor carries `existing_count`, `legacy_replay` and
`blocked_code`. -/
def insertCandidate (D : Digests) (m : Round) (db : Store) (cursor : StageCursor)
    (c : CandidateUnit) : Tx (Store × StageCursor) :=
  match db.units.rows.find? (fun u => decide (u.revisionId = m.stage.revisionId) &&
      decide (u.stageId = m.stage.id) && decide (u.unitKey = candidateKey D m.stage c)) with
  | some existing =>
    if cursor.legacyReplay then do
      require .durableStore (decide (existing.expectedDependencyCount = c.parents.length))
      let db ← bindDependencies db existing.id c
      return (db, cursor)
    else if c.duplicateIdentity then
      .ok (db, { cursor with attentionCode := some .duplicateEntryIdentity })
    else .error .durableStore
  | none =>
    if m.stage.maxUnits ≤ cursor.unitCount then
      .ok (db, { cursor with attentionCode := some .stageUnitCapExceeded })
    else do
      let id : Key := ⟨m.stage.id.owner, m.ids.unit db.units.rows.length⟩
      let db ← insertUnit db (makeCandidate D m.stage m.revision c id m.now)
      let db ← bindDependencies db id c
      return (db, { cursor with unitCount := cursor.unitCount + 1, legacyReplay := false })

/-- The row `c` overwritten with `cursor`; a completed cursor replays nothing. -/
def StageCursor.overwrite (cursor c : StageCursor) : StageCursor :=
  { cursor with
    stageId := c.stageId
    legacyReplay := cursor.legacyReplay && !cursor.completed }

theorem StageCursor.overwrite_stageId (cursor c : StageCursor) :
    (cursor.overwrite c).stageId = c.stageId := rfl

/-- `save_cursor`. -/
def saveCursor (db : Store) (cursor : StageCursor) : Tx Store :=
  match db.cursors.cas cursor.stageId (fun c => c.revisionId = cursor.revisionId)
      cursor.overwrite cursor.overwrite_stageId with
  | some cursors => .ok { db with cursors := cursors }
  | none => .error .durableStore

/-- Insert a candidate, then save the cursor that `advance` makes of the current one. -/
def insertAndSave (D : Digests) (m : Round) (db : Store) (cursor : StageCursor)
    (c : CandidateUnit) (advance : StageCursor → StageCursor) : Tx Store := do
  let (db, cursor) ← insertCandidate D m db cursor c
  saveCursor db (advance cursor)

/-! ## Hierarchical reduction -/

def inLevel (s : Stage) (level : ℕ) (u : UnitRow) : Bool :=
  decide (u.revisionId = s.revisionId) && decide (u.stageId = s.id) &&
  decide (u.reductionLevel = some level)

/-- `ORDER BY committed last, reduction_ordinal, unit_key`. -/
def rootKey (u : UnitRow) : List ℕ :=
  [(decide (u.state = .committed)).toNat, (u.reductionOrdinal.map (· + 1)).getD 0, u.unitKey]

def rootOrder (a b : UnitRow) : Bool := Table.orderBy (rootKey a) (rootKey b)

/-- The row picked as root by `_reduction_level_status`. -/
def levelRoot (db : Store) (s : Stage) (level : ℕ) : Option UnitRow :=
  (db.units.select (inLevel s level) rootOrder 1).head?

def levelTotal (db : Store) (s : Stage) (level : ℕ) : ℕ := db.units.count (inLevel s level)

def levelCommitted (db : Store) (s : Stage) (level : ℕ) : ℕ :=
  db.units.count (fun u => inLevel s level u && u.state = .committed)

/-- The unit that stands for a reduction without usable inputs. -/
def unavailableRoot (level ordinal : ℕ) (shard : ShardKey) (reason : UnitError) : CandidateUnit :=
  { shardKey := some shard
    unavailableReason := some reason
    forceAttention := true
    reductionLevel := some level
    reductionOrdinal := some ordinal
    reductionRoot := true }

def UnitRow.markRoot (now : ℕ) (u : UnitRow) : UnitRow :=
  { u with reductionRoot := true, updatedAt := now }

theorem UnitRow.markRoot_id (now : ℕ) (u : UnitRow) : (u.markRoot now).id = u.id := rfl

/-- `UPDATE units SET reduction_root=1`, under the unique index of one root per stage. -/
def markRoot (db : Store) (root : UnitRow) (now : ℕ) : Tx Store := do
  require .integrity (!db.units.rows.any (fun u => decide (u.revisionId = root.revisionId) &&
    decide (u.stageId = root.stageId) && u.reductionRoot && decide (u.id ≠ root.id)))
  casUnit db root.id (fun _ => true) (UnitRow.markRoot now) (UnitRow.markRoot_id now)

/-- A waiting level none of whose units is open: the next level, or the root. -/
def closeLevel (D : Digests) (m : Round) (db : Store) (cursor : StageCursor) : Tx Store := do
  let level := cursor.reductionLevel
  let total := levelTotal db m.stage level
  let committed := levelCommitted db m.stage level
  if total = 0 then
    insertAndSave D m db cursor
      (unavailableRoot level 0 (.reductionUnavailable level) .dependencyResultUnavailable)
      (fun c => { c with completed := true, reductionWaiting := false })
  else if committed = total ∧ 1 < total then
    saveCursor db { cursor with
      parentUnitId := none
      entryOffset := -1
      reductionLevel := level + 1
      reductionOrdinal := -1
      reductionWaiting := false
      reductionInputCount := -1 }
  else
    let root ← orRaise .durableStore (levelRoot db m.stage level)
    let db ← markRoot db root m.now
    saveCursor db { cursor with completed := true, reductionWaiting := false }

/-- A unit that a dependent stage may read: every unit, or the root of a reduction. -/
def exposed (p : Stage) (u : UnitRow) : Bool :=
  decide (u.revisionId = p.revisionId) && decide (u.stageId = p.id) &&
  (p.reduction.isNone || u.reductionRoot)

/-- What a reduction level reads: the dependency's exposed units, or the level below. -/
def levelInput (s parent : Stage) (level : ℕ) (u : UnitRow) : Bool :=
  match level with
  | 0 => exposed parent u
  | below + 1 => inLevel s below u

/-- The order of the inputs: by unit key at level 0, by reduction ordinal above. -/
def inputRank (level : ℕ) (u : UnitRow) : ℕ :=
  match level with
  | 0 => u.unitKey
  | _ + 1 => u.reductionOrdinal.getD 0

def afterCursor (db : Store) (level : ℕ) (parentUnitId : Option Key) (u : UnitRow) : Bool :=
  match parentUnitId.bind db.units.find? with
  | none => true
  | some c => decide (inputRank level c < inputRank level u)

def inputOrder (level : ℕ) (a b : UnitRow) : Bool :=
  Table.orderBy [inputRank level a, a.unitKey] [inputRank level b, b.unitKey]

/-- `fan_in + 1` inputs: the last one only tells whether another group follows. -/
def reductionCandidates (db : Store) (s parent : Stage) (cursor : StageCursor) (fanIn : ℕ) :
    List ParentRow :=
  (db.units.select
    (fun u => levelInput s parent cursor.reductionLevel u &&
      afterCursor db cursor.reductionLevel cursor.parentUnitId u)
    (inputOrder cursor.reductionLevel) (fanIn + 1)).map (parentRow db parent.stageKey)

/-- A committed input with an `entries` array. -/
def ParentRow.reducible? (p : ParentRow) : Option Parent := do
  let parent ← p.committed?
  if parent.result.payload.entries.isSome then some parent else none

/-- The bytes and the number of a result's entries. -/
def Parent.entries (p : Parent) : ℕ × ℕ :=
  match p.result.payload.entries with
  | none => (0, 0)
  | some (bytes, items) => (bytes, items.length)

/-- The grouping loop: the longest run of inputs within the byte limit, or the reason why not
even two fit. -/
def selectGroup (byteLimit : ℕ) : ℕ → ℕ → List Parent → List Parent →
    Except UnitError (List Parent)
  | _, _, selected, [] => .ok selected
  | content, nonempty, selected, p :: rest =>
    let content' := content + (p.entries.1 - 2)
    let nonempty' := nonempty + (if 0 < p.entries.2 then 1 else 0)
    if byteLimit < 2 + content' + (nonempty' - 1) then
      match selected with
      | [] => .error .dependencyInputTooLarge
      | [_] => .error .reductionNotConverging
      | _ => .ok selected
    else selectGroup byteLimit content' nonempty' (selected ++ [p]) rest

/-- `reduction_input_count`, counted once per level. -/
def inputCount (db : Store) (s parent : Stage) (cursor : StageCursor) : ℤ :=
  if cursor.reductionInputCount < 0 then
    (db.units.count (levelInput s parent cursor.reductionLevel) : ℤ)
  else cursor.reductionInputCount

/-- One group of a level that is not waiting yet. -/
def reduceGroup (D : Digests) (m : Round) (db : Store) (cursor : StageCursor)
    (reduction : Reduction) (parent : Stage) : Tx Store :=
  let level := cursor.reductionLevel
  let next := (cursor.reductionOrdinal + 1).toNat
  let count := inputCount db m.stage parent cursor
  if count = 0 then
    insertAndSave D m db cursor
      (unavailableRoot level 0 (.reductionUnavailable level) .dependencyResultUnavailable)
      (fun c => { c with completed := true, reductionInputCount := 0 })
  else
    let candidates := reductionCandidates db m.stage parent cursor reduction.fanIn
    match (candidates.take reduction.fanIn).mapM ParentRow.reducible? with
    | none =>
      insertAndSave D m db cursor
        (unavailableRoot level next (.reductionInvalidInput level) .dependencyResultUnavailable)
        (fun c => { c with completed := true, reductionInputCount := count })
    | some inputs =>
      match selectGroup reduction.maxInputBytes 0 0 [] inputs with
      | .error reason =>
        insertAndSave D m db cursor
          (unavailableRoot level next (.reductionReason level reason) reason)
          (fun c => { c with completed := true, reductionInputCount := count })
      | .ok selected =>
        match selected.getLast? with
        | none =>
          saveCursor db { cursor with reductionWaiting := true, reductionInputCount := count }
        | some last =>
          insertAndSave D m db cursor
            { parents := selected
              shardKey := some (.reduction level next)
              reductionLevel := some level
              reductionOrdinal := some next }
            (fun c => { c with
              parentUnitId := some last.unit.id
              entryOffset := -1
              reductionOrdinal := next
              reductionWaiting := !decide (selected.length < candidates.length)
              reductionInputCount := count })

def reduceRound (D : Digests) (m : Round) (db : Store) (cursor : StageCursor)
    (reduction : Reduction) : Tx Store :=
  if cursor.reductionWaiting then closeLevel D m db cursor
  else match parentStages db m.stage with
    | [parent] => reduceGroup D m db cursor reduction parent
    | _ => .error .durableStore

/-! ## The other modes -/

/-- Why the dependencies of a singleton or per-source unit cannot be read, and whether that
always needs attention. -/
def unavailableParents (rows : List ParentRow) : Option (UnitError × Bool) :=
  if maxUnitDependencies < rows.length then some (.dependencyFanInExceeded, true)
  else if rows.isEmpty then some (.dependencyResultUnavailable, false)
  else if rows.any (fun p => p.unit.state = .committed && p.result.isNone) then
    some (.dependencyResultMissing, true)
  else if rows.any (fun p => !(p.unit.state = .committed)) then
    some (.dependencyResultUnavailable, false)
  else none

/-- The candidate over `rows`, or the one that stands for their absence. -/
def candidateOver (rows : List ParentRow) (unavailable : Option (UnitError × Bool))
    (source : Option Source) (shard : ShardKey) : CandidateUnit :=
  match unavailable with
  | none => { source := source, parents := rows.filterMap ParentRow.committed? }
  | some (reason, force) =>
    { source := source
      shardKey := some shard
      unavailableReason := some reason
      forceAttention := force }

def unitKeyOrder (a b : UnitRow) : Bool := decide (a.unitKey ≤ b.unitKey)

/-- The exposed units of a parent stage in key order, as rows. -/
def exposedRows (db : Store) (p : Stage) (limit : ℕ) : List ParentRow :=
  (db.units.select (exposed p) unitKeyOrder limit).map (parentRow db p.stageKey)

def positionOrder (a b : Stage) : Bool := decide (a.position ≤ b.position)

def singletonRound (D : Digests) (m : Round) (db : Store) (cursor : StageCursor) : Tx Store :=
  let parents := (parentStages db m.stage).insertionSort (fun a b => positionOrder a b = true)
  let rows := (parents.flatMap (fun p => exposedRows db p (maxUnitDependencies + 1))).take
    (maxUnitDependencies + 1)
  insertAndSave D m db cursor
    (candidateOver rows (unavailableParents rows) none .unavailableSingleton)
    (fun c => { c with completed := true, entryOffset := -1 })

def sourceOrder (a b : Source) : Bool :=
  Table.orderBy [a.ordinal, a.id.id] [b.ordinal, b.id.id]

def nextSource (db : Store) (cursor : StageCursor) : Option Source :=
  (db.sources.select (fun x => decide (x.revisionId = cursor.revisionId) &&
    decide (cursor.sourceOrdinal < x.ordinal)) sourceOrder 1).head?

/-- The units of a parent stage that belong to the source. -/
def sourceRows (db : Store) (source : Source) (limit : ℕ) (p : Stage) : List ParentRow :=
  (db.units.select (fun u => exposed p u &&
    (p.cardinality = .singleton || decide (u.sourceRowId = some source.id))) unitKeyOrder limit).map
    (parentRow db p.stageKey)

/-- The rows of every parent stage in turn, and whether one had none; stops once there are too
many. -/
def collectSourceRows (db : Store) (source : Source) :
    List Stage → List ParentRow → Bool → List ParentRow × Bool
  | [], rows, missing => (rows, missing)
  | p :: rest, rows, missing =>
    let found := sourceRows db source (maxUnitDependencies + 1 - rows.length) p
    let rows' := rows ++ found
    let missing' := missing || found.isEmpty
    if maxUnitDependencies < rows'.length then (rows', missing')
    else collectSourceRows db source rest rows' missing'

def perSourceRound (D : Digests) (m : Round) (db : Store) (cursor : StageCursor) : Tx Store :=
  match nextSource db cursor with
  | none => saveCursor db { cursor with completed := true, entryOffset := -1 }
  | some source =>
    let (rows, missing) := collectSourceRows db source (parentStages db m.stage) [] false
    let unavailable :=
      if missing && decide (rows.length ≤ maxUnitDependencies) then
        some (UnitError.dependencyResultUnavailable, false)
      else unavailableParents rows
    insertAndSave D m db cursor
      (candidateOver rows unavailable (some source) (.unavailableSource source.sourceId))
      (fun c => { c with sourceOrdinal := source.ordinal })

/-- The parent unit under the cursor, or the next one in position and key order. -/
def nextParentUnit (db : Store) (s : Stage) (cursor : StageCursor) : Option (Stage × UnitRow) :=
  let parents := (parentStages db s).insertionSort (fun a b => positionOrder a b = true)
  match cursor.parentUnitId with
  | some id =>
    if 0 ≤ cursor.entryOffset then
      (parents.filter (fun p => (p.position : ℤ) = cursor.parentPosition)).findSome? (fun p =>
        ((db.units.find? id).filter (fun u => u.stageId = p.id)).map (fun u => (p, u)))
    else
      let cursorKey := (db.units.find? id).map UnitRow.unitKey
      parents.findSome? (fun p =>
        ((db.units.select (fun u => exposed p u &&
          (decide (cursor.parentPosition < p.position) ||
            (decide ((p.position : ℤ) = cursor.parentPosition) &&
              cursorKey.all (fun k => decide (k < u.unitKey))))) unitKeyOrder 1).head?).map
          (fun u => (p, u)))
  | none =>
    parents.findSome? (fun p =>
      ((db.units.select (fun u => exposed p u && decide (cursor.parentPosition ≤ p.position))
        unitKeyOrder 1).head?).map (fun u => (p, u)))

/-- One entry of a committed dependency as a unit. -/
def entryRound (D : Digests) (m : Round) (db : Store) (cursor : StageCursor) (field : String)
    (parent : Parent) (source : Option Source) (position : ℕ) : Tx Store :=
  let index := cursor.entryOffset.toNat
  let moved := fun (c : StageCursor) (offset : ℤ) => { c with
    parentPosition := (position : ℤ)
    parentUnitId := some parent.unit.id
    entryOffset := offset }
  let blocked := fun code => saveCursor db { cursor with attentionCode := some code }
  match parent.result.payload.entries with
  | none => blocked .dependencyPayloadInvalid
  | some (_, items) =>
    match items.drop index with
    | [] => saveCursor db (moved cursor (-1))
    | item :: rest =>
      match item.fields with
      | none => blocked .dependencyPayloadInvalid
      | some fields =>
        match fields.lookup field with
        | none => blocked .entryIdentityInvalid
        | some digest =>
          insertAndSave D m db cursor
            { source := source
              parents := [parent]
              shardKey := some (.entry field digest)
              duplicateIdentity := true
              dependencySlice := some (item.start, item.length) }
            (fun c => moved c (if rest.isEmpty then -1 else (index + 1 : ℕ)))

def perDependencyRound (D : Digests) (m : Round) (db : Store) (cursor : StageCursor) : Tx Store :=
  match nextParentUnit db m.stage cursor with
  | none => saveCursor db { cursor with completed := true, entryOffset := -1 }
  | some (stage, unit) =>
    let row := parentRow db stage.stageKey unit
    let source := unit.sourceRowId.bind db.sources.find?
    let moved := fun (c : StageCursor) => { c with
      parentPosition := (stage.position : ℤ)
      parentUnitId := some unit.id
      entryOffset := -1 }
    let unavailable := fun (reason : UnitError) (force : Bool) =>
      insertAndSave D m db cursor
        { source := source
          shardKey := some (.unavailableUnit unit.unitKey)
          unavailableReason := some reason
          forceAttention := force } moved
    if unit.state ≠ .committed then unavailable .dependencyResultUnavailable false
    else match row.committed? with
      | none => unavailable .dependencyResultMissing true
      | some parent =>
        match m.stage.entryIdentityField with
        | none =>
          insertAndSave D m db cursor
            { source := source
              parents := [parent]
              shardKey := some (.result unit.unitKey) } moved
        | some field => entryRound D m db cursor field parent source stage.position

/-! ## Batches -/

/-- One round of the batch on the chosen stage. -/
def materializeRound (D : Digests) (m : Round) (db : Store) (cursor : StageCursor) : Tx Store :=
  match m.stage.reduction with
  | some reduction => reduceRound D m db cursor reduction
  | none =>
    match m.stage.cardinality with
    | .singleton => singletonRound D m db cursor
    | .perSource => perSourceRound D m db cursor
    | .perDependency => perDependencyRound D m db cursor

/-- At most `limit` rounds. -/
def materializeRounds (D : Digests) (ids : FreshIds) (revision : Revision) (now : ℕ) :
    ℕ → Store → Tx Store
  | 0, db => .ok db
  | limit + 1, db =>
    match nextMaterializationStage db revision.id with
    | none => .ok db
    | some (stage, cursor) => do
      let db ← materializeRound D ⟨stage, revision, ids, now⟩ db cursor
      materializeRounds D ids revision now limit db

/-- `_materialize_ready_units_batch`. -/
def materializeReadyUnits (D : Digests) (ids : FreshIds) (db : Store) (workloadId : Key)
    (limit now : ℕ) : Tx Store := do
  let w ← selectWorkload db workloadId
  match w.activeRevisionId with
  | none => return db
  | some revisionId =>
    if !(w.state = .admitted || w.state = .queued || w.state = .running) then
      return db
    let revision ← orRaise .durableStore ((db.revisions.find? revisionId).filter
      (fun r => r.workloadId = workloadId))
    materializeRounds D ids revision now limit db

end Metnos.Durable
