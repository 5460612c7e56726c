import Mathlib
import Metnos.Durable.Admission
import Metnos.Lib.Transaction

/-!
# Durable.Compile — from a plan to the stages of a revision

`compile_plan` with the parts of `schema.py` it rests on: the bindings and invalidation keys of a
stage, the contracts of runners and output schemas, the checks of every stage in topological order
and the fingerprint that unit keys are built on.  A JSON value inside a plan is its canonical text;
what `hashlib` computes is a parameter.
-/

namespace Metnos.Durable

/-! ## Plans -/

/-- `input_bindings`: where an argument comes from. -/
inductive InputRef
  | literal (value : String)
  | revisionInventory
  | sourcePath
  | sourceRecord
  | dependencyResult (stage : String) (field : Option String)
  | dependencyEntries (stage : String) (field : Option String)
deriving DecidableEq

/-- `_INVALIDATION_KEYS`. -/
inductive InvalidationKey
  | sourceDigest | dependenciesDigest | runnerContractDigest | semanticArgsDigest
  | modelBindingDigest | promptDigest | reductionOrder | reductionFanIn
deriving DecidableEq

/-- One entry of `plan.stages`, before compilation. -/
structure StageSpec where
  key : String
  stageType : StageType
  dependsOn : List String
  runnerKind : RunnerKind
  runnerName : String
  effectProfile : DurableEffect
  cardinality : Cardinality
  maxUnits : ℕ
  entryIdentityField : Option String
  reduction : Option Reduction
  inputBindings : List (String × InputRef)
  outputSchema : String
  retry : RetryPolicy
  timeoutS : ℕ
  invalidationKeys : List InvalidationKey
  resources : Resources
  requiredFlag : Bool
  /-- `placement.target`, with the device when there is one. -/
  placement : Option (String × Option String)
deriving DecidableEq

structure PlanSpec where
  stages : List StageSpec
  budgets : Budgets
  maxUnits : ℕ
  maxAttemptsPerUnit : ℕ
  maxSources : ℕ
  maxTotalBytes : ℕ
  failureDeclared : Bool
  toleratedErrorClasses : List UnitError
  requiredArtifacts : List ArtifactRequirement

/-- One source of a sealed inventory, with all its fields. -/
structure SealedSource where
  sourceId : ℕ
  ordinal : ℕ
  deviceId : String
  locatorRedacted : String
  kind : String
  sizeBytes : ℕ
  mtimeNs : ℕ
  contentDigest : ℕ
  state : SourceState
  accounted : Bool
deriving DecidableEq

structure SealedInventory where
  sources : List SealedSource
  digest : ℕ
  /-- Whether the canonical envelope is small enough to be kept inline. -/
  inline : Bool
deriving DecidableEq

/-! ## Contracts -/

/-- `FrozenRunnerContract`: the facts the compiler reads. -/
structure RunnerContract where
  kind : RunnerKind
  name : String
  contractDigest : ℕ
  allowedEffects : List DurableEffect
  inputNames : List String
  requiredInputNames : List String
  inputTypes : List (String × String)
  outputSchemaNames : List String
  modelBindingDigest : Option ℕ
  promptDigest : Option ℕ
  modelMaxCalls : Option ℕ
  modelMaxInputTokens : Option ℕ
  modelMaxOutputTokens : Option ℕ
  modelCostPolicyZero : Bool
  supportsHierarchicalReduction : Bool

/-- `ApprovedOutputSchema`: the fields, and the fields of an entry, with the declared type of
each. -/
structure OutputSchema where
  digest : ℕ
  fields : List (String × Option String)
  entryFields : List (String × Option String)

/-- An entry of `invalidation_facts`. -/
inductive FactValue
  | digest (value : ℕ)
  | text (value : String)
  | number (value : ℕ)
deriving DecidableEq

/-- What `digest_json(.., "durable-stage-invalidation")` hashes. -/
structure StageFingerprint where
  stage : StageSpec
  runnerContractDigest : ℕ
  outputSchemaDigest : ℕ
  invalidationFacts : List (InvalidationKey × FactValue)
  /-- Of a reduce stage: its hierarchical parameters, `none` for a direct one. -/
  reduction : Option (Option Reduction)
deriving DecidableEq

/-- The hash values of plans, inventories and stages, and the text behind the digest of a result:
a digest stands for one canonical payload. -/
structure PlanDigests extends Digests where
  stage : StageFingerprint → ℕ
  inventory : List SealedSource → ℕ
  bindings : List (String × InputRef) → ℕ
  dependencies : List ℕ → ℕ
  plan : PlanSpec → ℕ
  internalRunner : String → ℕ
  /-- The canonical payload of a result digest. -/
  payloadJson : ℕ → String
  /-- What the store reads of that payload. -/
  payload : ℕ → Payload
  /-- The schema the payload was validated by. -/
  schemaVersion : ℕ → String
  /-- `json_object('entries', json_extract(payload, '$.entries'))`. -/
  entriesObject : String → String

/-! ## Checks of `schema.py` -/

def validBinding (s : StageSpec) : InputRef → Bool
  | .dependencyResult stage _ | .dependencyEntries stage _ => s.dependsOn.contains stage
  | _ => true

/-- The checks of `_validate_stage` on bindings and invalidation keys. -/
def validBindings (s : StageSpec) : Bool :=
  decide (s.inputBindings.map Prod.fst).Nodup && decide (s.inputBindings.length ≤ 64) &&
  s.inputBindings.all (fun b => validBinding s b.2) &&
  s.reduction.all (fun r => decide (s.inputBindings.lookup r.input =
    s.dependsOn.head?.map (fun d => .dependencyEntries d none))) &&
  !s.invalidationKeys.isEmpty && decide s.invalidationKeys.Nodup

/-- `validate_inventory`. -/
def validateInventory (D : PlanDigests) (inventory : SealedInventory) : Bool :=
  decide (inventory.sources.length ≤ 1000000) &&
  decide (inventory.sources.map SealedSource.sourceId).Nodup &&
  decide (inventory.sources.map SealedSource.ordinal = List.range inventory.sources.length) &&
  decide (inventory.digest = D.inventory inventory.sources)

/-! ## Runner contracts -/

/-- `_INTERNAL_EFFECTS`. -/
def internalEffect : String → Option DurableEffect
  | "committed_entries" | "sealed_inventory" | "schema_and_coverage_validator" => some .pure
  | "artifact_store_publish" => some .idempotent
  | _ => none

/-- `_INTERNAL_INPUT_TYPES`. -/
def internalInputTypes : String → List (String × String)
  | "committed_entries" => [("references", "array")]
  | "sealed_inventory" => [("inventory", "object")]
  | "schema_and_coverage_validator" => [("assembled", "object")]
  | "artifact_store_publish" => [("artifacts", "array"), ("validation", "array")]
  | _ => []

/-- `_internal_contract`. -/
def internalContract (D : PlanDigests) (name schema : String) : Option RunnerContract := do
  let effect ← internalEffect name
  let inputs := internalInputTypes name
  return {
    kind := .internal
    name := name
    contractDigest := D.internalRunner name
    allowedEffects := [effect]
    inputNames := inputs.map Prod.fst
    requiredInputNames := inputs.map Prod.fst
    inputTypes := inputs
    outputSchemaNames := [schema]
    modelBindingDigest := none
    promptDigest := none
    modelMaxCalls := none
    modelMaxInputTokens := none
    modelMaxOutputTokens := none
    modelCostPolicyZero := false
    supportsHierarchicalReduction := false }

/-- The JSON types a literal can be passed as, read off its canonical text. -/
def literalTypes (value : String) : List String :=
  match value.toList with
  | [] => []
  | c :: _ =>
    if c = 'n' then []
    else if c = 't' ∨ c = 'f' then ["boolean"]
    else if c = '[' then ["array"]
    else if c = '{' then ["object"]
    else if c.toNat = 34 then ["string"]
    else if value.toList.any (fun d => d = '.' || d = 'e' || d = 'E') then ["number"]
    else ["integer", "number"]

/-- The types a binding provides; `none` where `_validate_binding_fields` raises. -/
def providedTypes (s : StageSpec) (schemas : List (String × OutputSchema)) :
    InputRef → Option (List String)
  | .literal value => some (literalTypes value)
  | .revisionInventory => some ["object"]
  | .sourcePath => some ["array", "string"]
  | .sourceRecord => some ["object"]
  | .dependencyResult stage field => do
    let schema ← schemas.lookup stage
    match field with
    | none => some ["object"]
    | some f => (schema.fields.lookup f).map Option.toList
  | .dependencyEntries stage field => do
    let schema ← schemas.lookup stage
    let _ ← schema.fields.lookup "entries"
    match field with
    | none => some ("array" :: if s.entryIdentityField.isSome then ["object"] else [])
    | some f => (schema.entryFields.lookup f).map Option.toList

/-- `_validate_binding_fields`; an internal runner's arguments are not typed. -/
def validateBindingFields (s : StageSpec) (contract : RunnerContract)
    (schemas : List (String × OutputSchema)) : Bool :=
  let names := s.inputBindings.map Prod.fst
  (contract.kind = .internal ||
    (names.all contract.inputNames.contains && contract.requiredInputNames.all names.contains)) &&
  s.inputBindings.all (fun b => (providedTypes s schemas b.2).any (fun types =>
    contract.kind = .internal || (contract.inputTypes.lookup b.1).any types.contains))

/-! ## Compilation -/

/-- A stage with the contracts it was compiled against. -/
structure CompiledStage where
  stage : StageSpec
  contract : RunnerContract
  schema : OutputSchema
  invalidationFacts : List (InvalidationKey × FactValue)
  invalidationDigest : ℕ

/-- What the loop of `compile_plan` carries from stage to stage. -/
structure CompilerState where
  schemas : List (String × OutputSchema) := []
  exposed : List (String × ℕ) := []
  graph : List CompiledStage := []

/-- The tokens a model stage may reserve for one attempt. -/
def tokenReservation (c : RunnerContract) : ℕ :=
  c.modelMaxCalls.getD 0 * (c.modelMaxInputTokens.getD 0 + c.modelMaxOutputTokens.getD 0)

/-- The model resources of a stage agree with its contract, budget and invalidation keys. -/
def modelChecks (s : StageSpec) (c : RunnerContract) (maxTokens : ℕ) : Bool :=
  let usesModel := decide (0 < s.resources.llm) || decide (0 < s.resources.vlm)
  decide (usesModel = c.modelBindingDigest.isSome) &&
  (!usesModel || (decide (0 < maxTokens) && decide (tokenReservation c ≤ maxTokens) &&
    c.modelCostPolicyZero && s.invalidationKeys.contains .modelBindingDigest &&
    s.invalidationKeys.contains .promptDigest))

/-- Cardinality against the stage's type and bindings. -/
def cardinalityChecks (s : StageSpec) : Bool :=
  (!(s.stageType = .map) || s.cardinality = .perSource ||
    (s.cardinality = .perDependency && s.entryIdentityField.isSome)) &&
  (!(s.stageType = .reduce) || s.cardinality = .perDependency || s.cardinality = .singleton) &&
  (!(s.cardinality = .perSource) ||
    s.inputBindings.any (fun b => b.2 = .sourcePath || b.2 = .sourceRecord))

def reductionChecks (s : StageSpec) (c : RunnerContract) (schema : OutputSchema) : Bool :=
  s.reduction.all (fun r => c.supportsHierarchicalReduction &&
    (schema.fields.lookup "entries").isSome &&
    s.inputBindings.all (fun b => b.1 = r.input || match b.2 with
      | .literal _ => true
      | _ => false) &&
    s.invalidationKeys.contains .reductionOrder && s.invalidationKeys.contains .reductionFanIn)

/-- A fan-out over entries names a text field of the entries of its only dependency. -/
def entryChecks (s : StageSpec) (schemas : List (String × OutputSchema)) : Bool :=
  s.entryIdentityField.all (fun field => s.stageType = .map &&
    match s.dependsOn with
    | [dependency] =>
      decide (((schemas.lookup dependency).bind (fun x => x.entryFields.lookup field)) =
        some (some "string")) &&
      s.inputBindings.any (fun b => match b.2 with
        | .dependencyEntries stage _ => stage = dependency
        | _ => false)
    | _ => false)

/-- The value of one invalidation key; `none` where the key does not apply to the stage. -/
def invalidationFact (D : PlanDigests) (inventoryHash : ℕ) (s : StageSpec) (c : RunnerContract)
    (graph : List CompiledStage) : InvalidationKey → Option FactValue
  | .sourceDigest => some (.digest inventoryHash)
  | .dependenciesDigest => some (.digest (D.dependencies
      ((graph.filter (fun g => s.dependsOn.contains g.stage.key)).map
        CompiledStage.invalidationDigest)))
  | .runnerContractDigest => some (.digest c.contractDigest)
  | .semanticArgsDigest => some (.digest (D.bindings s.inputBindings))
  | .modelBindingDigest => c.modelBindingDigest.map .digest
  | .promptDigest => c.promptDigest.map .digest
  | .reductionOrder => some (.text "utf8-bytewise")
  | .reductionFanIn => s.reduction.map (fun r => .number r.fanIn)

def stageFingerprint (s : StageSpec) (c : RunnerContract) (schema : OutputSchema)
    (facts : List (InvalidationKey × FactValue)) : StageFingerprint :=
  { stage := s
    runnerContractDigest := c.contractDigest
    outputSchemaDigest := schema.digest
    invalidationFacts := facts
    reduction := if s.stageType = .reduce then some s.reduction else none }

/-- The loop of `hierarchical_node_bound`; the inputs are enough rounds. -/
def nodeBound : ℕ → ℕ → ℕ
  | 0, _ => 0
  | rounds + 1, remaining =>
    let produced := (remaining + 1) / 2
    if produced = 1 then 1 else produced + nodeBound rounds produced

/-- `hierarchical_node_bound`. -/
def hierarchicalNodeBound (inputs : ℕ) : Option ℕ :=
  if inputs ≤ 1000000 then some (nodeBound (max 1 inputs) (max 1 inputs)) else none

/-- How many results a stage offers to the stages after it. -/
def exposedUnits (s : StageSpec) (sources : ℕ) (exposed : List (String × ℕ)) : Option ℕ := do
  let bounds ← s.dependsOn.mapM (fun d => exposed.lookup d)
  match s.reduction with
  | some _ =>
    let required ← hierarchicalNodeBound (← bounds.head?)
    if s.maxUnits < required then none else some 1
  | none =>
    match s.cardinality with
    | .singleton =>
      if s.stageType ≠ .inventory ∧ 1024 < bounds.sum then none else some 1
    | .perSource => some (min s.maxUnits sources)
    | .perDependency => some s.maxUnits

/-- What a plan is compiled against. -/
structure CompilerContext where
  runners : RunnerKind → String → Option RunnerContract
  schemas : String → Option OutputSchema
  inventory : SealedInventory
  maxTokens : ℕ

/-- One round of the loop of `compile_plan`. -/
def compileStage (D : PlanDigests) (ctx : CompilerContext) (state : CompilerState)
    (s : StageSpec) : Option CompilerState := do
  let schema ← ctx.schemas s.outputSchema
  let contract ← if s.runnerKind = .internal then internalContract D s.runnerName s.outputSchema
    else ctx.runners s.runnerKind s.runnerName
  guard (contract.kind = s.runnerKind ∧ contract.name = s.runnerName)
  guard (contract.allowedEffects.contains s.effectProfile)
  guard (contract.outputSchemaNames.contains s.outputSchema)
  guard (validateBindingFields s contract state.schemas)
  guard (modelChecks s contract ctx.maxTokens)
  guard (cardinalityChecks s)
  guard (reductionChecks s contract schema)
  guard (entryChecks s state.schemas)
  let facts ← s.invalidationKeys.mapM (fun k => (invalidationFact D ctx.inventory.digest s contract
    state.graph k).map (fun v => (k, v)))
  let exposed ← exposedUnits s ctx.inventory.sources.length state.exposed
  return {
    schemas := (s.key, schema) :: state.schemas
    exposed := (s.key, exposed) :: state.exposed
    graph := state.graph ++ [{
      stage := s
      contract := contract
      schema := schema
      invalidationFacts := facts
      invalidationDigest := D.stage (stageFingerprint s contract schema facts) }] }

/-- `_topological_stages`: the ready stages by key, round after round. -/
def topologicalStages : ℕ → List StageSpec → List String → Option (List StageSpec)
  | 0, remaining, _ => if remaining.isEmpty then some [] else none
  | rounds + 1, remaining, completed =>
    let ready := remaining.filter (fun s => s.dependsOn.all completed.contains)
    if remaining.isEmpty then some []
    else if ready.isEmpty then none
    else do
      let rest ← topologicalStages rounds
        (remaining.filter (fun s => !s.dependsOn.all completed.contains))
        (completed ++ ready.map StageSpec.key)
      return ready.insertionSort (fun a b => a.key ≤ b.key) ++ rest

def StageSpec.planStage (s : StageSpec) (compiled : Option CompiledStage) : PlanStage :=
  { key := s.key
    stageType := s.stageType
    dependsOn := s.dependsOn
    runnerKind := s.runnerKind
    runnerName := s.runnerName
    effectProfile := s.effectProfile
    cardinality := s.cardinality
    maxUnits := s.maxUnits
    entryIdentityField := s.entryIdentityField
    reduction := s.reduction
    outputSchema := s.outputSchema
    retry := s.retry
    timeoutS := s.timeoutS
    resources := s.resources
    requiredFlag := s.requiredFlag
    invalidationDigest := (compiled.map CompiledStage.invalidationDigest).getD 0
    frozenModelContract := compiled.any (fun c => c.contract.modelBindingDigest.isSome)
    modelMaxTokens := compiled.bind (fun c =>
      c.contract.modelBindingDigest.map (fun _ => tokenReservation c.contract)) }

/-- The compiled form of a stage of the plan. -/
def compiledFor (graph : List CompiledStage) (s : StageSpec) : Option CompiledStage :=
  graph.find? (fun c => c.stage.key = s.key)

def PlanSpec.plan (D : PlanDigests) (p : PlanSpec) (graph : List CompiledStage) : Plan :=
  { stages := p.stages.map (fun s => s.planStage (compiledFor graph s))
    budgets := p.budgets
    maxUnits := p.maxUnits
    maxAttemptsPerUnit := p.maxAttemptsPerUnit
    maxSources := p.maxSources
    failureDeclared := p.failureDeclared
    toleratedErrorClasses := p.toleratedErrorClasses
    requiredArtifacts := p.requiredArtifacts
    digest := D.plan p }

/-- `compile_plan`: the compiled stages, in topological order. -/
def compilePlan (D : PlanDigests) (runners : RunnerKind → String → Option RunnerContract)
    (schemas : String → Option OutputSchema) (p : PlanSpec) (inventory : SealedInventory) :
    Option (List CompiledStage) := do
  guard (validatePlan (p.plan D []) && p.stages.all validBindings)
  guard (validateInventory D inventory)
  guard (inventory.sources.length ≤ p.maxSources)
  guard ((inventory.sources.map SealedSource.sizeBytes).sum ≤ p.maxTotalBytes)
  guard (inventory.inline || !p.stages.any (fun s => !(s.stageType = .inventory) &&
    s.inputBindings.any (fun b => b.2 = .revisionInventory)))
  let ordered ← topologicalStages p.stages.length p.stages []
  let state ← ordered.foldlM (compileStage D ⟨runners, schemas, inventory, p.budgets.maxTokens⟩) {}
  return state.graph

/-! ## Compiled revisions -/

/-- A plan and an inventory that `compile_plan` accepted. -/
structure CompiledRevision (D : PlanDigests) where
  runners : RunnerKind → String → Option RunnerContract
  schemas : String → Option OutputSchema
  plan : PlanSpec
  inventory : SealedInventory
  graph : List CompiledStage
  accepted : compilePlan D runners schemas plan inventory = some graph

/-- The columns of a source row that the other operations read. -/
def SealedSource.item (x : SealedSource) : SourceItem :=
  ⟨x.sourceId, x.ordinal, x.contentDigest, x.state, x.accounted⟩

/-- `admit_revision` of a compiled plan. -/
def CompiledRevision.admission {D : PlanDigests} (c : CompiledRevision D) (snapshotDigest : ℕ)
    (capsTruncated partialOutputAccepted usageComplete : Bool) (revisionId : Key) : Admission :=
  { plan := c.plan.plan D c.graph
    inventory := ⟨c.inventory.sources.map SealedSource.item, c.inventory.digest⟩
    snapshotDigest := snapshotDigest
    capsTruncated := capsTruncated
    partialOutputAccepted := partialOutputAccepted
    usageComplete := usageComplete
    revisionId := revisionId }

end Metnos.Durable

/-!
## What an accepted plan guarantees

Compilation visits every stage of the plan once, in an order of dependencies, and gives it the
digest of its fingerprint.
-/

namespace Metnos.Durable

open Transaction

/-- The digest of a compiled stage is that of its fingerprint, which names the inventory exactly
if the stage lists it. -/
structure Fingerprinted (D : PlanDigests) (inventoryHash : ℕ) (c : CompiledStage) : Prop where
  digest : c.invalidationDigest =
    D.stage (stageFingerprint c.stage c.contract c.schema c.invalidationFacts)
  listed : .sourceDigest ∈ c.stage.invalidationKeys →
    (.sourceDigest, .digest inventoryHash) ∈ c.invalidationFacts
  named : ∀ v, (.sourceDigest, v) ∈ c.invalidationFacts → v = .digest inventoryHash

section
variable {D : PlanDigests}

theorem guard_some {p : Prop} [Decidable p] {u : Unit} : (guard p : Option Unit) = some u ↔ p := by
  by_cases h : p
  · simp [h]
  · simp [h]

theorem guard_bind {α : Type} {p : Prop} [Decidable p] {f : Unit → Option α} {a : α} :
    (guard p : Option Unit).bind f = some a ↔ p ∧ f () = some a := by
  by_cases h : p
  · simp [h]
  · simp [h]

theorem topologicalStages_mem {rounds : ℕ} {remaining l : List StageSpec} {completed : List String}
    (h : topologicalStages rounds remaining completed = some l) (s : StageSpec) :
    s ∈ l ↔ s ∈ remaining := by
  induction rounds generalizing remaining completed l with
  | zero =>
    unfold topologicalStages at h
    split at h
    · rename_i hempty
      rw [List.isEmpty_iff.mp hempty, ← Option.some.inj h]
    · cases h
  | succ rounds ih =>
    unfold topologicalStages at h
    dsimp only at h
    split at h
    · rename_i hempty
      rw [List.isEmpty_iff.mp hempty, ← Option.some.inj h]
    split at h
    · cases h
    · simp only [Option.bind_eq_bind, Option.bind_eq_some_iff, Option.pure_def,
        Option.some.injEq] at h
      obtain ⟨rest, hrest, rfl⟩ := h
      rw [List.mem_append, List.mem_insertionSort, ih hrest, List.mem_filter, List.mem_filter]
      cases s.dependsOn.all completed.contains <;> simp

theorem fingerprinted_of_facts {s : StageSpec} {contract : RunnerContract} {schema : OutputSchema}
    {graph : List CompiledStage} {inventoryHash : ℕ} {facts : List (InvalidationKey × FactValue)}
    (h : s.invalidationKeys.mapM (fun k => (invalidationFact D inventoryHash s contract graph k).map
      (fun v => (k, v))) = some facts) :
    Fingerprinted D inventoryHash
      ⟨s, contract, schema, facts, D.stage (stageFingerprint s contract schema facts)⟩ := by
  obtain ⟨back, forth⟩ := mapM_mem h
  refine ⟨rfl, fun hlisted => ?_, fun v hv => ?_⟩
  · obtain ⟨b, hb, heq⟩ := forth _ hlisted
    simp only [invalidationFact, Option.map_some, Option.some.injEq] at heq
    rw [heq]
    exact hb
  · obtain ⟨k, -, heq⟩ := back _ hv
    obtain ⟨x, hx, hpair⟩ := Option.map_eq_some_iff.mp heq
    obtain ⟨rfl, rfl⟩ := Prod.mk.inj hpair
    exact (Option.some.inj hx).symm

theorem compileStage_ok {ctx : CompilerContext} {state state' : CompilerState} {s : StageSpec}
    (h : compileStage D ctx state s = some state') :
    ∃ c, state'.graph = state.graph ++ [c] ∧ c.stage = s ∧
      Fingerprinted D ctx.inventory.digest c := by
  unfold compileStage at h
  obtain ⟨schema, -, h⟩ := Option.bind_eq_some_iff.mp h
  -- the contract of an internal runner, or the one of the catalogue
  by_cases hkind : s.runnerKind = .internal
  all_goals
    first | rw [if_pos hkind] at h | rw [if_neg hkind] at h
    obtain ⟨contract, -, h⟩ := Option.bind_eq_some_iff.mp h
    iterate 8 obtain ⟨-, h⟩ := guard_bind.mp h
    obtain ⟨facts, hfacts, h⟩ := Option.bind_eq_some_iff.mp h
    obtain ⟨exposed, -, h⟩ := Option.bind_eq_some_iff.mp h
    obtain rfl := Option.some.inj h
    exact ⟨_, rfl, rfl, fingerprinted_of_facts hfacts⟩

theorem compileStages_ok {ctx : CompilerContext} {l : List StageSpec}
    {state state' : CompilerState} (h : l.foldlM (compileStage D ctx) state = some state') :
    (∀ c ∈ state'.graph, c ∈ state.graph ∨ c.stage ∈ l ∧ Fingerprinted D ctx.inventory.digest c) ∧
    (∀ c ∈ state.graph, c ∈ state'.graph) ∧ ∀ s ∈ l, ∃ c ∈ state'.graph, c.stage = s := by
  induction l generalizing state with
  | nil =>
    simp only [List.foldlM_nil, Option.pure_def, Option.some.injEq] at h
    subst h
    exact ⟨fun c hc => .inl hc, fun c hc => hc, fun s hs => by cases hs⟩
  | cons s l ih =>
    simp only [List.foldlM_cons, Option.bind_eq_bind, Option.bind_eq_some_iff] at h
    obtain ⟨mid, h1, h2⟩ := h
    obtain ⟨c, hgraph, hstage, F⟩ := compileStage_ok h1
    obtain ⟨new, old, every⟩ := ih h2
    refine ⟨fun x hx => ?_, fun x hx => old x ?_, fun t ht => ?_⟩
    · rcases new x hx with hmid | ⟨hl, hF⟩
      · rw [hgraph, List.mem_append, List.mem_singleton] at hmid
        rcases hmid with hold | rfl
        · exact .inl hold
        · exact .inr ⟨by rw [hstage]; exact List.mem_cons_self .., F⟩
      · exact .inr ⟨List.mem_cons_of_mem _ hl, hF⟩
    · rw [hgraph]
      exact List.mem_append_left _ hx
    · rcases List.mem_cons.mp ht with rfl | ht
      · exact ⟨c, old c (by rw [hgraph]; simp), hstage⟩
      · exact every t ht

/-- What `compile_plan` guarantees of a plan and an inventory. -/
structure Accepted (D : PlanDigests) (p : PlanSpec) (inventory : SealedInventory)
    (graph : List CompiledStage) : Prop where
  stages : ∀ s ∈ p.stages, ∃ c, compiledFor graph s = some c ∧ c.stage = s ∧
    Fingerprinted D inventory.digest c
  sealing : inventory.digest = D.inventory inventory.sources
  sourceIds : (inventory.sources.map SealedSource.sourceId).Nodup

theorem compilePlan_accepted {runners : RunnerKind → String → Option RunnerContract}
    {schemas : String → Option OutputSchema} {p : PlanSpec} {inventory : SealedInventory}
    {graph : List CompiledStage} (h : compilePlan D runners schemas p inventory = some graph) :
    Accepted D p inventory graph := by
  unfold compilePlan at h
  simp only [Option.bind_eq_bind, Option.bind_eq_some_iff, guard_some, Option.pure_def,
    Option.some.injEq] at h
  obtain ⟨-, valid, -, sealed, -, -, -, -, -, -, ordered, hordered, state, hstate, rfl⟩ := h
  rw [Bool.and_eq_true] at valid
  simp only [validateInventory, Bool.and_eq_true, decide_eq_true_eq] at sealed
  have keys : (p.stages.map StageSpec.key).Nodup := by
    have hkeys := valid.1
    simp only [validatePlan, PlanSpec.plan, Bool.and_eq_true, decide_eq_true_eq, List.map_map] at hkeys
    exact hkeys.1.1.1.1.1.1.1.1.1.1.2
  obtain ⟨new, -, every⟩ := compileStages_ok hstate
  have members : ∀ c ∈ state.graph, c.stage ∈ p.stages ∧ Fingerprinted D inventory.digest c := by
    intro c hc
    rcases new c hc with hnone | ⟨hl, F⟩
    · cases hnone
    · exact ⟨(topologicalStages_mem hordered c.stage).mp hl, F⟩
  refine ⟨fun s hs => ?_, sealed.2, sealed.1.1.2⟩
  obtain ⟨c, hc, hstage⟩ := every s ((topologicalStages_mem hordered s).mpr hs)
  unfold compiledFor
  cases hfind : state.graph.find? (fun c => decide (c.stage.key = s.key)) with
  | none =>
    have hno := List.find?_eq_none.mp hfind c hc
    simp [hstage] at hno
  | some c' =>
    obtain ⟨hmem, F⟩ := members c' (List.mem_of_find?_eq_some hfind)
    have hkey : c'.stage.key = s.key := by simpa using List.find?_some hfind
    exact ⟨c', rfl, List.inj_on_of_nodup_map keys hmem hs hkey, F⟩

end

end Metnos.Durable
