import Mathlib.Data.Rat.Floor
import Metnos.Lib.Json
import Metnos.Lib.Table
import Metnos.Lib.Transaction

/-!
# Invocations.Queue — what a call asks of a device, its digest, and the payload that is signed

The part of `enqueue_invocation` before the transaction: the checks of the call, the semantic
request whose digest identifies it, and the payload.  What the catalog, the device registry and the
file broker answer is part of the call.
-/

namespace Metnos.Invocations

/-- The exceptions of `invocations.py`; a rejected float is an `InvocationError` too. -/
inductive InvocationError
  | device | executor | operation | filesystem | identity | context | float | conflict | integrity
  | result | signature | unknown | provider
deriving DecidableEq

/-- What the queue reads of a device: the owner, and `protocol_capabilities`. -/
structure Device where
  ownerUserId : String
  revoked : Bool
  capabilities : List String

/-- What the queue reads of a reverified executor.  `filesystem` is the contract it claims for the
arguments of the call, `reverses` whether its manifest authorizes `module.reverse`. -/
structure ExecutorArtifact where
  manifestSha256 : String
  codeSha256 : String
  filesystem : Option String
  reverses : Bool

/-- `REMOTE_REVERSE_CAPABILITY`, and the capability of `filesystem_permissions`. -/
def remoteReverseCapability : String := "executor_reverse_v1"
def filesystemCapability : String := "filesystem_broker_v1"

def hasKeys (fields : List (String × Json)) (keys : List String) : Bool :=
  fields.all (fun f => keys.contains f.1) && keys.all (fun k => (Json.get? fields k).isSome)

def isObject : Option Json → Bool
  | some (.obj _) => true
  | _ => false

/-- `_validate_operation`. -/
def validateOperation (artifact : ExecutorArtifact) (args : List (String × Json))
    (operation : String) (dev : Device) : Except InvocationError Unit :=
  if operation = "invoke" then
    if artifact.filesystem.isSome && !dev.capabilities.contains filesystemCapability then
      .error .operation
    else .ok ()
  else if operation ≠ "reverse" then .error .operation
  else if !dev.capabilities.contains remoteReverseCapability then .error .operation
  else if !(hasKeys args ["plan", "results"] && isObject (Json.get? args "plan") &&
      isObject (Json.get? args "results")) then .error .operation
  else if !artifact.reverses then .error .operation
  else .ok ()

/-- `_validate_dispatch_identity`. -/
def validateDispatchIdentity (value : String) : Except InvocationError String :=
  if 8 ≤ value.length && value.length ≤ 256 &&
      value.toList.all (fun c => c.isAlphanum || "._:-".toList.contains c) then .ok value
  else .error .identity

/-! ### The execution context -/

def executionResourceKeys : List String := ["cpu", "device", "llm", "local_io", "network_io", "vlm"]

def contextIdentities : List String :=
  ["owner_user_id", "workload_id", "revision_id", "stage_id", "unit_key", "attempt_id"]

def contextKeys : List String := contextIdentities ++ ["priority", "resource_claims", "deadline_at"]

def resourceLimit (key : String) : ℤ := if key = "llm" || key = "vlm" then 32 else 64

/-- The pairs of `resource_claims`, a dict or a list of pairs. -/
def resourceItems : Json → List (Option (String × Json))
  | .obj fields => fields.map some
  | .arr items => items.map fun
    | .arr [.str key, amount] => some (key, amount)
    | _ => none
  | _ => []

def normalizeResource : Option (String × Json) → Except InvocationError Json
  | some (key, .int amount) =>
    if 0 ≤ amount ∧ amount ≤ resourceLimit key then .ok (.arr [.str key, .int amount])
    else .error .context
  | _ => .error .context

def validIdentity : Option Json → Bool
  | some (.str s) => s ≠ "" && s.length ≤ 256
  | _ => false

def validPriority : Option Json → Bool
  | some (.str s) => ["low", "normal", "high"].contains s
  | _ => false

def validDeadlineAt : Option Json → Bool
  | some .null => true
  | some (.str s) => s.toList.getLast? = some 'Z' && s.length ≤ 64
  | _ => false

/-- `_normalize_execution_context` on the supplied fields. -/
def normalizeExecutionContext (supplied : List (String × Json)) :
    Except InvocationError Json := do
  if !hasKeys supplied contextKeys then throw .context
  if !contextIdentities.all (fun name => validIdentity (Json.get? supplied name)) then
    throw .context
  if !validPriority (Json.get? supplied "priority") then throw .context
  let items := resourceItems ((Json.get? supplied "resource_claims").getD .null)
  if items.map (fun item => item.map Prod.fst) ≠ executionResourceKeys.map some then throw .context
  let resources ← items.mapM normalizeResource
  if !validDeadlineAt (Json.get? supplied "deadline_at") then throw .context
  return .obj ([("schema_version", .str "metnos.execution-context/1")] ++
    (contextIdentities ++ ["priority"]).map
      (fun name => (name, (Json.get? supplied name).getD .null)) ++
    [("resource_claims", .arr resources),
      ("deadline_at", (Json.get? supplied "deadline_at").getD .null)])

/-! ### The request and its payload -/

/-- The arguments of `enqueue_invocation`, with what the registry, the catalog, `write_specs` and
`_new_invocation_id` answer it. -/
structure Call where
  deviceId : String
  dev : Option Device
  executor : String
  artifact : Option ExecutorArtifact
  args : List (String × Json)
  writeSpecs : Option Json
  turnId : Option String
  scope : String
  reversibility : String
  envInjections : Option (List (String × Json))
  deadlineMs : ℤ
  originActor : String
  originChannel : String
  newInvocationId : String
  invocationId : Option String
  dispatchKey : Option String
  executionContext : Option (List (String × Json))
  operation : String

/-- `semantic_request`. -/
structure Request where
  turnId : String
  executor : String
  manifestSha256 : String
  codeSha256 : String
  args : Json
  scope : String
  reversibility : String
  envInjections : Json
  deadlineMs : ℤ
  dispatchKey : String
  executionContext : Option Json
  operation : String

def Request.fields (r : Request) : List (String × Json) :=
  [("turn_id", .str r.turnId), ("executor", .str r.executor),
    ("manifest_sha256", .str r.manifestSha256), ("code_sha256", .str r.codeSha256),
    ("args", r.args), ("scope", .str r.scope), ("reversibility", .str r.reversibility),
    ("env_injections", r.envInjections), ("deadline_ms", .int r.deadlineMs),
    ("dispatch_key", .str r.dispatchKey), ("execution_context", r.executionContext.getD .null),
    ("operation", .str r.operation)]

def Request.toJson (r : Request) : Json := .obj r.fields

/-- The text under the hash of `_request_digest`. -/
def Request.text (r : Request) : Option (List Char) :=
  (Json.canonicalText r.toJson).map fun text => "metnos:remote-dispatch:1\x00".toList ++ text

/-- `payload`: the context, the operation and the grants are left out when there is nothing to
say. -/
def Request.payload (r : Request) (invocationId : String) (grants : List Json) : Json :=
  .obj ([("invocation_id", .str invocationId), ("turn_id", .str r.turnId),
    ("executor", .str r.executor), ("manifest_sha256", .str r.manifestSha256),
    ("code_sha256", .str r.codeSha256), ("args", r.args), ("scope", .str r.scope),
    ("reversibility", .str r.reversibility), ("env_injections", r.envInjections),
    ("deadline_ms", .int r.deadlineMs)] ++
    (r.executionContext.map fun context => ("execution_context", context)).toList ++
    (if r.operation = "invoke" then [] else [("operation", .str r.operation)]) ++
    (if grants.isEmpty then [] else [("managed_provider_grants", .arr grants)]))

/-- The arguments that are signed: the entries of a writing executor are resolved first. -/
def Call.signedArgs (c : Call) (artifact : ExecutorArtifact) :
    Except InvocationError (List (String × Json)) :=
  if c.operation = "invoke" && artifact.filesystem = some "write" then
    match c.writeSpecs with
    | some specs => .ok ((c.args.filter fun f => f.1 ≠ "files") ++ [("files", specs)])
    | none => .error .filesystem
  else .ok c.args

def Call.device (c : Call) : Except InvocationError Device :=
  match c.dev with
  | some dev => if dev.revoked then .error .device else .ok dev
  | none => .error .device

def Call.executorArtifact (c : Call) : Except InvocationError ExecutorArtifact :=
  match c.artifact with
  | some artifact => .ok artifact
  | none => .error .executor

def Call.chosenId (c : Call) : Except InvocationError String :=
  match c.invocationId with
  | some supplied => validateDispatchIdentity supplied
  | none => .ok c.newInvocationId

def Call.normalizedDispatch (c : Call) : Except InvocationError String :=
  match c.dispatchKey with
  | some key => validateDispatchIdentity key
  | none => .ok ""

def Call.normalizedContext (c : Call) : Except InvocationError (Option Json) :=
  match c.executionContext with
  | some supplied => (normalizeExecutionContext supplied).map some
  | none => .ok none

/-- The call up to the digest: the device, the chosen id and the request. -/
def Call.request (c : Call) : Except InvocationError (Device × String × Request) := do
  let dev ← c.device
  let artifact ← c.executorArtifact
  validateOperation artifact c.args c.operation dev
  let args ← c.signedArgs artifact
  let chosenId ← c.chosenId
  let dispatchKey ← c.normalizedDispatch
  let context ← c.normalizedContext
  return (dev, chosenId, ⟨c.turnId.getD "", c.executor, artifact.manifestSha256,
    artifact.codeSha256, .obj args, c.scope, c.reversibility, .obj (c.envInjections.getD []),
    c.deadlineMs, dispatchKey, context, c.operation⟩)

end Metnos.Invocations

/-!
## The table of invocations and the transactions on it

`enqueue_invocation`, `next_invocation` (a probe without a lock and the claim under it),
`complete_invocation`, `expire_stale_invocations`, `purge_invocations` and `mark_abandoned`.  Times
are seconds; a timestamp text has whole seconds and compares as the number of them.
-/

namespace Metnos.Invocations

inductive RowState
  | queued | delivered | done | failed | expired
deriving DecidableEq

structure Row where
  invocationId : String
  deviceId : String
  payload : Json
  state : RowState
  createdAt : ℤ
  createdEpoch : ℚ
  deliveredAt : Option ℤ
  deliveredEpoch : Option ℚ
  deadlineMs : ℤ
  completedAt : Option ℤ
  completedEpoch : Option ℚ
  resultJson : Option Json
  abandonedByTurn : Bool
  dispatchKey : String
  payloadDigest : String
  ownerUserId : String
  originActor : String
  originChannel : String

abbrev Db := Table Row String Row.invocationId

/-- `_now_iso`. -/
def iso (t : ℚ) : ℤ := ⌊t⌋

/-- `REDELIVERY_GRACE_S`. -/
def redeliveryGraceS : ℚ := 30

def RowState.terminal : RowState → Bool
  | .done | .failed | .expired => true
  | .queued | .delivered => false

/-! ### Enqueue -/

/-- What is outside of the queue's code: SHA-256 as a text, and the grants that
`_managed_provider_grants` signs for an executor, the arguments and an id. -/
structure Signing where
  sha256 : List Char → String
  grants : Option ExecutorArtifact → Json → String → Except InvocationError (List Json)

/-- The rows an identity is looked up by, in the order of their ids. -/
def existingRows (db : Db) (chosenId deviceId dispatchKey : String) : List Row :=
  (db.rows.filter fun r => decide (r.invocationId = chosenId) ||
    (decide (dispatchKey ≠ "") && decide (r.deviceId = deviceId) &&
      decide (r.dispatchKey = dispatchKey))).insertionSort fun a b => a.invocationId ≤ b.invocationId

def newRow (c : Call) (dev : Device) (r : Request) (chosenId digest : String) (grants : List Json)
    (now : ℚ) : Row :=
  { invocationId := chosenId, deviceId := c.deviceId, payload := r.payload chosenId grants,
    state := .queued, createdAt := iso now, createdEpoch := now, deliveredAt := none,
    deliveredEpoch := none, deadlineMs := r.deadlineMs, completedAt := none,
    completedEpoch := none, resultJson := none, abandonedByTurn := false,
    dispatchKey := r.dispatchKey, payloadDigest := digest, ownerUserId := dev.ownerUserId,
    originActor := c.originActor, originChannel := c.originChannel }

/-- The transaction of `enqueue_invocation`; the index on devices and dispatch keys is unique. -/
def insertOrFind (db : Db) (row : Row) : Except InvocationError (String × Db) :=
  match existingRows db row.invocationId row.deviceId row.dispatchKey with
  | [] =>
    match db.insert? row with
    | some db' => .ok (row.invocationId, db')
    | none => .error .integrity
  | [found] =>
    if found.payloadDigest = row.payloadDigest then .ok (found.invocationId, db)
    else .error .conflict
  | _ => .error .conflict

/-- `_request_digest`. -/
def requestDigest (G : Signing) (r : Request) : Except InvocationError String :=
  match r.text with
  | some text => .ok ("sha256:" ++ G.sha256 text)
  | none => .error .float

/-- `sign_payload`, by the text it signs. -/
def signPayload (payload : Json) : Except InvocationError (List Char) :=
  match Json.canonicalText payload with
  | some text => .ok text
  | none => .error .float

/-- `enqueue_invocation` up to its transaction: the row it would insert. -/
def preparedRow (G : Signing) (c : Call) (now : ℚ) : Except InvocationError Row := do
  let (dev, chosenId, r) ← c.request
  let digest ← requestDigest G r
  let grants ← G.grants c.artifact r.args chosenId
  let _ ← signPayload (r.payload chosenId grants)
  return newRow c dev r chosenId digest grants now

/-- `enqueue_invocation`: the returned id, and the table after the call. -/
def enqueueInvocation (G : Signing) (db : Db) (c : Call) (now : ℚ) :
    Except InvocationError (String × Db) := do
  let row ← preparedRow G c now
  insertOrFind db row

/-! ### Delivery -/

/-- The part of the predicate that the janitor shares: queued, or delivered and not heard of. -/
def Row.due (r : Row) (now : ℚ) : Bool :=
  r.state = .queued ||
    (decide (r.state = .delivered) &&
      decide ((r.deadlineMs : ℚ) / 1000 + redeliveryGraceS < now - r.deliveredEpoch.getD 0))

/-- `where` in `next_invocation`. -/
def Row.eligible (r : Row) (deviceId : String) (cursor : Option String) (now : ℚ) : Bool :=
  decide (r.deviceId = deviceId) && decide (cursor.getD "" < r.invocationId) && r.due now

/-- The probe of `next_invocation`. -/
def probe (db : Db) (deviceId : String) (cursor : Option String) (now : ℚ) : Option Row :=
  ((db.rows.filter fun r => r.eligible deviceId cursor now).insertionSort
    fun a b => a.invocationId ≤ b.invocationId).head?

def Row.deliver (now at_ : ℚ) (r : Row) : Row :=
  { r with state := .delivered, deliveredAt := some (iso at_), deliveredEpoch := some now }

/-- The claim of `next_invocation`, for the id the probe found: none if another poll was first. -/
def claim (db : Db) (id deviceId : String) (cursor : Option String) (now at_ : ℚ) : Option Db :=
  db.cas id (fun r => r.eligible deviceId cursor now) (Row.deliver now at_) fun _ => rfl

/-! ### Completion -/

def Row.complete (state : RowState) (result : Json) (now : ℚ) (r : Row) : Row :=
  { r with
    state := state
    completedAt := some (iso now)
    completedEpoch := some now
    resultJson := some result }

def field? (result : List (String × Json)) (name : String) : Option String :=
  match Json.get? result name with
  | some (.str s) => some s
  | _ => none

/-- `result.get("ok")`, as a condition. -/
def succeeded (result : List (String × Json)) : Bool := (Json.get? result "ok").any Json.truthy

/-- `complete_invocation`.  `dev` is the device the result names; `verified` whether its signature
covers the body received. -/
def completeInvocation (db : Db) (dev : Option Device) (verified : Bool)
    (result : List (String × Json)) (now : ℚ) : Except InvocationError Db :=
  match field? result "invocation_id", field? result "device_id" with
  | some invocationId, some deviceId =>
    if !dev.any (fun d => !d.revoked) || !verified then .error .signature
    else match db.find? invocationId with
      | none => .error .unknown
      | some row =>
        if row.deviceId ≠ deviceId then .error .signature
        else if row.state = .done ∨ row.state = .failed then .ok db
        else .ok (db.updateWhere (fun r => r.invocationId = invocationId)
          (Row.complete (if succeeded result then .done else .failed) (.obj result) now) fun _ => rfl)
  | _, _ => .error .result

/-! ### Janitors -/

def Row.expire (now at_ : ℚ) (r : Row) : Row :=
  { r with state := .expired, completedAt := some (iso at_), completedEpoch := some now }

/-- `expire_stale_invocations`. -/
def expireStaleInvocations (db : Db) (ttlH now at_ : ℚ) : Db :=
  if ttlH ≤ 0 then db
  else db.updateWhere (fun r => decide (r.createdAt < iso (now - ttlH * 3600)) && r.due now)
    (Row.expire now at_) fun _ => rfl

/-- Completed before the cutoff; without a time of completion, delivered before it. -/
def Row.purgeable (r : Row) (cutoff : ℚ) : Bool :=
  r.state.terminal &&
    match r.completedAt, r.deliveredEpoch with
    | some completed, _ => decide (completed < iso cutoff)
    | none, some delivered => decide (delivered < cutoff)
    | none, none => false

/-- `purge_invocations`. -/
def purgeInvocations (db : Db) (olderThanDays : ℤ) (now : ℚ) : Db :=
  db.keep fun r => !r.purgeable (now - olderThanDays * 86400)

/-- `mark_abandoned`. -/
def markAbandoned (db : Db) (id : String) : Db :=
  db.updateWhere (fun r => decide (r.invocationId = id) &&
    (decide (r.state = .queued) || decide (r.state = .delivered)))
    (fun r => { r with abandonedByTurn := true }) fun _ => rfl

end Metnos.Invocations

/-!
## The provider grants of an invocation

`_managed_provider_grants`: a grant for each provider that the manifest declares and that the
arguments select, signed on its own.  What a manifest declares, whether its author is the
installation's, and the signature of a text are parameters.
-/

namespace Metnos.Invocations

/-- `ManagedDependency`, as `_managed_dependencies` reads it. -/
structure ManagedDependency where
  key : String
  packageId : String
  mode : String
  interface : String
  domainsArg : String
  sensorTypesArg : String
  assembly : String
  entryType : String

/-- The dict of a grant. -/
structure ProviderGrant where
  invocationId : String
  manifestSha256 : String
  dependencyKey : String
  source : String
  packageId : String
  interface : String
  assembly : String
  entryType : String
  domains : List String
  sensorTypes : List String
  serverSig : String

def ProviderGrant.fields (g : ProviderGrant) : List (String × Json) :=
  [("invocation_id", .str g.invocationId), ("manifest_sha256", .str g.manifestSha256),
    ("dependency_key", .str g.dependencyKey), ("source", .str g.source),
    ("package_id", .str g.packageId), ("interface", .str g.interface),
    ("assembly", .str g.assembly), ("entry_type", .str g.entryType),
    ("domains", .arr (g.domains.map .str)), ("sensor_types", .arr (g.sensorTypes.map .str)),
    ("server_sig", .str g.serverSig)]

def ProviderGrant.toJson (g : ProviderGrant) : Json := .obj g.fields

/-! ### Selectors -/

def validSelector (s : String) : Bool :=
  s.length ≤ 32 && s.toList.head?.any Char.isAlpha &&
    s.toList.all fun c => c.isAlphanum || c = '_'

/-- `sorted(set(value))`. -/
def canonicalSelectors (names : List String) : List String :=
  names.dedup.insertionSort (· ≤ ·)

def textItem : Json → Option String
  | .str s => some s
  | _ => none

/-- A selector argument that is not given: absent, null or an empty list. -/
def unselected : Option Json → Bool
  | none | some .null | some (.arr []) => true
  | _ => false

def selection : Option Json → Except InvocationError (List String)
  | some (.arr items) =>
    match items.mapM textItem with
    | some names =>
      if names.isEmpty || 16 < names.length || !names.all validSelector then .error .provider
      else if (canonicalSelectors names).length ≠ names.length then .error .provider
      else .ok (canonicalSelectors names)
    | none => .error .provider
  | _ => .error .provider

/-- `_provider_selectors`. -/
def providerSelectors (args : List (String × Json)) (dependency : ManagedDependency) :
    Except InvocationError (Option (List String × List String)) :=
  let rawDomains := Json.get? args dependency.domainsArg
  let rawSensorTypes := Json.get? args dependency.sensorTypesArg
  if unselected rawDomains && unselected rawSensorTypes then .ok none
  else do
    let domains ← selection rawDomains
    let sensorTypes ← selection rawSensorTypes
    return some (domains, sensorTypes)

/-! ### Grants -/

def closedSelectors (names : List String) : Bool :=
  !names.isEmpty && decide (names = canonicalSelectors names) && names.all validSelector

def separator : String := String.singleton (Char.ofNat 0x1f)

/-- `managed_provider_grant_body`. -/
def managedProviderGrantBody (g : ProviderGrant) : Except InvocationError (List Char) :=
  let values := [g.invocationId, g.manifestSha256, g.dependencyKey, g.source, g.packageId,
    g.interface, g.assembly, g.entryType]
  if values.any (fun value => value = "" || value.toList.contains (Char.ofNat 0x1f)) then
    .error .provider
  else if !closedSelectors g.domains || !closedSelectors g.sensorTypes then .error .provider
  else .ok (separator.intercalate ("managed-provider-grant" ::
    (values ++ [",".intercalate g.domains, ",".intercalate g.sensorTypes]))).toList

/-- What the manifests declare (none for one that is malformed), which of them the author's key
signed, and the author's signature of a text. -/
structure Authority where
  dependencies : ExecutorArtifact → Option (List ManagedDependency)
  authored : ExecutorArtifact → Bool
  sign : List Char → String

def signedGrant (A : Authority) (artifact : ExecutorArtifact) (invocationId : String) :
    ManagedDependency × List String × List String → Except InvocationError ProviderGrant
  | (dependency, domains, sensorTypes) => do
    let grant : ProviderGrant :=
      { invocationId := invocationId, manifestSha256 := artifact.manifestSha256,
        dependencyKey := dependency.key, source := "winget", packageId := dependency.packageId,
        interface := dependency.interface, assembly := dependency.assembly,
        entryType := dependency.entryType, domains := domains, sensorTypes := sensorTypes,
        serverSig := "" }
    let body ← managedProviderGrantBody grant
    return { grant with serverSig := A.sign body }

/-- The providers that the arguments select. -/
def selectedProviders (args : List (String × Json)) :
    List ManagedDependency →
      Except InvocationError (List (ManagedDependency × List String × List String))
  | [] => .ok []
  | dependency :: rest =>
    if dependency.mode ≠ "provider" then selectedProviders args rest
    else do
      let selectors ← providerSelectors args dependency
      let more ← selectedProviders args rest
      return match selectors with
        | some chosen => (dependency, chosen) :: more
        | none => more

/-- `_managed_provider_grants`. -/
def managedProviderGrants (A : Authority) (artifact : ExecutorArtifact)
    (args : List (String × Json)) (invocationId : String) :
    Except InvocationError (List ProviderGrant) :=
  match A.dependencies artifact with
  | none => .error .provider
  | some dependencies => do
    let selected ← selectedProviders args dependencies
    if selected.isEmpty then return []
    if !A.authored artifact then throw .provider
    selected.mapM (signedGrant A artifact invocationId)

def objectFields : Json → List (String × Json)
  | .obj fields => fields
  | _ => []

/-- The queue's signing, with the grants as the code computes them. -/
def Authority.signing (A : Authority) (sha256 : List Char → String) : Signing where
  sha256 := sha256
  grants
    | none, _, _ => .error .executor
    | some artifact, args, invocationId =>
      (managedProviderGrants A artifact (objectFields args) invocationId).map
        (List.map ProviderGrant.toJson)

theorem Authority.grants_ok {A : Authority} {sha256 : List Char → String}
    {artifact : Option ExecutorArtifact} {args : Json} {invocationId : String} {grants : List Json}
    (h : (A.signing sha256).grants artifact args invocationId = .ok grants) :
    ∃ gs : List ProviderGrant, grants = gs.map ProviderGrant.toJson := by
  cases artifact with
  | none => cases h
  | some artifact =>
    simp only [Authority.signing] at h
    cases hgrants : managedProviderGrants A artifact (objectFields args) invocationId with
    | error err => rw [hgrants] at h; cases h
    | ok gs =>
      rw [hgrants] at h
      exact ⟨gs, (Except.ok.inj h).symm⟩

end Metnos.Invocations
