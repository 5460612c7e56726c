import Metnos.Lib.Utf8
import Metnos.Ownership.Heads

/-!
# Ownership.Certificates — context transitions and their certificates

A transition is the canonical JSON text of fourteen fields under its own hash.  It is bound to one
certificate, to the certificate's inventory and to the transition before it.
-/

namespace Metnos.Ownership

open Transaction

structure ContextTransition where
  transitionId : String
  requestId : String
  closedBuildId : String
  previousCutoverId : Option String
  previousSetId : String
  previousAdmissionContextId : String
  previousContextEpoch : String
  setId : String
  preparedAdmissionContextId : String
  preparedContextEpoch : String
  contextMaterialSha256 : String
  setJsonSha256 : String
  currentInventoryHash : String
  encoded : Bytes
deriving DecidableEq

/-! ## Inventories -/

def identityLe (a b : String × String) : Prop := a.1 < b.1 ∨ a.1 = b.1 ∧ a.2 ≤ b.2

instance (a b : String × String) : Decidable (identityLe a b) :=
  inferInstanceAs (Decidable (_ ∨ _))

/-- What `CurrentInventoryV1` demands of its identities. -/
def IsInventory (identities : List (String × String)) : Prop :=
  identities = identities.insertionSort identityLe ∧ identities.Nodup ∧
    ∀ i ∈ identities, i.1 ≠ "" ∧ Char.ofNat 0 ∉ i.1.toList ∧ isHexAfter "sha256:" i.2 = true

instance (identities : List (String × String)) : Decidable (IsInventory identities) :=
  inferInstanceAs (Decidable (_ ∧ _ ∧ _))

/-- `CurrentInventoryV1`. -/
structure CurrentInventory where
  identities : List (String × String)
  valid : IsInventory identities

structure ReceiptBinding where
  contractId : String
  generationId : String
  receiptHash : String

/-- `OwnershipCutoverCertificate`. -/
structure Cutover where
  cutoverId : String
  previousCutoverId : Option String
  requestId : String
  currentReceipts : List ReceiptBinding
  closedBuildId : String
  contextTransitionId : String

def transitionInvalid (detail : String) : ChainError :=
  ⟨"birth_context_transition_invalid", detail⟩

def transitionBinding (detail : String) : ChainError :=
  ⟨"birth_context_transition_binding_invalid", detail⟩

/-- `as_proof().inventory`: the identities and the receipt hashes are checked. -/
def Cutover.inventory (cutover : Cutover) : Except ChainError CurrentInventory :=
  let identities := cutover.currentReceipts.map fun r => (r.contractId, r.generationId)
  if h : IsInventory identities then
    if ∀ r ∈ cutover.currentReceipts, isHexAfter "sha256:" r.receiptHash = true then
      .ok ⟨identities, h⟩
    else .error ⟨"birth_cutover_receipt_binding_invalid", ""⟩
  else .error ⟨"birth_cutover_inventory_invalid", ""⟩

variable (site : Site)

def currentInventoryDomain : Bytes :=
  asciiBytes "metnos.executor-birth.current-inventory/v1".toList ++ [0]

/-- `current_inventory_hash_v1`. -/
def currentInventoryHash (inventory : CurrentInventory) : String :=
  "sha256:" ++ site.sha256 (currentInventoryDomain ++ canonical (.arr (inventory.identities.map
    fun i => .obj [("contract_id", .str i.1), ("generation_id", .str i.2)])))

/-! ## Records -/

def transitionIdDomain : Bytes :=
  asciiBytes "metnos.executor-birth.context-transition-id/v1".toList ++ [0]

def maxContextTransitionBytes : ℕ := 64 * 1024

def transitionKeys : List String :=
  ["schema_version", "transition_id", "request_id", "closed_build_id", "previous_cutover_id",
    "previous_set_id", "previous_admission_context_id", "previous_context_epoch", "set_id",
    "prepared_admission_context_id", "prepared_context_epoch", "context_material_sha256",
    "set_json_sha256", "current_inventory_hash"]

/-- `_transition_id`. -/
def transitionIdOf (fields : List (String × Json)) : String :=
  "sha256:" ++ site.sha256 (transitionIdDomain ++
    canonical (.obj (fields.filter (·.1 ≠ "transition_id"))))

/-- The fields of a record that has the right schema. -/
def transitionFields (encoded : Bytes) : Except ChainError (List (String × Json)) :=
  match site.loads encoded with
  | none => .error (transitionInvalid "json")
  | some (.obj fields) => do
    check (fields.map Prod.fst).Nodup (transitionInvalid "duplicate key")
    check ((∀ k ∈ fields.map Prod.fst, k ∈ transitionKeys) ∧
      (∀ k ∈ transitionKeys, k ∈ fields.map Prod.fst) ∧
      schemaOne (Json.get? fields "schema_version") = true ∧
      canonical (.obj fields) = encoded) (transitionInvalid "record schema")
    pure fields
  | some _ => .error (transitionInvalid "record schema")

/-- `_digest`, of this module. -/
def transitionDigest (fields : List (String × Json)) (field : String) : Except ChainError String :=
  (digest fields field).mapError fun _ => transitionInvalid field

/-- `_hex_sha256`. -/
def hexSha256 (fields : List (String × Json)) (field : String) : Except ChainError String :=
  match Json.get? fields field with
  | some (.str s) => if isHexAfter "" s then .ok s else .error (transitionInvalid field)
  | _ => .error (transitionInvalid field)

/-- The record that the fields describe. -/
def transitionOf (fields : List (String × Json)) (encoded : Bytes) :
    Except ChainError ContextTransition := do
  let transitionId ← transitionDigest fields "transition_id"
  let requestId ← transitionDigest fields "request_id"
  let closedBuildId ← transitionDigest fields "closed_build_id"
  let previousCutoverId ← (nullableDigest fields "previous_cutover_id").mapError
    fun _ => transitionInvalid "previous_cutover_id"
  let previousSetId ← hexSha256 fields "previous_set_id"
  let previousContextId ← transitionDigest fields "previous_admission_context_id"
  let previousEpoch ← transitionDigest fields "previous_context_epoch"
  let setId ← hexSha256 fields "set_id"
  let preparedContextId ← transitionDigest fields "prepared_admission_context_id"
  let preparedEpoch ← transitionDigest fields "prepared_context_epoch"
  let materialHash ← hexSha256 fields "context_material_sha256"
  let setHash ← hexSha256 fields "set_json_sha256"
  let inventoryHash ← transitionDigest fields "current_inventory_hash"
  pure ⟨transitionId, requestId, closedBuildId, previousCutoverId, previousSetId,
    previousContextId, previousEpoch, setId, preparedContextId, preparedEpoch, materialHash,
    setHash, inventoryHash, encoded⟩

def expectTransitionId (transition : ContextTransition) : Option String → Except ChainError Unit
  | none => .ok ()
  | some expected => do
    check (isHexAfter "sha256:" expected = true) (transitionInvalid "expected_transition_id")
    check (transition.transitionId = expected) (transitionBinding "transition_id")

def expectInventory (transition : ContextTransition) :
    Option CurrentInventory → Except ChainError Unit
  | none => .ok ()
  | some expected =>
    check (transition.currentInventoryHash = currentInventoryHash site expected)
      (transitionBinding "current inventory")

/-- `verify_context_transition_v1`. -/
def verifyContextTransition (encoded : Bytes) (expectedTransitionId : Option String)
    (expectedInventory : Option CurrentInventory) : Except ChainError ContextTransition := do
  check (encoded ≠ [] ∧ encoded.length ≤ maxContextTransitionBytes)
    (transitionInvalid "record size")
  let fields ← transitionFields site encoded
  let transition ← transitionOf fields encoded
  check (transition.transitionId = transitionIdOf site fields) (transitionInvalid "transition_id")
  expectTransitionId transition expectedTransitionId
  expectInventory site transition expectedInventory
  pure transition

/-! ## Bindings -/

/-- The transition is the one that its bytes and the certificate stand for; any error of the
verification is the caller's own. -/
def transitionAuthority (cutover : Cutover) (transition : ContextTransition) :
    Except ChainError CurrentInventory :=
  let verified := do
    let inventory ← cutover.inventory
    let verified ← verifyContextTransition site transition.encoded
      (some cutover.contextTransitionId) (some inventory)
    pure (inventory, verified)
  match verified with
  | .error _ => .error (invalid "context transition authority")
  | .ok (inventory, verified) => do
    check (verified = transition) (invalid "context transition authority")
    pure inventory

/-- The transition starts from where the one before it has led. -/
def Resumes (transition : ContextTransition) : Option ContextTransition → Prop
  | none => True
  | some previous => transition.previousSetId = previous.setId ∧
      transition.previousAdmissionContextId = previous.preparedAdmissionContextId ∧
      transition.previousContextEpoch = previous.preparedContextEpoch

instance (transition : ContextTransition) (previous : Option ContextTransition) :
    Decidable (Resumes transition previous) :=
  match previous with
  | none => .isTrue trivial
  | some _ => inferInstanceAs (Decidable (_ ∧ _ ∧ _))

/-- `_require_context_transition_binding_v1`. -/
def requireContextTransitionBinding (cutover : Cutover) (transition : ContextTransition)
    (previous : Option ContextTransition) : Except ChainError Unit := do
  let inventory ← transitionAuthority site cutover transition
  check (transition.requestId = cutover.requestId ∧
      transition.closedBuildId = cutover.closedBuildId ∧
      transition.previousCutoverId = cutover.previousCutoverId ∧
      transition.currentInventoryHash = currentInventoryHash site inventory ∧
      Resumes transition previous)
    (invalid "context transition binding")

variable {site} {cutover : Cutover} {transition : ContextTransition} {inventory : CurrentInventory}

end Metnos.Ownership

/-!
## The signed certificate of a cutover

The certificate is a canonical JSON text of fourteen fields that lists the current receipts in their
order; it has its own hash and, over the receipts, a catalogue hash.
-/

namespace Metnos.Ownership

open Transaction

variable (site : Site)

end Metnos.Ownership
