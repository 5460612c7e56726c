import Metnos.Lib.Json
import Metnos.Lib.Sorting
import Metnos.Lib.Utf8

/-!
# Client.Wire — what the client reads of a poll response, and the bytes it verifies

`wire.rs`: the type `Invocation`, as `serde` reads it, and `signed_bytes`; and the check of an
invocation id in `runner.rs`.  `serde_json` keeps objects in a `BTreeMap`, an integer outside of
`i64` and `u64` as a float, and refuses what is nested too deep.
-/

namespace Metnos.Client

/-! ### `serde_json` -/

/-- A `BTreeMap<String, _>` compares its keys by their bytes. -/
abbrev treeInsert {α : Type} (m : List (String × α)) (k : String) (v : α) : List (String × α) :=
  SortedMap.insert Utf8.bytes m k v

abbrev treeOf {α : Type} (entries : List (String × α)) : List (String × α) :=
  SortedMap.ofList Utf8.bytes entries

/-- The range of `i64` and `u64` together. -/
def wireInt (n : ℤ) : Bool := -2 ^ 63 ≤ n && n < 2 ^ 64

mutual

/-- A `Value` as it is read; the digits of a float do not matter here. -/
def readValue : Json → Json
  | .null => .null
  | .bool b => .bool b
  | .int n => if wireInt n then .int n else .float (String.ofList (Json.renderInt n))
  | .float text => .float text
  | .str s => .str s
  | .arr items => .arr (readItems items)
  | .obj fields => .obj (treeOf (readFields fields))

def readItems : List Json → List Json
  | [] => []
  | v :: rest => readValue v :: readItems rest

def readFields : List (String × Json) → List (String × Json)
  | [] => []
  | (k, v) :: rest => (k, readValue v) :: readFields rest

end

/-- The table `ESCAPE`. -/
def serdeEscape (c : Char) : List Char :=
  if c.toNat = 0x08 then ['\\', 'b']
  else if c.toNat = 0x09 then ['\\', 't']
  else if c.toNat = 0x0a then ['\\', 'n']
  else if c.toNat = 0x0c then ['\\', 'f']
  else if c.toNat = 0x0d then ['\\', 'r']
  else if c.toNat < 0x20 then
    ['\\', 'u', '0', '0', Json.hexDigit (c.toNat / 16), Json.hexDigit (c.toNat % 16)]
  else if c.toNat = 0x22 then ['\\', '"']
  else if c.toNat = 0x5c then ['\\', '\\']
  else [c]

def serdeString (s : String) : List Char := '"' :: s.toList.flatMap serdeEscape ++ ['"']

mutual

/-- `serde_json::to_vec`: the entries of a map in its own order. -/
def toVec : Json → List Char
  | .null => ['n', 'u', 'l', 'l']
  | .bool true => ['t', 'r', 'u', 'e']
  | .bool false => ['f', 'a', 'l', 's', 'e']
  | .int n => Json.renderInt n
  | .float text => text.toList
  | .str s => serdeString s
  | .arr items => '[' :: toVecItems items
  | .obj fields => '{' :: toVecFields fields

def toVecItems : List Json → List Char
  | [] => [']']
  | v :: rest => toVec v ++ toVecMoreItems rest

def toVecMoreItems : List Json → List Char
  | [] => [']']
  | v :: rest => ',' :: (toVec v ++ toVecMoreItems rest)

def toVecFields : List (String × Json) → List Char
  | [] => ['}']
  | (k, v) :: rest => serdeString k ++ ':' :: (toVec v ++ toVecMoreFields rest)

def toVecMoreFields : List (String × Json) → List Char
  | [] => ['}']
  | (k, v) :: rest => ',' :: (serdeString k ++ ':' :: (toVec v ++ toVecMoreFields rest))

end

/-- `canonical_bytes`; what is no float is in the range of `i64` or `u64`. -/
def canonicalBytes (value : Json) : Option (List Char) :=
  if value.noFloats then some (toVec value) else none

/-! ### Reading an invocation -/

def readString : Json → Option String
  | .str s => some s
  | _ => none

def readStrings : Json → Option (List String)
  | .arr items => items.mapM readString
  | _ => none

def readU64 : Json → Option ℕ
  | .int n => if 0 ≤ n ∧ n < 2 ^ 64 then some n.toNat else none
  | _ => none

def readEntry (f : String × Json) : Option (String × String) := (readString f.2).map (f.1, ·)

def readStringMap : Json → Option (List (String × String))
  | .obj fields => (fields.mapM readEntry).map treeOf
  | _ => none

/-- `Option<T>`: null is none. -/
def readOption {α : Type} (read : Json → Option α) : Json → Option (Option α)
  | .null => some none
  | v => (read v).map some

def required {α : Type} (fields : List (String × Json)) (name : String)
    (read : Json → Option α) : Option α :=
  (Json.get? fields name).bind read

/-- A field with `serde(default)`. -/
def defaulted {α : Type} (fields : List (String × Json)) (name : String)
    (read : Json → Option α) (default : α) : Option α :=
  match Json.get? fields name with
  | some v => read v
  | none => some default

structure ManagedProviderGrant where
  invocationId : String
  manifestSha256 : String
  dependencyKey : String
  source : String
  packageId : String
  interface : String
  assembly : String
  entryType : String
  domains : List String
  sensorTypes : List String
  serverSig : String

def ManagedProviderGrant.read : Json → Option ManagedProviderGrant
  | .obj fields => do
    let invocationId ← required fields "invocation_id" readString
    let manifestSha256 ← required fields "manifest_sha256" readString
    let dependencyKey ← required fields "dependency_key" readString
    let source ← required fields "source" readString
    let packageId ← required fields "package_id" readString
    let interface ← required fields "interface" readString
    let assembly ← required fields "assembly" readString
    let entryType ← required fields "entry_type" readString
    let domains ← required fields "domains" readStrings
    let sensorTypes ← required fields "sensor_types" readStrings
    let serverSig ← required fields "server_sig" readString
    return ⟨invocationId, manifestSha256, dependencyKey, source, packageId, interface, assembly,
      entryType, domains, sensorTypes, serverSig⟩
  | _ => none

def ManagedProviderGrant.toValue (g : ManagedProviderGrant) : Json :=
  .obj (treeOf [("invocation_id", .str g.invocationId), ("manifest_sha256", .str g.manifestSha256),
    ("dependency_key", .str g.dependencyKey), ("source", .str g.source),
    ("package_id", .str g.packageId), ("interface", .str g.interface),
    ("assembly", .str g.assembly), ("entry_type", .str g.entryType),
    ("domains", .arr (g.domains.map .str)), ("sensor_types", .arr (g.sensorTypes.map .str)),
    ("server_sig", .str g.serverSig)])

structure Invocation where
  invocationId : String
  turnId : String
  executor : String
  manifestSha256 : String
  codeSha256 : String
  args : Json
  operation : String
  scope : String
  reversibility : String
  envInjections : List (String × String)
  executionContext : Option Json
  managedProviderGrants : List ManagedProviderGrant
  deadlineMs : ℕ
  serverSig : String

def readGrants : Json → Option (List ManagedProviderGrant)
  | .arr items => items.mapM ManagedProviderGrant.read
  | _ => none

def Invocation.read : Json → Option Invocation
  | .obj fields => do
    let invocationId ← required fields "invocation_id" readString
    let turnId ← defaulted fields "turn_id" readString ""
    let executor ← required fields "executor" readString
    let manifestSha256 ← required fields "manifest_sha256" readString
    let codeSha256 ← required fields "code_sha256" readString
    let args ← defaulted fields "args" (fun v => some (readValue v)) .null
    let operation ← defaulted fields "operation" readString "invoke"
    let scope ← defaulted fields "scope" readString ""
    let reversibility ← defaulted fields "reversibility" readString ""
    let envInjections ← defaulted fields "env_injections" readStringMap []
    let executionContext ← defaulted fields "execution_context"
      (readOption fun v => some (readValue v)) none
    let managedProviderGrants ← defaulted fields "managed_provider_grants" readGrants []
    let deadlineMs ← defaulted fields "deadline_ms" readU64 60000
    let serverSig ← required fields "server_sig" readString
    return ⟨invocationId, turnId, executor, manifestSha256, codeSha256, args, operation, scope,
      reversibility, envInjections, executionContext, managedProviderGrants, deadlineMs, serverSig⟩
  | _ => none

/-- `serde_json` gives up when it enters this many lists and objects. -/
def recursionLimit : ℕ := 128

/-- The invocation of a `PollResponse`. -/
def readPollResponse (response : Json) : Option (Option Invocation) :=
  if recursionLimit ≤ response.depth then none
  else match response with
    | .obj fields => do
      let invocation ← defaulted fields "invocation" (readOption Invocation.read) none
      let _ ← defaulted fields "server_client_version" (readOption readString) none
      let _ ← defaulted fields "shim_sha256" (readOption readString) none
      return invocation
    | _ => none

/-! ### The bytes that are verified -/

/-- The map of `signed_bytes`. -/
def Invocation.payload (i : Invocation) : List (String × Json) :=
  let payload := treeOf [("invocation_id", .str i.invocationId), ("turn_id", .str i.turnId),
    ("executor", .str i.executor), ("manifest_sha256", .str i.manifestSha256),
    ("code_sha256", .str i.codeSha256), ("args", i.args), ("scope", .str i.scope),
    ("reversibility", .str i.reversibility),
    ("env_injections", .obj (treeOf (i.envInjections.map fun e => (e.1, .str e.2)))),
    ("deadline_ms", .int i.deadlineMs)]
  let payload := if i.operation = "invoke" then payload
    else treeInsert payload "operation" (.str i.operation)
  let payload := if i.managedProviderGrants.isEmpty then payload
    else treeInsert payload "managed_provider_grants"
      (.arr (i.managedProviderGrants.map ManagedProviderGrant.toValue))
  match i.executionContext with
  | some context => treeInsert payload "execution_context" context
  | none => payload

/-- `signed_bytes`. -/
def Invocation.signedBytes (i : Invocation) : Option (List Char) :=
  if i.operation ≠ "invoke" && i.operation ≠ "reverse" then none
  else canonicalBytes (.obj i.payload)

/-! ### The age of an id -/

/-- `INVOCATION_MAX_AGE` and `INVOCATION_MAX_FUTURE`, in nanoseconds. -/
def invocationMaxAge : ℤ := 48 * 3600 * 10 ^ 9
def invocationMaxFuture : ℤ := 5 * 60 * 10 ^ 9

/-- `safe_invocation_id`; where all characters are ASCII, the length is the number of bytes. -/
def safeInvocationId (id : String) : Bool :=
  id ≠ "" && id.length ≤ 128 &&
    id.toList.all fun c => c.isAlphanum || c = '-' || c = '_'

def hexValue (c : Char) : Option ℕ :=
  if '0' ≤ c ∧ c ≤ '9' then some (c.toNat - '0'.toNat)
  else if 'a' ≤ c ∧ c ≤ 'f' then some (c.toNat - 'a'.toNat + 10)
  else if 'A' ≤ c ∧ c ≤ 'F' then some (c.toNat - 'A'.toNat + 10)
  else none

/-- `u64::from_str_radix` to base 16.  A leading plus, which it allows, is not in a safe id. -/
def fromHex (cs : List Char) : Option ℕ :=
  if cs = [] then none
  else do
    let digits ← cs.mapM hexValue
    let n := digits.foldl (fun n d => 16 * n + d) 0
    if n < 2 ^ 64 then some n else none

/-- `invocation_epoch`, in nanoseconds. -/
def invocationEpoch (id : String) : Option ℕ :=
  if !safeInvocationId id then none
  else if id.length ≠ 28 || !("inv-".toList.isPrefixOf id.toList) then none
  else fromHex ((id.toList.drop 4).take 16)

/-- `validate_invocation_freshness`. -/
def validateInvocationFreshness (id : String) (now : ℤ) : Bool :=
  match invocationEpoch id with
  | some issued =>
    !(decide ((issued : ℤ) ≤ now) && decide (invocationMaxAge < now - issued)) &&
      !(decide (now ≤ (issued : ℤ)) && decide (invocationMaxFuture < issued - now))
  | none => false

end Metnos.Client

/-!
## The client's canonical bytes are the server's

The two writers have the same escapes, and a `BTreeMap` the order of `sort_keys`: a value whose
integers the client can hold is read as the value with sorted keys and written as its canonical
text.
-/

namespace Metnos.Client

/-! ### One text -/

theorem serdeEscape_eq (c : Char) : serdeEscape c = Json.escape c := by
  have same : ∀ d : Char, c = d ↔ c.toNat = d.toNat := fun d => Char.toNat_inj.symm
  unfold serdeEscape Json.escape
  simp only [same]
  show _ = if c.toNat = 34 then _ else if c.toNat = 92 then _ else if c.toNat = 10 then _
    else if c.toNat = 13 then _ else if c.toNat = 9 then _ else if c.toNat = 8 then _
    else if c.toNat = 12 then _ else _
  split_ifs <;> first | rfl | omega

theorem serdeString_eq (s : String) : serdeString s = Json.quote s := by
  unfold serdeString Json.quote
  rw [funext serdeEscape_eq]

mutual

theorem toVec_eq : ∀ v : Json, toVec v = Json.render v
  | .null => rfl
  | .bool true => rfl
  | .bool false => rfl
  | .int _ => rfl
  | .float _ => rfl
  | .str s => serdeString_eq s
  | .arr items => by rw [toVec, Json.render, toVecItems_eq items]
  | .obj fields => by rw [toVec, Json.render, toVecFields_eq fields]

theorem toVecItems_eq : ∀ items : List Json, toVecItems items = Json.renderItems items
  | [] => rfl
  | v :: rest => by rw [toVecItems, Json.renderItems, toVec_eq v, toVecMoreItems_eq rest]

theorem toVecMoreItems_eq : ∀ items : List Json, toVecMoreItems items = Json.moreItems items
  | [] => rfl
  | v :: rest => by rw [toVecMoreItems, Json.moreItems, toVec_eq v, toVecMoreItems_eq rest]

theorem toVecFields_eq : ∀ fields : List (String × Json),
    toVecFields fields = Json.renderFields fields
  | [] => rfl
  | (k, v) :: rest => by
    rw [toVecFields, Json.renderFields, serdeString_eq, toVec_eq v, toVecMoreFields_eq rest]

theorem toVecMoreFields_eq : ∀ fields : List (String × Json),
    toVecMoreFields fields = Json.moreFields fields
  | [] => rfl
  | (k, v) :: rest => by
    rw [toVecMoreFields, Json.moreFields, serdeString_eq, toVec_eq v, toVecMoreFields_eq rest]

end

/-! ### One order -/

theorem sort_eq {α : Type} (entries : List (String × α)) :
    SortedMap.sort Utf8.bytes entries = entries.insertionSort fun a b => a.1 ≤ b.1 := by
  have order : (fun a b : String × α => Utf8.bytes a.1 ≤ Utf8.bytes b.1) =
      fun a b => a.1 ≤ b.1 := by
    funext a b
    exact propext Utf8.bytes_le_iff
  show List.insertionSort _ entries = _
  congr 1

theorem bytes_injective : Function.Injective Utf8.bytes := Utf8.bytes_strictMono.injective

theorem treeOf_eq {α : Type} {entries : List (String × α)}
    (nodup : (entries.map Prod.fst).Nodup) :
    treeOf entries = entries.insertionSort fun a b => a.1 ≤ b.1 := by
  rw [treeOf, SortedMap.ofList_eq_sort bytes_injective nodup, sort_eq]

theorem treeOf_perm {α : Type} {entries : List (String × α)}
    (nodup : (entries.map Prod.fst).Nodup) : (treeOf entries).Perm entries := by
  rw [treeOf_eq nodup]
  exact List.perm_insertionSort _ _

theorem sort_congr {α : Type} {l l' : List (String × α)} (perm : l.Perm l')
    (nodup : (l.map Prod.fst).Nodup) :
    l.insertionSort (fun a b => a.1 ≤ b.1) = l'.insertionSort fun a b => a.1 ≤ b.1 := by
  rw [← sort_eq, ← sort_eq]
  exact SortedMap.sort_congr bytes_injective perm nodup

/-! ### Reading a value -/

/-- Every integer is in the range of `i64` or of `u64`. -/
def intFits : Json → Bool
  | .int n => wireInt n
  | _ => true

abbrev Portable (v : Json) : Prop := v.every intFits = true

theorem readFields_eq (fields : List (String × Json)) :
    readFields fields = fields.map fun f => (f.1, readValue f.2) := by
  induction fields with
  | nil => rfl
  | cons f rest ih => rw [readFields, ih, List.map_cons]

theorem distinct_obj {fields : List (String × Json)} :
    Json.Distinct (.obj fields) ↔
      (fields.map Prod.fst).Nodup ∧ ∀ f ∈ fields, Json.Distinct f.2 := by
  unfold Json.Distinct
  rw [Json.every_obj, Json.distinctKeys, decide_eq_true_eq]

theorem distinct_arr {items : List Json} :
    Json.Distinct (.arr items) ↔ ∀ v ∈ items, Json.Distinct v := by
  unfold Json.Distinct
  rw [Json.every_arr]
  exact ⟨fun h => h.2, fun h => ⟨rfl, h⟩⟩

theorem portable_obj {fields : List (String × Json)} :
    Portable (.obj fields) ↔ ∀ f ∈ fields, Portable f.2 := by
  unfold Portable
  rw [Json.every_obj]
  exact ⟨fun h => h.2, fun h => ⟨rfl, h⟩⟩

theorem portable_arr {items : List Json} :
    Portable (.arr items) ↔ ∀ v ∈ items, Portable v := by
  unfold Portable
  rw [Json.every_arr]
  exact ⟨fun h => h.2, fun h => ⟨rfl, h⟩⟩

theorem map_values_keys {α β : Type} (f : α → β) (entries : List (String × α)) :
    (entries.map fun e => (e.1, f e.2)).map Prod.fst = entries.map Prod.fst := by
  rw [List.map_map]
  rfl

mutual

theorem readValue_eq : ∀ v : Json, v.Distinct → Portable v → readValue v = v.sortKeys
  | .null, _, _ => rfl
  | .bool _, _, _ => rfl
  | .int n, _, h => by
    have fits : wireInt n = true := h
    rw [readValue, if_pos fits, Json.sortKeys]
  | .float _, _, _ => rfl
  | .str _, _, _ => rfl
  | .arr items, hd, hp => by
    rw [readValue, Json.sortKeys, readItems_sort items (distinct_arr.mp hd) (portable_arr.mp hp)]
  | .obj fields, hd, hp => by
    obtain ⟨nodup, distinct⟩ := distinct_obj.mp hd
    rw [readValue, Json.sortKeys, readFields_sort fields distinct (portable_obj.mp hp)]
    rw [treeOf_eq]
    rw [Json.sortFields_eq, map_values_keys]
    exact nodup

theorem readItems_sort : ∀ items : List Json, (∀ v ∈ items, v.Distinct) →
    (∀ v ∈ items, Portable v) → readItems items = Json.sortItems items
  | [], _, _ => rfl
  | v :: rest, hd, hp => by
    rw [readItems, Json.sortItems, readValue_eq v (hd v (by simp)) (hp v (by simp)),
      readItems_sort rest (fun w hw => hd w (by simp [hw])) fun w hw => hp w (by simp [hw])]

theorem readFields_sort : ∀ fields : List (String × Json), (∀ f ∈ fields, f.2.Distinct) →
    (∀ f ∈ fields, Portable f.2) → readFields fields = Json.sortFields fields
  | [], _, _ => rfl
  | (k, v) :: rest, hd, hp => by
    rw [readFields, Json.sortFields, readValue_eq v (hd (k, v) (by simp)) (hp (k, v) (by simp)),
      readFields_sort rest (fun f hf => hd f (by simp [hf])) fun f hf => hp f (by simp [hf])]

end

mutual

theorem portable_of_readValue : ∀ v : Json, v.Distinct → (readValue v).noFloats = true →
    Portable v
  | .null, _, _ => rfl
  | .bool _, _, _ => rfl
  | .int n, _, h => by
    show wireInt n = true
    rw [readValue] at h
    split at h
    · assumption
    · cases h
  | .float _, _, h => by cases h
  | .str _, _, _ => rfl
  | .arr items, hd, h => by
    rw [readValue, Json.noFloats, Json.itemsNoFloats_iff] at h
    exact portable_arr.mpr (portable_of_readItems items (distinct_arr.mp hd) h)
  | .obj fields, hd, h => by
    obtain ⟨nodup, distinct⟩ := distinct_obj.mp hd
    rw [readValue, Json.noFloats, Json.fieldsNoFloats_iff] at h
    have keys : ((readFields fields).map Prod.fst).Nodup := by
      rwa [readFields_eq, map_values_keys]
    exact portable_obj.mpr (portable_of_readFields fields distinct fun f hf =>
      h f ((treeOf_perm keys).symm.subset hf))

theorem portable_of_readItems : ∀ items : List Json, (∀ v ∈ items, v.Distinct) →
    (∀ v ∈ readItems items, v.noFloats = true) → ∀ v ∈ items, Portable v
  | [], _, _ => by simp
  | v :: rest, hd, h => by
    rw [readItems] at h
    intro w hw
    rcases List.mem_cons.mp hw with heq | hw
    · rw [heq]
      exact portable_of_readValue v (hd v (by simp)) (h _ (by simp))
    · exact portable_of_readItems rest (fun x hx => hd x (by simp [hx]))
        (fun x hx => h x (by simp [hx])) w hw

theorem portable_of_readFields : ∀ fields : List (String × Json), (∀ f ∈ fields, f.2.Distinct) →
    (∀ f ∈ readFields fields, f.2.noFloats = true) → ∀ f ∈ fields, Portable f.2
  | [], _, _ => by simp
  | (k, v) :: rest, hd, h => by
    rw [readFields] at h
    intro f hf
    rcases List.mem_cons.mp hf with heq | hf
    · rw [heq]
      exact portable_of_readValue v (hd (k, v) (by simp)) (h (k, readValue v) (by simp))
    · exact portable_of_readFields rest (fun x hx => hd x (by simp [hx]))
        (fun x hx => h x (by simp [hx])) f hf

end

end Metnos.Client
