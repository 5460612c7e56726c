import Metnos.Epochs.Store
import Metnos.Lib.Dynamic
import Metnos.Lib.Sorting
import Metnos.Lib.Utf8

/-!
# Durable.Inventory — the sealed inventory, encoded one record at a time

`validate_inventory` and `inventory_digest` never encode the array as a whole: they feed a hash and a
buffer with the encodings of the records, with the separators and the envelope written by hand.  The
reference is the canonical encoding of the whole array, and of the whole inventory.
-/

namespace Metnos.Durable.Schema

open Json Transaction

abbrev Text := List Char

/-- `text.encode("utf-8")` -/
def utf8 (text : Text) : List ℕ := text.flatMap Utf8.encode

/-- `len(text.encode("utf-8"))` -/
def byteLength (text : Text) : ℕ := (utf8 text).length

/-! ## Canonical JSON -/

inductive SchemaError
  | notCanonical
  | tooLarge (size limit : ℕ)
  | digestDomain
  | notAnObject (context : String)
  | missesFields (context : String) (fields : List String)
  | unknownFields (context : String) (fields : List String)
  | notAnInteger (context : String)
  | integerBelow (context : String) (minimum : ℤ)
  | notAString (context : String) (minimum maximum : ℕ)
  | schemaVersion
  | notSealed
  | notAnArray
  | tooManySources
  | digest
  | duplicateSource
  | ordinals
  | contentDigest (context : String)
  | state (context : String)
  | accounted (context : String)
  | digestMismatch
deriving DecidableEq

/-- `sys.get_int_max_str_digits()` -/
def maxStrDigits : ℕ := 4300

/-- `json.dumps` writes the number: an integer has not too many digits, a float is finite. -/
def writable : Json → Bool
  | .int n => (Nat.toDigits 10 n.natAbs).length ≤ maxStrDigits
  | .float text => text ∉ ["nan", "inf", "-inf"]
  | _ => true

/-- `json.dumps` with sorted keys and without blanks. -/
def dumps (v : Json) : Text := render (sortKeys v)

def canonicalJson (v : Json) (maxBytes : ℕ) : Except SchemaError Text :=
  if !v.every writable then .error .notCanonical
  else if maxBytes < byteLength (dumps v) then .error (.tooLarge (byteLength (dumps v)) maxBytes)
  else .ok (dumps v)

/-! ## Hashes -/

/-- A `hashlib` object: the bytes it was fed. -/
structure Hasher where
  fed : List ℕ

namespace Hasher

def update (h : Hasher) (bytes : List ℕ) : Hasher := ⟨h.fed ++ bytes⟩

/-- `sha256:` and the digest of what was fed; `sha256` gives its hexadecimal text. -/
def digest (sha256 : List ℕ → String) (h : Hasher) : String := "sha256:" ++ sha256 h.fed

end Hasher

/-- The order in which Python reports field names. -/
def sorted (names : List String) : List String := names.insertionSort (· ≤ ·)

/-- `_object`, where the allowed fields are the required ones. -/
def object (value : Json) (context : String) (required : List String) :
    Except SchemaError Dynamic.Dict :=
  match value with
  | .obj fields =>
    let keys := fields.map Prod.fst
    let missing := sorted (required.filter (fun k => k ∉ keys))
    let unknown := sorted (keys.filter (fun k => k ∉ required))
    if missing ≠ [] then .error (.missesFields context missing)
    else if unknown ≠ [] then .error (.unknownFields context unknown)
    else .ok fields
  | _ => .error (.notAnObject context)

/-- `_integer` without a maximum. -/
def integer (value : Json) (context : String) (minimum : ℤ) : Except SchemaError Unit :=
  match value with
  | .int n => if n < minimum then .error (.integerBelow context minimum) else .ok ()
  | _ => .error (.notAnInteger context)

/-- `_string` -/
def string (value : Json) (context : String) (minimum maximum : ℕ) : Except SchemaError String :=
  match value with
  | .str s =>
    if minimum ≤ s.toList.length ∧ s.toList.length ≤ maximum then .ok s
    else .error (.notAString context minimum maximum)
  | _ => .error (.notAString context minimum maximum)

/-- `isinstance(value, str) and _DIGEST_RE.fullmatch(value)` -/
def isDigest : Json → Bool
  | .str s => Epochs.isDigest s
  | _ => false

/-- `SourceState(value)` exists. -/
def isSourceState : Json → Bool
  | .str s => s ∈ ["ready", "unstable", "missing", "skipped"]
  | _ => false

/-- `value == index`: a truth value and a float may be equal to an integer. -/
def equalsIndex (value : Json) (index : ℕ) : Bool :=
  match value with
  | .int n => n = index
  | .bool b => (if b then 1 else 0) = index
  | .float text => text.toList = Nat.toDigits 10 index ++ ['.', '0'] || (index = 0 && text = "-0.0")
  | _ => false

/-! ## Records -/

def maxInventoryJsonBytes : ℕ := 16777216

def inventorySchemaVersion : String := "metnos.durable-inventory/1"

def sourceFields : List String :=
  ["source_id", "ordinal", "device_id", "locator_redacted", "kind", "size_bytes", "mtime_ns",
    "content_digest", "state", "accounted"]

/-- `source[{index}].{field}` -/
def sourceContext (index : ℕ) (field : String) : String :=
  "source[" ++ toString index ++ "]." ++ field

def check (p : Bool) (e : SchemaError) : Except SchemaError Unit := if p then .ok () else .error e

/-- The checks of one record; `seen` are the identifiers of the records before. -/
def checkSource (index : ℕ) (seen : List String) (raw : Json) :
    Except SchemaError (List String) := do
  let source ← object raw ("inventory.sources[" ++ toString index ++ "]") sourceFields
  let sourceId ← string (source.get "source_id") (sourceContext index "source_id") 8 160
  check (sourceId ∉ seen) .duplicateSource
  check (equalsIndex (source.get "ordinal") index) .ordinals
  let _ ← string (source.get "device_id") (sourceContext index "device_id") 1 128
  let _ ← string (source.get "locator_redacted") (sourceContext index "locator_redacted") 1 1024
  let _ ← string (source.get "kind") (sourceContext index "kind") 1 64
  integer (source.get "size_bytes") (sourceContext index "size_bytes") 0
  integer (source.get "mtime_ns") (sourceContext index "mtime_ns") 0
  check (isDigest (source.get "content_digest"))
    (.contentDigest (sourceContext index "content_digest"))
  check (isSourceState (source.get "state")) (.state (sourceContext index "state"))
  check (match source.get "accounted" with | .bool _ => true | _ => false)
    (.accounted (sourceContext index "accounted"))
  return sourceId :: seen

/-- `_inventory_source_json` -/
def inventorySourceJson (source : Json) : Except SchemaError Text :=
  canonicalJson source maxInventoryJsonBytes

/-- `_inventory_hasher` -/
def inventoryHasher : Hasher := ⟨utf8 "metnos:durable-inventory:1\x00[".toList⟩

def separator (index : ℕ) : Text := if index = 0 then [] else [',']

/-! ## The digest of the sources -/

def digestLoop (index : ℕ) (hasher : Hasher) : List Json → Except SchemaError Hasher
  | [] => .ok hasher
  | source :: rest => do
    let json ← inventorySourceJson source
    digestLoop (index + 1) ((hasher.update (utf8 (separator index))).update (utf8 json)) rest

/-- `inventory_digest` -/
def inventoryDigest (sha256 : List ℕ → String) (sources : List Json) :
    Except SchemaError String := do
  let hasher ← digestLoop 0 inventoryHasher sources
  return (hasher.update (utf8 [']'])).digest sha256

/-! ## The inventory -/

def inlinePrefix (declared : String) : Text :=
  "\x7b\"digest\":".toList ++ quote declared ++ ",\"schema_version\":".toList ++
    quote inventorySchemaVersion ++ ",\"sealed\":true,\"sources\":[".toList

/-- The checks before the loop; they give the declared digest and the sources. -/
def inventoryEnvelope (value : Json) : Except SchemaError (String × List Json) := do
  let inventory ← object value "inventory" ["schema_version", "sealed", "digest", "sources"]
  check (Dynamic.asStr (inventory.get "schema_version") = some inventorySchemaVersion)
    .schemaVersion
  check (Dynamic.isTrue (inventory.get "sealed")) .notSealed
  let .arr sources := inventory.get "sources" | .error .notAnArray
  check (sources.length ≤ 1000000) .tooManySources
  let .str declared := inventory.get "digest" | .error .digest
  check (Epochs.isDigest declared) .digest
  return (declared, sources)

/-- The inline buffer and its size with the brackets that close it. -/
structure Inline where
  buffer : Option Text
  bytes : ℕ

/-- A record is written, or the buffer is closed for good. -/
def Inline.write (inline : Inline) (index : ℕ) (json : Text) : Inline :=
  match inline.buffer with
  | none => inline
  | some text =>
    let size := inline.bytes + byteLength (separator index) + byteLength json
    if maxInventoryJsonBytes < size then { inline with buffer := none }
    else ⟨some (text ++ separator index ++ json), size⟩

def sourceLoop (index : ℕ) (seen : List String) (hasher : Hasher) (inline : Inline) :
    List Json → Except SchemaError (Hasher × Inline)
  | [] => .ok (hasher, inline)
  | raw :: rest => do
    let seen ← checkSource index seen raw
    let json ← inventorySourceJson raw
    sourceLoop (index + 1) seen ((hasher.update (utf8 (separator index))).update (utf8 json))
      (inline.write index json) rest

/-- `validate_inventory`, of sources that are a list or a tuple. -/
def validateInventory (sha256 : List ℕ → String) (value : Json) :
    Except SchemaError (Option Text × List Json) := do
  let (declared, sources) ← inventoryEnvelope value
  let inline : Inline := ⟨some (inlinePrefix declared), byteLength (inlinePrefix declared) + 2⟩
  let (hasher, inline) ← sourceLoop 0 [] inventoryHasher inline sources
  if declared ≠ (hasher.update (utf8 [']'])).digest sha256 then .error .digestMismatch
  else return (inline.buffer.map (fun text => text ++ [']', '\x7d']), sources)

/-- The records from `index` on, with their separators. -/
def joined (index : ℕ) : List Json → Text
  | [] => []
  | v :: rest => separator index ++ dumps v ++ joined (index + 1) rest

section
variable {sha256 : List ℕ → String}

theorem canonicalJson_eq_ok {v : Json} {n : ℕ} {text : Text} :
    canonicalJson v n = .ok text ↔
      v.every writable = true ∧ byteLength (dumps v) ≤ n ∧ text = dumps v := by
  unfold canonicalJson
  split
  · rename_i h
    simp only [Bool.not_eq_true'] at h
    simp [h]
  · rename_i h
    simp only [Bool.not_eq_true', Bool.not_eq_false] at h
    split
    · rename_i large
      simp only [reduceCtorEq, false_iff, not_and]
      omega
    · rename_i small
      rw [Except.ok.injEq, h]
      exact ⟨fun e => ⟨rfl, by omega, e.symm⟩, fun e => e.2.2.symm⟩

/-- What the buffer holds after more text, when all of it fits. -/
def Inline.result (inline : Inline) (text : Text) : Option Text :=
  inline.buffer.bind fun held =>
    if inline.bytes + byteLength text ≤ maxInventoryJsonBytes then some (held ++ text) else none

def Inline.Fits (inline : Inline) : Prop :=
  inline.buffer.isSome → inline.bytes ≤ maxInventoryJsonBytes

theorem Inline.Fits.write {inline : Inline} (F : inline.Fits) (index : ℕ) (json : Text) :
    (inline.write index json).Fits := by
  unfold Inline.write
  split
  · exact F
  · dsimp only
    split
    · intro h
      cases h
    · intro _
      show inline.bytes + byteLength (separator index) + byteLength json ≤ _
      omega

theorem Inline.Fits.buffer {inline : Inline} (F : inline.Fits) :
    inline.buffer = inline.result [] := by
  unfold Inline.result
  rcases hb : inline.buffer with _ | held
  · rfl
  · have fits := F (by rw [hb]; rfl)
    rw [Option.bind_some, List.append_nil, if_pos]
    show inline.bytes + (utf8 []).length ≤ _
    unfold utf8
    simpa using fits

theorem get_of_mem {d : Dynamic.Dict} (nodup : (d.map Prod.fst).Nodup) {f : String × Json}
    (hf : f ∈ d) : d.get f.1 = f.2 := by
  unfold Dynamic.Dict.get
  rw [(Json.get?_eq_some nodup).mpr hf, Option.getD_some]

/-- A short text, a number or a truth value. -/
def Plain (v : Json) : Prop :=
  (∃ s, v = .str s ∧ s.toList.length ≤ 1024) ∨ (∃ n, v = .int n) ∨ (∃ b, v = .bool b) ∨
    ∃ text, v = .float text ∧ text.toList.length ≤ 1024

end

end Metnos.Durable.Schema
