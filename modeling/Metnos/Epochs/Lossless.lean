import Mathlib.Data.List.Perm.Basic
import Metnos.Epochs.Store
import Metnos.Lib.PyJson
import Metnos.Lib.Utf8

/-!
# Epochs.Lossless — the preserved rows of the old store, and their digest

Every value of a row is tagged with its type and written as JSON in ASCII; the rows are sorted by
what was written.
-/

namespace Metnos.Epochs.Legacy

open CodePoint PyJson

/-- A 64-bit real by its bits, the most significant byte first. -/
structure Double where
  bytes : List UInt8
  eight : bytes.length = 8
deriving DecidableEq

/-- A value of a row; `other` is of any other type, and so is a key that is `none`. -/
inductive Value
  | null
  | bool (b : Bool)
  | int (n : ℤ)
  | real (x : Double)
  | text (s : Text)
  | blob (b : List UInt8)
  | list (items : List Value)
  | tuple (items : List Value)
  | object (entries : List (Option Text × Value))
  | other

def invalid (detail : String) : EpochStoreError := ⟨"legacy_migration_invalid", detail⟩

/-! ## Encoding -/

def tagged (tag : String) (payload : Plain) : Plain := .list [.str (ofString tag), payload]

def sortFields {α : Type} (fields : List (Text × α)) : List (Text × α) :=
  fields.insertionSort fun a b => a.1.le b.1

/-- `[key, value]`, unless the value raised. -/
def pair (field : Text × Except EpochStoreError Plain) : Except EpochStoreError Plain :=
  field.2.map fun v => .list [.str field.1, v]

mutual

/-- `_canonical_legacy_value`; what `str` raises on a large integer is caught by its caller. -/
def canonicalLegacyValue : Value → Except EpochStoreError Plain
  | .null => .ok (.list [.str (ofString "null")])
  | .bool b => .ok (tagged "bool" (.bool b))
  | .int n =>
    match ofInt n with
    | some s => .ok (tagged "int" (.str (ascii s)))
    | none => .error (invalid "row_encoding")
  | .real x => .ok (tagged "real" (.str (ascii (ByteText.hex x.bytes))))
  | .text s => .ok (tagged "text" (.str s))
  | .blob b => .ok (tagged "blob" (.str (ascii (ByteText.base64 b))))
  | .list items => (canonicalItems items).map fun vs => tagged "list" (.list vs)
  | .tuple items => (canonicalItems items).map fun vs => tagged "list" (.list vs)
  | .object entries =>
    if entries.all fun e => e.1.isSome then
      ((sortFields (canonicalFields entries)).mapM pair).map fun vs => tagged "object" (.list vs)
    else .error (invalid "non_string_key")
  | .other => .error (invalid "non_canonical_value")

def canonicalItems : List Value → Except EpochStoreError (List Plain)
  | [] => .ok []
  | v :: rest => do
    let first ← canonicalLegacyValue v
    let more ← canonicalItems rest
    pure (first :: more)

def canonicalFields : List (Option Text × Value) → List (Text × Except EpochStoreError Plain)
  | [] => []
  | (k, v) :: rest => (k.getD [], canonicalLegacyValue v) :: canonicalFields rest

end

/-- The name that is stored beside the row; it has no authority. -/
def rowName (entries : List (Option Text × Value)) : Option Text :=
  match entries.lookup (some (ofString "name")) with
  | some (.text s) =>
    if s = [] ∨ strip s ≠ s ∨ .char (Char.ofNat 0) ∈ s ∨ s.any (fun c => c.isHigh || c.isLow) then
      none
    else some s
  | _ => none

def encodeLegacyRow : Value → Except EpochStoreError (Option Text × List Char)
  | .object entries => (canonicalLegacyValue (.object entries)).map fun v =>
    (rowName entries, dumps v)
  | _ => .error (invalid "row")

/-- `_encode_legacy_rows` -/
def encodeLegacyRows (rows : List Value) :
    Except EpochStoreError (List (Option Text × List Char)) :=
  (rows.mapM encodeLegacyRow).map fun encoded => encoded.insertionSort fun a b => a.2 ≤ b.2

/-! ## Decoding -/

/-- `struct.unpack(">d", ..)` -/
def unpack (bytes : List UInt8) : Option Double :=
  if h : bytes.length = 8 then some ⟨bytes, h⟩ else none

def decodeText (D : Decimals) (tag s : Text) : Option Value :=
  if tag = ofString "int" then (toInt D s).map .int
  else if tag = ofString "real" then ((ByteText.fromHex s).bind unpack).map .real
  else if tag = ofString "text" then some (.text s)
  else if tag = ofString "blob" then (ByteText.fromBase64 s).map .blob
  else none

mutual

/-- The `decode` of `decode_legacy_row`; whatever it raises is one error. -/
def decode (D : Decimals) : PyJson → Option Value
  | .arr [.str tag] => if tag = ofString "null" then some .null else none
  | .arr [.str tag, payload] => decodeTagged D tag payload
  | _ => none

def decodeTagged (D : Decimals) (tag : Text) : PyJson → Option Value
  | .bool b => if tag = ofString "bool" then some (.bool b) else none
  | .str s => decodeText D tag s
  | .arr items =>
    if tag = ofString "list" then (decodeItems D items).map .list
    else if tag = ofString "object" then (decodeFields D [] items).map .object
    else none
  | _ => none

def decodeItems (D : Decimals) : List PyJson → Option (List Value)
  | [] => some []
  | v :: rest =>
    (decode D v).bind fun x => (decodeItems D rest).map fun xs => x :: xs

/-- The fields behind those of `result`. -/
def decodeFields (D : Decimals) (result : List (Option Text × Value)) :
    List PyJson → Option (List (Option Text × Value))
  | [] => some result
  | .arr [.str k, v] :: rest =>
    if some k ∈ result.map Prod.fst then none
    else (decode D v).bind fun x => decodeFields D (result ++ [(some k, x)]) rest
  | _ => none

end

/-- `decode_legacy_row` -/
def decodeLegacyRow (D : Decimals) (encoded : Text) : Except EpochStoreError Value :=
  match (loads encoded).bind (decode D) with
  | some (.object entries) =>
    match encodeLegacyRows [.object entries] with
    | .error e => .error e
    | .ok again =>
      if again.head?.map (fun e => ascii e.2) = some encoded then .ok (.object entries)
      else .error (invalid "encoded_row")
  | _ => .error (invalid "encoded_row")

/-! ## Digests -/

def digestDomain : List ℕ :=
  Utf8.bytes "metnos.executor-birth.legacy-epoch-migration/v2" ++ [0]

/-- `_legacy_digest_from_bodies` -/
def legacyDigestFromBodies (sha256 : List ℕ → String) (bodies : List (List Char)) : String :=
  let payload := Json.render (.arr ((bodies.insertionSort (· ≤ ·)).map fun body =>
    .str (String.ofList body)))
  "sha256:" ++ sha256 (digestDomain ++ Utf8.bytes (String.ofList payload))

/-- `legacy_rows_digest` -/
def legacyRowsDigest (sha256 : List ℕ → String) (rows : List Value) :
    Except EpochStoreError String :=
  (encodeLegacyRows rows).map fun encoded => legacyDigestFromBodies sha256 (encoded.map Prod.snd)

end Metnos.Epochs.Legacy

/-!
## When the preserved rows are the rows

A row is read back as it was, tuples as lists, exactly when none of its texts has a high surrogate
with a low one behind it: JSON in ASCII writes such a pair as it writes the character.
-/

namespace Metnos.Epochs.Legacy

open CodePoint PyJson Transaction

/-! ## Values -/

mutual

/-- `p` holds of every value inside. -/
def Value.Every (p : Value → Prop) : Value → Prop
  | .list items => p (.list items) ∧ everyItem p items
  | .tuple items => p (.tuple items) ∧ everyItem p items
  | .object entries => p (.object entries) ∧ everyEntry p entries
  | .null => p .null
  | .bool b => p (.bool b)
  | .int n => p (.int n)
  | .real x => p (.real x)
  | .text s => p (.text s)
  | .blob b => p (.blob b)
  | .other => p .other

def everyItem (p : Value → Prop) : List Value → Prop
  | [] => True
  | v :: rest => v.Every p ∧ everyItem p rest

def everyEntry (p : Value → Prop) : List (Option Text × Value) → Prop
  | [] => True
  | (_, v) :: rest => v.Every p ∧ everyEntry p rest

end

/-- The keys of every mapping are different. -/
def Value.Distinct (v : Value) : Prop :=
  v.Every fun w => match w with
    | .object entries => (entries.map Prod.fst).Nodup
    | _ => True

/-- No text inside has a pair of surrogates. -/
def Value.Unpaired (v : Value) : Prop :=
  v.Every fun w => match w with
    | .text s => CodePoint.Unpaired s
    | .object entries => ∀ e ∈ entries, CodePoint.Unpaired (e.1.getD [])
    | _ => True

/-- A mapping is read in the order of its keys. -/
def sortEntries (entries : List (Option Text × Value)) : List (Option Text × Value) :=
  entries.insertionSort fun a b => (a.1.getD []).le (b.1.getD [])

mutual

/-- The same value with tuples as lists and the keys of mappings in order. -/
def Value.readBack : Value → Value
  | .list items => .list (readBackItems items)
  | .tuple items => .list (readBackItems items)
  | .object entries => .object (sortEntries (readBackEntries entries))
  | .null => .null
  | .bool b => .bool b
  | .int n => .int n
  | .real x => .real x
  | .text s => .text s
  | .blob b => .blob b
  | .other => .other

def readBackItems : List Value → List Value
  | [] => []
  | v :: rest => v.readBack :: readBackItems rest

def readBackEntries : List (Option Text × Value) → List (Option Text × Value)
  | [] => []
  | (k, v) :: rest => (k, v.readBack) :: readBackEntries rest

end

/-- A row: a value in which no mapping has a key twice. -/
structure Row where
  value : Value
  distinct : value.Distinct

theorem everyItem_iff {p : Value → Prop} {items : List Value} :
    everyItem p items ↔ ∀ v ∈ items, v.Every p := by
  induction items with
  | nil => simp [everyItem]
  | cons v rest ih => simp [everyItem, ih]

theorem everyEntry_iff {p : Value → Prop} {entries : List (Option Text × Value)} :
    everyEntry p entries ↔ ∀ e ∈ entries, e.2.Every p := by
  induction entries with
  | nil => simp [everyEntry]
  | cons e rest ih => simp [everyEntry, ih]

theorem readBackItems_eq (items : List Value) : readBackItems items = items.map Value.readBack := by
  induction items with
  | nil => rfl
  | cons v rest ih => rw [readBackItems, ih, List.map_cons]

theorem readBackEntries_eq (entries : List (Option Text × Value)) :
    readBackEntries entries = entries.map fun e => (e.1, e.2.readBack) := by
  induction entries with
  | nil => rfl
  | cons e rest ih => rw [readBackEntries, ih, List.map_cons]

mutual

theorem Value.ind {P : Value → Prop} (list : ∀ items, (∀ v ∈ items, P v) → P (.list items))
    (tuple : ∀ items, (∀ v ∈ items, P v) → P (.tuple items))
    (object : ∀ entries, (∀ e ∈ entries, P e.2) → P (.object entries))
    (leaf : ∀ v, (∀ items, v ≠ .list items) → (∀ items, v ≠ .tuple items) →
      (∀ entries, v ≠ .object entries) → P v) : ∀ v, P v
  | .list items => list items (Value.indItems list tuple object leaf items)
  | .tuple items => tuple items (Value.indItems list tuple object leaf items)
  | .object entries => object entries (Value.indEntries list tuple object leaf entries)
  | .null => leaf _ nofun nofun nofun
  | .bool _ => leaf _ nofun nofun nofun
  | .int _ => leaf _ nofun nofun nofun
  | .real _ => leaf _ nofun nofun nofun
  | .text _ => leaf _ nofun nofun nofun
  | .blob _ => leaf _ nofun nofun nofun
  | .other => leaf _ nofun nofun nofun

theorem Value.indItems {P : Value → Prop} (list : ∀ items, (∀ v ∈ items, P v) → P (.list items))
    (tuple : ∀ items, (∀ v ∈ items, P v) → P (.tuple items))
    (object : ∀ entries, (∀ e ∈ entries, P e.2) → P (.object entries))
    (leaf : ∀ v, (∀ items, v ≠ .list items) → (∀ items, v ≠ .tuple items) →
      (∀ entries, v ≠ .object entries) → P v) : ∀ (items : List Value), ∀ v ∈ items, P v
  | [], _, h => by cases h
  | w :: rest, v, h => by
    rcases List.mem_cons.mp h with heq | h
    · rw [heq]
      exact Value.ind list tuple object leaf w
    · exact Value.indItems list tuple object leaf rest v h

theorem Value.indEntries {P : Value → Prop}
    (list : ∀ items, (∀ v ∈ items, P v) → P (.list items))
    (tuple : ∀ items, (∀ v ∈ items, P v) → P (.tuple items))
    (object : ∀ entries, (∀ e ∈ entries, P e.2) → P (.object entries))
    (leaf : ∀ v, (∀ items, v ≠ .list items) → (∀ items, v ≠ .tuple items) →
      (∀ entries, v ≠ .object entries) → P v) :
    ∀ (entries : List (Option Text × Value)), ∀ e ∈ entries, P e.2
  | [], _, h => by cases h
  | (k, w) :: rest, e, h => by
    rcases List.mem_cons.mp h with heq | h
    · rw [heq]
      exact Value.ind list tuple object leaf w
    · exact Value.indEntries list tuple object leaf rest e h

end

/-! ## What was written -/

theorem canonicalItems_eq (items : List Value) :
    canonicalItems items = items.mapM canonicalLegacyValue := by
  induction items with
  | nil => rfl
  | cons v rest ih =>
    rw [canonicalItems, ih, List.mapM_cons]

theorem canonicalFields_eq (entries : List (Option Text × Value)) : canonicalFields entries =
    entries.map fun e => (e.1.getD [], canonicalLegacyValue e.2) := by
  induction entries with
  | nil => rfl
  | cons e rest ih => rw [canonicalFields, ih, List.map_cons]

theorem sortFields_canonical (entries : List (Option Text × Value)) :
    sortFields (canonicalFields entries) =
      (sortEntries entries).map fun e => (e.1.getD [], canonicalLegacyValue e.2) := by
  rw [canonicalFields_eq, sortFields, sortEntries]
  exact (List.map_insertionSort (fun a b : Option Text × Value => (a.1.getD []).le (b.1.getD []))
    (fun a b : Text × Except EpochStoreError Plain => a.1.le b.1) _ _ fun a _ b _ => Iff.rfl).symm

theorem readBackEntries_sort (entries : List (Option Text × Value)) :
    sortEntries (readBackEntries entries) = readBackEntries (sortEntries entries) := by
  rw [readBackEntries_eq, readBackEntries_eq, sortEntries, sortEntries]
  exact (List.map_insertionSort (fun a b : Option Text × Value => (a.1.getD []).le (b.1.getD []))
    (fun a b : Option Text × Value => (a.1.getD []).le (b.1.getD []))
    (fun e => (e.1, e.2.readBack)) entries fun a _ b _ => Iff.rfl).symm

theorem sortEntries_perm (entries : List (Option Text × Value)) :
    (sortEntries entries).Perm entries := List.perm_insertionSort _ _

theorem pair_ok {field : Text × Except EpochStoreError Plain} {t : Plain}
    (h : pair field = .ok t) : ∃ p, field.2 = .ok p ∧ t = .list [.str field.1, p] := by
  unfold pair at h
  cases hp : field.2 with
  | error e => rw [hp] at h; cases h
  | ok p =>
    rw [hp] at h
    cases h
    exact ⟨p, rfl, rfl⟩

theorem canonical_object {entries : List (Option Text × Value)} {t : Plain}
    (h : canonicalLegacyValue (.object entries) = .ok t) :
    (∀ e ∈ entries, e.1.isSome = true) ∧ ∃ vs, t = tagged "object" (.list vs) ∧
      List.Forall₂ (fun e v => ∃ p, canonicalLegacyValue e.2 = .ok p ∧
        v = .list [.str (e.1.getD []), p]) (sortEntries entries) vs := by
  rw [canonicalLegacyValue] at h
  split at h
  · rename_i keys
    rw [List.all_eq_true] at keys
    refine ⟨keys, ?_⟩
    cases hm : (sortFields (canonicalFields entries)).mapM pair with
    | error e => rw [hm] at h; cases h
    | ok vs =>
      rw [hm] at h
      cases h
      rw [sortFields_canonical] at hm
      have all := mapM_forall₂ hm
      rw [List.forall₂_map_left_iff] at all
      exact ⟨vs, rfl, all.imp fun e v hv => pair_ok hv⟩
  · cases h

/-! ## What is read -/

variable (D : Decimals)

theorem unpaired_ascii (s : List Char) : CodePoint.Unpaired (ascii s) := by
  induction s with
  | nil => exact .nil
  | cons c s ih =>
    refine List.isChain_cons.mpr ⟨fun y _ => rfl, ih⟩

theorem joined_ascii (s : List Char) : joined (ascii s) = ascii s :=
  joined_of_unpaired (unpaired_ascii s)

theorem decode_tagged (tag : String) (p : Plain) :
    decode D (loaded (tagged tag p)) = decodeTagged D (ofString tag) (loaded p) := by
  show decodeTagged D (joined (ofString tag)) (loaded p) = _
  rw [show joined (ofString tag) = ofString tag from joined_ascii _]

theorem decodeItems_loaded {items : List Value} {ts : List Plain}
    (h : List.Forall₂ (fun v t => decode D (loaded t) = some (Value.readBack v)) items ts) :
    decodeItems D (loadedItems ts) = some (readBackItems items) := by
  induction h with
  | nil => rfl
  | cons first _ ih =>
    rw [loadedItems, decodeItems, first, Option.bind_some, ih]
    rfl

theorem decodeFields_loaded {entries : List (Option Text × Value)} {ts : List Plain}
    (h : List.Forall₂ (fun e t => ∃ p, decode D (loaded p) = some (Value.readBack e.2) ∧
      e.1.isSome = true ∧ CodePoint.Unpaired (e.1.getD []) ∧ t = .list [.str (e.1.getD []), p])
      entries ts) : ∀ result : List (Option Text × Value),
    ((result ++ entries).map Prod.fst).Nodup →
      decodeFields D result (loadedItems ts) = some (result ++ readBackEntries entries) := by
  induction h with
  | nil =>
    intro result _
    rw [loadedItems, decodeFields, readBackEntries, List.append_nil]
  | @cons e t entries ts first _ ih =>
    intro result nodup
    obtain ⟨k, v⟩ := e
    obtain ⟨p, read, known, unpaired, rfl⟩ := first
    obtain ⟨k, rfl⟩ := Option.isSome_iff_exists.mp known
    have fresh : some k ∉ result.map Prod.fst := by
      rw [List.map_append, List.nodup_append] at nodup
      exact fun mem => nodup.2.2 _ mem _ (by simp) rfl
    show decodeFields D result (.arr [.str (joined k), loaded p] :: loadedItems ts) = _
    rw [show joined k = k from joined_of_unpaired unpaired, decodeFields, if_neg fresh, read, Option.bind_some]
    rw [ih (result ++ [(some k, v.readBack)]) (by simpa using nodup), readBackEntries,
      List.append_assoc]
    rfl

theorem every_list {p : Value → Prop} {items : List Value} :
    (Value.list items).Every p ↔ p (.list items) ∧ ∀ v ∈ items, v.Every p := by
  rw [Value.Every, everyItem_iff]

theorem every_tuple {p : Value → Prop} {items : List Value} :
    (Value.tuple items).Every p ↔ p (.tuple items) ∧ ∀ v ∈ items, v.Every p := by
  rw [Value.Every, everyItem_iff]

theorem every_object {p : Value → Prop} {entries : List (Option Text × Value)} :
    (Value.object entries).Every p ↔ p (.object entries) ∧ ∀ e ∈ entries, e.2.Every p := by
  rw [Value.Every, everyEntry_iff]

/-- What is decoded of what was written for a value. -/
def ReadsBack (v : Value) : Prop :=
  ∀ t, canonicalLegacyValue v = .ok t → v.Distinct → v.Unpaired →
    decode D (loaded t) = some v.readBack

theorem readsBack_items {items : List Value} (all : ∀ v ∈ items, ReadsBack D v) {vs : List Plain}
    (h : canonicalItems items = .ok vs) (distinct : ∀ v ∈ items, v.Distinct)
    (unpaired : ∀ v ∈ items, v.Unpaired) :
    decode D (loaded (tagged "list" (.list vs))) = some (.list (readBackItems items)) := by
  rw [canonicalItems_eq] at h
  have read : List.Forall₂ (fun v t => decode D (loaded t) = some (Value.readBack v)) items vs := by
    have written := mapM_forall₂ h
    rw [List.forall₂_iff_get] at written ⊢
    refine ⟨written.1, fun i hi hj => ?_⟩
    have mem := List.get_mem items ⟨i, hi⟩
    exact all _ mem _ (written.2 i hi hj) (distinct _ mem) (unpaired _ mem)
  rw [decode_tagged]
  show (decodeItems D (loadedItems vs)).map Value.list = _
  rw [decodeItems_loaded D read]
  rfl

theorem readsBack_object {entries : List (Option Text × Value)}
    (all : ∀ e ∈ entries, ReadsBack D e.2) : ReadsBack D (.object entries) := by
  intro t h distinct unpaired
  obtain ⟨nodup, distinct⟩ := every_object.mp distinct
  obtain ⟨keys, unpaired⟩ := every_object.mp unpaired
  obtain ⟨known, vs, rfl, written⟩ := canonical_object h
  have read : List.Forall₂ (fun e t => ∃ p, decode D (loaded p) = some (Value.readBack e.2) ∧
      e.1.isSome = true ∧ CodePoint.Unpaired (e.1.getD []) ∧ t = .list [.str (e.1.getD []), p])
      (sortEntries entries) vs := by
    rw [List.forall₂_iff_get] at written ⊢
    refine ⟨written.1, fun i hi hj => ?_⟩
    have mem := (sortEntries_perm entries).mem_iff.mp (List.get_mem (sortEntries entries) ⟨i, hi⟩)
    obtain ⟨p, hp, ht⟩ := written.2 i hi hj
    exact ⟨p, all _ mem p hp (distinct _ mem) (unpaired _ mem), known _ mem, keys _ mem, ht⟩
  have sorted : (([] ++ sortEntries entries).map Prod.fst).Nodup :=
    ((sortEntries_perm entries).map Prod.fst).nodup_iff.mpr nodup
  rw [decode_tagged, Value.readBack, readBackEntries_sort]
  show (decodeFields D [] (loadedItems vs)).map Value.object = _
  rw [decodeFields_loaded D read [] sorted]
  rfl

theorem decode_canonical (v : Value) : ReadsBack D v := by
  induction v using Value.ind with
  | list items all =>
    intro t h distinct unpaired
    rw [canonicalLegacyValue] at h
    cases hv : canonicalItems items with
    | error e => rw [hv] at h; cases h
    | ok vs =>
      rw [hv] at h
      cases h
      exact readsBack_items D all hv (every_list.mp distinct).2 (every_list.mp unpaired).2
  | tuple items all =>
    intro t h distinct unpaired
    rw [canonicalLegacyValue] at h
    cases hv : canonicalItems items with
    | error e => rw [hv] at h; cases h
    | ok vs =>
      rw [hv] at h
      cases h
      exact readsBack_items D all hv (every_tuple.mp distinct).2 (every_tuple.mp unpaired).2
  | object entries all => exact readsBack_object D all
  | leaf v notList notTuple notObject =>
    intro t h distinct unpaired
    cases v with
    | list items => exact absurd rfl (notList items)
    | tuple items => exact absurd rfl (notTuple items)
    | object entries => exact absurd rfl (notObject entries)
    | other => cases h
    | null =>
      cases h
      rfl
    | bool b =>
      cases h
      rfl
    | int n =>
      rw [canonicalLegacyValue] at h
      cases hn : ofInt n with
      | none => rw [hn] at h; cases h
      | some s =>
        rw [hn] at h
        cases h
        rw [decode_tagged, loaded, joined_ascii]
        show (toInt D (ascii s)).map Value.int = _
        rw [toInt_ofInt D hn]
        rfl
    | real x =>
      cases h
      rw [decode_tagged, loaded, joined_ascii]
      show ((ByteText.fromHex _).bind unpack).map Value.real = _
      rw [ByteText.fromHex_hex, Option.bind_some, unpack, dif_pos x.eight]
      rfl
    | text s =>
      cases h
      rw [decode_tagged, loaded, joined_of_unpaired unpaired]
      rfl
    | blob b =>
      cases h
      rw [decode_tagged, loaded, joined_ascii]
      show (ByteText.fromBase64 _).map Value.blob = _
      rw [ByteText.fromBase64_base64]
      rfl

/-! ## Texts that were read -/

theorem decodeText_unpaired {tag s : Text} {x : Value} (h : decodeText D tag (joined s) = some x) :
    x.Unpaired := by
  unfold decodeText at h
  split_ifs at h
  · obtain ⟨n, -, rfl⟩ := Option.map_eq_some_iff.mp h
    trivial
  · obtain ⟨n, -, rfl⟩ := Option.map_eq_some_iff.mp h
    trivial
  · cases h
    exact unpaired_joined s
  · obtain ⟨n, -, rfl⟩ := Option.map_eq_some_iff.mp h
    trivial

mutual

theorem decode_unpaired : ∀ (t : Plain) {x : Value}, decode D (loaded t) = some x → x.Unpaired
  | .str _, _, h => by cases h
  | .bool _, _, h => by cases h
  | .list [], _, h => by cases h
  | .list [.bool _], _, h => by cases h
  | .list [.list _], _, h => by cases h
  | .list [.str tag], x, h => by
    change (if joined tag = ofString "null" then some Value.null else none) = some x at h
    split at h
    · cases h
      trivial
    · cases h
  | .list [.str tag, p], x, h => decodeTagged_unpaired p h
  | .list [.bool _, _], _, h => by cases h
  | .list [.list _, _], _, h => by cases h
  | .list (.str _ :: _ :: _ :: _), _, h => by cases h
  | .list (.bool _ :: _ :: _ :: _), _, h => by cases h
  | .list (.list _ :: _ :: _ :: _), _, h => by cases h

theorem decodeTagged_unpaired : ∀ (p : Plain) {tag : Text} {x : Value},
    decodeTagged D tag (loaded p) = some x → x.Unpaired
  | .bool b, tag, x, h => by
    change (if tag = ofString "bool" then some (Value.bool b) else none) = some x at h
    split at h
    · cases h
      trivial
    · cases h
  | .str s, tag, x, h => decodeText_unpaired D h
  | .list items, tag, x, h => by
    change (if tag = ofString "list" then (decodeItems D (loadedItems items)).map Value.list
      else if tag = ofString "object" then
        (decodeFields D [] (loadedItems items)).map Value.object
      else none) = some x at h
    split_ifs at h
    · obtain ⟨xs, hxs, rfl⟩ := Option.map_eq_some_iff.mp h
      exact every_list.mpr ⟨trivial, decodeItems_unpaired items hxs⟩
    · obtain ⟨fields, hfields, rfl⟩ := Option.map_eq_some_iff.mp h
      have all := decodeFields_unpaired items (by simp) hfields
      exact every_object.mpr ⟨fun e he => (all e he).1, fun e he => (all e he).2⟩

theorem decodeItems_unpaired : ∀ (items : List Plain) {xs : List Value},
    decodeItems D (loadedItems items) = some xs → ∀ x ∈ xs, x.Unpaired
  | [], xs, h => by
    cases h
    simp
  | t :: rest, xs, h => by
    rw [loadedItems, decodeItems, Option.bind_eq_some_iff] at h
    obtain ⟨x, hx, h⟩ := h
    obtain ⟨more, hmore, rfl⟩ := Option.map_eq_some_iff.mp h
    intro y hy
    rcases List.mem_cons.mp hy with rfl | hy
    · exact decode_unpaired t hx
    · exact decodeItems_unpaired rest hmore y hy

theorem decodeFields_unpaired : ∀ (items : List Plain) {result fields : List (Option Text × Value)},
    (∀ e ∈ result, CodePoint.Unpaired (e.1.getD []) ∧ e.2.Unpaired) →
    decodeFields D result (loadedItems items) = some fields →
    ∀ e ∈ fields, CodePoint.Unpaired (e.1.getD []) ∧ e.2.Unpaired
  | [], result, fields, all, h => by
    cases h
    exact all
  | .list [.str k, t] :: rest, result, fields, all, h => by
    change (if some (joined k) ∈ result.map Prod.fst then none
      else (decode D (loaded t)).bind fun x =>
        decodeFields D (result ++ [(some (joined k), x)]) (loadedItems rest)) = some fields at h
    split at h
    · cases h
    · obtain ⟨x, hx, h⟩ := Option.bind_eq_some_iff.mp h
      refine decodeFields_unpaired rest (fun e he => ?_) h
      rcases List.mem_append.mp he with he | he
      · exact all e he
      · rw [List.mem_singleton.mp he]
        exact ⟨unpaired_joined k, decode_unpaired t hx⟩
  | .str _ :: _, _, _, _, h => by cases h
  | .bool _ :: _, _, _, _, h => by cases h
  | .list [] :: _, _, _, _, h => by cases h
  | .list [.str _] :: _, _, _, _, h => by cases h
  | .list (.bool _ :: _) :: _, _, _, _, h => by cases h
  | .list (.list _ :: _) :: _, _, _, _, h => by cases h
  | .list (.str _ :: _ :: _ :: _) :: _, _, _, _, h => by cases h

end

theorem unpaired_readBack (v : Value) : v.readBack.Unpaired → v.Unpaired := by
  induction v using Value.ind with
  | list items all =>
    intro h
    rw [Value.readBack, readBackItems_eq] at h
    exact every_list.mpr ⟨trivial, fun v hv =>
      all v hv ((every_list.mp h).2 _ (List.mem_map_of_mem hv))⟩
  | tuple items all =>
    intro h
    rw [Value.readBack, readBackItems_eq] at h
    exact every_tuple.mpr ⟨trivial, fun v hv =>
      all v hv ((every_list.mp h).2 _ (List.mem_map_of_mem hv))⟩
  | object entries all =>
    intro h
    rw [Value.readBack, readBackEntries_eq] at h
    obtain ⟨keys, values⟩ := every_object.mp h
    have mem : ∀ e ∈ entries, (e.1, e.2.readBack) ∈
        sortEntries (entries.map fun e => (e.1, e.2.readBack)) :=
      fun e he => (sortEntries_perm _).mem_iff.mpr (List.mem_map_of_mem he)
    exact every_object.mpr ⟨fun e he => keys (e.1, e.2.readBack) (mem e he),
      fun e he => all e he (values _ (mem e he))⟩
  | leaf v notList notTuple notObject =>
    intro h
    cases v with
    | list items => exact absurd rfl (notList items)
    | tuple items => exact absurd rfl (notTuple items)
    | object entries => exact absurd rfl (notObject entries)
    | _ => exact h

/-! ## What is read is written again -/

theorem sortEntries_idem (entries : List (Option Text × Value)) :
    sortEntries (sortEntries entries) = sortEntries entries := by
  let le : Option Text × Value → Option Text × Value → Prop :=
    fun a b => (a.1.getD []).le (b.1.getD [])
  have : IsTrans _ le := ⟨fun _ _ _ h h' => Text.trans_le h h'⟩
  have : Std.Total le := ⟨fun a b => Text.total_le _ _⟩
  exact (List.pairwise_insertionSort le entries).insertionSort_eq

theorem canonicalItems_readBack {items : List Value}
    (all : ∀ v ∈ items, canonicalLegacyValue v.readBack = canonicalLegacyValue v) :
    canonicalItems (readBackItems items) = canonicalItems items := by
  rw [canonicalItems_eq, canonicalItems_eq, readBackItems_eq]
  induction items with
  | nil => rfl
  | cons v rest ih =>
    rw [List.map_cons, List.mapM_cons, List.mapM_cons, all v (List.mem_cons_self ..),
      ih fun w hw => all w (List.mem_cons_of_mem _ hw)]

theorem canonical_readBack (v : Value) :
    canonicalLegacyValue v.readBack = canonicalLegacyValue v := by
  induction v using Value.ind with
  | list items all =>
    rw [Value.readBack, canonicalLegacyValue, canonicalLegacyValue, canonicalItems_readBack all]
  | tuple items all =>
    rw [Value.readBack, canonicalLegacyValue, canonicalLegacyValue, canonicalItems_readBack all]
  | object entries all =>
    have keys : (sortEntries (readBackEntries entries)).all (fun e => e.1.isSome) =
        entries.all (fun e => e.1.isSome) := by
      rw [(sortEntries_perm _).all_eq, readBackEntries_eq, List.all_map]
      rfl
    have fields : sortFields (canonicalFields (sortEntries (readBackEntries entries))) =
        sortFields (canonicalFields entries) := by
      rw [sortFields_canonical, sortFields_canonical, sortEntries_idem, readBackEntries_sort,
        readBackEntries_eq, List.map_map]
      refine List.map_congr_left fun e he => ?_
      exact congrArg (Prod.mk _) (all e ((sortEntries_perm entries).mem_iff.mp he))
    rw [Value.readBack, canonicalLegacyValue, canonicalLegacyValue, keys, fields]
  | leaf v notList notTuple notObject =>
    cases v with
    | list items => exact absurd rfl (notList items)
    | tuple items => exact absurd rfl (notTuple items)
    | object entries => exact absurd rfl (notObject entries)
    | _ => rfl

/-! ## Rows -/

theorem encodeLegacyRow_ok {v : Value} {name : Option Text} {body : List Char}
    (h : encodeLegacyRow v = .ok (name, body)) : (∃ entries, v = .object entries) ∧
      ∃ t, canonicalLegacyValue v = .ok t ∧ body = dumps t := by
  cases v with
  | object entries =>
    rw [encodeLegacyRow] at h
    cases ht : canonicalLegacyValue (.object entries) with
    | error e => rw [ht] at h; cases h
    | ok t =>
      rw [ht] at h
      cases h
      exact ⟨⟨entries, rfl⟩, t, rfl, rfl⟩
  | _ => cases h

theorem encodeLegacyRows_one (v : Value) :
    encodeLegacyRows [v] = (encodeLegacyRow v).map fun e => [e] := by
  rw [encodeLegacyRows, List.mapM_cons, List.mapM_nil]
  cases encodeLegacyRow v <;> rfl

theorem encodeLegacyRows_one_ok {v : Value} {e : Option Text × List Char} :
    encodeLegacyRows [v] = .ok [e] ↔ encodeLegacyRow v = .ok e := by
  rw [encodeLegacyRows_one]
  cases encodeLegacyRow v with
  | error x => exact ⟨nofun, nofun⟩
  | ok x =>
    show Except.ok [x] = .ok [e] ↔ Except.ok x = .ok e
    rw [Except.ok.injEq, Except.ok.injEq, List.cons.injEq]
    exact ⟨fun h => h.1, fun h => ⟨h, rfl⟩⟩

theorem decodeLegacyRow_ok {text : Text} {row : Value} (h : decodeLegacyRow D text = .ok row) :
    (loads text).bind (decode D) = some row ∧
      ∃ name body, encodeLegacyRows [row] = .ok [(name, body)] ∧ ascii body = text := by
  unfold decodeLegacyRow at h
  split at h
  · rename_i entries read
    split at h
    · cases h
    rename_i again hagain
    split at h
    · rename_i same
      cases h
      refine ⟨read, ?_⟩
      rw [encodeLegacyRows_one] at hagain
      cases he : encodeLegacyRow (.object entries) with
      | error e => rw [he] at hagain; cases hagain
      | ok e =>
        rw [he] at hagain
        cases hagain
        exact ⟨e.1, e.2, encodeLegacyRows_one_ok.mpr he, Option.some.inj same⟩
    · cases h
  · cases h

theorem read_body {v : Value} {name : Option Text} {body : List Char}
    (h : encodeLegacyRow v = .ok (name, body)) (distinct : v.Distinct) (unpaired : v.Unpaired) :
    (loads (ascii body)).bind (decode D) = some v.readBack := by
  obtain ⟨-, t, ht, rfl⟩ := encodeLegacyRow_ok h
  rw [loads_dumps, Option.bind_some, decode_canonical D v t ht distinct unpaired]

theorem decodeLegacyRow_body {v : Value} {name : Option Text} {body : List Char}
    (h : encodeLegacyRow v = .ok (name, body)) (distinct : v.Distinct) (unpaired : v.Unpaired) :
    decodeLegacyRow D (ascii body) = .ok v.readBack := by
  have read := read_body D h distinct unpaired
  obtain ⟨⟨entries, rfl⟩, t, ht, rfl⟩ := encodeLegacyRow_ok h
  have again : encodeLegacyRow (Value.object entries).readBack =
      .ok (rowName (sortEntries (readBackEntries entries)), dumps t) := by
    show (canonicalLegacyValue (Value.object entries).readBack).map _ = _
    rw [canonical_readBack, ht]
    rfl
  unfold decodeLegacyRow
  rw [read]
  dsimp only [Value.readBack]
  rw [show encodeLegacyRows [.object (sortEntries (readBackEntries entries))] = .ok [_] from
    encodeLegacyRows_one_ok.mpr again]
  exact if_pos rfl

theorem unpaired_of_decodeLegacyRow {v : Value} {name : Option Text} {body : List Char}
    (h : encodeLegacyRow v = .ok (name, body))
    (read : decodeLegacyRow D (ascii body) = .ok v.readBack) : v.Unpaired := by
  obtain ⟨-, t, -, rfl⟩ := encodeLegacyRow_ok h
  have decoded := (decodeLegacyRow_ok D read).1
  rw [loads_dumps, Option.bind_some] at decoded
  exact unpaired_readBack v (decode_unpaired D t decoded)

/-! ## Digests -/

theorem noFloats_texts (bodies : List (List Char)) :
    Json.noFloats (.arr (bodies.map fun body => .str (String.ofList body))) = true := by
  rw [Json.noFloats, Json.itemsNoFloats_iff]
  intro v hv
  obtain ⟨body, -, rfl⟩ := List.mem_map.mp hv
  rfl

theorem bodies_of_digest {sha256 : List ℕ → String} (inj : Function.Injective sha256)
    {bodies bodies' : List (List Char)}
    (h : legacyDigestFromBodies sha256 bodies = legacyDigestFromBodies sha256 bodies') :
    bodies.Perm bodies' := by
  have hashed := inj (String.append_right_inj _ |>.mp h)
  have bytes := Utf8.bytes_strictMono.injective (List.append_cancel_left hashed)
  have text := Json.render_injective (noFloats_texts _) (noFloats_texts _)
    (String.ofList_injective bytes)
  have lists := Json.arr.inj text
  have sorted : bodies.insertionSort (· ≤ ·) = bodies'.insertionSort (· ≤ ·) :=
    List.map_injective_iff.mpr (fun s t h => String.ofList_injective (Json.str.inj h)) lists
  calc bodies.Perm (bodies.insertionSort (· ≤ ·)) := (List.perm_insertionSort _ _).symm
    _ = bodies'.insertionSort (· ≤ ·) := sorted
    List.Perm _ bodies' := List.perm_insertionSort _ _

theorem encodeLegacyRows_ok {rows : List Value} {encoded : List (Option Text × List Char)}
    (h : encodeLegacyRows rows = .ok encoded) : ∃ es, encoded.Perm es ∧
      List.Forall₂ (fun v e => encodeLegacyRow v = .ok e) rows es := by
  unfold encodeLegacyRows at h
  cases hm : rows.mapM encodeLegacyRow with
  | error e => rw [hm] at h; cases h
  | ok es =>
    rw [hm] at h
    cases h
    exact ⟨es, List.perm_insertionSort _ _, mapM_forall₂ hm⟩

theorem readBack_of_bodies {rows : List Row} (unpaired : ∀ row ∈ rows, row.value.Unpaired)
    {es : List (Option Text × List Char)}
    (h : List.Forall₂ (fun v e => encodeLegacyRow v = .ok e) (rows.map Row.value) es) :
    (rows.map fun row => some row.value.readBack) =
      es.map fun e => (loads (ascii e.2)).bind (decode D) := by
  rw [List.forall₂_map_left_iff] at h
  induction h with
  | nil => rfl
  | @cons row e rows es first _ ih =>
    rw [List.map_cons, List.map_cons, ih fun row hr => unpaired row (List.mem_cons_of_mem _ hr),
      read_body D first row.distinct (unpaired row (List.mem_cons_self ..))]

theorem exists_encoded {rows : List Value} {es : List (Option Text × List Char)}
    (h : List.Forall₂ (fun v e => encodeLegacyRow v = .ok e) rows es) :
    ∀ v ∈ rows, ∃ e, encodeLegacyRow v = .ok e := by
  intro v hv
  obtain ⟨i, rfl⟩ := List.mem_iff_get.mp hv
  rw [List.forall₂_iff_get] at h
  exact ⟨_, h.2 i i.isLt (h.1 ▸ i.isLt)⟩

theorem legacyRowsDigest_ok {sha256 : List ℕ → String} {rows : List Value} {d : String}
    (h : legacyRowsDigest sha256 rows = .ok d) : ∃ encoded, encodeLegacyRows rows = .ok encoded ∧
      d = legacyDigestFromBodies sha256 (encoded.map Prod.snd) := by
  unfold legacyRowsDigest at h
  cases he : encodeLegacyRows rows with
  | error e => rw [he] at h; cases h
  | ok encoded =>
    rw [he] at h
    cases h
    exact ⟨encoded, rfl, rfl⟩

theorem rows_of_digest {sha256 : List ℕ → String} (inj : Function.Injective sha256)
    {a b : List Row} {d : String} (ha : legacyRowsDigest sha256 (a.map Row.value) = .ok d)
    (hb : legacyRowsDigest sha256 (b.map Row.value) = .ok d)
    (ua : ∀ row ∈ a, row.value.Unpaired) (ub : ∀ row ∈ b, row.value.Unpaired) :
    (a.map fun row => row.value.readBack).Perm (b.map fun row => row.value.readBack) := by
  obtain ⟨as, has, hd⟩ := legacyRowsDigest_ok ha
  obtain ⟨bs, hbs, hd'⟩ := legacyRowsDigest_ok hb
  obtain ⟨as', pa, fa⟩ := encodeLegacyRows_ok has
  obtain ⟨bs', pb, fb⟩ := encodeLegacyRows_ok hbs
  have bodies : (as'.map Prod.snd).Perm (bs'.map Prod.snd) :=
    ((pa.map Prod.snd).symm.trans (bodies_of_digest inj (hd.symm.trans hd'))).trans
      (pb.map Prod.snd)
  have read := bodies.map fun body => (loads (ascii body)).bind (decode fun _ => none)
  rw [List.map_map, List.map_map] at read
  have rows : (a.map fun row => some row.value.readBack).Perm
      (b.map fun row => some row.value.readBack) := by
    rw [readBack_of_bodies _ ua fa, readBack_of_bodies _ ub fb]
    exact read
  refine (List.map_perm_map_iff (Option.some_injective Value)).mp ?_
  rw [List.map_map, List.map_map]
  exact rows

/-- **Preserved rows are the rows**, exactly when no text has a pair of surrogates; and only the
encoding of a row is read as it. -/
theorem legacy_rows_lossless_iff {sha256 : List ℕ → String} (inj : Function.Injective sha256)
    {a b : List Row} {da db : String} (ha : legacyRowsDigest sha256 (a.map Row.value) = .ok da)
    (hb : legacyRowsDigest sha256 (b.map Row.value) = .ok db) :
    (∀ text v, decodeLegacyRow D text = .ok v →
      ∃ name body, encodeLegacyRows [v] = .ok [(name, body)] ∧ ascii body = text) ∧
    ((∀ row ∈ a ++ b, ∀ name body, encodeLegacyRows [row.value] = .ok [(name, body)] →
        decodeLegacyRow D (ascii body) = .ok row.value.readBack) ∧
      (da = db →
        (a.map fun row => row.value.readBack).Perm (b.map fun row => row.value.readBack)) ↔
      ∀ row ∈ a ++ b, row.value.Unpaired) := by
  refine ⟨fun text v h => (decodeLegacyRow_ok D h).2, ?_, ?_⟩
  · rintro ⟨back, -⟩ row hrow
    have accepted : ∃ e, encodeLegacyRow row.value = .ok e := by
      obtain ⟨as, has, -⟩ := legacyRowsDigest_ok ha
      obtain ⟨bs, hbs, -⟩ := legacyRowsDigest_ok hb
      obtain ⟨_, -, fa⟩ := encodeLegacyRows_ok has
      obtain ⟨_, -, fb⟩ := encodeLegacyRows_ok hbs
      rcases List.mem_append.mp hrow with hrow | hrow
      · exact exists_encoded fa _ (List.mem_map_of_mem hrow)
      · exact exists_encoded fb _ (List.mem_map_of_mem hrow)
    obtain ⟨⟨name, body⟩, he⟩ := accepted
    exact unpaired_of_decodeLegacyRow D he
      (back row hrow name body (encodeLegacyRows_one_ok.mpr he))
  · intro unpaired
    refine ⟨fun row hrow name body he => ?_, fun same => ?_⟩
    · exact decodeLegacyRow_body D (encodeLegacyRows_one_ok.mp he) row.distinct (unpaired row hrow)
    · subst same
      exact rows_of_digest inj ha hb (fun row hr => unpaired row (List.mem_append_left _ hr))
        fun row hr => unpaired row (List.mem_append_right _ hr)

/-! ### Samples -/

def sampleDigest (bytes : List ℕ) : String :=
  String.ofList (Json.render (.arr (bytes.map fun n : ℕ => .int (Int.ofNat n))))

theorem sampleDigest_injective : Function.Injective sampleDigest := by
  have plain : ∀ bytes : List ℕ,
      Json.noFloats (.arr (bytes.map fun n : ℕ => .int (Int.ofNat n))) = true := by
    intro bytes
    rw [Json.noFloats, Json.itemsNoFloats_iff]
    intro v hv
    obtain ⟨n, -, rfl⟩ := List.mem_map.mp hv
    rfl
  intro bytes bytes' h
  have text := Json.render_injective (plain bytes) (plain bytes') (String.ofList_injective h)
  exact List.map_injective_iff.mpr (fun n m h => Int.ofNat.inj (Json.int.inj h)) (Json.arr.inj text)

def sampleRow (s : Text) : Row where
  value := .object [(some (ofString "name"), .text s)]
  distinct := ⟨List.nodup_singleton _, trivial, trivial⟩

def sampleBody (s : Text) : List Char :=
  dumps (tagged "object" (.list [.list [.str (ofString "name"), tagged "text" (.str s)]]))

theorem encode_sampleRow (s : Text) : encodeLegacyRows [(sampleRow s).value] =
    .ok [(rowName [(some (ofString "name"), .text s)], sampleBody s)] := rfl

theorem digest_sampleRow (sha256 : List ℕ → String) (s : Text) :
    legacyRowsDigest sha256 [(sampleRow s).value] =
      .ok (legacyDigestFromBodies sha256 [sampleBody s]) := rfl

/-- A surrogate that stands alone is read back. -/
theorem single_surrogate_lossless : decodeLegacyRow (fun _ => none) (ascii (sampleBody
    [.char 'a', .surrogate 0])) = .ok (sampleRow [.char 'a', .surrogate 0]).value.readBack := by
  have unpaired : ∀ row ∈ [sampleRow [.char 'a', .surrogate 0]] ++ [], row.value.Unpaired := by
    intro row hrow
    obtain rfl := List.mem_singleton.mp hrow
    refine ⟨fun e he => ?_, ?_, trivial⟩
    · rw [List.mem_singleton.mp he]
      exact unpaired_ascii _
    · exact (by decide : CodePoint.Unpaired [.char 'a', .surrogate 0])
  have digest : legacyRowsDigest sampleDigest [] = .ok (legacyDigestFromBodies sampleDigest []) := rfl
  exact ((legacy_rows_lossless_iff (fun _ => none) sampleDigest_injective
    (a := [sampleRow [.char 'a', .surrogate 0]]) (b := []) (digest_sampleRow sampleDigest _)
    digest).2.mpr unpaired).1 _ (List.mem_singleton_self _) _ _ (encode_sampleRow _)

/-- A pair of surrogates is written as its character is, and read as the character. -/
theorem surrogates_written_as_character :
    (sampleRow [.surrogate 0x3d, .surrogate 0x600]).value.readBack ≠
      (sampleRow [.char '😀']).value.readBack ∧
    (∀ sha256 : List ℕ → String,
      legacyRowsDigest sha256 [(sampleRow [.surrogate 0x3d, .surrogate 0x600]).value] =
        legacyRowsDigest sha256 [(sampleRow [.char '😀']).value]) ∧
    decodeLegacyRow (fun _ => none) (ascii (sampleBody [.surrogate 0x3d, .surrogate 0x600])) =
      .ok (sampleRow [.char '😀']).value.readBack := by
  have same : sampleBody [.surrogate 0x3d, .surrogate 0x600] = sampleBody [.char '😀'] := by
    decide +kernel
  refine ⟨nofun, fun sha256 => ?_, ?_⟩
  · rw [digest_sampleRow, digest_sampleRow, same]
  · rw [same]
    refine decodeLegacyRow_body _ (encodeLegacyRows_one_ok.mp (encode_sampleRow _))
      (sampleRow _).distinct ⟨fun e he => ?_, ?_, trivial⟩
    · rw [List.mem_singleton.mp he]
      exact unpaired_ascii _
    · exact unpaired_ascii ['😀']

end Metnos.Epochs.Legacy
