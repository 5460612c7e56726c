import Mathlib.Data.List.GetD
import Mathlib.Data.List.Induction
import Metnos.Lib.Json
import Metnos.Lib.Transaction

/-!
# Ownership.Heads — signed heads and the frame of the required head

A head is the canonical JSON text of seven fields with an Ed25519 signature beside it; the required
head is one such pair behind a magic and a length.
-/

namespace Metnos.Ownership

open Transaction

abbrev Bytes := List UInt8

structure ChainError where
  code : String
  detail : String
deriving DecidableEq

structure Head where
  releaseSequence : ℕ
  cutoverId : String
  closedBuildId : String
  previousHeadId : Option String
  headId : String
  signingKeyId : String
  encoded : Bytes
  signature : Bytes
deriving DecidableEq

/-- What the module has from elsewhere. -/
structure Site where
  /-- `json.loads`, on ASCII bytes; other bytes are no text. -/
  loads : Bytes → Option Json
  /-- `hashlib.sha256(..).hexdigest()`. -/
  sha256 : Bytes → String
  /-- The registry has the key, for heads. -/
  authorized : String → Bool
  /-- `public_key.verify`, under the key of the registry. -/
  verifies : String → Bytes → Bytes → Bool

/-! ## Canonical text -/

def asciiBytes (t : List Char) : Bytes := t.map fun c => UInt8.ofNat c.toNat

def hex4 (n : ℕ) : List Char :=
  [Json.hexDigit (n / 4096 % 16), Json.hexDigit (n / 256 % 16), Json.hexDigit (n / 16 % 16),
    Json.hexDigit (n % 16)]

/-- `ensure_ascii=True`: UTF-16 escapes. -/
def asciiChar (c : Char) : List Char :=
  let n := c.toNat
  if n < 127 then [c]
  else if n < 0x10000 then '\\' :: 'u' :: hex4 n
  else '\\' :: 'u' :: hex4 (0xd800 + (n - 0x10000) / 1024) ++
    '\\' :: 'u' :: hex4 (0xdc00 + (n - 0x10000) % 1024)

/-- `_canonical`. -/
def canonical (v : Json) : Bytes := asciiBytes ((Json.render (Json.sortKeys v)).flatMap asciiChar)

/-! ## Heads -/

def headIdDomain : Bytes :=
  asciiBytes "metnos.executor-birth.ownership-head-id/v1".toList ++ [0]

def headSignatureDomain : Bytes :=
  asciiBytes "metnos.executor-birth.ownership-head/v1".toList ++ [0]

def requiredHeadMagic : Bytes := asciiBytes "metnos-ownership-required-head-v1".toList ++ [0]

def maxHeadBytes : ℕ := 16 * 1024

def maxRequiredHeadBytes : ℕ := requiredHeadMagic.length + 4 + maxHeadBytes + 64

def headKeys : List String :=
  ["schema_version", "release_sequence", "cutover_id", "closed_build_id", "previous_head_id",
    "head_id", "signing_key_id"]

/-- The text, followed by 64 lower-case hexadecimal digits. -/
def isHexAfter (start s : String) : Bool :=
  s.toList.take start.length = start.toList && (s.toList.drop start.length).length = 64 &&
    (s.toList.drop start.length).all fun c => ('0' ≤ c && c ≤ '9') || ('a' ≤ c && c ≤ 'f')

def invalid (detail : String) : ChainError :=
  ⟨"birth_ownership_distribution_chain_invalid", detail⟩

def recovery (detail : String) : ChainError :=
  ⟨"birth_ownership_distribution_recovery_required", detail⟩

def downgrade (detail : String) : ChainError := ⟨"birth_ownership_downgrade", detail⟩

def check (p : Prop) [Decidable p] (e : ChainError) : Except ChainError Unit :=
  if p then .ok () else .error e

@[simp] theorem check_eq_ok {p : Prop} [Decidable p] {e : ChainError} {u : Unit} :
    check p e = .ok u ↔ p := by
  unfold check
  split_ifs with h <;> simp [h]

/-- `_digest`. -/
def digest (fields : List (String × Json)) (field : String) : Except ChainError String :=
  match Json.get? fields field with
  | some (.str s) => if isHexAfter "sha256:" s then .ok s else .error (invalid field)
  | _ => .error (invalid field)

/-- `_digest`, with `nullable=True`. -/
def nullableDigest (fields : List (String × Json)) (field : String) :
    Except ChainError (Option String) :=
  match Json.get? fields field with
  | some .null => .ok none
  | _ => (digest fields field).map some

/-- `schema_version` equals 1, as Python compares numbers. -/
def schemaOne : Option Json → Bool
  | some (.int n) => n = 1
  | some (.bool b) => b
  | some (.float text) => text = "1.0"
  | _ => false

/-- `release_sequence` is a positive integer. -/
def sequence (fields : List (String × Json)) : Except ChainError ℕ :=
  match Json.get? fields "release_sequence" with
  | some (.int n) => if 0 < n then .ok n.toNat else .error (invalid "release_sequence")
  | _ => .error (invalid "release_sequence")

variable (site : Site)

/-- `_head_id`. -/
def headIdOf (fields : List (String × Json)) : String :=
  "sha256:" ++ site.sha256 (headIdDomain ++ canonical (.obj (fields.filter (·.1 ≠ "head_id"))))

/-- The fields of a head that has the right schema. -/
def headFields (encoded : Bytes) : Except ChainError (List (String × Json)) :=
  match site.loads encoded with
  | none => .error (invalid "json")
  | some (.obj fields) => do
    check (fields.map Prod.fst).Nodup (invalid "duplicate key")
    check ((∀ k ∈ fields.map Prod.fst, k ∈ headKeys) ∧ (∀ k ∈ headKeys, k ∈ fields.map Prod.fst) ∧
      canonical (.obj fields) = encoded) (invalid "head schema")
    pure fields
  | some _ => .error (invalid "head schema")

def signingKey (fields : List (String × Json)) : Except ChainError String :=
  match Json.get? fields "signing_key_id" with
  | some (.str s) =>
    if isHexAfter "birth-ed25519-v1-sha256-" s then .ok s else .error (invalid "registry")
  | _ => .error (invalid "registry")

/-- `verify_ownership_head`. -/
def verifyOwnershipHead (encoded signature : Bytes) : Except ChainError Head := do
  check (encoded.length ≤ maxHeadBytes) (invalid "head size")
  check (signature.length = 64) (invalid "signature size")
  let fields ← headFields site encoded
  check (schemaOne (Json.get? fields "schema_version") = true) (invalid "release_sequence")
  let sequence ← sequence fields
  let cutoverId ← digest fields "cutover_id"
  let buildId ← digest fields "closed_build_id"
  let previous ← nullableDigest fields "previous_head_id"
  let claimed ← digest fields "head_id"
  check (claimed = headIdOf site fields) (invalid "head_id")
  let keyId ← signingKey fields
  check (site.authorized keyId = true)
    ⟨"birth_ownership_key_unauthorized", "ownership_head_v1"⟩
  check (site.verifies keyId (headSignatureDomain ++ encoded) signature = true)
    (invalid "signature")
  pure ⟨sequence, cutoverId, buildId, previous, claimed, keyId, encoded, signature⟩

/-! ## Frames -/

/-- `to_bytes(4, "big")`. -/
def bigEndian4 (n : ℕ) : Bytes :=
  [UInt8.ofNat (n / 16777216), UInt8.ofNat (n / 65536), UInt8.ofNat (n / 256), UInt8.ofNat n]

/-- `to_bytes(8, "big")`. -/
def bigEndian8 (n : ℕ) : Bytes := bigEndian4 (n / 4294967296) ++ bigEndian4 n

/-- `int.from_bytes(.., "big")`. -/
def fromBigEndian (b : Bytes) : ℕ := b.foldl (fun n x => n * 256 + x.toNat) 0

/-- `encode_required_head`. -/
def encodeRequiredHead (head : Head) : Except ChainError Bytes := do
  check (head.encoded.length ≤ maxHeadBytes ∧ head.signature.length = 64)
    (invalid "required size")
  pure (requiredHeadMagic ++ bigEndian4 head.encoded.length ++ head.encoded ++ head.signature)

/-- `decode_required_head`. -/
def decodeRequiredHead (framed : Bytes) : Except ChainError Head := do
  let start := requiredHeadMagic.length
  check (framed.length ≤ maxRequiredHeadBytes) (recovery "required size")
  check (start + 4 + 64 ≤ framed.length ∧ framed.take start = requiredHeadMagic)
    (recovery "required magic")
  let payloadLength := fromBigEndian ((framed.drop start).take 4)
  check (payloadLength ≤ maxHeadBytes) (recovery "required length")
  check (framed.length = start + 4 + payloadLength + 64) (recovery "required framing")
  verifyOwnershipHead site ((framed.drop (start + 4)).take payloadLength)
    (framed.drop (framed.length - 64))

/-- The stem of the two files of a head. -/
def stem (head : Head) : String :=
  let digits := Nat.toDigits 10 head.releaseSequence
  String.ofList (List.replicate (20 - digits.length) '0' ++ digits ++ '-' ::
    head.cutoverId.toList.drop 7)

/-! ## What a verified head satisfies -/

variable {site} {encoded signature : Bytes} {head : Head}

theorem verify_ok (h : verifyOwnershipHead site encoded signature = .ok head) :
    head.encoded = encoded ∧ head.signature = signature ∧ encoded.length ≤ maxHeadBytes ∧
      signature.length = 64 ∧ 0 < head.releaseSequence := by
  simp only [verifyOwnershipHead, bind_eq_ok, check_eq_ok, pure_eq_ok] at h
  obtain ⟨-, hsize, -, hsignature, fields, -, -, -, n, hn, -, -, -, -, -, -, -, -, -, -, -, -, -, -,
    -, -, rfl⟩ := h
  refine ⟨rfl, rfl, hsize, hsignature, ?_⟩
  unfold sequence at hn
  split at hn
  · split at hn
    · rename_i hpos
      cases hn
      dsimp only
      omega
    · cases hn
  · cases hn

/-! ### A head is never the beginning of another one -/

/-- The last byte closes the object, and no other one does. -/
def Closed (b : Bytes) : Prop := ∃ body, b = body ++ [125] ∧ 125 ∉ body

theorem Closed.eq_of_isPrefix {b b' : Bytes} (h : Closed b) (h' : Closed b') (hp : b <+: b') :
    b = b' := by
  obtain ⟨body, rfl, -⟩ := h
  obtain ⟨body', rfl, hbody'⟩ := h'
  obtain ⟨rest, hrest⟩ := hp
  cases rest using List.reverseRecOn with
  | nil => simpa using hrest
  | append_singleton rest x =>
    -- the closing byte of the first would stand within the second
    rw [← List.append_assoc] at hrest
    have hsplit := (List.append_inj' hrest rfl).1
    refine absurd ?_ hbody'
    rw [← hsplit]
    simp

theorem hexDigit_lt (n : ℕ) : (Json.hexDigit n).toNat < 128 ∧ Json.hexDigit n ≠ '}' := by
  by_cases h : n < 16
  · interval_cases n <;> decide
  · have hlen : "0123456789abcdef".toList.length ≤ n := by
      show 16 ≤ n
      omega
    rw [Json.hexDigit, List.getD_eq_default _ _ hlen]
    decide

theorem mem_hex4 {c : Char} {n : ℕ} (h : c ∈ hex4 n) : c.toNat < 128 ∧ c ≠ '}' := by
  simp only [hex4, List.mem_cons, List.not_mem_nil, or_false] at h
  rcases h with rfl | rfl | rfl | rfl <;> exact hexDigit_lt _

theorem mem_asciiChar {c d : Char} (h : d ∈ asciiChar c) : d.toNat < 128 ∧ (d = '}' → c = '}') := by
  have escaped : ∀ {n : ℕ}, d ∈ '\\' :: 'u' :: hex4 n → d.toNat < 128 ∧ (d = '}' → c = '}') := by
    intro n hd
    rcases List.mem_cons.mp hd with rfl | hd
    · exact ⟨by decide, fun h => absurd h (by decide)⟩
    rcases List.mem_cons.mp hd with rfl | hd
    · exact ⟨by decide, fun h => absurd h (by decide)⟩
    · exact ⟨(mem_hex4 hd).1, fun h => absurd h (mem_hex4 hd).2⟩
  unfold asciiChar at h
  dsimp only at h
  split_ifs at h with h1 h2
  · rw [List.mem_singleton] at h
    subst h
    exact ⟨by omega, id⟩
  · exact escaped h
  · rcases List.mem_append.mp h with h | h
    · exact escaped h
    · exact escaped h

theorem closed_canonical {v : Json} {body : List Char}
    (h : Json.render (Json.sortKeys v) = body ++ ['}']) (hbody : '}' ∉ body) :
    Closed (canonical v) := by
  refine ⟨asciiBytes (body.flatMap asciiChar), ?_, fun hmem => ?_⟩
  · rw [canonical, h, List.flatMap_append, asciiBytes, List.map_append]
    rfl
  · obtain ⟨d, hd, hbyte⟩ := List.mem_map.mp hmem
    obtain ⟨c, hc, hd⟩ := List.mem_flatMap.mp hd
    obtain ⟨hlt, hclose⟩ := mem_asciiChar hd
    have hmod : d.toNat % 256 = 125 := congrArg UInt8.toNat hbyte
    have hnat : d.toNat = 125 := by omega
    have heq : d = '}' := Char.ext (UInt32.toNat.inj hnat)
    exact hbody (hclose heq ▸ hc)

theorem not_mem_quote {s : String} (h : '}' ∉ s.toList) : '}' ∉ Json.quote s := by
  unfold Json.quote
  intro hmem
  rcases List.mem_append.mp hmem with hmem | hmem
  · rcases List.mem_cons.mp hmem with hmem | hmem
    · cases hmem
    · obtain ⟨c, hc, hmem⟩ := List.mem_flatMap.mp hmem
      have hne : c ≠ '}' := fun heq => h (heq ▸ hc)
      unfold Json.escape at hmem
      have hhex := fun n => (hexDigit_lt n).2.symm
      split_ifs at hmem <;> simp_all [eq_comm]
  · cases List.mem_singleton.mp hmem

theorem moreFields_closed {fields : List (String × Json)}
    (h : ∀ f ∈ fields, '}' ∉ f.1.toList ∧ '}' ∉ Json.render f.2) :
    ∃ body, Json.moreFields fields = body ++ ['}'] ∧ '}' ∉ body := by
  induction fields with
  | nil => exact ⟨[], rfl, by simp⟩
  | cons f rest ih =>
    obtain ⟨body, hbody, hnot⟩ := ih fun g hg => h g (List.mem_cons_of_mem _ hg)
    obtain ⟨hkey, hvalue⟩ := h f (List.mem_cons_self ..)
    refine ⟨',' :: (Json.quote f.1 ++ ':' :: (Json.render f.2 ++ body)), ?_, ?_⟩
    · rw [Json.moreFields, hbody]
      simp
    · have hquote := not_mem_quote hkey
      simp [hquote, hvalue, hnot]

theorem renderFields_closed {fields : List (String × Json)}
    (h : ∀ f ∈ fields, '}' ∉ f.1.toList ∧ '}' ∉ Json.render f.2) :
    ∃ body, Json.renderFields fields = body ++ ['}'] ∧ '}' ∉ body := by
  cases fields with
  | nil => exact ⟨[], rfl, by simp⟩
  | cons f rest =>
    obtain ⟨body, hbody, hnot⟩ := moreFields_closed fun g hg => h g (List.mem_cons_of_mem _ hg)
    obtain ⟨hkey, hvalue⟩ := h f (List.mem_cons_self ..)
    refine ⟨Json.quote f.1 ++ ':' :: (Json.render f.2 ++ body), ?_, ?_⟩
    · rw [Json.renderFields, hbody]
      simp
    · have hquote := not_mem_quote hkey
      simp [hquote, hvalue, hnot]

/-- The value closes no object in its text. -/
def Plain (v : Json) : Prop := '}' ∉ Json.render (Json.sortKeys v)

instance (v : Json) : Decidable (Plain v) :=
  inferInstanceAs (Decidable ('}' ∉ Json.render (Json.sortKeys v)))

theorem plain_of_isHexAfter {start s : String} (h : isHexAfter start s = true)
    (hstart : '}' ∉ start.toList) : Plain (.str s) := by
  simp only [isHexAfter, Bool.and_eq_true, decide_eq_true_eq] at h
  obtain ⟨⟨htake, -⟩, hall⟩ := h
  show '}' ∉ Json.quote s
  refine not_mem_quote fun hmem => ?_
  rw [← List.take_append_drop start.length s.toList, htake] at hmem
  rcases List.mem_append.mp hmem with hmem | hmem
  · exact hstart hmem
  · exact absurd (List.all_eq_true.mp hall _ hmem) (by decide)

theorem plain_int (n : ℤ) : Plain (.int n) := by
  have digits : ∀ m : ℕ, '}' ∉ Nat.toDigits 10 m := fun m hm =>
    absurd (Nat.isDigit_of_mem_toDigits (by decide) (by decide) hm) (by decide)
  show '}' ∉ Json.renderInt n
  cases n with
  | ofNat m => exact digits m
  | negSucc m =>
    intro hm
    rcases List.mem_cons.mp hm with hm | hm
    · cases hm
    · exact digits _ hm

section
variable {fields : List (String × Json)} {field : String}

theorem digest_plain {s : String} (h : digest fields field = .ok s) :
    ∃ v, Json.get? fields field = some v ∧ Plain v := by
  unfold digest at h
  split at h
  · rename_i s' hget
    split at h
    · rename_i hhex
      exact ⟨_, hget, plain_of_isHexAfter hhex (by decide)⟩
    · cases h
  · cases h

theorem nullableDigest_plain {s : Option String} (h : nullableDigest fields field = .ok s) :
    ∃ v, Json.get? fields field = some v ∧ Plain v := by
  unfold nullableDigest at h
  split at h
  · rename_i hget
    exact ⟨_, hget, by decide⟩
  · cases hd : digest fields field with
    | error e => rw [hd] at h; cases h
    | ok s' => exact digest_plain hd

theorem sequence_plain {n : ℕ} (h : sequence fields = .ok n) :
    ∃ v, Json.get? fields "release_sequence" = some v ∧ Plain v := by
  unfold sequence at h
  split at h
  · rename_i m hget
    exact ⟨_, hget, plain_int m⟩
  · cases h

theorem schema_plain (h : schemaOne (Json.get? fields field) = true) :
    ∃ v, Json.get? fields field = some v ∧ Plain v := by
  unfold schemaOne at h
  split at h
  · rename_i m hget
    exact ⟨_, hget, plain_int m⟩
  · rename_i b hget
    exact ⟨_, hget, by cases b <;> decide⟩
  · rename_i text hget
    rw [of_decide_eq_true h] at hget
    exact ⟨_, hget, by decide⟩
  · cases h

theorem signingKey_plain {s : String} (h : signingKey fields = .ok s) :
    ∃ v, Json.get? fields "signing_key_id" = some v ∧ Plain v := by
  unfold signingKey at h
  split at h
  · rename_i s' hget
    split at h
    · rename_i hhex
      exact ⟨_, hget, plain_of_isHexAfter hhex (by decide)⟩
    · cases h
  · cases h

theorem closed_object (keys : ∀ k ∈ fields.map Prod.fst, k ∈ headKeys)
    (values : ∀ f ∈ fields, Plain f.2) : Closed (canonical (.obj fields)) := by
  have hkeys : ∀ k ∈ headKeys, '}' ∉ k.toList := by decide
  have parts : ∀ f ∈ (Json.sortFields fields).insertionSort fun a b => a.1 ≤ b.1,
      '}' ∉ f.1.toList ∧ '}' ∉ Json.render f.2 := by
    intro f hf
    rw [List.mem_insertionSort, Json.sortFields_eq] at hf
    obtain ⟨g, hg, rfl⟩ := List.mem_map.mp hf
    exact ⟨hkeys _ (keys g.1 (List.mem_map_of_mem hg)), values g hg⟩
  obtain ⟨body, hbody, hnot⟩ := renderFields_closed parts
  have hrender : Json.render (Json.sortKeys (.obj fields)) = ('{' :: body) ++ ['}'] := by
    show '{' :: Json.renderFields _ = _
    rw [hbody]
    rfl
  exact closed_canonical hrender (by simp [hnot])

end

theorem verified_closed (h : verifyOwnershipHead site encoded signature = .ok head) :
    Closed encoded := by
  simp only [verifyOwnershipHead, bind_eq_ok, check_eq_ok] at h
  obtain ⟨-, -, -, -, fields, hfields, -, hschema, n, hn, c, hc, b, hb, prev, hprev, claimed,
    hclaimed, -, -, key, hkey, -⟩ := h
  unfold headFields at hfields
  split at hfields
  · cases hfields
  · rename_i fs hloads
    simp only [bind_eq_ok, check_eq_ok, pure_eq_ok] at hfields
    obtain ⟨-, nodup, -, ⟨keys, -, hcanonical⟩, rfl⟩ := hfields
    rw [← hcanonical]
    refine closed_object keys fun f hf => ?_
    have hget : Json.get? fs f.1 = some f.2 := (Json.get?_eq_some nodup).mpr hf
    have hkeys := keys f.1 (List.mem_map_of_mem hf)
    have plain_of : ∀ {v}, Json.get? fs f.1 = some v → Plain v → Plain f.2 := by
      intro v hv hp
      rw [hget, Option.some.injEq] at hv
      exact hv ▸ hp
    simp only [headKeys, List.mem_cons, List.not_mem_nil, or_false] at hkeys
    rcases hkeys with hk | hk | hk | hk | hk | hk | hk <;> rw [hk] at plain_of
    · obtain ⟨v, hv, hp⟩ := schema_plain hschema
      exact plain_of hv hp
    · obtain ⟨v, hv, hp⟩ := sequence_plain hn
      exact plain_of hv hp
    · obtain ⟨v, hv, hp⟩ := digest_plain hc
      exact plain_of hv hp
    · obtain ⟨v, hv, hp⟩ := digest_plain hb
      exact plain_of hv hp
    · obtain ⟨v, hv, hp⟩ := nullableDigest_plain hprev
      exact plain_of hv hp
    · obtain ⟨v, hv, hp⟩ := digest_plain hclaimed
      exact plain_of hv hp
    · obtain ⟨v, hv, hp⟩ := signingKey_plain hkey
      exact plain_of hv hp
  · cases hfields

/-! ### The frame is read back -/

theorem fromBigEndian_four {n : ℕ} (h : n ≤ maxHeadBytes) :
    fromBigEndian (bigEndian4 n) = n := by
  unfold maxHeadBytes at h
  simp only [fromBigEndian, bigEndian4, List.foldl_cons, List.foldl_nil]
  show (((0 * 256 + n / 16777216 % 256) * 256 + n / 65536 % 256) * 256 + n / 256 % 256) * 256 +
    n % 256 = n
  omega

theorem decode_frame (h : verifyOwnershipHead site head.encoded head.signature = .ok head) :
    ∃ framed, encodeRequiredHead head = .ok framed ∧
      decodeRequiredHead site framed = .ok head := by
  obtain ⟨-, -, hsize, hsignature, -⟩ := verify_ok h
  refine ⟨requiredHeadMagic ++ bigEndian4 head.encoded.length ++ head.encoded ++ head.signature,
    ?_, ?_⟩
  · rw [encodeRequiredHead, check, if_pos ⟨hsize, hsignature⟩]
    rfl
  · have hmagic : requiredHeadMagic.length = 34 := by decide
    have hbytes : (bigEndian4 head.encoded.length).length = 4 := rfl
    have hlen : (requiredHeadMagic ++ bigEndian4 head.encoded.length ++ head.encoded ++
        head.signature).length = 34 + 4 + head.encoded.length + 64 := by
      simp only [List.length_append, hmagic, hbytes, hsignature]
    have htake : (requiredHeadMagic ++ bigEndian4 head.encoded.length ++ head.encoded ++
        head.signature).take 34 = requiredHeadMagic := by
      rw [List.append_assoc, List.append_assoc, List.take_left' hmagic]
    have hdrop : (requiredHeadMagic ++ bigEndian4 head.encoded.length ++ head.encoded ++
        head.signature).drop 34 = bigEndian4 head.encoded.length ++ (head.encoded ++
        head.signature) := by
      rw [List.append_assoc, List.append_assoc, List.drop_left' hmagic]
    have hpayload : (requiredHeadMagic ++ bigEndian4 head.encoded.length ++ head.encoded ++
        head.signature).drop 38 = head.encoded ++ head.signature := by
      rw [List.append_assoc, List.drop_left' (by rw [List.length_append, hmagic, hbytes])]
    have htail : (requiredHeadMagic ++ bigEndian4 head.encoded.length ++ head.encoded ++
        head.signature).drop (34 + 4 + head.encoded.length) = head.signature := by
      rw [List.drop_left' (by simp only [List.length_append, hmagic, hbytes])]
    unfold decodeRequiredHead
    simp only [hmagic]
    rw [hlen, htake, hdrop, List.take_left' hbytes, fromBigEndian_four hsize, hpayload,
      List.take_left' rfl, Nat.add_sub_cancel, htail, maxRequiredHeadBytes, hmagic]
    simp only [check]
    rw [if_pos (by omega), if_pos ⟨by omega, trivial⟩, if_pos hsize, if_pos trivial]
    exact h

end Metnos.Ownership
