import Metnos.Lib.CodePoints

/-!
# PyJson — JSON of texts with surrogates, in ASCII

`dumps` writes texts, booleans and lists of them with every code point beyond ASCII escaped; `loads`
reads any JSON text.  Two escapes that stand for one character are read as that character, so what
was written is read back with its texts joined (`loads_dumps`).
-/

open CodePoint

/-- A value that was read; a number as it is read from a text of characters. -/
inductive PyJson
  | null
  | bool (b : Bool)
  | number (v : Json)
  | str (s : Text)
  | arr (items : List PyJson)
  | obj (fields : List (Text × PyJson))

/-- A value that is written. -/
inductive PyJson.Plain
  | str (s : Text)
  | bool (b : Bool)
  | list (items : List Plain)

namespace PyJson

/-! ### Writing -/

def unitDigits (n : ℕ) : List Char :=
  [Json.hexDigit (n / 4096), Json.hexDigit (n / 256 % 16), Json.hexDigit (n / 16 % 16),
    Json.hexDigit (n % 16)]

def unitEscape (n : ℕ) : List Char := '\\' :: 'u' :: unitDigits n

def shortEscape : Char → Option Char
  | '"' => some '"'
  | '\\' => some '\\'
  | '\n' => some 'n'
  | '\r' => some 'r'
  | '\t' => some 't'
  | '\x08' => some 'b'
  | '\x0c' => some 'f'
  | _ => none

/-- What stands for a code point between quotes, with `ensure_ascii`. -/
def escape : CodePoint → List Char
  | .surrogate n => unitEscape (0xd800 + n)
  | .char c =>
    match shortEscape c with
    | some d => ['\\', d]
    | none =>
      if ' ' ≤ c ∧ c ≤ '~' then [c]
      else if c.toNat < 0x10000 then unitEscape c.toNat
      else unitEscape (0xd800 + (c.toNat - 0x10000) / 0x400) ++
        unitEscape (0xdc00 + (c.toNat - 0x10000) % 0x400)

def quote (s : Text) : List Char := '"' :: s.flatMap escape ++ ['"']

mutual

/-- `json.dumps(.., separators=(",", ":"), ensure_ascii=True)` -/
def dumps : Plain → List Char
  | .str s => quote s
  | .bool true => ['t', 'r', 'u', 'e']
  | .bool false => ['f', 'a', 'l', 's', 'e']
  | .list items => '[' :: dumpItems items

def dumpItems : List Plain → List Char
  | [] => [']']
  | v :: rest => dumps v ++ moreItems rest

def moreItems : List Plain → List Char
  | [] => [']']
  | v :: rest => ',' :: (dumps v ++ moreItems rest)

end

/-! ### Reading -/

def isBlank : CodePoint → Bool
  | .char c => Json.isBlank c
  | .surrogate _ => false

def skipBlank (t : Text) : Text := t.dropWhile isBlank

def hexFour : Text → Option (ℕ × Text)
  | a :: b :: c :: d :: r => do
    some (4096 * (← hexValue a) + 256 * (← hexValue b) + 16 * (← hexValue c) + (← hexValue d), r)
  | _ => none

def lowUnit : Text → Option (ℕ × Text)
  | .char '\\' :: .char 'u' :: r => (hexFour r).filter fun x => 0xdc00 ≤ x.1 ∧ x.1 ≤ 0xdfff
  | _ => none

/-- The code point after `\u`; two escapes may stand for one character. -/
def unicodeEscape (r : Text) : Option (CodePoint × Text) :=
  match hexFour r with
  | none => none
  | some (n, r) =>
    match if 0xd800 ≤ n ∧ n ≤ 0xdbff then lowUnit r else none with
    | some (m, r) => some (.char (ofPair n m), r)
    | none => some (ofUnit n, r)

def scanEscape : Text → Option (CodePoint × Text)
  | .char 'u' :: r => unicodeEscape r
  | .char '"' :: r => some (.char '"', r)
  | .char '\\' :: r => some (.char '\\', r)
  | .char '/' :: r => some (.char '/', r)
  | .char 'b' :: r => some (.char (Char.ofNat 8), r)
  | .char 'f' :: r => some (.char (Char.ofNat 12), r)
  | .char 'n' :: r => some (.char '\n', r)
  | .char 'r' :: r => some (.char '\r', r)
  | .char 't' :: r => some (.char '\t', r)
  | _ => none

/-- One code point of a quoted string, not the closing quote. -/
def scanChar : Text → Option (CodePoint × Text)
  | .char '\\' :: r => scanEscape r
  | c :: r => if c.number < 32 then none else some (c, r)
  | [] => none

/-- `scanstring`: the text up to the closing quote. -/
def scanString : ℕ → Text → Option (Text × Text)
  | 0, _ => none
  | n + 1, t =>
    match t with
    | .char '"' :: r => some ([], r)
    | t => do
      let (c, r) ← scanChar t
      let (s, r) ← scanString n r
      some (c :: s, r)

def isNumeric : CodePoint → Bool
  | .char c => Json.isNumeric c
  | .surrogate _ => false

/-- The characters before the first surrogate. -/
def chars : Text → List Char
  | .char c :: r => c :: chars r
  | _ => []

/-- A number is read from the run of characters that numbers are made of. -/
def scanNumber (t : Text) : Option (PyJson × Text) :=
  (Json.scanNumber (chars (t.takeWhile isNumeric))).map fun x =>
    (.number x.1, ascii x.2 ++ t.dropWhile isNumeric)

def afterWord (word : String) (t : Text) : Option Text :=
  if t.take word.length = ofString word then some (t.drop word.length) else none

/-- A value that starts with a letter, or a number. -/
def scanPlain (t : Text) : Option (PyJson × Text) :=
  ((afterWord "null" t).map fun r => (.null, r)).or <|
  ((afterWord "true" t).map fun r => (.bool true, r)).or <|
  ((afterWord "false" t).map fun r => (.bool false, r)).or <|
  ((afterWord "NaN" t).map fun r => (.number (.float "nan"), r)).or <|
  ((afterWord "Infinity" t).map fun r => (.number (.float "inf"), r)).or <|
  ((afterWord "-Infinity" t).map fun r => (.number (.float "-inf"), r)).or <|
  scanNumber t

mutual

/-- `scan_once`, with a bound on the depth of the calls.  The pairs of an object stand as they were
read. -/
def scanOnce : ℕ → Text → Option (PyJson × Text)
  | 0, _ => none
  | n + 1, t =>
    match t with
    | .char '"' :: r => (scanString (r.length + 1) r).map (fun x => (.str x.1, x.2))
    | .char '{' :: r =>
      match skipBlank r with
      | .char '}' :: r => some (.obj [], r)
      | r => (scanMembers n r).map (fun x => (.obj x.1, x.2))
    | .char '[' :: r =>
      match skipBlank r with
      | .char ']' :: r => some (.arr [], r)
      | r => (scanItems n r).map (fun x => (.arr x.1, x.2))
    | t => scanPlain t

/-- The items of an array up to its bracket. -/
def scanItems : ℕ → Text → Option (List PyJson × Text)
  | 0, _ => none
  | n + 1, t =>
    match scanOnce n t with
    | none => none
    | some (v, r) =>
      match skipBlank r with
      | .char ']' :: r => some ([v], r)
      | .char ',' :: r => (scanItems n (skipBlank r)).map (fun x => (v :: x.1, x.2))
      | _ => none

/-- The members of an object up to its brace. -/
def scanMembers : ℕ → Text → Option (List (Text × PyJson) × Text)
  | 0, _ => none
  | n + 1, t =>
    match t with
    | .char '"' :: r =>
      match scanString (r.length + 1) r with
      | none => none
      | some (k, r) =>
        match skipBlank r with
        | .char ':' :: r =>
          match scanOnce n (skipBlank r) with
          | none => none
          | some (v, r) =>
            match skipBlank r with
            | .char '}' :: r => some ([(k, v)], r)
            | .char ',' :: r => (scanMembers n (skipBlank r)).map (fun x => ((k, v) :: x.1, x.2))
            | _ => none
        | _ => none
    | _ => none

end

/-- `json.loads` -/
def loads (t : Text) : Option PyJson :=
  match scanOnce (skipBlank t).length (skipBlank t) with
  | some (v, r) => if skipBlank r = [] then some v else none
  | none => none

theorem scanItems_succ (n : ℕ) (t : Text) : scanItems (n + 1) t =
    match scanOnce n t with
    | none => none
    | some (v, r) =>
      match skipBlank r with
      | .char ']' :: r => some ([v], r)
      | .char ',' :: r => (scanItems n (skipBlank r)).map (fun x => (v :: x.1, x.2))
      | _ => none := rfl

theorem scanOnce_string (n : ℕ) (r : Text) : scanOnce (n + 1) (.char '"' :: r) =
    (scanString (r.length + 1) r).map (fun x => (.str x.1, x.2)) := rfl

theorem scanOnce_array (n : ℕ) (r : Text) : scanOnce (n + 1) (.char '[' :: r) =
    match skipBlank r with
    | .char ']' :: r => some (.arr [], r)
    | r => (scanItems n r).map (fun x => (.arr x.1, x.2)) := rfl

mutual

def loaded : Plain → PyJson
  | .str s => .str (joined s)
  | .bool b => .bool b
  | .list items => .arr (loadedItems items)

def loadedItems : List Plain → List PyJson
  | [] => []
  | v :: rest => loaded v :: loadedItems rest

end

/-! ### Escapes -/

theorem hexFour_unit {n : ℕ} (h : n < 0x10000) (r : Text) :
    hexFour (ascii (unitDigits n) ++ r) = some (n, r) := by
  show hexFour (.char (Json.hexDigit (n / 4096)) :: .char (Json.hexDigit (n / 256 % 16)) ::
    .char (Json.hexDigit (n / 16 % 16)) :: .char (Json.hexDigit (n % 16)) :: r) = _
  rw [hexFour, hexValue_digit (by omega), hexValue_digit (by omega), hexValue_digit (by omega),
    hexValue_digit (by omega)]
  show some (4096 * (n / 4096) + 256 * (n / 256 % 16) + 16 * (n / 16 % 16) + n % 16, r) = _
  congr 2
  omega

/-- The escape of a unit that is no high surrogate, or that no low one follows. -/
theorem scanChar_unit {n : ℕ} (h : n < 0x10000) {r : Text}
    (single : (0xd800 ≤ n ∧ n ≤ 0xdbff) → lowUnit r = none) :
    scanChar (ascii (unitEscape n) ++ r) = some (ofUnit n, r) := by
  show unicodeEscape (ascii (unitDigits n) ++ r) = _
  rw [unicodeEscape, hexFour_unit h]
  dsimp only
  split_ifs with high
  · rw [single high]
  · rfl

theorem lowUnit_unit {n : ℕ} (h : n < 0x10000) (r : Text) : lowUnit (ascii (unitEscape n) ++ r) =
    if 0xdc00 ≤ n ∧ n ≤ 0xdfff then some (n, r) else none := by
  show (hexFour (ascii (unitDigits n) ++ r)).filter _ = _
  rw [hexFour_unit h, Option.filter_some]
  simp only [decide_eq_true_eq]

/-- The escapes of two units that stand for one character. -/
theorem scanChar_pair {n m : ℕ} (hn : 0xd800 ≤ n ∧ n ≤ 0xdbff) (hm : 0xdc00 ≤ m ∧ m ≤ 0xdfff)
    (r : Text) : scanChar (ascii (unitEscape n) ++ (ascii (unitEscape m) ++ r)) =
      some (.char (ofPair n m), r) := by
  show unicodeEscape (ascii (unitDigits n) ++ (ascii (unitEscape m) ++ r)) = _
  rw [unicodeEscape, hexFour_unit (by omega)]
  dsimp only
  rw [if_pos hn, lowUnit_unit (by omega), if_pos hm]

theorem ofUnit_surrogate (n : Fin 2048) : ofUnit (0xd800 + n) = .surrogate n := by
  have hn := n.isLt
  rw [ofUnit, dif_pos (by omega)]
  exact congrArg CodePoint.surrogate (Fin.ext (Nat.add_sub_cancel_left ..))

theorem char_valid (c : Char) : c.toNat < 0xd800 ∨ 0xe000 ≤ c.toNat ∧ c.toNat < 0x110000 := by
  rcases c.valid with low | ⟨above, below⟩
  · exact .inl low
  · exact .inr ⟨by have : 0xdfff < c.toNat := above; omega, below⟩

theorem ofUnit_char (c : Char) : ofUnit c.toNat = .char c := by
  have valid := char_valid c
  rw [ofUnit, dif_neg (by omega), Char.ofNat_toNat]

/-- The units of a character are read as the character. -/
theorem ofPair_units {c : Char} (h : 0x10000 ≤ c.toNat) :
    ofPair (0xd800 + (c.toNat - 0x10000) / 0x400) (0xdc00 + (c.toNat - 0x10000) % 0x400) = c := by
  have value : 0x10000 + (0xd800 + (c.toNat - 0x10000) / 0x400 - 0xd800) * 0x400 +
      (0xdc00 + (c.toNat - 0x10000) % 0x400 - 0xdc00) = c.toNat := by omega
  rw [ofPair, value, Char.ofNat_toNat]

theorem shortEscape_some {c d : Char} (h : shortEscape c = some d) : d ≠ 'u' ∧
    ∀ r, scanChar (.char '\\' :: .char d :: r) = some (.char c, r) := by
  unfold shortEscape at h
  split at h <;> cases h <;> exact ⟨by decide, fun r => rfl⟩

theorem shortEscape_none {c : Char} (h : shortEscape c = none) : c ≠ '"' ∧ c ≠ '\\' := by
  constructor <;> (rintro rfl; cases h)

theorem escape_cases (c : Char) :
    (∃ d, shortEscape c = some d ∧ escape (.char c) = ['\\', d]) ∨
    (escape (.char c) = [c] ∧ c ≠ '"' ∧ c ≠ '\\' ∧ ' ' ≤ c) ∨
    (c.toNat < 0x10000 ∧ escape (.char c) = unitEscape c.toNat) ∨
    (0x10000 ≤ c.toNat ∧ escape (.char c) = unitEscape (0xd800 + (c.toNat - 0x10000) / 0x400) ++
      unitEscape (0xdc00 + (c.toNat - 0x10000) % 0x400)) := by
  dsimp only [escape]
  cases short : shortEscape c with
  | some d => exact .inl ⟨d, rfl, rfl⟩
  | none =>
    obtain ⟨quote, back⟩ := shortEscape_none short
    dsimp only
    by_cases printed : ' ' ≤ c ∧ c ≤ '~'
    · rw [if_pos printed]
      exact .inr (.inl ⟨rfl, quote, back, printed.1⟩)
    · rw [if_neg printed]
      by_cases small : c.toNat < 0x10000
      · rw [if_pos small]
        exact .inr (.inr (.inl ⟨small, rfl⟩))
      · rw [if_neg small]
        exact .inr (.inr (.inr ⟨not_lt.mp small, rfl⟩))

theorem scanChar_plain {c : Char} (h : c ≠ '\\') (low : ' ' ≤ c) (r : Text) :
    scanChar (.char c :: r) = some (.char c, r) := by
  have number : ¬ (CodePoint.char c).number < 32 := not_lt.mpr low
  rw [scanChar]
  · rw [if_neg number]
  · exact fun heq => h (CodePoint.char.inj heq)

/-- A code point is read as it was written, unless it starts a pair. -/
theorem scanChar_escape {a : CodePoint} {r : Text} (single : a.isHigh = true → lowUnit r = none) :
    scanChar (ascii (escape a) ++ r) = some (a, r) := by
  cases a with
  | surrogate n =>
    have hn := n.isLt
    rw [escape, scanChar_unit (by omega), ofUnit_surrogate]
    exact fun high => single (decide_eq_true (by omega))
  | char c =>
    rcases escape_cases c with ⟨d, hd, hc⟩ | ⟨hc, -, hback, low⟩ | ⟨small, hc⟩ | ⟨large, hc⟩
    · rw [hc]
      exact (shortEscape_some hd).2 r
    · rw [hc]
      exact scanChar_plain hback low r
    · have valid := char_valid c
      rw [hc, scanChar_unit small fun high => absurd high (by omega), ofUnit_char]
    · have valid := char_valid c
      rw [hc, ascii, List.map_append, List.append_assoc]
      refine (scanChar_pair ⟨by omega, by omega⟩ ⟨by omega, by omega⟩ r).trans ?_
      rw [ofPair_units large]

theorem scanChar_joined {a b : CodePoint} (h : (a.isHigh && b.isLow) = true) (r : Text) :
    scanChar (ascii (escape a) ++ (ascii (escape b) ++ r)) =
      some (.char (ofPair a.number b.number), r) := by
  rw [Bool.and_eq_true] at h
  cases a with
  | char c => cases h.1
  | surrogate n =>
    cases b with
    | char c => cases h.2
    | surrogate m =>
      have high : n.val < 1024 := of_decide_eq_true h.1
      have low : 1024 ≤ m.val := of_decide_eq_true h.2
      have hm := m.isLt
      exact scanChar_pair ⟨by omega, by omega⟩ ⟨by omega, by omega⟩ r

/-- What stands for a code point starts no escape of a low surrogate. -/
theorem lowUnit_escape {b : CodePoint} (h : b.isLow = false) (r : Text) :
    lowUnit (ascii (escape b) ++ r) = none := by
  cases b with
  | surrogate n =>
    have hn : n.val < 1024 := not_le.mp (of_decide_eq_false h)
    rw [escape, lowUnit_unit (by omega), if_neg (by omega)]
  | char c =>
    have valid := char_valid c
    rcases escape_cases c with ⟨d, hd, hc⟩ | ⟨hc, -, hback, -⟩ | ⟨small, hc⟩ | ⟨large, hc⟩
    · have hu := (shortEscape_some hd).1
      rw [hc]
      show lowUnit (.char '\\' :: .char d :: r) = none
      unfold lowUnit
      split
      · rename_i heq
        exact absurd (CodePoint.char.inj (List.cons.inj (List.cons.inj heq).2).1) hu
      · rfl
    · rw [hc]
      show lowUnit (.char c :: r) = none
      unfold lowUnit
      split
      · rename_i heq
        exact absurd (CodePoint.char.inj (List.cons.inj heq).1) hback
      · rfl
    · rw [hc, lowUnit_unit small, if_neg (by omega)]
    · rw [hc, ascii, List.map_append, List.append_assoc]
      refine (lowUnit_unit (by omega) _).trans ?_
      rw [if_neg (by omega)]

/-- What stands for a code point does not close the text. -/
theorem escape_head (a : CodePoint) : ∃ d rest, escape a = d :: rest ∧ d ≠ '"' := by
  cases a with
  | surrogate n => exact ⟨_, _, rfl, by decide⟩
  | char c =>
    rcases escape_cases c with ⟨d, -, hc⟩ | ⟨hc, hquote, -⟩ | ⟨-, hc⟩ | ⟨-, hc⟩
    · exact ⟨_, _, hc, by decide⟩
    · exact ⟨_, _, hc, hquote⟩
    · exact ⟨_, _, hc, by decide⟩
    · exact ⟨_, _, hc, by decide⟩

/-- One step of the scanner over what was written. -/
theorem scanString_step {a c : CodePoint} {t r s u : Text} {n : ℕ}
    (first : scanChar (ascii (escape a) ++ t) = some (c, r)) (rest : scanString n r = some (s, u)) :
    scanString (n + 1) (ascii (escape a) ++ t) = some (c :: s, u) := by
  obtain ⟨d, more, hd, ne⟩ := escape_head a
  rw [scanString]
  · rw [first]
    show (scanString n r).bind _ = _
    rw [rest]
    rfl
  · intro x heq
    rw [hd] at heq
    exact ne (CodePoint.char.inj (List.cons.inj heq).1)

theorem ascii_flatMap_cons (a : CodePoint) (s r : Text) :
    ascii ((a :: s).flatMap escape) ++ r = ascii (escape a) ++ (ascii (s.flatMap escape) ++ r) := by
  rw [List.flatMap_cons, ascii, List.map_append, List.append_assoc]
  rfl

/-- **A written text is read joined.** -/
theorem scanString_escaped (s : Text) (r : Text) : ∀ {n : ℕ}, s.length < n →
    scanString n (ascii (s.flatMap escape) ++ .char '"' :: r) = some (joined s, r) := by
  fun_induction joined s with
  | case1 =>
    intro n h
    obtain ⟨m, rfl⟩ := Nat.exists_eq_succ_of_ne_zero (Nat.ne_of_gt h)
    rfl
  | case2 a =>
    intro n h
    obtain ⟨m, rfl⟩ := Nat.exists_eq_add_of_lt h
    rw [ascii_flatMap_cons]
    refine scanString_step (scanChar_escape fun _ => rfl) ?_
    rw [List.length_singleton, Nat.add_comm 1 m]
    rfl
  | case3 a b s pair ih =>
    intro n h
    obtain ⟨m, rfl⟩ := Nat.exists_eq_succ_of_ne_zero (Nat.ne_of_gt (Nat.zero_lt_of_lt h))
    rw [ascii_flatMap_cons, ascii_flatMap_cons]
    refine scanString_step (scanChar_joined pair _) (ih ?_)
    rw [List.length_cons, List.length_cons] at h
    omega
  | case4 a b s pair ih =>
    intro n h
    obtain ⟨m, rfl⟩ := Nat.exists_eq_succ_of_ne_zero (Nat.ne_of_gt (Nat.zero_lt_of_lt h))
    rw [Bool.not_eq_true] at pair
    have single : a.isHigh = true →
        lowUnit (ascii ((b :: s).flatMap escape) ++ .char '"' :: r) = none := by
      intro high
      rw [high, Bool.true_and] at pair
      rw [ascii_flatMap_cons]
      exact lowUnit_escape pair _
    rw [ascii_flatMap_cons]
    exact scanString_step (scanChar_escape single) (ih (Nat.succ_lt_succ_iff.mp h))

theorem length_le_escaped (s : Text) : s.length ≤ (s.flatMap escape).length := by
  induction s with
  | nil => exact le_rfl
  | cons c s ih =>
    obtain ⟨d, more, hd, -⟩ := escape_head c
    rw [List.flatMap_cons, List.length_append, hd, List.length_cons, List.length_cons]
    omega

theorem scanString_quote (s r : Text) : ∃ t, ascii (quote s) ++ r = .char '"' :: t ∧
    scanString (t.length + 1) t = some (joined s, r) := by
  refine ⟨ascii (s.flatMap escape) ++ .char '"' :: r, ?_, scanString_escaped s r ?_⟩
  · unfold quote
    simp [ascii]
  · have := length_le_escaped s
    rw [List.length_append, ascii, List.length_map]
    omega

/-! ### Values -/

theorem skipBlank_cons {c : CodePoint} (h : isBlank c = false) (r : Text) :
    skipBlank (c :: r) = c :: r := by
  unfold skipBlank
  rw [List.dropWhile_cons, h]
  rfl

/-- The first character of a value. -/
theorem dumps_first (v : Plain) :
    ∃ c r, dumps v = c :: r ∧ isBlank (.char c) = false ∧ c ≠ ']' := by
  cases v with
  | str s => exact ⟨_, _, by rw [dumps, quote, List.cons_append], by decide, by decide⟩
  | bool b => cases b <;> exact ⟨_, _, by rw [dumps], by decide, by decide⟩
  | list items => exact ⟨_, _, by rw [dumps], by decide, by decide⟩

theorem dumps_pos (v : Plain) : 0 < (dumps v).length := by
  obtain ⟨c, r, hc, -⟩ := dumps_first v
  rw [hc]
  exact Nat.succ_pos _

theorem ascii_append (s t : List Char) (r : Text) :
    ascii (s ++ t) ++ r = ascii s ++ (ascii t ++ r) := by
  rw [ascii, List.map_append, List.append_assoc]
  rfl

mutual

/-- **What was written is read back with its texts joined**, whatever follows the value. -/
theorem scanOnce_dumps : ∀ (v : Plain) {n : ℕ} {r : Text}, (dumps v).length ≤ n →
    scanOnce n (ascii (dumps v) ++ r) = some (loaded v, r)
  | .str s, 0, _, h => absurd (dumps_pos (.str s)) (by omega)
  | .bool b, 0, _, h => absurd (dumps_pos (.bool b)) (by omega)
  | .list items, 0, _, h => absurd (dumps_pos (.list items)) (by omega)
  | .str s, n + 1, r, _ => by
    obtain ⟨t, quoted, read⟩ := scanString_quote s r
    rw [dumps, quoted, scanOnce_string, read]
    rfl
  | .bool true, n + 1, r, _ => by
    rw [dumps]
    rfl
  | .bool false, n + 1, r, _ => by
    rw [dumps]
    rfl
  | .list [], n + 1, r, _ => by
    rw [dumps]
    rfl
  | .list (v :: rest), n + 1, r, h => by
    obtain ⟨c, u, hc, blank, close⟩ := dumps_first v
    rw [dumps, dumpItems, List.length_cons] at h
    have items := scanItems_dumps v rest (n := n) (r := r) (by omega)
    rw [dumps, dumpItems]
    show scanOnce (n + 1) (.char '[' :: (ascii (dumps v ++ moreItems rest) ++ r)) = _
    rw [scanOnce_array]
    rw [hc] at items ⊢
    rw [show ascii (c :: u ++ moreItems rest) ++ r =
      .char c :: (ascii (u ++ moreItems rest) ++ r) from rfl] at items ⊢
    rw [skipBlank_cons blank]
    split
    · rename_i heq
      exact absurd (CodePoint.char.inj (List.cons.inj heq).1) close
    · rw [items]
      rfl

theorem scanItems_dumps : ∀ (v : Plain) (rest : List Plain) {n : ℕ} {r : Text},
    (dumps v ++ moreItems rest).length ≤ n →
    scanItems n (ascii (dumps v ++ moreItems rest) ++ r) = some (loaded v :: loadedItems rest, r)
  | v, rest, 0, _, h => by
    have := dumps_pos v
    rw [List.length_append] at h
    omega
  | v, [], n + 1, r, h => by
    rw [moreItems, List.length_append, List.length_singleton] at h
    have one := scanOnce_dumps v (n := n) (r := .char ']' :: r) (by omega)
    rw [moreItems, ascii_append, scanItems_succ]
    rw [show ascii [']'] ++ r = .char ']' :: r from rfl, one]
    dsimp only
    rw [skipBlank_cons (by decide)]
    rfl
  | v, w :: rest, n + 1, r, h => by
    rw [moreItems, List.length_append, List.length_cons] at h
    have one := scanOnce_dumps v (n := n) (r := ascii (moreItems (w :: rest)) ++ r) (by omega)
    have more := scanItems_dumps w rest (n := n) (r := r) (by omega)
    obtain ⟨c, u, hc, blank, -⟩ := dumps_first w
    rw [ascii_append, scanItems_succ, one]
    dsimp only
    rw [moreItems]
    rw [show ascii (',' :: (dumps w ++ moreItems rest)) ++ r =
      .char ',' :: (ascii (dumps w ++ moreItems rest) ++ r) from rfl, skipBlank_cons (by decide)]
    have start : skipBlank (ascii (dumps w ++ moreItems rest) ++ r) =
        ascii (dumps w ++ moreItems rest) ++ r := by
      rw [hc]
      exact skipBlank_cons blank _
    show (scanItems n (skipBlank (ascii (dumps w ++ moreItems rest) ++ r))).map _ = _
    rw [start, more]
    rfl

end

theorem loads_dumps (v : Plain) : loads (ascii (dumps v)) = some (loaded v) := by
  obtain ⟨c, u, hc, blank, -⟩ := dumps_first v
  have read := scanOnce_dumps v (n := (ascii (dumps v)).length) (r := []) (by simp [ascii])
  rw [List.append_nil] at read
  have none : skipBlank (ascii (dumps v)) = ascii (dumps v) := by
    rw [hc]
    exact skipBlank_cons blank _
  unfold loads
  rw [none, read]
  rfl

end PyJson
