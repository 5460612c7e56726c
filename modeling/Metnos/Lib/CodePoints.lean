import Mathlib.Data.List.Chain
import Mathlib.Data.List.DropRight
import Metnos.Lib.JsonText

/-!
# CodePoints — texts as Python has them, and their codecs

A text is a sequence of code points, in which surrogates may stand alone.  Two surrogates that stand
for one character are two code points all the same; `joined` is the text in which they are one.
-/

/-- A character, or one of the 2048 surrogates. -/
inductive CodePoint
  | char (c : Char)
  | surrogate (n : Fin 2048)
deriving DecidableEq

namespace CodePoint

abbrev Text := List CodePoint

def number : CodePoint → ℕ
  | .char c => c.toNat
  | .surrogate n => 0xd800 + n

def ofUnit (n : ℕ) : CodePoint :=
  if h : 0xd800 ≤ n ∧ n < 0xe000 then .surrogate ⟨n - 0xd800, by omega⟩ else .char (Char.ofNat n)

def ascii (s : List Char) : Text := s.map .char

def ofString (s : String) : Text := ascii s.toList

/-- `sorted` compares texts by their code points. -/
def Text.le (s t : Text) : Prop := s.map number ≤ t.map number

instance : DecidableRel Text.le := fun s t =>
  inferInstanceAs (Decidable (s.map number ≤ t.map number))

theorem Text.total_le (s t : Text) : s.le t ∨ t.le s := le_total (s.map number) (t.map number)

theorem Text.trans_le {s t u : Text} (h : s.le t) (h' : t.le u) : s.le u :=
  @le_trans (List ℕ) _ _ _ _ h h'

/-! ### Pairs of surrogates -/

def isHigh : CodePoint → Bool
  | .surrogate n => n.val < 1024
  | .char _ => false

def isLow : CodePoint → Bool
  | .surrogate n => 1024 ≤ n.val
  | .char _ => false

/-- The character of a high unit and a low one. -/
def ofPair (high low : ℕ) : Char := Char.ofNat (0x10000 + (high - 0xd800) * 0x400 + (low - 0xdc00))

/-- Every high surrogate with the low one behind it, as one character. -/
def joined : Text → Text
  | [] => []
  | [a] => [a]
  | a :: b :: r =>
    if a.isHigh && b.isLow then .char (ofPair a.number b.number) :: joined r
    else a :: joined (b :: r)

/-- No low surrogate stands behind a high one. -/
def Unpaired (s : Text) : Prop := s.IsChain fun a b => (a.isHigh && b.isLow) = false

instance (s : Text) : Decidable (Unpaired s) :=
  inferInstanceAs (Decidable (s.IsChain _))

theorem joined_of_unpaired {s : Text} (h : Unpaired s) : joined s = s := by
  fun_induction joined s with
  | case1 => rfl
  | case2 => rfl
  | case3 a b r pair => exact absurd pair (by rw [(List.isChain_cons_cons.mp h).1]; decide)
  | case4 a b r pair ih => rw [ih (List.isChain_cons_cons.mp h).2]

/-- The first code point of a joined text is low only when it was before. -/
theorem joined_head (s : Text) : (joined s).head? = s.head? ∨ ∃ c, (joined s).head? = some (.char c) := by
  fun_induction joined s with
  | case1 => exact .inl rfl
  | case2 => exact .inl rfl
  | case3 a b r pair => exact .inr ⟨_, rfl⟩
  | case4 a b r pair ih => exact .inl rfl

theorem unpaired_joined (s : Text) : Unpaired (joined s) := by
  fun_induction joined s with
  | case1 => exact .nil
  | case2 a => exact .singleton a
  | case3 a b r pair ih => exact List.isChain_cons.mpr ⟨fun y _ => rfl, ih⟩
  | case4 a b r pair ih =>
    refine List.isChain_cons.mpr ⟨fun y hy => ?_, ih⟩
    rw [Bool.not_eq_true] at pair
    rcases joined_head (b :: r) with same | ⟨c, hc⟩
    · rw [same] at hy
      obtain rfl : b = y := Option.some.inj hy
      exact pair
    · rw [hc] at hy
      obtain rfl := Option.some.inj hy
      exact Bool.and_false _

/-! ### Space and digits -/

/-- `str.isspace` -/
def isSpace : CodePoint → Bool
  | .char c =>
    decide (9 ≤ c.toNat ∧ c.toNat ≤ 13) || decide (0x1c ≤ c.toNat ∧ c.toNat ≤ 0x20) ||
      decide (0x2000 ≤ c.toNat ∧ c.toNat ≤ 0x200a) ||
      [0x85, 0xa0, 0x1680, 0x2028, 0x2029, 0x202f, 0x205f, 0x3000].contains c.toNat
  | .surrogate _ => false

/-- `str.strip` -/
def strip (s : Text) : Text := (s.dropWhile isSpace).rdropWhile isSpace

/-- The decimal digit that a character beyond ASCII stands for, in the Unicode database. -/
abbrev Decimals := Char → Option ℕ

def hexValue : CodePoint → Option ℕ
  | .char c => Json.hexValue c
  | .surrogate _ => none

theorem hexValue_digit {n : ℕ} (h : n < 16) : hexValue (.char (Json.hexDigit n)) = some n := by
  interval_cases n <;> rfl

def digit (D : Decimals) : CodePoint → Option Char
  | .char c => if c.isDigit then some c else if c.toNat < 128 then none else (D c).map Nat.digitChar
  | .surrogate _ => none

/-- Digits, with one underscore between two of them at most. -/
def digits (D : Decimals) : Text → Option (List Char)
  | [] => none
  | [d] => (digit D d).map ([·])
  | d :: .char '_' :: r => do some ((← digit D d) :: (← digits D r))
  | d :: e :: r => do some ((← digit D d) :: (← digits D (e :: r)))

def signed : Text → Bool × Text
  | .char '-' :: r => (true, r)
  | .char '+' :: r => (false, r)
  | r => (false, r)

/-- `int` of a text. -/
def toInt (D : Decimals) (s : Text) : Option ℤ :=
  match digits D (signed (strip s)).2 with
  | none => none
  | some ds =>
    if Json.maxDigits < ds.length then none
    else
      let n : ℤ := Nat.ofDigitChars 10 ds 0
      some (if (signed (strip s)).1 then -n else n)

/-- `str` of an integer. -/
def ofInt (n : ℤ) : Option (List Char) :=
  if Json.maxDigits < (Nat.toDigits 10 n.natAbs).length then none else some (Json.renderInt n)

theorem strip_of_solid {s : Text} (h : ∀ c ∈ s, isSpace c = false) : strip s = s := by
  have first : s.dropWhile isSpace = s := by
    cases s with
    | nil => rfl
    | cons c s => rw [List.dropWhile_cons, h c (List.mem_cons_self ..)]; rfl
  rw [strip, first, List.rdropWhile_eq_self_iff]
  intro hs
  rw [h _ (List.getLast_mem hs)]
  exact Bool.false_ne_true

theorem digit_bounds {c : Char} (h : c.isDigit = true) : 48 ≤ c.toNat ∧ c.toNat ≤ 57 := by
  rw [Char.isDigit, Bool.and_eq_true, decide_eq_true_eq, decide_eq_true_eq] at h
  exact ⟨UInt32.le_iff_toNat_le.mp h.1, UInt32.le_iff_toNat_le.mp h.2⟩

theorem isSpace_digit {c : Char} (h : c.isDigit = true) : isSpace (.char c) = false := by
  obtain ⟨low, high⟩ := digit_bounds h
  have other : ¬ c.toNat ∈ [0x85, 0xa0, 0x1680, 0x2028, 0x2029, 0x202f, 0x205f, 0x3000] := by
    simp only [List.mem_cons, List.not_mem_nil, or_false]
    omega
  simp only [isSpace, Bool.or_eq_false_iff, decide_eq_false_iff_not, List.contains_eq_mem]
  exact ⟨⟨⟨by omega, by omega⟩, by omega⟩, other⟩

/-- Digits read as they were written. -/
theorem digits_ascii (D : Decimals) : ∀ {ds : List Char}, ds ≠ [] → (∀ c ∈ ds, c.isDigit = true) →
    digits D (ascii ds) = some ds
  | [], h, _ => absurd rfl h
  | [d], _, hd => by
    show (digit D (.char d)).map _ = _
    rw [digit, if_pos (hd d (List.mem_singleton_self d))]
    rfl
  | d :: e :: ds, _, hd => by
    have rest := digits_ascii D (List.cons_ne_nil e ds) fun c hc => hd c (List.mem_cons_of_mem _ hc)
    have he : e ≠ '_' := by
      rintro rfl
      exact absurd (hd '_' (by simp)) (by decide)
    show digits D (.char d :: .char e :: ascii ds) = _
    rw [digits]
    · show ((digit D (.char d)).bind fun x => (digits D (ascii (e :: ds))).bind _) = _
      rw [digit, if_pos (hd d (List.mem_cons_self ..)), rest]
      rfl
    · intro heq
      exact he (CodePoint.char.inj heq)

theorem isDigit_toDigits (n : ℕ) : ∀ c ∈ Nat.toDigits 10 n, c.isDigit = true :=
  fun _ hc => Nat.isDigit_of_mem_toDigits (by decide) (by decide) hc

theorem signed_digits {ds : List Char} (hd : ∀ c ∈ ds, c.isDigit = true) :
    signed (ascii ds) = (false, ascii ds) := by
  cases ds with
  | nil => rfl
  | cons d ds =>
    have digit := hd d (List.mem_cons_self ..)
    show signed (.char d :: ascii ds) = _
    unfold signed
    split
    · rename_i heq
      rw [CodePoint.char.inj (List.cons.inj heq).1] at digit
      cases digit
    · rename_i heq
      rw [CodePoint.char.inj (List.cons.inj heq).1] at digit
      cases digit
    · rfl

theorem toInt_of_parts (D : Decimals) {s : Text} {negative : Bool} {n : ℕ}
    (solid : ∀ c ∈ s, isSpace c = false)
    (parts : signed s = (negative, ascii (Nat.toDigits 10 n)))
    (few : (Nat.toDigits 10 n).length ≤ Json.maxDigits) :
    toInt D s = some (if negative then -(n : ℤ) else (n : ℤ)) := by
  unfold toInt
  rw [strip_of_solid solid, parts]
  dsimp only
  rw [digits_ascii D Nat.toDigits_ne_nil (isDigit_toDigits n)]
  dsimp only
  rw [if_neg (not_lt.mpr few), Nat.ofDigitChars_ten_toDigits]

/-- **An integer is read as it was written.** -/
theorem toInt_ofInt (D : Decimals) {n : ℤ} {s : List Char} (h : ofInt n = some s) :
    toInt D (ascii s) = some n := by
  unfold ofInt at h
  split at h
  · cases h
  rename_i few
  rw [not_lt] at few
  obtain rfl := Option.some.inj h
  have solid : ∀ {ds : List Char}, (∀ c ∈ ds, c.isDigit = true) →
      ∀ c ∈ ascii ds, isSpace c = false := by
    intro ds hd c hc
    obtain ⟨d, hmem, rfl⟩ := List.mem_map.mp hc
    exact isSpace_digit (hd d hmem)
  cases n with
  | ofNat n =>
    exact toInt_of_parts D (solid (isDigit_toDigits n)) (signed_digits (isDigit_toDigits n)) few
  | negSucc n =>
    have parts : signed (ascii (Json.renderInt (.negSucc n))) =
        (true, ascii (Nat.toDigits 10 (n + 1))) := rfl
    refine (toInt_of_parts D (fun c hc => ?_) parts few).trans rfl
    rcases List.mem_cons.mp hc with rfl | hc
    · rfl
    · exact solid (isDigit_toDigits (n + 1)) c hc

end CodePoint
