import Mathlib.Data.List.TakeWhile
import Metnos.Lib.Dynamic

/-!
# JsonText — reading a value at the start of a text

`scanOnce` reads one value and returns it with the text behind it; `rawDecode` does so at an offset,
and `loads` reads a whole text.  A float stands as its literal.  What `render` wrote is read back,
whatever follows that could not continue it (`scanOnce_render`).
-/

namespace Json

/-! ### Characters -/

def isBlank (c : Char) : Bool := c = ' ' || c = '\t' || c = '\n' || c = '\r'

def skipBlank (t : List Char) : List Char := t.dropWhile isBlank

def hexValue (c : Char) : Option ℕ :=
  if '0' ≤ c ∧ c ≤ '9' then some (c.toNat - 48)
  else if 'a' ≤ c ∧ c ≤ 'f' then some (c.toNat - 87)
  else if 'A' ≤ c ∧ c ≤ 'F' then some (c.toNat - 55)
  else none

def hexFour : List Char → Option (ℕ × List Char)
  | a :: b :: c :: d :: r => do
    some (4096 * (← hexValue a) + 256 * (← hexValue b) + 16 * (← hexValue c) + (← hexValue d), r)
  | _ => none

/-- The character after `\u`; two escapes may stand for one character.  A surrogate that stands
alone is no character of a text. -/
def unicodeEscape (r : List Char) : Option (Char × List Char) := do
  let (n, r) ← hexFour r
  if 0xd800 ≤ n ∧ n ≤ 0xdbff then
    match r with
    | '\\' :: 'u' :: r =>
      let (m, r) ← hexFour r
      if 0xdc00 ≤ m ∧ m ≤ 0xdfff then
        some (Char.ofNat (0x10000 + (n - 0xd800) * 0x400 + (m - 0xdc00)), r)
      else none
    | _ => none
  else if 0xdc00 ≤ n ∧ n ≤ 0xdfff then none
  else some (Char.ofNat n, r)

/-- One character of a quoted string, not the closing quote. -/
def scanChar : List Char → Option (Char × List Char)
  | '\\' :: 'u' :: r => unicodeEscape r
  | '\\' :: '"' :: r => some ('"', r)
  | '\\' :: '\\' :: r => some ('\\', r)
  | '\\' :: '/' :: r => some ('/', r)
  | '\\' :: 'b' :: r => some (Char.ofNat 8, r)
  | '\\' :: 'f' :: r => some (Char.ofNat 12, r)
  | '\\' :: 'n' :: r => some ('\n', r)
  | '\\' :: 'r' :: r => some ('\r', r)
  | '\\' :: 't' :: r => some ('\t', r)
  | '\\' :: _ => none
  | c :: r => if c.toNat < 32 then none else some (c, r)
  | [] => none

/-- `scanstring`: the text up to the closing quote. -/
def scanString : ℕ → List Char → Option (List Char × List Char)
  | 0, _ => none
  | n + 1, t =>
    match t with
    | '"' :: r => some ([], r)
    | t => do
      let (c, r) ← scanChar t
      let (s, r) ← scanString n r
      some (c :: s, r)

/-! ### Numbers -/

def signPart : List Char → List Char × List Char
  | '-' :: r => (['-'], r)
  | r => ([], r)

/-- The digits before the point; a zero stands alone. -/
def intPart (t : List Char) : List Char × List Char :=
  match t with
  | '0' :: r => (['0'], r)
  | t => (t.takeWhile Char.isDigit, t.dropWhile Char.isDigit)

def fracPart (t : List Char) : List Char × List Char :=
  match t with
  | '.' :: r =>
    if r.takeWhile Char.isDigit = [] then ([], t)
    else ('.' :: r.takeWhile Char.isDigit, r.dropWhile Char.isDigit)
  | t => ([], t)

theorem fracPart_point (r : List Char) : fracPart ('.' :: r) =
    if r.takeWhile Char.isDigit = [] then ([], '.' :: r)
    else ('.' :: r.takeWhile Char.isDigit, r.dropWhile Char.isDigit) := rfl

def expSign : List Char → List Char × List Char
  | '+' :: r => (['+'], r)
  | '-' :: r => (['-'], r)
  | r => ([], r)

def expPart (t : List Char) : List Char × List Char :=
  match t with
  | c :: r =>
    if (c = 'e' ∨ c = 'E') ∧ (expSign r).2.takeWhile Char.isDigit ≠ [] then
      (c :: ((expSign r).1 ++ (expSign r).2.takeWhile Char.isDigit),
        (expSign r).2.dropWhile Char.isDigit)
    else ([], t)
  | [] => ([], [])

/-- The number of digits that `int` accepts. -/
def maxDigits : ℕ := 4300

/-- `NUMBER_RE` and the conversion. -/
def scanNumber (t : List Char) : Option (Json × List Char) :=
  let (sign, r) := signPart t
  let (digits, r) := intPart r
  if digits = [] then none else
  let (frac, r) := fracPart r
  let (exp, r) := expPart r
  if frac = [] ∧ exp = [] then
    if maxDigits < digits.length then none
    else some (.int (if sign = [] then (Nat.ofDigitChars 10 digits 0 : ℤ)
      else -(Nat.ofDigitChars 10 digits 0 : ℤ)), r)
  else some (.float (String.ofList (sign ++ digits ++ frac ++ exp)), r)

/-! ### Values -/

/-- A value that starts with a letter, or a number. -/
def scanPlain : List Char → Option (Json × List Char)
  | 'n' :: 'u' :: 'l' :: 'l' :: r => some (.null, r)
  | 't' :: 'r' :: 'u' :: 'e' :: r => some (.bool true, r)
  | 'f' :: 'a' :: 'l' :: 's' :: 'e' :: r => some (.bool false, r)
  | 'N' :: 'a' :: 'N' :: r => some (.float "nan", r)
  | 'I' :: 'n' :: 'f' :: 'i' :: 'n' :: 'i' :: 't' :: 'y' :: r => some (.float "inf", r)
  | '-' :: 'I' :: 'n' :: 'f' :: 'i' :: 'n' :: 'i' :: 't' :: 'y' :: r => some (.float "-inf", r)
  | t => scanNumber t

/-- A dict of pairs: a key that comes again takes the later value. -/
def dictOf (pairs : List (String × Json)) : List (String × Json) :=
  pairs.foldl (fun (d : Dynamic.Dict) f => d.set f.1 f.2) []

mutual

/-- `scan_once`, with a bound on the depth of the calls. -/
def scanOnce : ℕ → List Char → Option (Json × List Char)
  | 0, _ => none
  | n + 1, t =>
    match t with
    | '"' :: r => (scanString (r.length + 1) r).map (fun x => (.str (String.ofList x.1), x.2))
    | '{' :: r =>
      match skipBlank r with
      | '}' :: r => some (.obj [], r)
      | r => (scanMembers n r).map (fun x => (.obj (dictOf x.1), x.2))
    | '[' :: r =>
      match skipBlank r with
      | ']' :: r => some (.arr [], r)
      | r => (scanItems n r).map (fun x => (.arr x.1, x.2))
    | t => scanPlain t

/-- The items of an array up to its bracket. -/
def scanItems : ℕ → List Char → Option (List Json × List Char)
  | 0, _ => none
  | n + 1, t =>
    match scanOnce n t with
    | none => none
    | some (v, r) =>
      match skipBlank r with
      | ']' :: r => some ([v], r)
      | ',' :: r => (scanItems n (skipBlank r)).map (fun x => (v :: x.1, x.2))
      | _ => none

/-- The members of an object up to its brace. -/
def scanMembers : ℕ → List Char → Option (List (String × Json) × List Char)
  | 0, _ => none
  | n + 1, t =>
    match t with
    | '"' :: r =>
      match scanString (r.length + 1) r with
      | none => none
      | some (k, r) =>
        match skipBlank r with
        | ':' :: r =>
          match scanOnce n (skipBlank r) with
          | none => none
          | some (v, r) =>
            match skipBlank r with
            | '}' :: r => some ([(String.ofList k, v)], r)
            | ',' :: r =>
              (scanMembers n (skipBlank r)).map (fun x => ((String.ofList k, v) :: x.1, x.2))
            | _ => none
        | _ => none
    | _ => none

end

/-- `JSONDecoder().raw_decode(value, offset)`: the value and the offset behind it. -/
def rawDecode (value : List Char) (offset : ℕ) : Option (Json × ℕ) :=
  (scanOnce (value.drop offset).length (value.drop offset)).map
    (fun x => (x.1, value.length - x.2.length))

/-- `json.loads` -/
def loads (t : List Char) : Option Json :=
  match scanOnce (skipBlank t).length (skipBlank t) with
  | some (v, r) => if skipBlank r = [] then some v else none
  | none => none

/-! ### One step of the scanner -/

theorem scanItems_succ (n : ℕ) (t : List Char) : scanItems (n + 1) t =
    match scanOnce n t with
    | none => none
    | some (v, r) =>
      match skipBlank r with
      | ']' :: r => some ([v], r)
      | ',' :: r => (scanItems n (skipBlank r)).map (fun x => (v :: x.1, x.2))
      | _ => none := rfl

theorem scanOnce_string (n : ℕ) (r : List Char) : scanOnce (n + 1) ('"' :: r) =
    (scanString (r.length + 1) r).map (fun x => (.str (String.ofList x.1), x.2)) := rfl

theorem scanOnce_object (n : ℕ) (r : List Char) : scanOnce (n + 1) ('{' :: r) =
    match skipBlank r with
    | '}' :: r => some (.obj [], r)
    | r => (scanMembers n r).map (fun x => (.obj (dictOf x.1), x.2)) := rfl

theorem scanOnce_array (n : ℕ) (r : List Char) : scanOnce (n + 1) ('[' :: r) =
    match skipBlank r with
    | ']' :: r => some (.arr [], r)
    | r => (scanItems n r).map (fun x => (.arr x.1, x.2)) := rfl

/-! ### Strings -/

theorem scanChar_control (n : ℕ) (hn : n < 32) (r : List Char) :
    scanChar (escape (Char.ofNat n) ++ r) = some (Char.ofNat n, r) := by
  interval_cases n <;> rfl

theorem escape_plain {c : Char} (hcontrol : ¬ c.toNat < 32) (hquote : c ≠ '"') (hback : c ≠ '\\') :
    escape c = [c] := by
  have hn : c ≠ '\n' := fun h => hcontrol (h ▸ by decide)
  have hr : c ≠ '\r' := fun h => hcontrol (h ▸ by decide)
  have ht : c ≠ '\t' := fun h => hcontrol (h ▸ by decide)
  have hb : c ≠ Char.ofNat 8 := fun h => hcontrol (h ▸ by decide)
  have hf : c ≠ Char.ofNat 12 := fun h => hcontrol (h ▸ by decide)
  simp only [escape, hquote, hback, hn, hr, ht, hb, hf, hcontrol, if_false]

/-- A character reads back from what stands for it between quotes. -/
theorem scanChar_escape (c : Char) (r : List Char) : scanChar (escape c ++ r) = some (c, r) := by
  by_cases hcontrol : c.toNat < 32
  · have h := scanChar_control c.toNat hcontrol r
    rwa [Char.ofNat_toNat] at h
  by_cases hquote : c = '"'
  · subst hquote
    rfl
  by_cases hback : c = '\\'
  · subst hback
    rfl
  rw [escape_plain hcontrol hquote hback]
  show scanChar (c :: r) = _
  unfold scanChar
  split <;> simp_all

theorem escape_head (c : Char) : ∃ d rest, escape c = d :: rest ∧ d ≠ '"' := by
  unfold escape
  split
  · exact ⟨_, _, rfl, by decide⟩
  · rename_i hquote
    repeat' split
    all_goals first | exact ⟨_, _, rfl, by decide⟩ | exact ⟨_, _, rfl, hquote⟩

theorem scanString_escaped : ∀ (s : List Char) {n : ℕ} (r : List Char), s.length < n →
    scanString n (s.flatMap escape ++ '"' :: r) = some (s, r)
  | _, 0, _, h => absurd h (Nat.not_lt_zero _)
  | [], n + 1, r, _ => rfl
  | c :: s, n + 1, r, h => by
    have one := scanChar_escape c (s.flatMap escape ++ '"' :: r)
    have rest := scanString_escaped s (n := n) r (by simpa using h)
    obtain ⟨d, more, hd, ne⟩ := escape_head c
    rw [List.flatMap_cons, List.append_assoc, scanString]
    · rw [one]
      show (scanString n (s.flatMap escape ++ '"' :: r)).bind _ = _
      rw [rest]
      rfl
    · intro t heq
      rw [hd] at heq
      exact ne (List.cons.inj heq).1

theorem length_le_escaped (s : List Char) : s.length ≤ (s.flatMap escape).length := by
  induction s with
  | nil => exact le_rfl
  | cons c s ih =>
    obtain ⟨d, more, hd, -⟩ := escape_head c
    rw [List.flatMap_cons, List.length_append, hd, List.length_cons, List.length_cons]
    omega

/-- A quoted text reads back. -/
theorem scanString_quote (s : String) (r : List Char) :
    ∃ t, quote s ++ r = '"' :: t ∧ scanString (t.length + 1) t = some (s.toList, r) := by
  refine ⟨s.toList.flatMap escape ++ '"' :: r, ?_, scanString_escaped s.toList r ?_⟩
  · unfold quote
    simp
  · have := length_le_escaped s.toList
    rw [List.length_append]
    omega

/-! ### Numbers -/

/-- What may follow a value in a compact text. -/
def Follows (r : List Char) : Prop := ∀ c ∈ r.head?, c = ',' ∨ c = ']' ∨ c = '}'

theorem Follows.cases {r : List Char} (F : Follows r) :
    r = [] ∨ ∃ t, r = ',' :: t ∨ r = ']' :: t ∨ r = '}' :: t := by
  cases r with
  | nil => exact .inl rfl
  | cons c t =>
    rcases F c rfl with rfl | rfl | rfl
    · exact .inr ⟨t, .inl rfl⟩
    · exact .inr ⟨t, .inr (.inl rfl)⟩
    · exact .inr ⟨t, .inr (.inr rfl)⟩

section
variable {s : List Char}

theorem Follows.digits (F : Follows s) (t : List Char) :
    (t ++ s).takeWhile Char.isDigit = t.takeWhile Char.isDigit ∧
      (t ++ s).dropWhile Char.isDigit = t.dropWhile Char.isDigit ++ s := by
  induction t with
  | nil => rcases F.cases with rfl | ⟨t, rfl | rfl | rfl⟩ <;> exact ⟨rfl, rfl⟩
  | cons c t ih =>
    rw [List.cons_append, List.takeWhile_cons, List.takeWhile_cons, List.dropWhile_cons,
      List.dropWhile_cons]
    by_cases h : c.isDigit = true
    · rw [if_pos h, if_pos h, if_pos h, if_pos h, ih.1, ih.2]
      exact ⟨rfl, rfl⟩
    · rw [if_neg h, if_neg h, if_neg h, if_neg h]
      exact ⟨rfl, rfl⟩

/-- A part of a number is the same with more text behind it. -/
def Extends (part : List Char → List Char × List Char) (s : List Char) : Prop :=
  ∀ t, part (t ++ s) = ((part t).1, (part t).2 ++ s)

theorem Follows.sign (F : Follows s) : Extends signPart s := by
  intro t
  cases t with
  | nil => rcases F.cases with rfl | ⟨t, rfl | rfl | rfl⟩ <;> rfl
  | cons c t =>
    by_cases h : c = '-'
    · rw [h]
      rfl
    · simp [signPart, h]

theorem Follows.int (F : Follows s) : Extends intPart s := by
  intro t
  cases t with
  | nil => rcases F.cases with rfl | ⟨t, rfl | rfl | rfl⟩ <;> rfl
  | cons c t =>
    by_cases h : c = '0'
    · rw [h]
      rfl
    · have whole := F.digits (c :: t)
      simp only [List.cons_append] at whole
      simp [intPart, h, whole.1, whole.2]

theorem Follows.frac (F : Follows s) : Extends fracPart s := by
  intro t
  cases t with
  | nil => rcases F.cases with rfl | ⟨t, rfl | rfl | rfl⟩ <;> rfl
  | cons c t =>
    by_cases h : c = '.'
    · subst h
      show fracPart ('.' :: (t ++ s)) = _
      rw [fracPart_point, fracPart_point]
      rw [(F.digits t).1, (F.digits t).2]
      split <;> rfl
    · simp [fracPart, h]

theorem Follows.expSign (F : Follows s) : Extends expSign s := by
  intro t
  cases t with
  | nil => rcases F.cases with rfl | ⟨t, rfl | rfl | rfl⟩ <;> rfl
  | cons c t =>
    by_cases plus : c = '+'
    · rw [plus]
      rfl
    · by_cases minus : c = '-'
      · rw [minus]
        rfl
      · simp [Json.expSign, plus, minus]

theorem Follows.exp (F : Follows s) : Extends expPart s := by
  intro t
  cases t with
  | nil => rcases F.cases with rfl | ⟨t, rfl | rfl | rfl⟩ <;> simp [expPart]
  | cons c t =>
    show expPart (c :: (t ++ s)) = _
    unfold expPart
    dsimp only
    rw [F.expSign t]
    rw [(F.digits _).1, (F.digits _).2]
    split <;> rfl

/-- A number reads the same with more text behind it. -/
theorem Follows.number (F : Follows s) {t r : List Char} {v : Json}
    (h : scanNumber t = some (v, r)) : scanNumber (t ++ s) = some (v, r ++ s) := by
  unfold scanNumber at h ⊢
  dsimp only at h ⊢
  rw [F.sign t]
  dsimp only
  rw [F.int _]
  dsimp only
  rw [F.frac _]
  dsimp only
  rw [F.exp _]
  dsimp only
  split at h
  · cases h
  · rename_i digits
    rw [if_neg digits]
    split at h
    · rename_i whole
      rw [if_pos whole]
      split at h
      · cases h
      · rename_i few
        rw [if_neg few]
        simp only [Option.some.injEq, Prod.mk.injEq] at h ⊢
        exact ⟨h.1, by rw [h.2]⟩
    · rename_i broken
      rw [if_neg broken]
      simp only [Option.some.injEq, Prod.mk.injEq] at h ⊢
      exact ⟨h.1, by rw [h.2]⟩

end

def isNumeric (c : Char) : Bool := c.isDigit || c ∈ ['-', '+', '.', 'e', 'E']

/-- A part of a number is a first piece of the text, of such characters only. -/
def Cuts (part : List Char → List Char × List Char) : Prop :=
  ∀ t, (part t).1 ++ (part t).2 = t ∧ ∀ c ∈ (part t).1, isNumeric c = true

theorem digits_cut : Cuts fun t => (t.takeWhile Char.isDigit, t.dropWhile Char.isDigit) := by
  refine fun t => ⟨List.takeWhile_append_dropWhile, fun c hc => ?_⟩
  simp [isNumeric, List.mem_takeWhile_imp hc]

theorem signPart_cuts : Cuts signPart := by
  intro t
  unfold signPart
  split
  · exact ⟨rfl, by simp [isNumeric]⟩
  · exact ⟨rfl, by simp⟩

theorem intPart_cuts : Cuts intPart := by
  intro t
  unfold intPart
  split
  · exact ⟨rfl, by simp [isNumeric]⟩
  · exact digits_cut _

theorem fracPart_cuts : Cuts fracPart := by
  intro t
  unfold fracPart
  split
  · rename_i r
    split
    · exact ⟨rfl, by simp⟩
    · have rest := digits_cut r
      refine ⟨by rw [List.cons_append, rest.1], fun c hc => ?_⟩
      rcases List.mem_cons.mp hc with rfl | hc
      · rfl
      · exact rest.2 c hc
  · exact ⟨rfl, by simp⟩

theorem expSign_cuts : Cuts expSign := by
  intro t
  unfold expSign
  split
  · exact ⟨rfl, by simp [isNumeric]⟩
  · exact ⟨rfl, by simp [isNumeric]⟩
  · exact ⟨rfl, by simp⟩

theorem expPart_cuts : Cuts expPart := by
  intro t
  unfold expPart
  split
  · rename_i c r
    split
    · rename_i letter
      have sign := expSign_cuts r
      have rest := digits_cut (expSign r).2
      refine ⟨by rw [List.cons_append, List.append_assoc, rest.1, sign.1], fun d hd => ?_⟩
      rcases List.mem_cons.mp hd with rfl | hd
      · rcases letter.1 with rfl | rfl <;> rfl
      · rcases List.mem_append.mp hd with hd | hd
        · exact sign.2 d hd
        · exact rest.2 d hd
    · exact ⟨rfl, by simp⟩
  · exact ⟨rfl, by simp⟩

/-- What is read as a number has only such characters. -/
theorem scanNumber_cuts {t r : List Char} {v : Json} (h : scanNumber t = some (v, r)) :
    ∃ number, number ++ r = t ∧ ∀ c ∈ number, isNumeric c = true := by
  have sign := signPart_cuts t
  have int := intPart_cuts (signPart t).2
  have frac := fracPart_cuts (intPart (signPart t).2).2
  have exp := expPart_cuts (fracPart (intPart (signPart t).2).2).2
  have rest : r = (expPart (fracPart (intPart (signPart t).2).2).2).2 := by
    unfold scanNumber at h
    dsimp only at h
    repeat' split at h
    all_goals simp_all
  refine ⟨(signPart t).1 ++ ((intPart (signPart t).2).1 ++
    ((fracPart (intPart (signPart t).2).2).1 ++
      (expPart (fracPart (intPart (signPart t).2).2).2).1)), ?_, ?_⟩
  · rw [rest, List.append_assoc, List.append_assoc, List.append_assoc, exp.1, frac.1, int.1, sign.1]
  · intro c hc
    rcases List.mem_append.mp hc with hc | hc
    · exact sign.2 c hc
    rcases List.mem_append.mp hc with hc | hc
    · exact int.2 c hc
    rcases List.mem_append.mp hc with hc | hc
    · exact frac.2 c hc
    · exact exp.2 c hc

/-- A text that is written for a finite float. -/
def isFloatText (t : List Char) : Bool :=
  match scanNumber t with
  | some (.float text, []) => text.toList = t
  | _ => false

/-- A number that is read back: an integer with not too many digits, a finite float. -/
def loadable : Json → Bool
  | .int n => (Nat.toDigits 10 n.natAbs).length ≤ maxDigits
  | .float text => isFloatText text.toList
  | _ => true

theorem digits_head_ne_zero : ∀ (n : ℕ), 0 < n → (Nat.toDigits 10 n).head? ≠ some '0' := by
  intro n
  induction n using Nat.strong_induction_on with
  | _ n ih =>
    intro hn
    by_cases small : n < 10
    · rw [Nat.toDigits_of_lt_base small]
      interval_cases n <;> decide
    · rw [Nat.toDigits_of_base_le (by decide) (by omega)]
      have rest := ih (n / 10) (by omega) (by omega)
      obtain ⟨c, more, hc, -⟩ := digits_head (n / 10)
      rw [hc] at rest ⊢
      exact rest

/-- The digits of a number are its part before the point. -/
theorem intPart_digits (n : ℕ) : intPart (Nat.toDigits 10 n) = (Nat.toDigits 10 n, []) := by
  rcases Nat.eq_zero_or_pos n with rfl | hn
  · rfl
  · have digits : ∀ c ∈ Nat.toDigits 10 n, c.isDigit = true := fun c hc =>
      Nat.isDigit_of_mem_toDigits (by decide) (by decide) hc
    have all : (Nat.toDigits 10 n).takeWhile Char.isDigit = Nat.toDigits 10 n :=
      List.takeWhile_eq_self_iff.mpr digits
    have none : (Nat.toDigits 10 n).dropWhile Char.isDigit = [] :=
      List.dropWhile_eq_nil_iff.mpr digits
    have head := digits_head_ne_zero n hn
    unfold intPart
    split
    · rename_i r heq
      rw [heq] at head
      exact absurd rfl head
    · rw [all, none]

theorem signPart_digits (n : ℕ) : signPart (Nat.toDigits 10 n) = ([], Nat.toDigits 10 n) := by
  obtain ⟨c, rest, hc, hd⟩ := digits_head n
  rw [hc]
  unfold signPart
  split
  · rename_i heq
    rw [(List.cons.inj heq).1] at hd
    cases hd
  · rfl

theorem scanNumber_int {n : ℤ} (few : loadable (.int n) = true) :
    scanNumber (renderInt n) = some (.int n, []) := by
  have few : (Nat.toDigits 10 n.natAbs).length ≤ maxDigits := of_decide_eq_true few
  cases n with
  | ofNat n =>
    have few : (Nat.toDigits 10 n).length ≤ maxDigits := few
    unfold scanNumber renderInt
    dsimp only
    rw [signPart_digits, intPart_digits]
    dsimp only
    rw [if_neg Nat.toDigits_ne_nil]
    show (if ([] : List Char) = [] ∧ ([] : List Char) = [] then _ else _) = _
    rw [if_pos ⟨rfl, rfl⟩, if_neg (by omega), if_pos rfl, Nat.ofDigitChars_ten_toDigits]
    rfl
  | negSucc n =>
    have few : (Nat.toDigits 10 (n + 1)).length ≤ maxDigits := few
    have sign : signPart ('-' :: Nat.toDigits 10 (n + 1)) = (['-'], Nat.toDigits 10 (n + 1)) := rfl
    show scanNumber ('-' :: Nat.toDigits 10 (n + 1)) = _
    unfold scanNumber
    rw [sign]
    dsimp only
    rw [intPart_digits]
    dsimp only
    rw [if_neg Nat.toDigits_ne_nil]
    show (if ([] : List Char) = [] ∧ ([] : List Char) = [] then _ else _) = _
    rw [if_pos ⟨rfl, rfl⟩, if_neg (by omega), if_neg (by decide), Nat.ofDigitChars_ten_toDigits]
    rfl

theorem scanNumber_float {text : String} (h : isFloatText text.toList = true) :
    scanNumber text.toList = some (.float text, []) := by
  unfold isFloatText at h
  split at h
  · rename_i other heq
    rw [heq, String.toList_inj.mp (of_decide_eq_true h)]
  · cases h

/-! ### Values -/

theorem skipBlank_cons {c : Char} (h : isBlank c = false) (r : List Char) :
    skipBlank (c :: r) = c :: r := by
  unfold skipBlank
  rw [List.dropWhile_cons, h]
  rfl

theorem intPart_first {t : List Char} (h : (intPart t).1 ≠ []) :
    ∃ c r, t = c :: r ∧ c.isDigit = true := by
  cases t with
  | nil => exact absurd rfl h
  | cons c r =>
    refine ⟨c, r, rfl, ?_⟩
    by_contra no
    unfold intPart at h
    split at h
    · rename_i heq
      rw [(List.cons.inj heq).1] at no
      exact no rfl
    · rw [List.takeWhile_cons, if_neg no] at h
      exact h rfl

/-- A number starts with a digit, or with a sign and a digit. -/
theorem scanNumber_first {t : List Char} {x : Json × List Char} (h : scanNumber t = some x) :
    (∃ c r, t = c :: r ∧ c.isDigit = true) ∨ ∃ c r, t = '-' :: c :: r ∧ c.isDigit = true := by
  unfold scanNumber at h
  dsimp only at h
  split at h
  · cases h
  · rename_i digits
    obtain ⟨c, r, hc, hd⟩ := intPart_first digits
    unfold signPart at hc
    split at hc
    · dsimp only at hc
      exact .inr ⟨c, r, by rw [hc], hd⟩
    · exact .inl ⟨c, r, hc, hd⟩

theorem scanPlain_number {t : List Char} {x : Json × List Char} (h : scanNumber t = some x) :
    scanPlain t = some x := by
  unfold scanPlain
  rcases scanNumber_first h with ⟨c, r, rfl, hd⟩ | ⟨c, r, rfl, hd⟩
  · split
    all_goals first
      | exact h
      | (rename_i heq; rw [(List.cons.inj heq).1] at hd; exact absurd hd (by decide))
  · split
    all_goals first
      | exact h
      | (rename_i heq; exact absurd (List.cons.inj heq).1 (by decide))
      | (rename_i heq; rw [(List.cons.inj (List.cons.inj heq).2).1] at hd; exact absurd hd (by decide))

theorem scanOnce_number {t : List Char} {x : Json × List Char} (h : scanNumber t = some x) (n : ℕ) :
    scanOnce (n + 1) t = some x := by
  have plain := scanPlain_number h
  have first : ∃ c r, t = c :: r ∧ c ≠ '"' ∧ c ≠ '{' ∧ c ≠ '[' := by
    rcases scanNumber_first h with ⟨c, r, rfl, hd⟩ | ⟨c, r, rfl, hd⟩
    · refine ⟨c, r, rfl, ?_, ?_, ?_⟩ <;> (rintro rfl; exact absurd hd (by decide))
    · exact ⟨_, _, rfl, by decide, by decide, by decide⟩
  obtain ⟨c, r, rfl, hquote, hbrace, hbracket⟩ := first
  rw [scanOnce]
  · exact plain
  · exact fun r heq => hquote (List.cons.inj heq).1
  · exact fun r heq => hbrace (List.cons.inj heq).1
  · exact fun r heq => hbracket (List.cons.inj heq).1

/-- The first character of a value. -/
theorem render_first {v : Json} (h : loadable v = true) :
    ∃ c r, render v = c :: r ∧ isBlank c = false ∧ c ≠ ']' ∧ c ≠ '}' := by
  have number : ∀ {t : List Char} {x : Json × List Char}, scanNumber t = some x →
      ∃ c r, t = c :: r ∧ isBlank c = false ∧ c ≠ ']' ∧ c ≠ '}' := by
    intro t x hx
    rcases scanNumber_first hx with ⟨c, r, rfl, hd⟩ | ⟨c, r, rfl, -⟩
    · refine ⟨c, r, rfl, ?_, ?_, ?_⟩
      · by_contra blank
        simp only [isBlank, Bool.not_eq_false, Bool.or_eq_true, decide_eq_true_eq] at blank
        rcases blank with ((rfl | rfl) | rfl) | rfl <;> exact absurd hd (by decide)
      · rintro rfl
        exact absurd hd (by decide)
      · rintro rfl
        exact absurd hd (by decide)
    · exact ⟨_, _, rfl, by decide, by decide, by decide⟩
  cases v with
  | null => exact ⟨_, _, by rw [render], by decide, by decide, by decide⟩
  | bool b => cases b <;> exact ⟨_, _, by rw [render], by decide, by decide, by decide⟩
  | int n =>
    rw [render]
    exact number (scanNumber_int h)
  | float text =>
    rw [render]
    exact number (scanNumber_float h)
  | str s => exact ⟨_, _, by rw [render, quote, List.cons_append], by decide, by decide, by decide⟩
  | arr items => exact ⟨_, _, by rw [render], by decide, by decide, by decide⟩
  | obj fields => exact ⟨_, _, by rw [render], by decide, by decide, by decide⟩

/-- Pairs with different keys are a dict already. -/
theorem dictOf_nodup {pairs : List (String × Json)} (nodup : (pairs.map Prod.fst).Nodup) :
    dictOf pairs = pairs := by
  have all : ∀ (rest d : List (String × Json)), ((d ++ rest).map Prod.fst).Nodup →
      rest.foldl (fun (d : Dynamic.Dict) f => d.set f.1 f.2) d = d ++ rest := by
    intro rest
    induction rest with
    | nil => exact fun d _ => (List.append_nil d).symm
    | cons f rest ih =>
      intro d nodup
      have fresh : Dynamic.Dict.has d f.1 = false := by
        rw [Bool.eq_false_iff, Ne, Dynamic.Dict.has_iff]
        rw [List.map_append, List.nodup_append] at nodup
        exact fun mem => nodup.2.2 _ mem f.1 (by simp) rfl
      rw [List.foldl_cons]
      have set : Dynamic.Dict.set d f.1 f.2 = d ++ [f] := by
        unfold Dynamic.Dict.set
        rw [fresh]
        rfl
      rw [set, ih (d ++ [f]) (by simpa using nodup), List.append_assoc]
      rfl
  exact all pairs [] nodup

theorem follows_moreItems (items : List Json) (r : List Char) : Follows (moreItems items ++ r) := by
  cases items <;> simp [moreItems, Follows]

theorem follows_moreFields (fields : List (String × Json)) (r : List Char) :
    Follows (moreFields fields ++ r) := by
  cases fields <;> simp [moreFields, Follows]

theorem render_pos {v : Json} (h : loadable v = true) : 0 < (render v).length := by
  obtain ⟨c, r, hc, -⟩ := render_first h
  rw [hc]
  exact Nat.succ_pos _

theorem every_self {p : Json → Bool} {v : Json} (h : v.every p = true) : p v = true := by
  cases v with
  | arr items => exact (every_arr.mp h).1
  | obj fields => exact (every_obj.mp h).1
  | _ => exact h

/-- A member of an object reads its key, then its value. -/
theorem scanMembers_member (n : ℕ) (k : String) {v : Json} {t r : List Char}
    (first : ∃ c u, t = c :: u ∧ isBlank c = false) (value : scanOnce n t = some (v, r)) :
    scanMembers (n + 1) (quote k ++ ':' :: t) =
      match skipBlank r with
      | '}' :: r => some ([(k, v)], r)
      | ',' :: r => (scanMembers n (skipBlank r)).map (fun x => ((k, v) :: x.1, x.2))
      | _ => none := by
  obtain ⟨u, quoted, key⟩ := scanString_quote k (':' :: t)
  obtain ⟨c, w, rfl, blank⟩ := first
  have colon : skipBlank (':' :: c :: w) = ':' :: c :: w := skipBlank_cons (by decide) _
  have start : skipBlank (c :: w) = c :: w := skipBlank_cons blank w
  rw [quoted, scanMembers]
  simp only [key, colon, start, value, String.ofList_toList]

mutual

/-- What was rendered is read back, whatever follows the value. -/
theorem scanOnce_render : ∀ (v : Json) {n : ℕ} {r : List Char}, v.every loadable = true →
    v.Distinct → Follows r → (render v).length ≤ n → scanOnce n (render v ++ r) = some (v, r)
  | .null, 0, _, h, _, _, len => absurd (render_pos (every_self h)) (by omega)
  | .bool b, 0, _, h, _, _, len => absurd (render_pos (every_self h)) (by omega)
  | .int m, 0, _, h, _, _, len => absurd (render_pos (every_self h)) (by omega)
  | .float text, 0, _, h, _, _, len => absurd (render_pos (every_self h)) (by omega)
  | .str s, 0, _, h, _, _, len => absurd (render_pos (every_self h)) (by omega)
  | .arr items, 0, _, h, _, _, len => absurd (render_pos (every_self h)) (by omega)
  | .obj fields, 0, _, h, _, _, len => absurd (render_pos (every_self h)) (by omega)
  | .null, n + 1, r, _, _, _, _ => by
    rw [render]
    rfl
  | .bool true, n + 1, r, _, _, _, _ => by
    rw [render]
    rfl
  | .bool false, n + 1, r, _, _, _, _ => by
    rw [render]
    rfl
  | .int m, n + 1, r, h, _, F, _ => by
    rw [render]
    exact scanOnce_number (F.number (scanNumber_int h)) n
  | .float text, n + 1, r, h, _, F, _ => by
    rw [render]
    exact scanOnce_number (F.number (scanNumber_float h)) n
  | .str s, n + 1, r, _, _, _, _ => by
    obtain ⟨t, quoted, read⟩ := scanString_quote s r
    rw [render, quoted, scanOnce_string, read, Option.map_some, String.ofList_toList]
  | .arr [], n + 1, r, _, _, _, _ => by
    rw [render]
    rfl
  | .arr (v :: rest), n + 1, r, h, hd, _, len => by
    have all := (every_arr.mp h).2
    have distinct := (every_arr.mp hd).2
    obtain ⟨c, u, hc, blank, close, -⟩ := render_first (every_self (all v (List.mem_cons_self ..)))
    rw [render, renderItems, List.length_cons] at len
    have items := scanItems_render v rest (n := n) (r := r) all distinct (by omega)
    rw [render, renderItems, List.cons_append, List.append_assoc, scanOnce_array]
    rw [hc, List.cons_append] at items ⊢
    rw [skipBlank_cons blank]
    split
    · rename_i heq
      exact absurd (List.cons.inj heq).1 close
    · rw [items]
      rfl
  | .obj [], n + 1, r, _, _, _, _ => by
    rw [render]
    rfl
  | .obj ((k, v) :: rest), n + 1, r, h, hd, _, len => by
    have all := (every_obj.mp h).2
    have nodup : (((k, v) :: rest).map Prod.fst).Nodup := of_decide_eq_true (every_obj.mp hd).1
    have distinct := (every_obj.mp hd).2
    rw [render, renderFields, List.length_cons] at len
    have fields := scanMembers_render k v rest (n := n) (r := r) all distinct (by omega)
    rw [render, renderFields, List.cons_append, List.append_assoc, List.cons_append,
      List.append_assoc, scanOnce_object]
    obtain ⟨t, quoted, -⟩ := scanString_quote k (':' :: (render v ++ (moreFields rest ++ r)))
    rw [quoted] at fields ⊢
    rw [skipBlank_cons (by decide)]
    show (scanMembers n ('"' :: t)).map _ = _
    rw [fields, Option.map_some, dictOf_nodup nodup]

theorem scanItems_render : ∀ (v : Json) (rest : List Json) {n : ℕ} {r : List Char},
    (∀ w ∈ v :: rest, w.every loadable = true) → (∀ w ∈ v :: rest, w.Distinct) →
    (render v ++ moreItems rest).length ≤ n →
    scanItems n (render v ++ (moreItems rest ++ r)) = some (v :: rest, r)
  | v, rest, 0, _, all, _, len => by
    have := render_pos (every_self (all v (List.mem_cons_self ..)))
    rw [List.length_append] at len
    omega
  | v, [], n + 1, r, all, distinct, len => by
    rw [moreItems, List.length_append, List.length_singleton] at len
    have one := scanOnce_render v (n := n) (r := ']' :: r) (all v (List.mem_cons_self ..))
      (distinct v (List.mem_cons_self ..)) (by simp [Follows]) (by omega)
    rw [moreItems, List.singleton_append, scanItems_succ, one]
    dsimp only
    rw [skipBlank_cons (by decide)]
    rfl
  | v, w :: rest, n + 1, r, all, distinct, len => by
    rw [moreItems, List.length_append, List.length_cons] at len
    have one := scanOnce_render v (n := n) (r := moreItems (w :: rest) ++ r)
      (all v (List.mem_cons_self ..)) (distinct v (List.mem_cons_self ..))
      (follows_moreItems _ _) (by omega)
    have more := scanItems_render w rest (n := n) (r := r)
      (fun x hx => all x (List.mem_cons_of_mem _ hx))
      (fun x hx => distinct x (List.mem_cons_of_mem _ hx)) (by omega)
    obtain ⟨c, u, hc, blank, -⟩ :=
      render_first (every_self (all w (List.mem_cons_of_mem _ (List.mem_cons_self ..))))
    rw [scanItems_succ, one]
    dsimp only
    rw [moreItems, List.cons_append, skipBlank_cons (by decide), List.append_assoc]
    rw [hc, List.cons_append] at more ⊢
    show (scanItems n (skipBlank (c :: (u ++ (moreItems rest ++ r))))).map _ = _
    rw [skipBlank_cons blank, more]
    rfl

theorem scanMembers_render : ∀ (k : String) (v : Json) (rest : List (String × Json)) {n : ℕ}
    {r : List Char}, (∀ f ∈ (k, v) :: rest, f.2.every loadable = true) →
    (∀ f ∈ (k, v) :: rest, f.2.Distinct) →
    (quote k ++ ':' :: (render v ++ moreFields rest)).length ≤ n →
    scanMembers n (quote k ++ ':' :: (render v ++ (moreFields rest ++ r))) =
      some ((k, v) :: rest, r)
  | k, v, rest, 0, _, _, _, len => by
    rw [List.length_append, List.length_cons] at len
    omega
  | k, v, [], n + 1, r, all, distinct, len => by
    rw [moreFields, List.length_append, List.length_cons, List.length_append,
      List.length_singleton] at len
    have one := scanOnce_render v (n := n) (r := '}' :: r) (all (k, v) (List.mem_cons_self ..))
      (distinct (k, v) (List.mem_cons_self ..)) (by simp [Follows]) (by omega)
    obtain ⟨c, u, hc, blank, -⟩ :=
      render_first (every_self (all (k, v) (List.mem_cons_self ..)))
    rw [moreFields, List.singleton_append, scanMembers_member n k
      ⟨c, u ++ '}' :: r, by rw [hc, List.cons_append], blank⟩ one,
      skipBlank_cons (by decide)]
    rfl
  | k, v, (k', w) :: rest, n + 1, r, all, distinct, len => by
    rw [moreFields, List.length_append, List.length_cons, List.length_append,
      List.length_cons] at len
    have one := scanOnce_render v (n := n) (r := moreFields ((k', w) :: rest) ++ r)
      (all (k, v) (List.mem_cons_self ..)) (distinct (k, v) (List.mem_cons_self ..))
      (follows_moreFields _ _) (by omega)
    have more := scanMembers_render k' w rest (n := n) (r := r)
      (fun f hf => all f (List.mem_cons_of_mem _ hf))
      (fun f hf => distinct f (List.mem_cons_of_mem _ hf)) (by omega)
    obtain ⟨c, u, hc, blank, -⟩ :=
      render_first (every_self (all (k, v) (List.mem_cons_self ..)))
    rw [scanMembers_member n k
      ⟨c, u ++ (moreFields ((k', w) :: rest) ++ r), by rw [hc, List.cons_append], blank⟩ one,
      moreFields, List.cons_append, skipBlank_cons (by decide), List.append_assoc,
      List.cons_append, List.append_assoc]
    obtain ⟨t, quoted, -⟩ := scanString_quote k' (':' :: (render w ++ (moreFields rest ++ r)))
    rw [quoted] at more ⊢
    show (scanMembers n (skipBlank ('"' :: t))).map _ = _
    rw [skipBlank_cons (by decide), more]
    rfl

end

/-- `loads` reads back what was rendered. -/
theorem loads_render {v : Json} (h : v.every loadable = true) (distinct : v.Distinct) :
    loads (render v) = some v := by
  obtain ⟨c, u, hc, blank, -⟩ := render_first (every_self h)
  have read := scanOnce_render v (n := (render v).length) (r := []) h distinct (by simp [Follows])
    le_rfl
  rw [List.append_nil] at read
  unfold loads
  have none : skipBlank (render v) = render v := by
    rw [hc]
    exact skipBlank_cons blank u
  rw [none, read]
  rfl

/-- `raw_decode` at the place of a rendered value. -/
theorem rawDecode_render {value r : List Char} {offset : ℕ} {v : Json}
    (here : value.drop offset = render v ++ r) (h : v.every loadable = true) (distinct : v.Distinct)
    (F : Follows r) : rawDecode value offset = some (v, offset + (render v).length) := by
  have read := scanOnce_render v (n := (render v ++ r).length) h distinct F (by simp)
  have pos := render_pos (every_self h)
  have len := congrArg List.length here
  rw [List.length_drop, List.length_append] at len
  unfold rawDecode
  rw [here, read, Option.map_some]
  dsimp only
  congr 2
  omega

/-- `raw_decode` at the place of a key. -/
theorem rawDecode_quote {value r : List Char} {offset : ℕ} {k : String}
    (here : value.drop offset = quote k ++ r) :
    rawDecode value offset = some (.str k, offset + (quote k).length) := by
  obtain ⟨t, quoted, read⟩ := scanString_quote k r
  have len := congrArg List.length here
  rw [List.length_drop, List.length_append] at len
  have pos : 0 < (quote k).length := by simp [quote]
  unfold rawDecode
  rw [here, quoted, List.length_cons, scanOnce_string, read]
  show some (Json.str (String.ofList k.toList), value.length - r.length) = _
  rw [String.ofList_toList]
  congr 2
  omega

/-! ### Predicates of every value inside -/

section
variable {p q s : Json → Bool}

mutual

theorem every_and (both : ∀ v, p v = true → q v = true → s v = true) :
    ∀ (v : Json), v.every p = true → v.every q = true → v.every s = true
  | .null, h, h' => both _ h h'
  | .bool _, h, h' => both _ h h'
  | .int _, h, h' => both _ h h'
  | .float _, h, h' => both _ h h'
  | .str _, h, h' => both _ h h'
  | .arr items, h, h' => by
    rw [every_arr] at h h' ⊢
    exact ⟨both _ h.1 h'.1, everyItem_iff.mp
      (everyItem_and both items (everyItem_iff.mpr h.2) (everyItem_iff.mpr h'.2))⟩
  | .obj fields, h, h' => by
    rw [every_obj] at h h' ⊢
    exact ⟨both _ h.1 h'.1, everyField_iff.mp
      (everyField_and both fields (everyField_iff.mpr h.2) (everyField_iff.mpr h'.2))⟩

theorem everyItem_and (both : ∀ v, p v = true → q v = true → s v = true) :
    ∀ (items : List Json), everyItem p items = true → everyItem q items = true →
      everyItem s items = true
  | [], _, _ => rfl
  | v :: rest, h, h' => by
    rw [everyItem, Bool.and_eq_true] at h h' ⊢
    exact ⟨every_and both v h.1 h'.1, everyItem_and both rest h.2 h'.2⟩

theorem everyField_and (both : ∀ v, p v = true → q v = true → s v = true) :
    ∀ (fields : List (String × Json)), everyField p fields = true → everyField q fields = true →
      everyField s fields = true
  | [], _, _ => rfl
  | (k, v) :: rest, h, h' => by
    rw [everyField, Bool.and_eq_true] at h h' ⊢
    exact ⟨every_and both v h.1 h'.1, everyField_and both rest h.2 h'.2⟩

end

end

/-! ### Sorted keys -/

mutual

theorem every_sortKeys {p : Json → Bool} (keeps : ∀ v, p v = true → p (sortKeys v) = true) :
    ∀ (v : Json), v.every p = true → (sortKeys v).every p = true
  | .null, h => h
  | .bool _, h => h
  | .int _, h => h
  | .float _, h => h
  | .str _, h => h
  | .arr items, h => by
    have one := keeps _ (every_arr.mp h).1
    rw [sortKeys] at one ⊢
    exact every_arr.mpr ⟨one, every_sortItems keeps items (every_arr.mp h).2⟩
  | .obj fields, h => by
    have one := keeps _ (every_obj.mp h).1
    rw [sortKeys] at one ⊢
    refine every_obj.mpr ⟨one, fun f hf => ?_⟩
    exact every_sortFields keeps fields (every_obj.mp h).2 f
      ((List.perm_insertionSort _ _).subset hf)

theorem every_sortItems {p : Json → Bool} (keeps : ∀ v, p v = true → p (sortKeys v) = true) :
    ∀ (items : List Json), (∀ v ∈ items, v.every p = true) →
      ∀ v ∈ sortItems items, v.every p = true
  | [], _ => fun v hv => absurd hv List.not_mem_nil
  | w :: rest, h => by
    intro v hv
    rw [sortItems] at hv
    rcases List.mem_cons.mp hv with rfl | hv
    · exact every_sortKeys keeps w (h w (List.mem_cons_self ..))
    · exact every_sortItems keeps rest (fun x hx => h x (List.mem_cons_of_mem _ hx)) v hv

theorem every_sortFields {p : Json → Bool} (keeps : ∀ v, p v = true → p (sortKeys v) = true) :
    ∀ (fields : List (String × Json)), (∀ f ∈ fields, f.2.every p = true) →
      ∀ f ∈ sortFields fields, f.2.every p = true
  | [], _ => fun f hf => absurd hf List.not_mem_nil
  | (k, w) :: rest, h => by
    intro f hf
    rw [sortFields] at hf
    rcases List.mem_cons.mp hf with rfl | hf
    · exact every_sortKeys keeps w (h (k, w) (List.mem_cons_self ..))
    · exact every_sortFields keeps rest (fun x hx => h x (List.mem_cons_of_mem _ hx)) f hf

end

/-- Keys that are sorted are the same keys. -/
theorem Distinct.sortKeys {v : Json} (h : v.Distinct) : v.sortKeys.Distinct := by
  refine every_sortKeys (fun v hv => ?_) v h
  cases v with
  | obj fields =>
    have nodup : (fields.map Prod.fst).Nodup := of_decide_eq_true hv
    rw [Json.sortKeys]
    refine decide_eq_true (List.Perm.nodup ((List.perm_insertionSort _ _).map Prod.fst).symm ?_)
    rw [sortFields_eq, List.map_map]
    exact nodup
  | _ => exact hv

theorem loadable_sortKeys {v : Json} (h : v.every loadable = true) :
    v.sortKeys.every loadable = true := by
  refine every_sortKeys (fun v hv => ?_) v h
  cases v <;> exact hv

end Json
