import Mathlib.Data.List.Sort
import Mathlib.Data.String.Basic
import Mathlib.Tactic.IntervalCases

/-!
# Json — values, their compact text, and the canonical text with sorted keys

`render` writes a value without blanks and without escaping what is not ASCII; `canonicalText` sorts
the keys of every object first and refuses floats.  A text stands for one value only
(`render_injective`), so two values with one canonical text are the same up to the order of keys.
-/

/-- A float is given by its text. -/
inductive Json where
  | null
  | bool (b : Bool)
  | int (n : ℤ)
  | float (text : String)
  | str (s : String)
  | arr (items : List Json)
  | obj (fields : List (String × Json))

namespace Json

/-! ### Text -/

def hexDigit (n : ℕ) : Char := "0123456789abcdef".toList.getD n '0'

/-- What stands for a character between quotes. -/
def escape (c : Char) : List Char :=
  if c = '"' then ['\\', '"']
  else if c = '\\' then ['\\', '\\']
  else if c = '\n' then ['\\', 'n']
  else if c = '\r' then ['\\', 'r']
  else if c = '\t' then ['\\', 't']
  else if c = Char.ofNat 8 then ['\\', 'b']
  else if c = Char.ofNat 12 then ['\\', 'f']
  else if c.toNat < 32 then ['\\', 'u', '0', '0', hexDigit (c.toNat / 16), hexDigit (c.toNat % 16)]
  else [c]

def quote (s : String) : List Char := '"' :: s.toList.flatMap escape ++ ['"']

def renderInt : ℤ → List Char
  | .ofNat n => Nat.toDigits 10 n
  | .negSucc n => '-' :: Nat.toDigits 10 (n + 1)

mutual

def render : Json → List Char
  | .null => ['n', 'u', 'l', 'l']
  | .bool true => ['t', 'r', 'u', 'e']
  | .bool false => ['f', 'a', 'l', 's', 'e']
  | .int n => renderInt n
  | .float text => text.toList
  | .str s => quote s
  | .arr items => '[' :: renderItems items
  | .obj fields => '{' :: renderFields fields

def renderItems : List Json → List Char
  | [] => [']']
  | v :: rest => render v ++ moreItems rest

def moreItems : List Json → List Char
  | [] => [']']
  | v :: rest => ',' :: (render v ++ moreItems rest)

def renderFields : List (String × Json) → List Char
  | [] => ['}']
  | (k, v) :: rest => quote k ++ ':' :: (render v ++ moreFields rest)

def moreFields : List (String × Json) → List Char
  | [] => ['}']
  | (k, v) :: rest => ',' :: (quote k ++ ':' :: (render v ++ moreFields rest))

end

/-! ### Sorted keys -/

mutual

def sortKeys : Json → Json
  | .arr items => .arr (sortItems items)
  | .obj fields => .obj ((sortFields fields).insertionSort fun a b => a.1 ≤ b.1)
  | .null => .null
  | .bool b => .bool b
  | .int n => .int n
  | .float text => .float text
  | .str s => .str s

def sortItems : List Json → List Json
  | [] => []
  | v :: rest => sortKeys v :: sortItems rest

def sortFields : List (String × Json) → List (String × Json)
  | [] => []
  | (k, v) :: rest => (k, sortKeys v) :: sortFields rest

end

mutual

def noFloats : Json → Bool
  | .float _ => false
  | .arr items => itemsNoFloats items
  | .obj fields => fieldsNoFloats fields
  | .null | .bool _ | .int _ | .str _ => true

def itemsNoFloats : List Json → Bool
  | [] => true
  | v :: rest => noFloats v && itemsNoFloats rest

def fieldsNoFloats : List (String × Json) → Bool
  | [] => true
  | (_, v) :: rest => noFloats v && fieldsNoFloats rest

end

/-- The text that is signed or hashed; there is none for a value with a float. -/
def canonicalText (v : Json) : Option (List Char) :=
  if v.noFloats then some (render (sortKeys v)) else none

/-- The same value up to the order of keys. -/
def Same (v w : Json) : Prop := sortKeys v = sortKeys w

theorem itemsNoFloats_iff {items : List Json} :
    itemsNoFloats items = true ↔ ∀ v ∈ items, noFloats v = true := by
  induction items with
  | nil => simp [itemsNoFloats]
  | cons v rest ih => simp [itemsNoFloats, ih]

theorem fieldsNoFloats_iff {fields : List (String × Json)} :
    fieldsNoFloats fields = true ↔ ∀ f ∈ fields, noFloats f.2 = true := by
  induction fields with
  | nil => simp [fieldsNoFloats]
  | cons f rest ih => simp [fieldsNoFloats, ih]

theorem sortItems_eq (items : List Json) : sortItems items = items.map sortKeys := by
  induction items with
  | nil => rfl
  | cons v rest ih => rw [sortItems, ih, List.map_cons]

theorem sortFields_eq (fields : List (String × Json)) :
    sortFields fields = fields.map fun f => (f.1, sortKeys f.2) := by
  induction fields with
  | nil => rfl
  | cons f rest ih => rw [sortFields, ih, List.map_cons]

mutual

theorem noFloats_sortKeys : ∀ {v : Json}, noFloats v = true → noFloats (sortKeys v) = true
  | .null, h => h
  | .bool _, h => h
  | .int _, h => h
  | .float _, h => h
  | .str _, h => h
  | .arr items, h => by
    rw [sortKeys, noFloats]
    exact itemsNoFloats_sort h
  | .obj fields, h => by
    rw [sortKeys, noFloats, fieldsNoFloats_iff]
    intro f hf
    exact fieldsNoFloats_iff.mp (fieldsNoFloats_sort h) f
      ((List.perm_insertionSort _ _).subset hf)

theorem itemsNoFloats_sort : ∀ {items : List Json}, itemsNoFloats items = true →
    itemsNoFloats (sortItems items) = true
  | [], h => h
  | v :: rest, h => by
    rw [itemsNoFloats, Bool.and_eq_true] at h
    rw [sortItems, itemsNoFloats, Bool.and_eq_true]
    exact ⟨noFloats_sortKeys h.1, itemsNoFloats_sort h.2⟩

theorem fieldsNoFloats_sort : ∀ {fields : List (String × Json)}, fieldsNoFloats fields = true →
    fieldsNoFloats (sortFields fields) = true
  | [], h => h
  | (k, v) :: rest, h => by
    rw [fieldsNoFloats, Bool.and_eq_true] at h
    rw [sortFields, fieldsNoFloats, Bool.and_eq_true]
    exact ⟨noFloats_sortKeys h.1, fieldsNoFloats_sort h.2⟩

end

/-- What counts as true: nothing that is empty, zero or null does. -/
def truthy : Json → Bool
  | .null => false
  | .bool b => b
  | .int n => n ≠ 0
  | .float text => text ≠ "0.0" && text ≠ "-0.0"
  | .str s => s ≠ ""
  | .arr items => !items.isEmpty
  | .obj fields => !fields.isEmpty

/-! ### One text, one value -/

/-- Reads back one character of a quoted string; a closing quote is none. -/
def unescape : List Char → Option (Char × List Char)
  | '\\' :: '"' :: r => some ('"', r)
  | '\\' :: '\\' :: r => some ('\\', r)
  | '\\' :: 'n' :: r => some ('\n', r)
  | '\\' :: 'r' :: r => some ('\r', r)
  | '\\' :: 't' :: r => some ('\t', r)
  | '\\' :: 'b' :: r => some (Char.ofNat 8, r)
  | '\\' :: 'f' :: r => some (Char.ofNat 12, r)
  | '\\' :: 'u' :: _ :: _ :: a :: b :: r =>
    some (Char.ofNat (16 * "0123456789abcdef".toList.idxOf a + "0123456789abcdef".toList.idxOf b), r)
  | '"' :: _ => none
  | c :: r => some (c, r)
  | [] => none

theorem unescape_control (n : ℕ) (hn : n < 32) (r : List Char) :
    unescape (escape (Char.ofNat n) ++ r) = some (Char.ofNat n, r) := by
  interval_cases n <;> rfl

theorem unescape_escape (c : Char) (r : List Char) : unescape (escape c ++ r) = some (c, r) := by
  by_cases hcontrol : c.toNat < 32
  · have h := unescape_control c.toNat hcontrol r
    rwa [Char.ofNat_toNat] at h
  by_cases hquote : c = '"'
  · subst hquote
    rfl
  by_cases hback : c = '\\'
  · subst hback
    rfl
  have hn : c ≠ '\n' := fun h => hcontrol (h ▸ by decide)
  have hr : c ≠ '\r' := fun h => hcontrol (h ▸ by decide)
  have ht : c ≠ '\t' := fun h => hcontrol (h ▸ by decide)
  have hb : c ≠ Char.ofNat 8 := fun h => hcontrol (h ▸ by decide)
  have hf : c ≠ Char.ofNat 12 := fun h => hcontrol (h ▸ by decide)
  have plain : escape c = [c] := by
    simp only [escape, hquote, hback, hn, hr, ht, hb, hf, hcontrol, if_false]
  rw [plain]
  show unescape (c :: r) = _
  unfold unescape
  split <;> simp_all

theorem escaped_split {s s' r r' : List Char}
    (h : s.flatMap escape ++ '"' :: r = s'.flatMap escape ++ '"' :: r') : s = s' ∧ r = r' := by
  induction s generalizing s' with
  | nil =>
    cases s' with
    | nil => exact ⟨rfl, (List.cons.inj h).2⟩
    | cons c s' =>
      have := congrArg unescape h
      rw [List.flatMap_cons, List.append_assoc, unescape_escape] at this
      cases this
  | cons c s ih =>
    have h' := congrArg unescape h
    rw [List.flatMap_cons, List.append_assoc, unescape_escape] at h'
    cases s' with
    | nil => cases h'
    | cons c' s' =>
      rw [List.flatMap_cons, List.append_assoc, unescape_escape] at h'
      obtain ⟨rfl, hrest⟩ := Prod.mk.inj (Option.some.inj h')
      obtain ⟨rfl, rfl⟩ := ih hrest
      exact ⟨rfl, rfl⟩

theorem quote_split {s s' : String} {r r' : List Char} (h : quote s ++ r = quote s' ++ r') :
    s = s' ∧ r = r' := by
  unfold quote at h
  simp only [List.cons_append, List.append_assoc, List.cons.injEq, true_and] at h
  obtain ⟨hs, hr⟩ := escaped_split h
  exact ⟨String.toList_inj.mp hs, hr⟩

/-- What may follow a value: nothing that could continue a number. -/
def Stops (r : List Char) : Prop := ∀ c ∈ r.head?, c.isDigit = false

theorem digits_split {n m : ℕ} {r r' : List Char} (hr : Stops r) (hr' : Stops r')
    (h : Nat.toDigits 10 n ++ r = Nat.toDigits 10 m ++ r') : n = m ∧ r = r' := by
  have span : ∀ {k : ℕ} {t : List Char}, Stops t →
      (Nat.toDigits 10 k ++ t).takeWhile Char.isDigit = Nat.toDigits 10 k ∧
      (Nat.toDigits 10 k ++ t).dropWhile Char.isDigit = t := by
    intro k t ht
    have digits : ∀ c ∈ Nat.toDigits 10 k, c.isDigit = true := fun c hc =>
      Nat.isDigit_of_mem_toDigits (by decide) (by decide) hc
    rw [List.takeWhile_append_of_pos digits, List.dropWhile_append_of_pos digits]
    cases t with
    | nil => simp
    | cons c t => simp [ht c (by simp)]
  have hdigits : Nat.toDigits 10 n = Nat.toDigits 10 m := by
    rw [← (span hr).1, h, (span hr').1]
  refine ⟨?_, by rw [← (span hr).2, h, (span hr').2]⟩
  rw [← Nat.ofDigitChars_ten_toDigits (n := n), hdigits, Nat.ofDigitChars_ten_toDigits]

theorem digits_head (n : ℕ) : ∃ c rest, Nat.toDigits 10 n = c :: rest ∧ c.isDigit = true := by
  cases h : Nat.toDigits 10 n with
  | nil => exact absurd h Nat.toDigits_ne_nil
  | cons c rest =>
    exact ⟨c, rest, rfl, Nat.isDigit_of_mem_toDigits (by decide) (by decide)
      (h ▸ List.mem_cons_self)⟩

theorem renderInt_split {n m : ℤ} {r r' : List Char} (hr : Stops r) (hr' : Stops r')
    (h : renderInt n ++ r = renderInt m ++ r') : n = m ∧ r = r' := by
  cases n with
  | ofNat n =>
    cases m with
    | ofNat m =>
      obtain ⟨rfl, rfl⟩ := digits_split hr hr' h
      exact ⟨rfl, rfl⟩
    | negSucc m =>
      obtain ⟨c, rest, hc, hd⟩ := digits_head n
      simp only [renderInt, hc, List.cons_append, List.cons.injEq] at h
      rw [h.1] at hd
      exact absurd hd (by decide)
  | negSucc n =>
    cases m with
    | ofNat m =>
      obtain ⟨c, rest, hc, hd⟩ := digits_head m
      simp only [renderInt, hc, List.cons_append, List.cons.injEq] at h
      rw [← h.1] at hd
      exact absurd hd (by decide)
    | negSucc m =>
      simp only [renderInt, List.cons_append, List.cons.injEq, true_and] at h
      obtain ⟨hnm, rfl⟩ := digits_split hr hr' h
      exact ⟨by rw [Nat.succ_injective hnm], rfl⟩

/-- The kinds of values, told apart by their first character. -/
def kind : Json → ℕ
  | .null => 0
  | .bool b => if b then 1 else 2
  | .int _ => 3
  | .str _ => 4
  | .arr _ => 5
  | .obj _ => 6
  | .float _ => 7

def kindOf (c : Char) : ℕ :=
  if c = 'n' then 0 else if c = 't' then 1 else if c = 'f' then 2 else if c.isDigit || c = '-' then 3
  else if c = '"' then 4 else if c = '[' then 5 else if c = '{' then 6 else 7

theorem kindOf_digit {c : Char} (h : c.isDigit = true) : kindOf c = 3 := by
  have hn : c ≠ 'n' := fun e => by rw [e] at h; exact absurd h (by decide)
  have ht : c ≠ 't' := fun e => by rw [e] at h; exact absurd h (by decide)
  have hf : c ≠ 'f' := fun e => by rw [e] at h; exact absurd h (by decide)
  simp [kindOf, hn, ht, hf, h]

theorem render_head {v : Json} (h : noFloats v = true) :
    ∃ c rest, render v = c :: rest ∧ kindOf c = kind v := by
  cases v with
  | null => exact ⟨_, _, by rw [render], by decide⟩
  | bool b => cases b <;> exact ⟨_, _, by rw [render], by decide⟩
  | int n =>
    cases n with
    | ofNat n =>
      obtain ⟨c, rest, hc, hd⟩ := digits_head n
      exact ⟨c, rest, by rw [render, renderInt, hc], kindOf_digit hd⟩
    | negSucc n => exact ⟨_, _, by rw [render, renderInt], rfl⟩
  | float text => simp [noFloats] at h
  | str s => exact ⟨_, _, by rw [render, quote, List.cons_append], rfl⟩
  | arr items => exact ⟨_, _, by rw [render], rfl⟩
  | obj fields => exact ⟨_, _, by rw [render], rfl⟩

theorem render_kind {v v' : Json} (h : noFloats v = true) (h' : noFloats v' = true)
    {r r' : List Char} (eq : render v ++ r = render v' ++ r') : kind v = kind v' := by
  obtain ⟨c, rest, hc, hk⟩ := render_head h
  obtain ⟨c', rest', hc', hk'⟩ := render_head h'
  rw [hc, hc', List.cons_append, List.cons_append] at eq
  rw [← hk, ← hk', (List.cons.inj eq).1]

/-- No value starts with the bracket that closes an empty array. -/
theorem render_ne_close {v : Json} (h : noFloats v = true) {r r' : List Char} :
    render v ++ r ≠ ']' :: r' := by
  obtain ⟨c, rest, hc, hk⟩ := render_head h
  intro eq
  rw [hc, List.cons_append] at eq
  rw [(List.cons.inj eq).1] at hk
  have hfloat : kind v = 7 := hk.symm
  cases v with
  | float text => simp [noFloats] at h
  | bool b => cases b <;> simp [kind] at hfloat
  | _ => simp [kind] at hfloat

theorem stops_moreItems (items : List Json) (r : List Char) : Stops (moreItems items ++ r) := by
  cases items <;> simp [moreItems, Stops]

theorem stops_moreFields (fields : List (String × Json)) (r : List Char) :
    Stops (moreFields fields ++ r) := by
  cases fields <;> simp [moreFields, Stops]

mutual

/-- A text starts with one value only. -/
theorem render_split : ∀ (v : Json) {v' : Json} {r r' : List Char}, noFloats v = true →
    noFloats v' = true → Stops r → Stops r' → render v ++ r = render v' ++ r' → v = v' ∧ r = r'
  | .null, v', r, r', h, h', _, _, eq => by
    have hk := render_kind h h' eq
    cases v' with
    | null => exact ⟨rfl, List.append_cancel_left eq⟩
    | bool b => cases b <;> simp [kind] at hk
    | _ => simp [kind] at hk
  | .bool b, v', r, r', h, h', _, _, eq => by
    have hk := render_kind h h' eq
    cases v' with
    | bool b' =>
      obtain rfl : b = b' := by cases b <;> cases b' <;> simp_all [kind]
      exact ⟨rfl, List.append_cancel_left eq⟩
    | _ => cases b <;> simp [kind] at hk
  | .int n, v', r, r', h, h', hr, hr', eq => by
    have hk := render_kind h h' eq
    cases v' with
    | int m =>
      rw [render, render] at eq
      obtain ⟨rfl, hrest⟩ := renderInt_split hr hr' eq
      exact ⟨rfl, hrest⟩
    | bool b => cases b <;> simp [kind] at hk
    | _ => simp [kind] at hk
  | .float text, _, _, _, h, _, _, _, _ => by simp [noFloats] at h
  | .str s, v', r, r', h, h', _, _, eq => by
    have hk := render_kind h h' eq
    cases v' with
    | str s' =>
      rw [render, render] at eq
      obtain ⟨rfl, hrest⟩ := quote_split eq
      exact ⟨rfl, hrest⟩
    | bool b => cases b <;> simp [kind] at hk
    | _ => simp [kind] at hk
  | .arr items, v', r, r', h, h', _, _, eq => by
    have hk := render_kind h h' eq
    cases v' with
    | arr items' =>
      rw [noFloats] at h h'
      rw [render, render, List.cons_append, List.cons_append] at eq
      obtain ⟨rfl, hrest⟩ := renderItems_split items h h' (List.cons.inj eq).2
      exact ⟨rfl, hrest⟩
    | bool b => cases b <;> simp [kind] at hk
    | _ => simp [kind] at hk
  | .obj fields, v', r, r', h, h', _, _, eq => by
    have hk := render_kind h h' eq
    cases v' with
    | obj fields' =>
      rw [noFloats] at h h'
      rw [render, render, List.cons_append, List.cons_append] at eq
      obtain ⟨rfl, hrest⟩ := renderFields_split fields h h' (List.cons.inj eq).2
      exact ⟨rfl, hrest⟩
    | bool b => cases b <;> simp [kind] at hk
    | _ => simp [kind] at hk

theorem renderItems_split : ∀ (items : List Json) {items' : List Json} {r r' : List Char},
    itemsNoFloats items = true → itemsNoFloats items' = true →
    renderItems items ++ r = renderItems items' ++ r' → items = items' ∧ r = r'
  | [], items', r, r', _, h', eq => by
    cases items' with
    | nil => exact ⟨rfl, List.append_cancel_left eq⟩
    | cons v' rest' =>
      rw [itemsNoFloats, Bool.and_eq_true] at h'
      rw [renderItems, renderItems, List.append_assoc] at eq
      exact absurd eq.symm (render_ne_close h'.1)
  | v :: rest, items', r, r', h, h', eq => by
    rw [itemsNoFloats, Bool.and_eq_true] at h
    cases items' with
    | nil =>
      rw [renderItems, renderItems, List.append_assoc] at eq
      exact absurd eq (render_ne_close h.1)
    | cons v' rest' =>
      rw [itemsNoFloats, Bool.and_eq_true] at h'
      rw [renderItems, renderItems, List.append_assoc, List.append_assoc] at eq
      obtain ⟨rfl, hrest⟩ := render_split v h.1 h'.1 (stops_moreItems rest r)
        (stops_moreItems rest' r') eq
      obtain ⟨rfl, hr⟩ := moreItems_split rest h.2 h'.2 hrest
      exact ⟨rfl, hr⟩

theorem moreItems_split : ∀ (items : List Json) {items' : List Json} {r r' : List Char},
    itemsNoFloats items = true → itemsNoFloats items' = true →
    moreItems items ++ r = moreItems items' ++ r' → items = items' ∧ r = r'
  | [], items', r, r', _, _, eq => by
    cases items' with
    | nil => exact ⟨rfl, List.append_cancel_left eq⟩
    | cons v' rest' => simp [moreItems] at eq
  | v :: rest, items', r, r', h, h', eq => by
    cases items' with
    | nil => simp [moreItems] at eq
    | cons v' rest' =>
      rw [itemsNoFloats, Bool.and_eq_true] at h h'
      simp only [moreItems, List.cons_append, List.append_assoc, List.cons.injEq, true_and] at eq
      obtain ⟨rfl, hrest⟩ := render_split v h.1 h'.1 (stops_moreItems rest r)
        (stops_moreItems rest' r') eq
      obtain ⟨rfl, hr⟩ := moreItems_split rest h.2 h'.2 hrest
      exact ⟨rfl, hr⟩

theorem renderFields_split : ∀ (fields : List (String × Json)) {fields' : List (String × Json)}
    {r r' : List Char}, fieldsNoFloats fields = true → fieldsNoFloats fields' = true →
    renderFields fields ++ r = renderFields fields' ++ r' → fields = fields' ∧ r = r'
  | [], fields', r, r', _, _, eq => by
    cases fields' with
    | nil => exact ⟨rfl, List.append_cancel_left eq⟩
    | cons f' rest' => simp [renderFields, quote] at eq
  | (k, v) :: rest, fields', r, r', h, h', eq => by
    cases fields' with
    | nil => simp [renderFields, quote] at eq
    | cons f' rest' =>
      obtain ⟨k', v'⟩ := f'
      rw [fieldsNoFloats, Bool.and_eq_true] at h h'
      simp only [renderFields, List.cons_append, List.append_assoc] at eq
      obtain ⟨rfl, hvalue⟩ := quote_split eq
      obtain ⟨rfl, hrest⟩ := render_split v h.1 h'.1 (stops_moreFields rest r)
        (stops_moreFields rest' r') (List.cons.inj hvalue).2
      obtain ⟨rfl, hr⟩ := moreFields_split rest h.2 h'.2 hrest
      exact ⟨rfl, hr⟩

theorem moreFields_split : ∀ (fields : List (String × Json)) {fields' : List (String × Json)}
    {r r' : List Char}, fieldsNoFloats fields = true → fieldsNoFloats fields' = true →
    moreFields fields ++ r = moreFields fields' ++ r' → fields = fields' ∧ r = r'
  | [], fields', r, r', _, _, eq => by
    cases fields' with
    | nil => exact ⟨rfl, List.append_cancel_left eq⟩
    | cons f' rest' => simp [moreFields] at eq
  | (k, v) :: rest, fields', r, r', h, h', eq => by
    cases fields' with
    | nil => simp [moreFields] at eq
    | cons f' rest' =>
      obtain ⟨k', v'⟩ := f'
      rw [fieldsNoFloats, Bool.and_eq_true] at h h'
      simp only [moreFields, List.cons_append, List.append_assoc, List.cons.injEq, true_and] at eq
      obtain ⟨rfl, hvalue⟩ := quote_split eq
      obtain ⟨rfl, hrest⟩ := render_split v h.1 h'.1 (stops_moreFields rest r)
        (stops_moreFields rest' r') (List.cons.inj hvalue).2
      obtain ⟨rfl, hr⟩ := moreFields_split rest h.2 h'.2 hrest
      exact ⟨rfl, hr⟩

end

theorem render_injective {v w : Json} (hv : noFloats v = true) (hw : noFloats w = true)
    (h : render v = render w) : v = w :=
  (render_split v hv hw (by simp [Stops]) (by simp [Stops]) (congrArg (· ++ []) h)).1

def get? (fields : List (String × Json)) (k : String) : Option Json :=
  (fields.find? fun f => f.1 = k).map Prod.snd

theorem get?_eq_some {fields : List (String × Json)} (nodup : (fields.map Prod.fst).Nodup)
    {k : String} {v : Json} : get? fields k = some v ↔ (k, v) ∈ fields := by
  unfold get?
  constructor
  · intro h
    obtain ⟨f, hf, rfl⟩ := Option.map_eq_some_iff.mp h
    have hk : f.1 = k := by simpa using List.find?_some hf
    exact hk ▸ List.mem_of_find?_eq_some hf
  · intro h
    cases hfind : fields.find? fun f => f.1 = k with
    | none =>
      have := List.find?_eq_none.mp hfind (k, v) h
      simp at this
    | some f =>
      have hk : f.1 = k := by simpa using List.find?_some hfind
      have := List.inj_on_of_nodup_map nodup (List.mem_of_find?_eq_some hfind) h hk
      simp [this]

/-- The sorted fields, when the keys are known. -/
theorem sortKeys_obj {fields : List (String × Json)} {ks : List String} {value : String → Json}
    (nodup : (fields.map Prod.fst).Nodup) (sorted : ks.Pairwise (· < ·))
    (keys : ∀ k, k ∈ fields.map Prod.fst ↔ k ∈ ks)
    (values : ∀ f ∈ fields, value f.1 = sortKeys f.2) :
    sortKeys (.obj fields) = .obj (ks.map fun k => (k, value k)) := by
  rw [sortKeys, sortFields_eq, Json.obj.injEq]
  have hmap : (fields.map fun f => (f.1, sortKeys f.2)) =
      (fields.map Prod.fst).map fun k => (k, value k) := by
    rw [List.map_map]
    exact List.map_congr_left fun f hf => by rw [Function.comp_apply, values f hf]
  have hperm : (fields.map Prod.fst).Perm ks :=
    (List.perm_ext_iff_of_nodup nodup (sorted.imp ne_of_lt)).mpr keys
  rw [hmap]
  refine List.Perm.eq_of_pairwise ?_
    (List.pairwise_insertionSort (fun a b : String × Json => a.1 ≤ b.1) _) ?_
    ((List.perm_insertionSort _ _).trans (hperm.map _))
  · intro a b ha hb hab hba
    rw [List.mem_insertionSort] at ha
    obtain ⟨k, -, rfl⟩ := List.mem_map.mp ha
    obtain ⟨k', -, rfl⟩ := List.mem_map.mp hb
    have hk : k = k' := le_antisymm hab hba
    rw [hk]
  · exact List.pairwise_map.mpr (sorted.imp le_of_lt)

/-- Objects that are the same up to the order of keys have the same values under each key. -/
theorem Same.get? {fs gs : List (String × Json)} (h : Same (.obj fs) (.obj gs))
    (hfs : (fs.map Prod.fst).Nodup) (hgs : (gs.map Prod.fst).Nodup) (k : String) :
    (Json.get? fs k).map sortKeys = (Json.get? gs k).map sortKeys := by
  unfold Same at h
  rw [sortKeys, sortKeys, Json.obj.injEq, sortFields_eq, sortFields_eq] at h
  have perm : (fs.map fun f => (f.1, sortKeys f.2)).Perm (gs.map fun f => (f.1, sortKeys f.2)) :=
    (List.perm_insertionSort _ _).symm.trans
      ((List.Perm.of_eq h).trans (List.perm_insertionSort _ _))
  have sorted : ∀ l : List (String × Json), (l.map Prod.fst).Nodup → ∀ v,
      (Json.get? l k).map sortKeys = some v ↔ (k, v) ∈ l.map fun f => (f.1, sortKeys f.2) := by
    intro l hl v
    rw [Option.map_eq_some_iff, List.mem_map]
    constructor
    · rintro ⟨w, hw, rfl⟩
      exact ⟨(k, w), (get?_eq_some hl).mp hw, rfl⟩
    · rintro ⟨⟨k', w⟩, hw, heq⟩
      obtain ⟨rfl, rfl⟩ := Prod.mk.inj heq
      exact ⟨w, (get?_eq_some hl).mpr hw, rfl⟩
  refine Option.ext fun v => ?_
  rw [sorted fs hfs v, sorted gs hgs v]
  exact perm.mem_iff

/-! ### All the values inside of a value -/

mutual

/-- The predicate holds of the value and of every value inside of it. -/
def every (p : Json → Bool) : Json → Bool
  | .null => p .null
  | .bool b => p (.bool b)
  | .int n => p (.int n)
  | .float text => p (.float text)
  | .str s => p (.str s)
  | .arr items => p (.arr items) && everyItem p items
  | .obj fields => p (.obj fields) && everyField p fields

def everyItem (p : Json → Bool) : List Json → Bool
  | [] => true
  | v :: rest => every p v && everyItem p rest

def everyField (p : Json → Bool) : List (String × Json) → Bool
  | [] => true
  | (_, v) :: rest => every p v && everyField p rest

end

def distinctKeys : Json → Bool
  | .obj fields => decide (fields.map Prod.fst).Nodup
  | _ => true

abbrev Distinct (v : Json) : Prop := every distinctKeys v = true

mutual

/-- How deep lists and objects are nested. -/
def depth : Json → ℕ
  | .arr items => depthItems items + 1
  | .obj fields => depthFields fields + 1
  | .null | .bool _ | .int _ | .float _ | .str _ => 0

def depthItems : List Json → ℕ
  | [] => 0
  | v :: rest => max (depth v) (depthItems rest)

def depthFields : List (String × Json) → ℕ
  | [] => 0
  | (_, v) :: rest => max (depth v) (depthFields rest)

end

theorem everyItem_iff {p : Json → Bool} {items : List Json} :
    everyItem p items = true ↔ ∀ v ∈ items, every p v = true := by
  induction items with
  | nil => simp [everyItem]
  | cons v rest ih => simp [everyItem, ih]

theorem everyField_iff {p : Json → Bool} {fields : List (String × Json)} :
    everyField p fields = true ↔ ∀ f ∈ fields, every p f.2 = true := by
  induction fields with
  | nil => simp [everyField]
  | cons f rest ih => simp [everyField, ih]

theorem every_arr {p : Json → Bool} {items : List Json} :
    every p (.arr items) = true ↔ p (.arr items) = true ∧ ∀ v ∈ items, every p v = true := by
  rw [every, Bool.and_eq_true, everyItem_iff]

theorem every_obj {p : Json → Bool} {fields : List (String × Json)} :
    every p (.obj fields) = true ↔
      p (.obj fields) = true ∧ ∀ f ∈ fields, every p f.2 = true := by
  rw [every, Bool.and_eq_true, everyField_iff]

theorem depthItems_le_iff {items : List Json} {n : ℕ} :
    depthItems items ≤ n ↔ ∀ v ∈ items, depth v ≤ n := by
  induction items with
  | nil => simp [depthItems]
  | cons v rest ih => simp [depthItems, ih]

theorem depthFields_le_iff {fields : List (String × Json)} {n : ℕ} :
    depthFields fields ≤ n ↔ ∀ f ∈ fields, depth f.2 ≤ n := by
  induction fields with
  | nil => simp [depthFields]
  | cons f rest ih => simp [depthFields, ih]

end Json
