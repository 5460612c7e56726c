import Metnos.Durable.Inventory
import Metnos.Lib.JsonText
import Metnos.Undo.Selection

/-!
# Durable.EntryCursor — one entry of a committed payload at a time

The fan-out over the entries of a result does not parse the payload: a cursor skips the members before
`entries`, then decodes one item for every step and keeps its offset and its length.  The unit that is
made for an item reads it back as a piece of the payload.
-/

namespace Metnos.Durable.EntryCursor

open Json Schema

/-! ## Skipping a value -/

/-- `_json_space_end` -/
def jsonSpaceEnd (value : Text) (offset : ℕ) : ℕ :=
  offset + ((value.drop offset).takeWhile Undo.isSpace).length

/-- The end of a string, from behind its opening quote. -/
def stringEnd (escaped : Bool) (index : ℕ) : Text → Except String ℕ
  | [] => .error "committed dependency string is unterminated"
  | c :: rest =>
    if escaped then stringEnd false (index + 1) rest
    else if c = '\\' then stringEnd true (index + 1) rest
    else if c = '"' then .ok (index + 1)
    else stringEnd false (index + 1) rest

/-- The end of an array or an object, from behind its opening bracket. -/
def nestingEnd (closers : List Char) (inString escaped : Bool) (index : ℕ) : Text → Except String ℕ
  | [] => .error "committed dependency payload is unterminated"
  | c :: rest =>
    if inString then
      if escaped then nestingEnd closers true false (index + 1) rest
      else if c = '\\' then nestingEnd closers true true (index + 1) rest
      else nestingEnd closers (c ≠ '"') false (index + 1) rest
    else if c = '"' then nestingEnd closers true escaped (index + 1) rest
    else if c = '[' then nestingEnd (']' :: closers) false escaped (index + 1) rest
    else if c = '{' then nestingEnd ('}' :: closers) false escaped (index + 1) rest
    else if c = ']' ∨ c = '}' then
      match closers with
      | [] => .error "committed dependency payload has invalid nesting"
      | closer :: closers =>
        if c ≠ closer then .error "committed dependency payload has invalid nesting"
        else if closers = [] then .ok (index + 1)
        else nestingEnd closers false escaped (index + 1) rest
    else nestingEnd closers false escaped (index + 1) rest

section
variable (closers : List Char) (escaped : Bool) (index : ℕ) (rest : Text)

theorem nestingEnd_quote : nestingEnd closers false escaped index ('"' :: rest) =
    nestingEnd closers true escaped (index + 1) rest := rfl

theorem nestingEnd_array : nestingEnd closers false escaped index ('[' :: rest) =
    nestingEnd (']' :: closers) false escaped (index + 1) rest := rfl

theorem nestingEnd_object : nestingEnd closers false escaped index ('\x7b' :: rest) =
    nestingEnd ('\x7d' :: closers) false escaped (index + 1) rest := rfl

end

/-- `value[index] not in ",]} \t\r\n"` -/
def isPlain (c : Char) : Bool := c ∉ [',', ']', '}', ' ', '\t', '\r', '\n']

/-- `_json_value_end` -/
def jsonValueEnd (value : Text) (offset : ℕ) : Except String ℕ :=
  let offset := jsonSpaceEnd value offset
  match value.drop offset with
  | [] => .error "committed dependency payload ended unexpectedly"
  | '"' :: rest => stringEnd false (offset + 1) rest
  | '[' :: rest => nestingEnd [']'] false false (offset + 1) rest
  | '{' :: rest => nestingEnd ['}'] false false (offset + 1) rest
  | rest =>
    if rest.takeWhile isPlain = [] then .error "committed dependency payload has an empty value"
    else .ok (offset + (rest.takeWhile isPlain).length)

/-! ## The cursor -/

def noEntries : String := "entry identity fan-out requires dependency entries"

/-- The members of the payload up to the key `entries`; every turn passes at least one character. -/
def memberLoop (payload : Text) : ℕ → ℕ → Except String ℕ
  | 0, _ => .error "the members do not end"
  | fuel + 1, offset =>
    if payload[offset]? = none ∨ payload[offset]? = some '}' then .error noEntries
    else
      match rawDecode payload offset with
      | none => .error "committed dependency payload has an invalid object key"
      | some (.str key, offset) =>
        let offset := jsonSpaceEnd payload offset
        if payload[offset]? ≠ some ':' then
          .error "committed dependency payload has an invalid object member"
        else
          let offset := jsonSpaceEnd payload (offset + 1)
          if key = "entries" then
            if payload[offset]? ≠ some '[' then .error noEntries
            else .ok (jsonSpaceEnd payload (offset + 1))
          else
            match jsonValueEnd payload offset with
            | .error e => .error e
            | .ok offset =>
              let offset := jsonSpaceEnd payload offset
              match payload[offset]? with
              | some ',' => memberLoop payload fuel (jsonSpaceEnd payload (offset + 1))
              | some '}' => .error noEntries
              | _ => .error "committed dependency payload has an invalid object separator"
      | some _ => .error "committed dependency payload has a non-string object key"

/-- `_entry_array_offset` -/
def entryArrayOffset (payload : Text) : Except String ℕ :=
  let offset := jsonSpaceEnd payload 0
  if payload[offset]? ≠ some '{' then .error "committed dependency payload is not an object"
  else memberLoop payload (payload.length + 1) (jsonSpaceEnd payload (offset + 1))

/-- What `_next_entry` returns. -/
structure Next where
  entry : Option Dynamic.Dict
  nextOffset : ℕ
  finished : Bool
  itemStart : ℕ
  itemEnd : ℕ

/-- `_next_entry` -/
def nextEntry (payload : Text) (offset : ℕ) : Except String Next :=
  let offset := jsonSpaceEnd payload offset
  match payload[offset]? with
  | none => .error "dependency entries ended unexpectedly"
  | some ']' => .ok ⟨none, offset + 1, true, offset, offset⟩
  | some _ =>
    match rawDecode payload offset with
    | none => .error "dependency entry is not valid JSON"
    | some (.obj entry, stop) =>
      let stop := jsonSpaceEnd payload stop
      match payload[stop]? with
      | none => .error "dependency entries ended unexpectedly"
      | some ',' => .ok ⟨some entry, jsonSpaceEnd payload (stop + 1), false, offset, stop⟩
      | some ']' => .ok ⟨some entry, stop + 1, true, offset, stop⟩
      | some _ => .error "dependency entries have an invalid separator"
    | some _ => .error "entry identity fan-out found a non-object entry"

/-! ## The fan-out -/

/-- The slice of a dependency: an entry, and where it stands in the payload. -/
structure Slice where
  entry : Dynamic.Dict
  entryOffset : ℕ
  entryLength : ℕ

/-- Where a turn starts; the saved offset is `none` where it is −1, before the first entry and behind
the last. -/
def startOffset (payload : Text) : Option ℕ → Except String ℕ
  | some offset => .ok offset
  | none => entryArrayOffset payload

def fanOut (payload : Text) (entryOffset : Option ℕ) :
    Except String (Option Slice × Option ℕ) := do
  let offset ← startOffset payload entryOffset
  let next ← nextEntry payload offset
  match next.entry with
  | none => return (none, none)
  | some entry =>
    return (some ⟨entry, next.itemStart, next.itemEnd - next.itemStart⟩,
      if next.finished then none else some next.nextOffset)

/-- The turns over one parent: the slices in order, and the error that blocks the stage. -/
def fanOuts (payload : Text) : ℕ → Option ℕ → List Slice × Option String
  | 0, _ => ([], some "the entries do not end")
  | fuel + 1, entryOffset =>
    match fanOut payload entryOffset with
    | .error e => ([], some e)
    | .ok (none, _) => ([], none)
    | .ok (some slice, none) => ([slice], none)
    | .ok (some slice, some offset) =>
      let (slices, e) := fanOuts payload fuel (some offset)
      (slice :: slices, e)

/-- The whole fan-out of a payload; every turn passes at least one character. -/
def readEntries (payload : Text) : List Slice × Option String :=
  fanOuts payload (payload.length + 1) none

/-- `substr(result.payload_json, planned.entry_offset + 1, planned.entry_length)` -/
def substr (payload : Text) (slice : Slice) : Text :=
  (payload.drop slice.entryOffset).take slice.entryLength

/-! ## Places in a text -/

section
variable {value a b r : Text} {c : Char} {offset : ℕ}

theorem getElem?_here (here : value.drop offset = c :: r) : value[offset]? = some c := by
  rw [← List.head?_drop, here, List.head?_cons]

theorem drop_past (here : value.drop offset = a ++ b) : value.drop (offset + a.length) = b := by
  rw [← List.drop_drop, here, List.drop_left]

theorem drop_next (here : value.drop offset = c :: r) : value.drop (offset + 1) = r :=
  drop_past (a := [c]) here

theorem jsonSpaceEnd_here (here : value.drop offset = c :: r) (h : Undo.isSpace c = false) :
    jsonSpaceEnd value offset = offset := by
  unfold jsonSpaceEnd
  rw [here, List.takeWhile_cons, h]
  rfl

end

/-! ## Characters of a value -/

/-- The characters of a value that is no text, no array and no object. -/
def isScalar (c : Char) : Bool :=
  isNumeric c || c ∈ ['n', 'u', 'l', 't', 'r', 'e', 'f', 'a', 's']

theorem isScalar_ne {c d : Char} (h : isScalar c = true) (hd : isScalar d = false) : c ≠ d := by
  rintro rfl
  rw [h] at hd
  cases hd

theorem isScalar_range {c : Char} (h : isScalar c = true) : 33 ≤ c.toNat ∧ c.toNat ≤ 126 := by
  simp only [isScalar, isNumeric, Bool.or_eq_true, decide_eq_true_eq, List.mem_cons,
    List.not_mem_nil, or_false] at h
  rcases h with (digit | h) | h
  · simp only [Char.isDigit, Bool.and_eq_true, decide_eq_true_eq] at digit
    have low : 48 ≤ c.toNat := digit.1
    have high : c.toNat ≤ 57 := digit.2
    omega
  · rcases h with rfl | rfl | rfl | rfl | rfl <;> decide
  · rcases h with rfl | rfl | rfl | rfl | rfl | rfl | rfl | rfl | rfl <;> decide

theorem isSpace_range {c : Char} (h : 33 ≤ c.toNat ∧ c.toNat ≤ 126) : Undo.isSpace c = false := by
  unfold Undo.isSpace
  simp only [Bool.or_eq_false_iff, decide_eq_false_iff_not, List.contains_eq_mem, List.mem_cons,
    List.not_mem_nil, or_false]
  omega

theorem isScalar_plain {c : Char} (h : isScalar c = true) : isPlain c = true := by
  refine decide_eq_true fun mem => ?_
  simp only [List.mem_cons, List.not_mem_nil, or_false] at mem
  rcases mem with rfl | rfl | rfl | rfl | rfl | rfl | rfl <;> exact absurd h (by decide)

theorem render_scalar {v : Json} (h : loadable v = true) (str : ∀ s, v ≠ .str s)
    (arr : ∀ items, v ≠ .arr items) (obj : ∀ fields, v ≠ .obj fields) :
    ∀ c ∈ render v, isScalar c = true := by
  have number : ∀ {t : Text} {x : Json}, scanNumber t = some (x, []) →
      ∀ c ∈ t, isScalar c = true := by
    intro t x read c hc
    obtain ⟨number, rfl, numeric⟩ := scanNumber_cuts read
    rw [List.append_nil] at hc
    simp [isScalar, numeric c hc]
  cases v with
  | null =>
    rw [render]
    exact List.all_eq_true.mp (by decide)
  | bool b =>
    cases b <;> rw [render] <;> exact List.all_eq_true.mp (by decide)
  | int n =>
    rw [render]
    exact number (scanNumber_int h)
  | float text =>
    rw [render]
    exact number (scanNumber_float h)
  | str s => exact absurd rfl (str s)
  | arr items => exact absurd rfl (arr items)
  | obj fields => exact absurd rfl (obj fields)

theorem render_start {v : Json} (h : loadable v = true) :
    ∃ c r, render v = c :: r ∧ Undo.isSpace c = false ∧ c ≠ ']' := by
  obtain ⟨c, r, hc, -, close, -⟩ := render_first h
  refine ⟨c, r, hc, ?_, close⟩
  cases v with
  | str s =>
    rw [render, quote, List.cons_append] at hc
    rw [← (List.cons.inj hc).1]
    decide
  | arr items =>
    rw [render] at hc
    rw [← (List.cons.inj hc).1]
    decide
  | obj fields =>
    rw [render] at hc
    rw [← (List.cons.inj hc).1]
    decide
  | _ =>
    refine isSpace_range (isScalar_range ?_)
    exact render_scalar h (by simp) (by simp) (by simp) c (by rw [hc]; exact List.mem_cons_self ..)

/-! ## Strings -/

theorem escape_cases (c : Char) :
    (∃ d, escape c = ['\\', d]) ∨
    (∃ a b, escape c = ['\\', 'u', '0', '0', hexDigit a, hexDigit b] ∧ a < 16 ∧ b < 16) ∨
    (escape c = [c] ∧ c ≠ '"' ∧ c ≠ '\\') := by
  by_cases hcontrol : c.toNat < 32
  · unfold escape
    repeat' split
    all_goals first
      | exact .inl ⟨_, rfl⟩
      | exact .inr (.inl ⟨_, _, rfl, by omega, by omega⟩)
  by_cases hquote : c = '"'
  · rw [hquote]
    exact .inl ⟨'"', rfl⟩
  by_cases hback : c = '\\'
  · rw [hback]
    exact .inl ⟨'\\', rfl⟩
  exact .inr (.inr ⟨escape_plain hcontrol hquote hback, hquote, hback⟩)

theorem hexDigit_plain {n : ℕ} (h : n < 16) : hexDigit n ≠ '"' ∧ hexDigit n ≠ '\\' := by
  interval_cases n <;> decide

theorem stringEnd_escape (c : Char) (index : ℕ) (t : Text) :
    stringEnd false index (escape c ++ t) = stringEnd false (index + (escape c).length) t := by
  rcases escape_cases c with ⟨d, h⟩ | ⟨a, b, h, ha, hb⟩ | ⟨h, hquote, hback⟩
  · rw [h]
    simp [stringEnd]
  · rw [h]
    have ha := hexDigit_plain ha
    have hb := hexDigit_plain hb
    simp [stringEnd, ha, hb]
  · rw [h]
    simp [stringEnd, hquote, hback]

theorem stringEnd_escaped : ∀ (s : List Char) (index : ℕ) (t : Text),
    stringEnd false index (s.flatMap escape ++ '"' :: t) =
      .ok (index + (s.flatMap escape).length + 1)
  | [], index, t => rfl
  | c :: s, index, t => by
    rw [List.flatMap_cons, List.append_assoc, stringEnd_escape, stringEnd_escaped s,
      List.length_append]
    congr 1
    omega

/-! ## Brackets -/

/-- The scan passes the text inside of brackets, and they stay open. -/
def Passes (text : Text) : Prop :=
  ∀ (closers : List Char) (index : ℕ) (t : Text), closers ≠ [] →
    nestingEnd closers false false index (text ++ t) =
      nestingEnd closers false false (index + text.length) t

theorem Passes.nil : Passes [] := fun _ _ _ _ => rfl

theorem Passes.append {a b : Text} (ha : Passes a) (hb : Passes b) : Passes (a ++ b) := by
  intro closers index t ne
  rw [List.append_assoc, ha closers index _ ne, hb closers _ t ne, List.length_append]
  congr 1
  omega

theorem Passes.one {c : Char} (h : c ∉ ['"', '[', '\x7b', ']', '\x7d']) : Passes [c] := by
  intro closers index t _
  simp only [List.mem_cons, List.not_mem_nil, or_false, not_or] at h
  simp [nestingEnd, h]

theorem Passes.scalar : ∀ {text : Text}, (∀ c ∈ text, isScalar c = true) → Passes text
  | [], _ => .nil
  | c :: text, h => by
    have first := h c (List.mem_cons_self ..)
    have one : Passes [c] := by
      refine .one fun mem => ?_
      simp only [List.mem_cons, List.not_mem_nil, or_false] at mem
      rcases mem with rfl | rfl | rfl | rfl | rfl <;> exact absurd first (by decide)
    exact one.append (Passes.scalar fun d hd => h d (List.mem_cons_of_mem _ hd))

theorem nestingEnd_escape (closers : List Char) (c : Char) (index : ℕ) (t : Text) :
    nestingEnd closers true false index (escape c ++ t) =
      nestingEnd closers true false (index + (escape c).length) t := by
  rcases escape_cases c with ⟨d, h⟩ | ⟨a, b, h, ha, hb⟩ | ⟨h, hquote, hback⟩
  · rw [h]
    simp [nestingEnd]
  · rw [h]
    have ha := hexDigit_plain ha
    have hb := hexDigit_plain hb
    simp [nestingEnd, ha, hb]
  · rw [h]
    simp [nestingEnd, hquote, hback]

theorem nestingEnd_escaped (closers : List Char) : ∀ (s : List Char) (index : ℕ) (t : Text),
    nestingEnd closers true false index (s.flatMap escape ++ '"' :: t) =
      nestingEnd closers false false (index + (s.flatMap escape).length + 1) t
  | [], index, t => by simp [nestingEnd]
  | c :: s, index, t => by
    rw [List.flatMap_cons, List.append_assoc, nestingEnd_escape, nestingEnd_escaped closers s,
      List.length_append]
    congr 1
    omega

theorem Passes.quote (s : String) : Passes (Json.quote s) := by
  intro closers index t _
  have escaped := nestingEnd_escaped closers s.toList (index + 1) t
  unfold Json.quote
  rw [List.append_assoc, List.cons_append, nestingEnd_quote, List.singleton_append, escaped]
  congr 1
  simp only [List.length_append, List.length_cons, List.length_nil]
  omega

/-- What follows the bracket that closes the innermost array or object. -/
def closed (closers : List Char) (index : ℕ) (t : Text) : Except String ℕ :=
  if closers = [] then .ok index else nestingEnd closers false false index t

/-- The scan passes the text and closes the bracket that is open. -/
def Closes (closer : Char) (text : Text) : Prop :=
  ∀ (closers : List Char) (index : ℕ) (t : Text),
    nestingEnd (closer :: closers) false false index (text ++ t) =
      closed closers (index + text.length) t

theorem Closes.bracket : Closes ']' [']'] := by
  intro closers index t
  simp [nestingEnd, closed]

theorem Closes.brace : Closes '\x7d' ['\x7d'] := by
  intro closers index t
  simp [nestingEnd, closed]

theorem Passes.closes {closer : Char} {a b : Text} (ha : Passes a) (hb : Closes closer b) :
    Closes closer (a ++ b) := by
  intro closers index t
  rw [List.append_assoc, ha (closer :: closers) index _ (List.cons_ne_nil _ _), hb closers _ t, List.length_append]
  congr 1
  omega

theorem Closes.passes_array {text : Text} (h : Closes ']' text) : Passes ('[' :: text) := by
  intro closers index t ne
  have inside := h closers (index + 1) t
  rw [closed, if_neg ne] at inside
  rw [List.cons_append, nestingEnd_array, inside, List.length_cons]
  congr 1
  omega

theorem Closes.passes_object {text : Text} (h : Closes '\x7d' text) : Passes ('\x7b' :: text) := by
  intro closers index t ne
  have inside := h closers (index + 1) t
  rw [closed, if_neg ne] at inside
  rw [List.cons_append, nestingEnd_object, inside, List.length_cons]
  congr 1
  omega

mutual

theorem passes_render : ∀ (v : Json), v.every loadable = true → Passes (render v)
  | .str s, _ => by
    rw [render]
    exact Passes.quote s
  | .arr items, h => by
    rw [render]
    exact (closes_items items (every_arr.mp h).2).passes_array
  | .obj fields, h => by
    rw [render]
    exact (closes_fields fields (every_obj.mp h).2).passes_object
  | .null, h => .scalar (render_scalar (every_self h) (by simp) (by simp) (by simp))
  | .bool b, h => .scalar (render_scalar (every_self h) (by simp) (by simp) (by simp))
  | .int n, h => .scalar (render_scalar (every_self h) (by simp) (by simp) (by simp))
  | .float text, h => .scalar (render_scalar (every_self h) (by simp) (by simp) (by simp))

theorem closes_items : ∀ (items : List Json), (∀ v ∈ items, v.every loadable = true) →
    Closes ']' (renderItems items)
  | [], _ => Closes.bracket
  | v :: rest, h => by
    rw [renderItems]
    exact (passes_render v (h v (List.mem_cons_self ..))).closes
      (closes_moreItems rest fun w hw => h w (List.mem_cons_of_mem _ hw))

theorem closes_moreItems : ∀ (items : List Json), (∀ v ∈ items, v.every loadable = true) →
    Closes ']' (moreItems items)
  | [], _ => Closes.bracket
  | v :: rest, h => by
    have comma : Passes [','] := .one (by decide)
    rw [moreItems, ← List.singleton_append, ← List.append_assoc]
    exact (comma.append (passes_render v (h v (List.mem_cons_self ..)))).closes
      (closes_moreItems rest fun w hw => h w (List.mem_cons_of_mem _ hw))

theorem closes_fields : ∀ (fields : List (String × Json)),
    (∀ f ∈ fields, f.2.every loadable = true) → Closes '\x7d' (renderFields fields)
  | [], _ => Closes.brace
  | (k, v) :: rest, h => by
    have colon : Passes [':'] := .one (by decide)
    rw [renderFields, ← List.singleton_append, ← List.append_assoc, ← List.append_assoc]
    exact (((Passes.quote k).append colon).append
      (passes_render v (h (k, v) (List.mem_cons_self ..)))).closes
        (closes_moreFields rest fun f hf => h f (List.mem_cons_of_mem _ hf))

theorem closes_moreFields : ∀ (fields : List (String × Json)),
    (∀ f ∈ fields, f.2.every loadable = true) → Closes '\x7d' (moreFields fields)
  | [], _ => Closes.brace
  | (k, v) :: rest, h => by
    have comma : Passes [','] := .one (by decide)
    have colon : Passes [':'] := .one (by decide)
    have member := (comma.append ((Passes.quote k).append colon)).append
      (passes_render v (h (k, v) (List.mem_cons_self ..)))
    have all := member.closes (closes_moreFields rest fun f hf => h f (List.mem_cons_of_mem _ hf))
    simpa only [moreFields, List.append_assoc, List.cons_append, List.nil_append] using all

end

/-! ## A value is skipped whole -/

theorem takeWhile_plain {text r : Text} (h : ∀ c ∈ text, isScalar c = true) (F : Follows r) :
    (text ++ r).takeWhile isPlain = text := by
  rw [List.takeWhile_append_of_pos fun c hc => isScalar_plain (h c hc)]
  rcases F.cases with rfl | ⟨t, rfl | rfl | rfl⟩
  · rw [List.takeWhile_nil, List.append_nil]
  all_goals
    rw [List.takeWhile_cons_of_neg (by decide), List.append_nil]

theorem jsonValueEnd_scalar {value r : Text} {offset : ℕ} {v : Json}
    (here : value.drop offset = render v ++ r) (h : loadable v = true)
    (scalar : ∀ c ∈ render v, isScalar c = true) (F : Follows r) :
    jsonValueEnd value offset = .ok (offset + (render v).length) := by
  obtain ⟨c, t, hc, space, -⟩ := render_start h
  have first := scalar c (by rw [hc]; exact List.mem_cons_self ..)
  have plain := takeWhile_plain scalar F
  have stays : jsonSpaceEnd value offset = offset := by
    rw [hc, List.cons_append] at here
    exact jsonSpaceEnd_here here space
  unfold jsonValueEnd
  simp only [stays, here]
  rw [hc, List.cons_append] at plain ⊢
  split
  · rename_i heq
    cases heq
  · rename_i heq
    exact absurd (List.cons.inj heq).1 (isScalar_ne first (by decide))
  · rename_i heq
    exact absurd (List.cons.inj heq).1 (isScalar_ne first (by decide))
  · rename_i heq
    exact absurd (List.cons.inj heq).1 (isScalar_ne first (by decide))
  · rw [plain, if_neg (List.cons_ne_nil _ _)]

theorem jsonValueEnd_render {value r : Text} {offset : ℕ} {v : Json}
    (here : value.drop offset = render v ++ r) (h : v.every loadable = true) (F : Follows r) :
    jsonValueEnd value offset = .ok (offset + (render v).length) := by
  have loads := every_self h
  cases v with
  | str s =>
    have quoted : render (.str s) ++ r = '"' :: (s.toList.flatMap escape ++ '"' :: r) := by
      simp [render, quote]
    rw [quoted] at here
    unfold jsonValueEnd
    simp only [jsonSpaceEnd_here here (by decide), here, stringEnd_escaped]
    congr 1
    simp [render, quote]
    omega
  | arr items =>
    rw [render, List.cons_append] at here
    have inside := closes_items items (every_arr.mp h).2 [] (offset + 1) r
    unfold jsonValueEnd
    simp only [jsonSpaceEnd_here here (by decide), here, inside, closed, if_true]
    rw [render, List.length_cons]
    congr 1
    omega
  | obj fields =>
    rw [render, List.cons_append] at here
    have inside := closes_fields fields (every_obj.mp h).2 [] (offset + 1) r
    unfold jsonValueEnd
    simp only [jsonSpaceEnd_here here (by decide), here, inside, closed, if_true]
    rw [render, List.length_cons]
    congr 1
    omega
  | _ =>
    exact jsonValueEnd_scalar here loads (render_scalar loads (by simp) (by simp) (by simp)) F

/-! ## The place of the entries -/

theorem renderItems_start {items : List Json} (h : ∀ v ∈ items, v.every loadable = true) :
    ∃ c r, renderItems items = c :: r ∧ Undo.isSpace c = false := by
  cases items with
  | nil => exact ⟨_, _, by rw [renderItems], by decide⟩
  | cons v rest =>
    obtain ⟨c, r, hc, space, -⟩ := render_start (every_self (h v (List.mem_cons_self ..)))
    exact ⟨c, r ++ moreItems rest, by rw [renderItems, hc, List.cons_append], space⟩

section
variable {payload t : Text} {offset : ℕ} {k : String} {v : Json}

theorem memberLoop_key (here : payload.drop offset = quote k ++ ':' :: (render v ++ t))
    (h : v.every loadable = true) :
    ∃ place, payload.drop place = render v ++ t ∧ ∀ fuel,
      memberLoop payload (fuel + 1) offset =
        if k = "entries" then
          if payload[place]? ≠ some '[' then .error noEntries
          else .ok (jsonSpaceEnd payload (place + 1))
        else
          match jsonValueEnd payload place with
          | .error e => .error e
          | .ok offset =>
            match payload[jsonSpaceEnd payload offset]? with
            | some ',' =>
              memberLoop payload fuel (jsonSpaceEnd payload (jsonSpaceEnd payload offset + 1))
            | some '\x7d' => .error noEntries
            | _ => .error "committed dependency payload has an invalid object separator" := by
  obtain ⟨c, r, hc, space, -⟩ := render_start (every_self h)
  have first : payload[offset]? = some '"' := by
    unfold quote at here
    exact getElem?_here here
  have key := rawDecode_quote here
  have colon := drop_past here
  have stays := jsonSpaceEnd_here colon (by decide)
  have place := drop_next colon
  have stands : jsonSpaceEnd payload (offset + (quote k).length + 1) =
      offset + (quote k).length + 1 := by
    rw [hc, List.cons_append] at place
    exact jsonSpaceEnd_here place space
  refine ⟨_, place, fun fuel => ?_⟩
  rw [memberLoop, if_neg (by rw [first]; decide), key]
  simp only [stays, stands, getElem?_here colon, ne_eq, not_true_eq_false, if_false]

theorem memberLoop_found {items : List Json}
    (here : payload.drop offset = quote "entries" ++ ':' :: (render (.arr items) ++ t))
    (h : (Json.arr items).every loadable = true) (fuel : ℕ) :
    ∃ start, memberLoop payload (fuel + 1) offset = .ok start ∧
      payload.drop start = renderItems items ++ t := by
  obtain ⟨place, there, turn⟩ := memberLoop_key here h
  obtain ⟨c, r, hc, space⟩ := renderItems_start (every_arr.mp h).2
  rw [render, List.cons_append] at there
  have start := drop_next there
  refine ⟨place + 1, ?_, start⟩
  rw [turn, if_pos rfl, if_neg (by rw [getElem?_here there]; decide)]
  rw [hc, List.cons_append] at start
  rw [jsonSpaceEnd_here start space]

theorem memberLoop_other (here : payload.drop offset = quote "entries" ++ ':' :: (render v ++ t))
    (h : v.every loadable = true) (other : ∀ items, v ≠ .arr items) (fuel : ℕ) :
    memberLoop payload (fuel + 1) offset = .error noEntries := by
  obtain ⟨place, there, turn⟩ := memberLoop_key here h
  have first : payload[place]? ≠ some '[' := by
    intro bracket
    have loads := every_self h
    obtain ⟨c, r, hc, -⟩ := render_start loads
    rw [hc, List.cons_append] at there
    rw [getElem?_here there, Option.some.injEq] at bracket
    cases v with
    | arr items => exact other items rfl
    | str s =>
      rw [render, quote, List.cons_append] at hc
      exact absurd ((List.cons.inj hc).1.trans bracket) (by decide)
    | obj fields =>
      rw [render] at hc
      exact absurd ((List.cons.inj hc).1.trans bracket) (by decide)
    | _ =>
      have scalar := render_scalar loads (by simp) (by simp) (by simp) c
        (by rw [hc]; exact List.mem_cons_self ..)
      exact isScalar_ne scalar (by decide) bracket
  rw [turn, if_pos rfl, if_pos first]

theorem memberLoop_pass {rest : List (String × Json)}
    (here : payload.drop offset = quote k ++ ':' :: (render v ++ (moreFields rest ++ t)))
    (h : v.every loadable = true) (hk : k ≠ "entries") :
    match rest with
    | [] => ∀ fuel, memberLoop payload (fuel + 1) offset = .error noEntries
    | (k', w) :: rest => ∃ next,
        payload.drop next = quote k' ++ ':' :: (render w ++ (moreFields rest ++ t)) ∧
        ∀ fuel, memberLoop payload (fuel + 1) offset = memberLoop payload fuel next := by
  obtain ⟨place, there, turn⟩ := memberLoop_key here h
  have skip := jsonValueEnd_render there h (follows_moreFields rest t)
  have behind := drop_past there
  cases rest with
  | nil =>
    intro fuel
    rw [moreFields, List.singleton_append] at behind
    rw [turn, if_neg hk, skip]
    simp only [jsonSpaceEnd_here behind (by decide), getElem?_here behind]
  | cons f rest =>
    obtain ⟨k', w⟩ := f
    rw [moreFields, List.cons_append, List.append_assoc, List.cons_append,
      List.append_assoc] at behind
    have next := drop_next behind
    refine ⟨_, next, fun fuel => ?_⟩
    have quoted : ∃ r, payload.drop (place + (render v).length + 1) = '"' :: r := by
      rw [next, quote, List.cons_append]
      exact ⟨_, rfl⟩
    obtain ⟨r, hr⟩ := quoted
    rw [turn, if_neg hk, skip]
    simp only [jsonSpaceEnd_here behind (by decide), getElem?_here behind,
      jsonSpaceEnd_here hr (by decide)]

end

theorem get?_cons (k k' : String) (v : Json) (rest : List (String × Json)) :
    get? ((k, v) :: rest) k' = if k = k' then some v else get? rest k' := by
  unfold get?
  by_cases h : k = k'
  · rw [if_pos h, List.find?_cons_of_pos (by simpa using h)]
    rfl
  · rw [if_neg h, List.find?_cons_of_neg (by simpa using h)]

theorem memberLoop_members {payload t : Text} :
    ∀ (rest : List (String × Json)) {k : String} {v : Json} {offset fuel : ℕ},
      payload.drop offset = quote k ++ ':' :: (render v ++ (moreFields rest ++ t)) →
      (∀ f ∈ (k, v) :: rest, f.2.every loadable = true) → rest.length < fuel →
      (∀ items, get? ((k, v) :: rest) "entries" = some (.arr items) →
        ∃ start u, memberLoop payload fuel offset = .ok start ∧
          payload.drop start = renderItems items ++ u) ∧
      ((∀ items, get? ((k, v) :: rest) "entries" ≠ some (.arr items)) →
        memberLoop payload fuel offset = .error noEntries)
  | rest, k, v, offset, 0, _, _, len => absurd len (Nat.not_lt_zero _)
  | rest, k, v, offset, fuel + 1, here, h, len => by
    have hv := h (k, v) (List.mem_cons_self ..)
    rw [get?_cons]
    by_cases hk : k = "entries"
    · subst hk
      rw [if_pos rfl]
      constructor
      · intro items hitems
        rw [Option.some.inj hitems] at here hv
        obtain ⟨start, found, place⟩ := memberLoop_found here hv fuel
        exact ⟨start, _, found, place⟩
      · intro other
        exact memberLoop_other here hv (fun items e => other items (by rw [e])) fuel
    rw [if_neg hk]
    have pass := memberLoop_pass here hv hk
    cases rest with
    | nil => exact ⟨fun items hitems => absurd hitems (by simp [get?]), fun _ => pass fuel⟩
    | cons f rest =>
      obtain ⟨k', w⟩ := f
      obtain ⟨next, there, turn⟩ := pass
      rw [turn]
      exact memberLoop_members rest there (fun f hf => h f (List.mem_cons_of_mem _ hf))
        (by rw [List.length_cons] at len; omega)

theorem length_le_moreFields (fields : List (String × Json)) :
    fields.length ≤ (moreFields fields).length := by
  induction fields with
  | nil => exact Nat.zero_le _
  | cons field rest ih =>
    obtain ⟨k, v⟩ := field
    simp only [moreFields, List.length_cons, List.length_append]
    omega

theorem entryArrayOffset_render {fields : List (String × Json)}
    (h : (Json.obj fields).every loadable = true) :
    (∀ items, get? fields "entries" = some (.arr items) →
      ∃ start u, entryArrayOffset (render (.obj fields)) = .ok start ∧
        (render (.obj fields)).drop start = renderItems items ++ u) ∧
    ((∀ items, get? fields "entries" ≠ some (.arr items)) →
      entryArrayOffset (render (.obj fields)) = .error noEntries) := by
  have brace : (render (.obj fields)).drop 0 = '\x7b' :: renderFields fields := by
    rw [render, List.drop_zero]
  have inside := drop_next brace
  have stays := jsonSpaceEnd_here brace (by decide)
  unfold entryArrayOffset
  simp only [stays, getElem?_here brace, ne_eq, not_true_eq_false, if_false]
  cases fields with
  | nil =>
    refine ⟨fun items hitems => absurd hitems (by simp [get?]), fun _ => ?_⟩
    rw [renderFields] at inside
    rw [jsonSpaceEnd_here inside (by decide), memberLoop, if_pos (.inr (getElem?_here inside))]
  | cons f rest =>
    obtain ⟨k, v⟩ := f
    rw [renderFields, ← List.append_nil (moreFields rest)] at inside
    have quoted : ∃ r, (render (.obj ((k, v) :: rest))).drop (0 + 1) = '"' :: r := by
      rw [inside, quote, List.cons_append]
      exact ⟨_, rfl⟩
    obtain ⟨r, hr⟩ := quoted
    rw [jsonSpaceEnd_here hr (by decide)]
    refine memberLoop_members rest inside (every_obj.mp h).2 ?_
    have := length_le_moreFields rest
    simp only [render, renderFields, List.length_cons, List.length_append]
    omega

/-! ## One entry at a time -/

section
variable {payload t : Text} {offset : ℕ} {entry : Dynamic.Dict}

theorem nextEntry_item {rest : List Json}
    (here : payload.drop offset = render (.obj entry) ++ (moreItems rest ++ t))
    (h : (Json.obj entry).every loadable = true) (distinct : (Json.obj entry).Distinct)
    (more : ∀ v ∈ rest, v.every loadable = true) :
    match rest with
    | [] => ∃ next,
        nextEntry payload offset =
          .ok ⟨some entry, next, true, offset, offset + (render (.obj entry)).length⟩
    | w :: rest => ∃ next,
        nextEntry payload offset =
          .ok ⟨some entry, next, false, offset, offset + (render (.obj entry)).length⟩ ∧
        payload.drop next = render w ++ (moreItems rest ++ t) := by
  have read := rawDecode_render here h distinct (follows_moreItems rest t)
  have behind := drop_past here
  have brace : payload.drop offset = '\x7b' :: (renderFields entry ++ (moreItems rest ++ t)) := by
    rw [here, render, List.cons_append]
  have stays := jsonSpaceEnd_here brace (by decide)
  cases rest with
  | nil =>
    rw [moreItems, List.singleton_append] at behind
    refine ⟨offset + (render (.obj entry)).length + 1, ?_⟩
    unfold nextEntry
    simp only [stays, getElem?_here brace, read, jsonSpaceEnd_here behind (by decide),
      getElem?_here behind]
    rfl
  | cons w rest =>
    rw [moreItems, List.cons_append, List.append_assoc] at behind
    have next := drop_next behind
    obtain ⟨c, r, hc, space, -⟩ := render_start (every_self (more w (List.mem_cons_self ..)))
    have first := next
    rw [hc, List.cons_append] at first
    refine ⟨_, ?_, next⟩
    unfold nextEntry
    simp only [stays, getElem?_here brace, read, jsonSpaceEnd_here behind (by decide),
      getElem?_here behind, jsonSpaceEnd_here first space]
    rfl

theorem nextEntry_end (here : payload.drop offset = ']' :: t) :
    nextEntry payload offset = .ok ⟨none, offset + 1, true, offset, offset⟩ := by
  unfold nextEntry
  simp only [jsonSpaceEnd_here here (by decide), getElem?_here here]

end

/-! ## All entries -/

theorem fanOuts_items {payload t : Text} :
    ∀ (rest : List Dynamic.Dict) (cursor : Option ℕ) (fuel : ℕ) {entry : Dynamic.Dict}
      {offset : ℕ}, startOffset payload cursor = .ok offset →
      payload.drop offset = render (.obj entry) ++ (moreItems (rest.map .obj) ++ t) →
      (∀ e ∈ entry :: rest, (Json.obj e).every loadable = true ∧ (Json.obj e).Distinct) →
      rest.length < fuel →
      ∃ slices, fanOuts payload fuel cursor = (slices, none) ∧
        slices.map Slice.entry = entry :: rest ∧
        ∀ s ∈ slices, substr payload s = render (.obj s.entry)
  | rest, cursor, 0, entry, offset, _, _, _, len => absurd len (Nat.not_lt_zero _)
  | rest, cursor, fuel + 1, entry, offset, place, here, h, len => by
    have one := h entry (List.mem_cons_self ..)
    have more : ∀ v ∈ rest.map Json.obj, v.every loadable = true := by
      intro v hv
      obtain ⟨e, he, rfl⟩ := List.mem_map.mp hv
      exact (h e (List.mem_cons_of_mem _ he)).1
    have slice : ∀ n, substr payload ⟨entry, offset, offset + n - offset⟩ =
        (payload.drop offset).take n := by
      intro n
      unfold substr
      rw [Nat.add_sub_cancel_left]
    have text := slice (render (.obj entry)).length
    rw [here, List.take_left] at text
    have item := nextEntry_item here one.1 one.2 more
    cases rest with
    | nil =>
      obtain ⟨next, read⟩ := item
      refine ⟨[⟨entry, offset, offset + (render (.obj entry)).length - offset⟩], ?_, rfl, ?_⟩
      · have turn : fanOut payload cursor =
            .ok (some ⟨entry, offset, offset + (render (.obj entry)).length - offset⟩, none) := by
          simp only [fanOut, place, read, bind, Except.bind, pure, Except.pure, if_true]
        rw [fanOuts, turn]
      · intro s hs
        rw [List.mem_singleton.mp hs]
        exact text
    | cons w rest =>
      obtain ⟨next, read, there⟩ := item
      have turn : fanOut payload cursor =
          .ok (some ⟨entry, offset, offset + (render (.obj entry)).length - offset⟩, some next) := by
        simp only [fanOut, place, read, bind, Except.bind, pure, Except.pure, Bool.false_eq_true,
          if_false]
      obtain ⟨slices, run, entries, texts⟩ := fanOuts_items rest (some next) fuel rfl there
        (fun e he => h e (List.mem_cons_of_mem _ he)) (by rw [List.length_cons] at len; omega)
      refine ⟨⟨entry, offset, offset + (render (.obj entry)).length - offset⟩ :: slices, ?_, ?_, ?_⟩
      · rw [fanOuts, turn]
        simp only [run]
      · rw [List.map_cons, entries]
      · intro s hs
        rcases List.mem_cons.mp hs with rfl | hs
        · exact text
        · exact texts s hs

/-- The text of a float is the one that Python writes for it. -/
def represented : Json → Bool
  | .float text => text ∈ ["nan", "inf", "-inf"] || isFloatText text.toList
  | _ => true

theorem loadable_of_writable {v : Json} (write : v.every writable = true)
    (rep : v.every represented = true) : v.every loadable = true := by
  refine every_and (fun v write rep => ?_) v write rep
  cases v with
  | float text =>
    simp only [writable, represented, decide_eq_true_eq, Bool.or_eq_true] at write rep
    exact rep.resolve_left write
  | int n => exact write
  | _ => rfl

theorem length_le_moreItems (items : List Json) : items.length ≤ (moreItems items).length := by
  induction items with
  | nil => exact Nat.zero_le _
  | cons v rest ih =>
    simp only [moreItems, List.length_cons, List.length_append]
    omega

/-- **The cursor reads the entries**: for a payload that is the canonical text of an object, the turns
give the entries of the parsed payload in their order and stop, the slice of each reads back as the same
entry, and a payload without an array of entries gives an error and no slice. -/
theorem entry_cursor (fields : Dynamic.Dict) (maxBytes : ℕ) (payload : Text)
    (distinct : (Json.obj fields).Distinct) (floats : (Json.obj fields).every represented = true)
    (encoded : canonicalJson (.obj fields) maxBytes = .ok payload) :
    ∃ loaded, loads payload = some (.obj loaded) ∧
      (∀ entries : List Dynamic.Dict, get? loaded "entries" = some (.arr (entries.map .obj)) →
        ∃ slices, readEntries payload = (slices, none) ∧ slices.map Slice.entry = entries ∧
          ∀ s ∈ slices, loads (substr payload s) = some (.obj s.entry)) ∧
      ((∀ items, get? loaded "entries" ≠ some (.arr items)) →
        readEntries payload = ([], some noEntries)) := by
  obtain ⟨writes, -, rfl⟩ := canonicalJson_eq_ok.mp encoded
  have loadable := loadable_sortKeys (loadable_of_writable writes floats)
  have distinct := distinct.sortKeys
  have read := loads_render loadable distinct
  unfold dumps
  rw [sortKeys] at loadable distinct read ⊢
  generalize (sortFields fields).insertionSort (fun a b => a.1 ≤ b.1) = loaded at *
  refine ⟨loaded, read, ?_, ?_⟩
  · intro entries hentries
    obtain ⟨start, u, found, place⟩ := (entryArrayOffset_render loadable).1 _ hentries
    have member : ("entries", Json.arr (entries.map .obj)) ∈ loaded := (get?_eq_some (of_decide_eq_true (every_obj.mp distinct).1)).mp hentries
    have items := every_arr.mp ((every_obj.mp loadable).2 _ member)
    have keys := every_arr.mp ((every_obj.mp distinct).2 _ member)
    cases entries with
    | nil =>
      rw [List.map_nil, renderItems, List.singleton_append] at place
      refine ⟨[], ?_, rfl, fun s hs => absurd hs List.not_mem_nil⟩
      have turn : fanOut (render (.obj loaded)) none = .ok (none, none) := by
        simp only [fanOut, startOffset, found, nextEntry_end place, bind, Except.bind, pure,
          Except.pure]
      rw [readEntries, fanOuts, turn]
    | cons entry rest =>
      rw [List.map_cons, renderItems, List.append_assoc] at place
      have all : ∀ e ∈ entry :: rest, (Json.obj e).every Json.loadable = true ∧
          (Json.obj e).Distinct := fun e he =>
        ⟨items.2 _ (List.mem_map_of_mem he), keys.2 _ (List.mem_map_of_mem he)⟩
      have fuel : rest.length < (render (.obj loaded)).length + 1 := by
        have inner := length_le_moreItems (rest.map .obj)
        have outer := congrArg List.length place
        rw [List.length_drop, List.length_append, List.length_append] at outer
        rw [List.length_map] at inner
        omega
      have first : startOffset (render (.obj loaded)) none = .ok start := found
      obtain ⟨slices, run, entries, texts⟩ := fanOuts_items rest none _ first place all fuel
      refine ⟨slices, run, entries, fun s hs => ?_⟩
      have mem : s.entry ∈ entry :: rest := entries ▸ List.mem_map_of_mem hs
      rw [texts s hs]
      exact loads_render (all _ mem).1 (all _ mem).2
  · intro missing
    have turn : fanOut (render (.obj loaded)) none = .error noEntries := by
      simp only [fanOut, startOffset, (entryArrayOffset_render loadable).2 missing, bind, Except.bind]
    rw [readEntries, fanOuts, turn]

/-- The key stands in a text and inside of another value before it stands for the entries. -/
def samplePayload : Dynamic.Dict :=
  [("entries", .arr [.obj [("path", .str "]\"\\"), ("size", .int (-7))], .obj []]),
    ("count", .obj [("entries", .arr [.int 2])]), ("before", .str "\"entries\":[\x7b")]

theorem entry_cursor_sample : ∃ payload loaded, loads payload = some (.obj loaded) ∧
    (∀ entries : List Dynamic.Dict, get? loaded "entries" = some (.arr (entries.map .obj)) →
      ∃ slices, readEntries payload = (slices, none) ∧ slices.map Slice.entry = entries ∧
        ∀ s ∈ slices, loads (substr payload s) = some (.obj s.entry)) ∧
    ((∀ items, get? loaded "entries" ≠ some (.arr items)) →
      readEntries payload = ([], some noEntries)) := by
  have distinct : (Json.obj samplePayload).Distinct := by decide
  have floats : (Json.obj samplePayload).every represented = true := by decide
  have encoded : canonicalJson (.obj samplePayload) 200 = .ok (dumps (.obj samplePayload)) :=
    canonicalJson_eq_ok.mpr ⟨by decide, by decide, rfl⟩
  obtain ⟨loaded, read⟩ := entry_cursor samplePayload 200 _ distinct floats encoded
  exact ⟨_, loaded, read⟩

end Metnos.Durable.EntryCursor
