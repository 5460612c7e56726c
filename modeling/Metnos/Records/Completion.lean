import Mathlib.Data.List.Sort
import Metnos.Lib.Dynamic
import Metnos.Lib.Regex
import Metnos.Lib.Reservation
import Metnos.Undo.Selection

/-!
# Records.Completion — codes in a text, and quotes of a source

A code is a run of letters and digits, which separators may divide; dates, times and fragments of
numbers are none.  A quote is found in its source up to the layout of its blanks.
-/

namespace Metnos.Records

open Regex
open Undo (Text isSpace)

/-- What the interpreter knows of characters and dates. -/
structure Python where
  /-- `str.isalnum` -/
  alnum : Char → Bool
  /-- The value of a decimal digit of any script. -/
  decimal : Char → Option ℕ
  casefold : Text → Text
  /-- `datetime.fromisoformat` accepts the text. -/
  isoDatetime : Text → Bool
  /-- `time.fromisoformat` accepts the text. -/
  isoTime : Text → Bool
  alnum_space : ∀ c, isSpace c = true → alnum c = false
  decimal_space : ∀ c, isSpace c = true → decimal c = none

variable (py : Python)

/-- `\d` -/
def Python.isDecimal (c : Char) : Bool := (py.decimal c).isSome

/-- `[^\W_]` -/
def Python.isWord (c : Char) : Bool := py.alnum c && decide (c ≠ '_')

/-! ## Matches -/

structure Match where
  start : ℕ
  stop : ℕ
  text : Text

/-- The matches of a search, with their places. -/
def places : ℕ → List Segment → List Match
  | _, [] => []
  | n, .left _ :: l => places (n + 1) l
  | n, .hit g :: l => ⟨n, n + (g.get 0).length, g.get 0⟩ :: places (n + (g.get 0).length) l

/-- `p.finditer(text)` -/
def finditer (p : Pattern) (text : Text) : List Match := places 0 (segments (.group 0 p) text)

/-- `_VALUE` -/
def value : Pattern :=
  let digits := Pattern.some true (.char py.isDecimal)
  .seq digits (.some true (.seq (.char fun c => decide (c ∈ ['.', ',', ':', '/', '-'])) digits))

def isJoint (c : Char) : Bool := decide (c = '-' ∨ c = '_' ∨ c = '/')

/-- `_TOKEN` -/
def token : Pattern :=
  let letters := Pattern.some true (.char py.isWord)
  .seq letters (.star true (.seq (.char isJoint) letters))

/-! ## Codes -/

def digitsValue (t : Text) : ℕ := t.foldl (fun n c => 10 * n + (py.decimal c).getD 0) 0

/-- `date(year, month, day)` does not raise. -/
def isDate (year month day : ℕ) : Bool :=
  let longest := if month = 2 then
      if year % 4 = 0 ∧ (year % 100 ≠ 0 ∨ year % 400 = 0) then 29 else 28
    else if month ∈ [4, 6, 9, 11] then 30
    else 31
  decide (1 ≤ year ∧ year ≤ 9999 ∧ 1 ≤ month ∧ month ≤ 12 ∧ 1 ≤ day ∧ day ≤ longest)

/-- `_compact_date` -/
def compactDate (t : Text) : Bool :=
  if t.length ≠ 8 ∨ t.all py.isDecimal = false then false
  else
    isDate (digitsValue py (t.take 4)) (digitsValue py ((t.drop 4).take 2))
      (digitsValue py (t.drop 6)) ||
    isDate (digitsValue py (t.drop 4)) (digitsValue py ((t.drop 2).take 2))
      (digitsValue py (t.take 2))

/-- The number overlaps the match, and reaches beyond it. -/
def cutsOut (number m : Match) : Bool :=
  decide (number.start < m.stop ∧ m.start < number.stop ∧
    (number.start < m.start ∨ m.stop < number.stop))

/-- A match of `_TOKEN` is a code. -/
def isCode (values : List Match) (m : Match) : Bool :=
  let plain := m.text.filter fun c => !isJoint c
  let digits := plain.countP py.isDecimal
  if digits = 0 ∨ compactDate py plain = true then false
  else if plain.all py.isDecimal = true ∧ m.text ≠ plain then false
  else if values.any (fun number => cutsOut number m) = true then false
  else if digits < plain.length then
    if py.isoDatetime m.text = true ∨ (':' ∈ m.text ∧ py.isoTime m.text = true) then false
    else decide (5 ≤ plain.length)
  else decide (6 ≤ digits)

/-- `_identifier_matches`: the matches, and their codes with one separator for all. -/
def identifierMatches (t : Text) : List (Match × Text) :=
  ((finditer (token py) t).filter (isCode py (finditer (value py) t))).map fun m =>
    (m, py.casefold (m.text.map fun c => if isJoint c then '-' else c))

/-- `any(match.group() == value for match, _code in _identifier_matches(value))` -/
def isWholeCode (t : Text) : Bool := (identifierMatches py t).any fun m => decide (m.1.text = t)

/-- `_code_shape` -/
def codeShape (t : Text) : Text :=
  t.map fun c => if py.isDecimal c then '9' else if py.isWord c then 'a' else c

/-! ## Quotes -/

/-- `t.split()` -/
def words (t : Text) : List Text := (t.splitOnP isSpace).filter fun w => decide (w ≠ [])

/-- The words, with blanks between them. -/
def layout : List Text → Pattern
  | [] => .nothing
  | [w] => .lit w
  | w :: rest => .seq (.lit w) (.seq (.some true (.char isSpace)) (layout rest))

/-- `_literal_quote_span` -/
def literalQuoteSpan (quote source : Text) : Option Text :=
  if quote <:+: source then some quote
  else if words quote = [] then none
  else (finditer (layout (words quote)) source).head?.map Match.text

/-- `valid_reference` -/
def validReference (t : Text) : Bool :=
  let letter := fun c : Char => c.isAlphanum
  decide (t.length ≤ 256) && t.head?.any letter &&
    t.all fun c => letter c || decide (c ∈ ['.', '_', ':', '/', '-'])

/-! ## What they read -/

variable {py}

theorem finditer_mem {p : Pattern} {text : Text} {m : Match} (h : m ∈ finditer p text) :
    ∃ u prev t, text = u ++ (m.text ++ t.rest) ∧ t ∈ run p ⟨prev, m.text ++ t.rest, []⟩ := by
  have all : ∀ n, ∀ m ∈ places n (segments (.group 0 p) text),
      ∃ u prev t, text = u ++ (m.text ++ t.rest) ∧ t ∈ run p ⟨prev, m.text ++ t.rest, []⟩ := by
    refine segments_induction (.group 0 p) (P := fun _ rest l => ∀ n, ∀ m ∈ places n l,
      ∃ u prev t, rest = u ++ (m.text ++ t.rest) ∧ t ∈ run p ⟨prev, m.text ++ t.rest, []⟩)
      ?_ ?_ ?_ text
    · intro _ n m mem
      cases mem
    · intro _ c rest l ih n m mem
      obtain ⟨u, prev, t, split, read⟩ := ih (n + 1) m mem
      exact ⟨c :: u, prev, t, by rw [split]; rfl, read⟩
    · intro _ prev rest t l _ read ih n m mem
      obtain ⟨t', read', rfl⟩ := mem_group.mp read
      obtain ⟨w, split⟩ := run_suffix read'
      have got : Groups.get ((0, rest.take (rest.length - t'.rest.length)) :: t'.groups) 0 = w := by
        have whole : rest = w ++ t'.rest := split.symm
        show rest.take (rest.length - t'.rest.length) = w
        rw [whole]
        exact take_sub
      rcases List.mem_cons.mp mem with rfl | mem
      · refine ⟨[], prev, t', ?_, ?_⟩
        · show rest = _ ++ t'.rest
          rw [got]
          exact split.symm
        · dsimp only
          rw [got, split]
          exact read'
      · obtain ⟨u, prev', t'', split', read''⟩ := ih _ m mem
        refine ⟨w ++ u, prev', t'', ?_, read''⟩
        rw [List.append_assoc, ← split', split]
  exact all 0 m h

theorem token_free : (token py).Free fun c => isSpace c = true := by
  have letter : ∀ c, isSpace c = true → py.isWord c = false := fun c space => by
    rw [Python.isWord, py.alnum_space c space]
    rfl
  have joint : ∀ c, isSpace c = true → isJoint c = false := fun c space => by
    refine decide_eq_false ?_
    rintro (rfl | rfl | rfl)
    all_goals exact absurd space (by decide)
  exact ⟨⟨letter, letter⟩, joint, letter, letter⟩

theorem not_space_of_wholeCode {t : Text} (h : isWholeCode py t = true) :
    ∀ c ∈ t, isSpace c = false := by
  obtain ⟨x, mem, same⟩ := List.any_eq_true.mp h
  obtain ⟨m, found, rfl⟩ := List.mem_map.mp mem
  obtain ⟨-, prev, s, -, read⟩ := finditer_mem (List.mem_filter.mp found).1
  obtain ⟨w, split, free⟩ := run_reads token_free read
  have whole : w = t := by
    rw [← show m.text = t from of_decide_eq_true same]
    exact List.append_cancel_right split.symm
  intro c hc
  exact Bool.eq_false_iff.mpr (free c (whole ▸ hc))

theorem words_of_not_space {t : Text} (nonempty : t ≠ []) (h : ∀ c ∈ t, isSpace c = false) :
    words t = [t] := by
  unfold words
  rw [List.splitOnP_eq_singleton h]
  exact List.filter_cons_of_pos (decide_eq_true nonempty)

theorem literalQuoteSpan_infix {quote source span : Text}
    (h : literalQuoteSpan quote source = some span) : span <:+: source := by
  unfold literalQuoteSpan at h
  split_ifs at h with literal
  · cases h
    exact literal
  · obtain ⟨m, first, rfl⟩ := Option.map_eq_some_iff.mp h
    obtain ⟨u, prev, t, split, -⟩ := finditer_mem (List.mem_of_head? first)
    exact ⟨u, t.rest, by rw [split, List.append_assoc]⟩

theorem literalQuoteSpan_of_not_space {quote source span : Text} (nonempty : quote ≠ [])
    (h : ∀ c ∈ quote, isSpace c = false) (found : literalQuoteSpan quote source = some span) :
    span = quote := by
  unfold literalQuoteSpan at found
  rw [words_of_not_space nonempty h] at found
  split_ifs at found with literal
  · exact (Option.some.inj found).symm
  · obtain ⟨m, first, rfl⟩ := Option.map_eq_some_iff.mp found
    obtain ⟨u, prev, t, split, read⟩ := finditer_mem (List.mem_of_head? first)
    obtain ⟨whole, -⟩ := mem_lit.mp read
    exact List.append_cancel_right whole

end Metnos.Records

/-!
## Identifiers that records get from their siblings

A field that labels some records of a source as their own identifier labels the others as well.  A
record gets the first identifier that is offered to it and that nobody has: not by an annotation,
and not by completion before.
-/

namespace Metnos.Records

open Dynamic Undo

/-! ## Facts -/

/-- The facts of a record; what cannot be iterated raises. -/
def factsOf (r : Dict) : Option (List Dict) :=
  match r.get "_record_facts" with
  | .arr items => some (items.filterMap asDict)
  | .str _ | .obj _ => some []
  | v => if Json.truthy v = true then none else some []

/-- `f.get("role") == "identifier"` -/
def isIdentifier (f : Dict) : Bool := decide (asStr (f.get "role") = some "identifier")

def isOwn (f : Dict) : Bool :=
  isIdentifier f && decide (asStr (f.get "owner") = some "self")

/-- The record has an identifier already. -/
def annotated (r : Dict) : Bool := ((factsOf r).getD []).any isIdentifier

/-- The model has said something of the field. -/
def mentions (r : Dict) (field : String) : Bool :=
  ((factsOf r).getD []).any fun f => decide (asStr (f.get "field") = some field)

/-- `{**record, "_record_facts": [*facts, fact]}` -/
def annotate (r fact : Dict) : Dict :=
  r.set "_record_facts" (.arr (((factsOf r).getD []).map .obj ++ [.obj fact]))

/-- A fact that a record may get. -/
structure Offer where
  field : String
  value : String
  quote : Text
  fact : Dict

def Offer.key (o : Offer) : String × String := (o.field, o.value)

/-- Every record gets the first of its offers that is not taken. -/
def completeFrom (offers : Dict → List Offer) : List (String × String) → List Dict → List Dict
  | _, [] => []
  | taken, r :: rest =>
    match (offers r).find? fun o => decide (o.key ∉ taken) with
    | none => r :: completeFrom offers taken rest
    | some o => annotate r o.fact :: completeFrom offers (o.key :: taken) rest

variable (py : Python)

/-! ## Within one source -/

/-- An annotated identifier, with its record's value in the field. -/
structure Reference where
  fact : Dict
  field : String
  value : String
  quote : String

def quoted (f : Dict) : Option (String × String) :=
  match f.get "value", f.get "quote" with
  | .str value, .str quote =>
    if value.toList <:+: quote.toList then some (value, quote) else none
  | _, _ => none

/-- The reference that a fact of a record is. -/
def reference (r f : Dict) : Option Reference :=
  if isOwn f = false then none
  else match quoted f, f.get "field" with
  | some (value, quote), .str field =>
    if asStr (r.get field) = some value then some ⟨f, field, value, quote⟩ else none
  | _, _ => none

/-- A list or a dictionary for a field cannot be looked up. -/
def unhashable (f : Dict) : Bool :=
  isOwn f && (quoted f).isSome && match f.get "field" with
    | .arr _ | .obj _ => true
    | _ => false

def references (records : List Dict) : List Reference :=
  records.flatMap fun r => ((factsOf r).getD []).filterMap (reference r)

/-- What stands before the first place of the value in the quote. -/
def textBefore (value : Text) : Text → Text
  | [] => []
  | c :: rest => if value <+: c :: rest then [] else c :: textBefore value rest

/-- What a reference offers to a record. -/
def offer (source : Text) (r : Dict) (ref : Reference) : Option Offer :=
  match r.get ref.field with
  | .str value =>
    let before := textBefore ref.value.toList ref.quote.toList
    if mentions r ref.field = true ∨ strip value.toList = [] ∨
        value.toList.any py.isDecimal = false ∨
        (strip before = [] ∧ (codeShape py value.toList ≠ codeShape py ref.value.toList ∨
          isWholeCode py value.toList = false)) then none
    else (literalQuoteSpan (before ++ value.toList) source).map fun quote =>
      ⟨ref.field, value, quote, (ref.fact.set "value" (.str value)).set "quote"
        (.str (String.ofList quote))⟩
  | _ => none

/-- An annotated record is offered nothing. -/
def offersWithin (refs : List Reference) (source : Text) (r : Dict) : List Offer :=
  if annotated r = true then [] else refs.filterMap (offer py source r)

def takenBy (refs : List Reference) : List (String × String) :=
  refs.map fun ref => (ref.field, ref.value)

/-- `complete_identifier_facts`, without a result when it raises. -/
def completeIdentifierFacts (records : List Dict) (source : Text) : Option (List Dict) :=
  if records.any (fun r => (factsOf r).isNone || ((factsOf r).getD []).any unhashable) = true then
    none
  else if references records = [] then some records
  else some (completeFrom (offersWithin py (references records) source) (takenBy (references records))
    records)

/-! ## Across sources -/

/-- The field and the value of an annotated code. -/
def annotatedCode (r f : Dict) : Option (String × String) :=
  if isOwn f = false then none
  else match f.get "field", f.get "value" with
  | .str field, .str value =>
    if asStr (r.get field) = some value ∧ isWholeCode py value.toList = true then
      some (field, value)
    else none
  | _, _ => none

def annotatedCodes (records : List Dict) : List (String × String) :=
  records.flatMap fun r => ((factsOf r).getD []).filterMap (annotatedCode py r)

def pairLe (a b : String × String) : Prop := a.1 < b.1 ∨ (a.1 = b.1 ∧ a.2 ≤ b.2)

instance : DecidableRel pairLe := fun a b =>
  inferInstanceAs (Decidable (a.1 < b.1 ∨ (a.1 = b.1 ∧ a.2 ≤ b.2)))

/-- `sorted(shapes)` -/
def shapes (records : List Dict) : List (String × String) :=
  (((annotatedCodes py records).map fun x => (x.1, String.ofList (codeShape py x.2.toList))).dedup
    ).insertionSort pairLe

/-- The text of a record's own source; `texts` has the texts by their references. -/
def sourceText (texts : Text → Option Text) (r : Dict) : Option Text :=
  match r.get "_record_source" with
  | .str source => if validReference source.toList = true then texts source.toList else none
  | _ => none

def offerAcross (texts : Text → Option Text) (r : Dict) (shape : String × String) : Option Offer :=
  match r.get shape.1, sourceText texts r with
  | .str value, some source =>
    if strip value.toList = [] ∨ mentions r shape.1 = true ∨
        String.ofList (codeShape py value.toList) ≠ shape.2 ∨
        isWholeCode py value.toList = false then none
    else (literalQuoteSpan value.toList source).map fun quote =>
      ⟨shape.1, value, quote, [("field", .str shape.1), ("value", .str value),
        ("role", .str "identifier"), ("owner", .str "self"), ("quote", .str (String.ofList quote)),
        ("source", r.get "_record_source")]⟩
  | _, _ => none

def offersAcross (shapes : List (String × String)) (texts : Text → Option Text) (r : Dict) :
    List Offer :=
  if annotated r = true then [] else shapes.filterMap (offerAcross py texts r)

/-- `complete_identifier_facts_across`, without a result when it raises. -/
def completeIdentifierFactsAcross (records : List Dict) (texts : Text → Option Text) :
    Option (List Dict) :=
  if records.any (fun r => (factsOf r).isNone) = true then none
  else if annotatedCodes py records = [] then some records
  else some (completeFrom (offersAcross py (shapes py records) texts) (annotatedCodes py records)
    records)

end Metnos.Records
