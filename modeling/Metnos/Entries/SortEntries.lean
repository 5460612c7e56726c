import Mathlib
import Metnos.Entries.Values
import Metnos.Lib.Sorting

/-!
# Entries.SortEntries — `sort_entries.py`

The entries that have a value come in the order of their values, those that have none stay behind
them.  Dates are recognised by the parser of the library and then ordered by their texts.
-/

namespace Metnos.Entries.SortEntries

open Dynamic IsoFormat
open Undo (Text isSpace strip)

/-! ## The field -/

/-- What `resolve_field` asks for besides: the registered aliases of a family, which may not be
readable, and the order in which a set of texts is walked through. -/
structure Lexicon extends Interpreter where
  aliases : Option (String → List Text)
  setOrder : List Text → List Text

variable (py : Lexicon)

/-- `_FIELD_CANDIDATES` -/
def fieldCandidates : List (String × List String) :=
  [("domain", ["domain", "dominio", "hostname", "host"]),
    ("account", ["account", "mailbox", "folder", "account_email"]),
    ("sender", ["from", "sender", "from_email", "author"]),
    ("recipient", ["to", "recipient"]),
    ("date", ["date", "mtime", "modified_at", "created_at", "timestamp", "start", "ts", "time"]),
    ("size", ["size", "bytes", "size_bytes", "total_bytes", "file_size"]),
    ("subject", ["subject", "title", "name"]),
    ("name", ["name", "title", "basename", "filename", "path"]),
    ("type", ["kind", "type", "content_type", "format", "ext", "extension", "mimetype"]),
    ("folder", ["folder", "dir", "parent", "directory"]),
    ("status", ["status", "state"]),
    ("author", ["author", "from", "sender", "user"]),
    ("category", ["category", "class", "label", "importance"])]

/-- The fields of all entries by their folded names, the first of each name. -/
abbrev Keys := List (Text × String)

/-- `_entry_keys` -/
def entryKeys (entries : List Json) : Keys :=
  ((entries.filterMap asDict).flatMap fun d => d.map Prod.fst).foldl
    (fun keys k =>
      if k.toList.head? = some '_' ∨ (keys.lookup (py.casefold k.toList)).isSome then keys
      else keys ++ [(py.casefold k.toList, k)]) []

/-- `key_text.split()` -/
def words (t : Text) : List Text := (t.splitOnP isSpace).filter fun w => !w.isEmpty

local instance lawfulToken : LawfulBEq Text := inferInstance

/-- A family that one of the tokens is an alias of. -/
def byFamily (keys : Keys) (tokens : List Text) (aliases : String → List Text) : Option String :=
  fieldCandidates.findSome? fun family =>
    if tokens.any fun t => decide (t ∈ (aliases family.1).map py.casefold) then
      family.2.findSome? fun candidate => keys.lookup candidate.toList
    else none

/-- A field that a token is part of, or the other way round; the longest token first. -/
def bySubstring (keys : Keys) (tokens : List Text) : Option String :=
  ((py.setOrder tokens).insertionSort fun s t => t.length ≤ s.length).findSome? fun t =>
    if t.length < 3 then none
    else (keys.find? fun k => decide (3 ≤ k.1.length ∧ (t <:+: k.1 ∨ k.1 <:+: t))).map Prod.snd

/-- `resolve_field`; what it raises resolves nothing. -/
def resolveField (key : String) (entries : List Json) : Option String :=
  let folded := py.casefold (strip key.toList)
  let keys := entryKeys py entries
  if folded = [] then none
  else
    match (keys.lookup folded).or (keys.lookup (folded.map fun c => if c = ' ' then '_' else c)) with
    | some real => some real
    | none =>
      let tokens := (words folded ++ [folded]).dedup
      py.aliases.bind fun aliases => (byFamily py keys tokens aliases).or (bySubstring py keys tokens)

/-- The field that the entries are sorted by. -/
def sortField (key : String) (entries : List Json) : String :=
  if entries.isEmpty || entries.any fun e => (asDict e).any fun d => d.has key then key
  else
    match resolveField py key entries with
    | some real => if real = "" then key else real
    | none => key

/-! ## Values -/

/-- `_val` -/
def value (field : String) (e : Json) : Option Json :=
  match (asDict e).map (Dict.get · field) with
  | some (.str s) => if strip s.toList = [] then none else some (.str s)
  | some v => if isNumber v then some v else none
  | none => none

/-- `date_text(_val(entry))`, for an entry that has a text. -/
def valueText (field : String) (e : Json) : Text :=
  match value field e with
  | some (.str s) => dateText s.toList
  | _ => []

/-- `_date_key` -/
def dateKey (field : String) (e : Json) : Option Moment :=
  match value field e with
  | some (.str s) => fromisoformat (withoutZulu (strip (dateText s.toList)))
  | _ => none

/-- `_key`: numbers before texts. -/
def keyLe (v w : Json) : Bool :=
  match v, w with
  | .str s, .str t => decide (s.toList ≤ t.toList)
  | .str _, _ => false
  | _, .str _ => true
  | v, w => !((py.number v).any fun m => (py.number w).any fun n => decide (n < m))

/-- The text of a value without regard to case. -/
def foldedText (field : String) (e : Json) : Text :=
  py.casefold (((value field e).map py.str).getD [])

/-! ## Order -/

/-- `list.sort`; entries that are equal keep their order in both directions. -/
def sortBy {α : Type} (le : α → α → Bool) (desc : Bool) (l : List α) : List α :=
  l.insertionSort fun x y => (if desc then le y x else le x y) = true

/-- Whether the entry has a date, another value, or none. -/
def rank (field : String) (e : Json) : ℕ :=
  if (dateKey field e).isSome then 0 else if (value field e).isSome then 1 else 2

def ranked (field : String) (n : ℕ) (entries : List Json) : List Json :=
  entries.filter fun e => decide (rank field e = n)

def byDate (field : String) (desc : Bool) (entries : List Json) : List Json :=
  sortBy (fun x y => decide (valueText field x ≤ valueText field y)) desc (ranked field 0 entries) ++
    sortBy (fun x y => decide (foldedText py field x ≤ foldedText py field y)) desc
      (ranked field 1 entries) ++
    ranked field 2 entries

def byValue (field : String) (desc : Bool) (entries : List Json) : List Json :=
  sortBy (fun x y => keyLe py ((value field x).getD .null) ((value field y).getD .null)) desc
    (entries.filter fun e => (value field e).isSome) ++ ranked field 2 entries

/-- The entries that `top` leaves; it leaves all of them unless it is less than their number. -/
def truncate (top : Option ℤ) (sorted : List Json) : Option (List Json) :=
  top.bind fun k => if 0 < k ∧ k < sorted.length then some (sorted.take k.toNat) else none

/-! ## The executor -/

def report (key : String) (desc date : Bool) (top : Option ℤ) (entries : List Json) : Dict :=
  let field := sortField py key entries
  let sorted := if date then byDate py field desc entries else byValue py field desc entries
  let kept := (truncate top sorted).getD sorted
  [("ok", .bool true), ("entries", .arr kept), ("count", .int kept.length),
    ("total_input", .int entries.length), ("sorted_by", .str field), ("desc", .bool desc)] ++
  (if date then
    [("value_type", .str "date"), ("unparsed_count", .int (ranked field 1 entries).length)]
  else []) ++
  (if field = key then [] else [("requested_by", .str key)]) ++
  (if (truncate top sorted).isSome then
    [("truncated", .bool true), ("truncated_what", .str (py.msg "MSG_OBJECT_ENTRIES" [])),
      ("used", .int kept.length), ("available_total", .int entries.length),
      ("truncated_intentional", .bool true)]
  else [])

/-- `args.get("value_type") or "auto"` -/
def valueType (args : Dict) : Json :=
  if Json.truthy (args.get "value_type") then args.get "value_type" else .str "auto"

/-- `top` is absent, or a count. -/
def topOf (args : Dict) : Option (Option ℤ) :=
  match args.get "top" with
  | .null => some none
  | v => (asInt v).bind fun k => if k < 0 then none else some (some k)

/-- `invoke`; it raises where the value type cannot be looked up in a set. -/
def invoke (args : Dict) : Option Dict :=
  match args.get "entries", args.get "by" with
  | .arr entries, .str key =>
    if key = "" then some (failure "missing_sort_field" (py.msg "ERR_ARG_MISSING" [("arg", "by")]))
    else
      match topOf args with
      | none => some (failure "invalid_top" (py.msg "ERR_ARG_NOT_INT" [("arg", "top")]))
      | some top =>
        if hashable (valueType args) = false then none
        else
          match valueType args with
          | .str "auto" => some (report py key (Json.truthy (args.get "desc")) false top entries)
          | .str "date" => some (report py key (Json.truthy (args.get "desc")) true top entries)
          | _ => some (failure "invalid_value_type" "value_type must be 'auto' or 'date'")
  | .arr _, _ => some (failure "missing_sort_field" (py.msg "ERR_ARG_MISSING" [("arg", "by")]))
  | _, _ => some (failure "entries_not_list" (py.msg "ERR_ARG_NOT_LIST" [("arg", "entries")]))

/-! ## The parts -/

section
variable {field : String} {entries : List Json} {desc : Bool} {x y : Json} {m n : Moment}

theorem mem_ranked {k : ℕ} {e : Json} :
    e ∈ ranked field k entries ↔ e ∈ entries ∧ rank field e = k := by
  rw [ranked, List.mem_filter, decide_eq_true_iff]

theorem rank_le_two (field : String) (e : Json) : rank field e ≤ 2 := by
  unfold rank
  split_ifs <;> omega

theorem rank_eq_zero : rank field x = 0 ↔ (dateKey field x).isSome = true := by
  unfold rank
  split_ifs with hdate hval
  · exact iff_of_true rfl hdate
  · exact iff_of_false id hdate
  · exact iff_of_false id hdate

theorem ranked_perm (field : String) (entries : List Json) :
    (ranked field 0 entries ++ ranked field 1 entries ++ ranked field 2 entries).Perm entries := by
  induction entries with
  | nil => exact List.Perm.refl []
  | cons e rest ih =>
    have hle := rank_le_two field e
    unfold ranked at ih ⊢
    obtain h | h | h : rank field e = 0 ∨ rank field e = 1 ∨ rank field e = 2 := by omega
    · simpa [List.filter_cons, h] using ih
    · simp only [List.filter_cons, h, decide_true, if_true, OfNat.one_ne_ofNat, one_ne_zero,
        decide_false, if_false, Bool.false_eq_true]
      exact (List.perm_middle.append_right _).trans (ih.cons e)
    · simp only [List.filter_cons, h, decide_true, if_true, OfNat.ofNat_ne_zero, decide_false,
        if_false, Bool.false_eq_true, OfNat.ofNat_ne_one]
      exact List.perm_middle.trans (ih.cons e)

theorem sortBy_perm {α : Type} (le : α → α → Bool) (desc : Bool) (l : List α) :
    (sortBy le desc l).Perm l := List.perm_insertionSort _ l

theorem byDate_perm (py : Lexicon) (field : String) (desc : Bool) (entries : List Json) :
    (byDate py field desc entries).Perm entries :=
  (((sortBy_perm _ desc _).append (sortBy_perm _ desc _)).append_right _).trans
    (ranked_perm field entries)

/-! ## Dates and their texts -/

theorem dateKey_text (h : dateKey field x = some m) :
    fromisoformat (withoutZulu (strip (valueText field x))) = some m := by
  unfold dateKey at h
  unfold valueText
  split at h
  · next s hs => simpa only [hs] using h
  · contradiction

theorem dateKey_inj (hm : dateKey field x = some m) (hn : dateKey field y = some n)
    (htext : valueText field x = valueText field y) : m = n := by
  have h := dateKey_text hm
  rw [htext, dateKey_text hn] at h
  exact (Option.some.inj h).symm

end

/-- Two dates of which the first has to come first. -/
def Before (desc : Bool) (m n : Moment) : Prop :=
  m.aware = n.aware ∧ if desc then n.instant < m.instant else m.instant < n.instant

/-- The entries have dates, and the first has to come first. -/
def DatedBefore (field : String) (desc : Bool) (x y : Json) : Prop :=
  ∃ m n, dateKey field x = some m ∧ dateKey field y = some n ∧ Before desc m n

/-- Of two dates that can be compared, the earlier has the smaller text. -/
def TextsOrderDates (field : String) (entries : List Json) : Prop :=
  ∀ x ∈ entries, ∀ y ∈ entries, ∀ m n, dateKey field x = some m → dateKey field y = some n →
    m.aware = n.aware → m.instant < n.instant → valueText field x < valueText field y

/-- A sort by date: nothing is lost, dates come before other values and these before missing ones,
and of two dates that can be compared the earlier comes first, or the later one. -/
structure Chronological (field : String) (desc : Bool) (entries sorted : List Json) : Prop where
  perm : sorted.Perm entries
  parts : sorted.Pairwise fun x y => rank field x ≤ rank field y
  order : sorted.Pairwise fun x y => ∀ m n, dateKey field x = some m → dateKey field y = some n →
    m.aware = n.aware → m.instant ≠ n.instant →
      if desc then n.instant < m.instant else m.instant < n.instant

section
variable {field : String} {entries : List Json} {desc : Bool} {x y : Json} {m n : Moment}

theorem not_datedBefore_iff :
    ¬ DatedBefore field desc y x ↔ ∀ m n, dateKey field x = some m → dateKey field y = some n →
      m.aware = n.aware → m.instant ≠ n.instant →
        if desc then n.instant < m.instant else m.instant < n.instant := by
  constructor
  · intro h m n hm hn haware hne
    have hno : ¬ Before desc n m := fun hb => h ⟨n, m, hn, hm, hb⟩
    unfold Before at hno
    cases desc
    · have : ¬ n.instant < m.instant := fun hlt => hno ⟨haware.symm, hlt⟩
      show m.instant < n.instant
      omega
    · have : ¬ m.instant < n.instant := fun hlt => hno ⟨haware.symm, hlt⟩
      show n.instant < m.instant
      omega
  · rintro h ⟨n, m, hn, hm, haware, hlt⟩
    cases desc
    · have hlt : n.instant < m.instant := hlt
      have : m.instant < n.instant := h m n hm hn haware.symm (by omega)
      omega
    · have hlt : m.instant < n.instant := hlt
      have : n.instant < m.instant := h m n hm hn haware.symm (by omega)
      omega

/-- The order of the texts, in the direction of the sort. -/
def textBefore (field : String) (desc : Bool) (x y : Json) : Prop :=
  (if desc then decide (valueText field y ≤ valueText field x)
    else decide (valueText field x ≤ valueText field y)) = true

instance : DecidableRel (textBefore field desc) := fun _ _ => inferInstanceAs (Decidable (_ = true))

theorem textBefore_iff : textBefore field desc x y ↔
    if desc then valueText field y ≤ valueText field x else valueText field x ≤ valueText field y := by
  unfold textBefore
  cases desc
  · exact decide_eq_true_iff
  · exact decide_eq_true_iff

theorem textBefore_total (x y : Json) : textBefore field desc x y ∨ textBefore field desc y x := by
  rw [textBefore_iff, textBefore_iff]
  cases desc
  · exact le_total _ _
  · exact le_total _ _

theorem textBefore_trans (x y z : Json) (hxy : textBefore field desc x y)
    (hyz : textBefore field desc y z) : textBefore field desc x z := by
  rw [textBefore_iff] at *
  cases desc
  · exact le_trans hxy hyz
  · exact le_trans hyz hxy

theorem separates (l : List Json) :
    Sorting.Separates (textBefore field desc) (DatedBefore field desc) l := by
  rintro x - y - hxy hyx ⟨m, n, hm, hn, -, hlt⟩
  rw [textBefore_iff] at hxy hyx
  have htext : valueText field x = valueText field y := by
    cases desc
    · exact le_antisymm hxy hyx
    · exact le_antisymm hyx hxy
  obtain rfl := dateKey_inj hm hn htext
  cases desc
  · exact lt_irrefl _ hlt
  · exact lt_irrefl _ hlt

theorem respects_iff : (∀ x ∈ ranked field 0 entries, ∀ y ∈ ranked field 0 entries,
    DatedBefore field desc x y → textBefore field desc x y) ↔ TextsOrderDates field entries := by
  have dated : ∀ x ∈ entries, ∀ m, dateKey field x = some m → x ∈ ranked field 0 entries :=
    fun x hx m hm => mem_ranked.mpr ⟨hx, rank_eq_zero.mpr (by rw [hm]; rfl)⟩
  constructor
  · intro h x hx y hy m n hm hn haware hlt
    have hne : valueText field x ≠ valueText field y := by
      intro htext
      obtain rfl := dateKey_inj hm hn htext
      exact lt_irrefl _ hlt
    refine lt_of_le_of_ne ?_ hne
    have hx' := dated x hx m hm
    have hy' := dated y hy n hn
    cases desc
    · exact textBefore_iff.mp (h x hx' y hy' ⟨m, n, hm, hn, haware, hlt⟩)
    · exact textBefore_iff.mp (h y hy' x hx' ⟨n, m, hn, hm, haware.symm, hlt⟩)
  · rintro h x hx y hy ⟨m, n, hm, hn, haware, hlt⟩
    have hx' := (mem_ranked.mp hx).1
    have hy' := (mem_ranked.mp hy).1
    rw [textBefore_iff]
    cases desc
    · exact (h x hx' y hy' m n hm hn haware hlt).le
    · exact (h y hy' x hx' n m hn hm haware.symm hlt).le

theorem byDate_eq (py : Lexicon) : ∃ dated unparsed missing : List Json,
    byDate py field desc entries = dated ++ unparsed ++ missing ∧
    dated = (ranked field 0 entries).insertionSort (textBefore field desc) ∧
    (∀ e ∈ dated, rank field e = 0) ∧ (∀ e ∈ unparsed, rank field e = 1) ∧
    ∀ e ∈ missing, rank field e = 2 := by
  refine ⟨_, _, _, rfl, rfl, ?_, ?_, ?_⟩
  · intro e he
    exact (mem_ranked.mp ((sortBy_perm _ desc _).mem_iff.mp he)).2
  · intro e he
    exact (mem_ranked.mp ((sortBy_perm _ desc _).mem_iff.mp he)).2
  · intro e he
    exact (mem_ranked.mp he).2

theorem pairwise_of_rank {R : Json → Json → Prop} {k : ℕ} {l : List Json}
    (hl : ∀ e ∈ l, rank field e = k)
    (hR : ∀ x y, rank field x = k → rank field y = k → R x y) : l.Pairwise R :=
  List.pairwise_of_forall_mem_list fun x hx y hy => hR x y (hl x hx) (hl y hy)

theorem byDate_chronological_iff (py : Lexicon) :
    Chronological field desc entries (byDate py field desc entries) ↔
      TextsOrderDates field entries := by
  have hperm := byDate_perm py field desc entries
  obtain ⟨dated, unparsed, missing, heq, rfl, hdated, hunparsed, hmissing⟩ :=
    @byDate_eq field entries desc py
  rw [heq] at hperm ⊢
  have hsort := Sorting.pairwise_insertionSort_iff textBefore_total textBefore_trans
    (@separates field desc (ranked field 0 entries))
  rw [respects_iff] at hsort
  constructor
  · intro h
    refine hsort.mp ((List.pairwise_append.mp (List.pairwise_append.mp h.order).1).1.imp ?_)
    intro x y hxy
    exact not_datedBefore_iff.mpr hxy
  · intro h
    have later : ∀ e, rank field e ≠ 0 → ∀ m, dateKey field e ≠ some m := by
      intro e he m hm
      exact he (rank_eq_zero.mpr (by rw [hm]; rfl))
    refine ⟨hperm, ?_, ?_⟩
    · refine List.pairwise_append.mpr ⟨List.pairwise_append.mpr
        ⟨pairwise_of_rank hdated fun x y hx hy => by omega,
          pairwise_of_rank hunparsed fun x y hx hy => by omega, ?_⟩,
        pairwise_of_rank hmissing fun x y hx hy => by omega, ?_⟩
      · intro x hx y hy
        have := hdated x hx
        omega
      · rintro x - y hy
        have := hmissing y hy
        have := rank_le_two field x
        omega
    · refine List.pairwise_append.mpr ⟨List.pairwise_append.mpr
        ⟨(hsort.mpr h).imp fun {x y} hxy => not_datedBefore_iff.mp hxy,
          pairwise_of_rank hunparsed fun x y hx _ m n hm => absurd hm (later x (by omega) m), ?_⟩,
        pairwise_of_rank hmissing fun x y hx _ m n hm => absurd hm (later x (by omega) m), ?_⟩
      · rintro x - y hy m n - hn
        have := hunparsed y hy
        exact absurd hn (later y (by omega) n)
      · rintro x - y hy m n - hn
        have := hmissing y hy
        exact absurd hn (later y (by omega) n)

end

/-! ## The answer -/

/-- A request to sort entries by date, all of them. -/
structure DateRequest (args : Dict) (entries : List Json) (key : String) : Prop where
  items : args.get "entries" = .arr entries
  field : args.get "by" = .str key
  named : key ≠ ""
  all : args.get "top" = .null
  date : args.get "value_type" = .str "date"

/-- The answer is a sort by date, on the field that it names. -/
def SortsByDate (py : Lexicon) (args : Dict) (entries : List Json) : Prop :=
  ∃ out sorted field, invoke py args = some out ∧ out.get "ok" = .bool true ∧
    out.get "entries" = .arr sorted ∧ out.get "sorted_by" = .str field ∧
    Chronological field (Json.truthy (args.get "desc")) entries sorted

section
variable {py : Lexicon} {args : Dict} {entries : List Json} {key : String}

theorem DateRequest.invoke (h : DateRequest args entries key) :
    invoke py args = some (report py key (Json.truthy (args.get "desc")) true none entries) := by
  have htype : valueType args = .str "date" := by
    unfold valueType
    rw [h.date, if_pos (show Json.truthy (.str "date") = true from rfl)]
  have htop : topOf args = some none := by
    unfold topOf
    rw [h.all]
  unfold SortEntries.invoke
  rw [h.items, h.field]
  dsimp only
  rw [if_neg h.named, htop]
  dsimp only
  rw [htype, if_neg (show ¬ hashable (.str "date") = false from Bool.noConfusion)]
  rfl

/-- Dates come in their order exactly if they come in the order of their texts. -/
theorem sortsByDate_iff (py : Lexicon) (h : DateRequest args entries key) :
    SortsByDate py args entries ↔ TextsOrderDates (sortField py key entries) entries := by
  rw [← @byDate_chronological_iff _ _ (Json.truthy (args.get "desc")) py]
  constructor
  · rintro ⟨out, sorted, field, hout, -, hentries, hfield, hchron⟩
    rw [h.invoke] at hout
    obtain rfl := Option.some.inj hout
    obtain rfl := Json.arr.inj hentries
    obtain rfl := Json.str.inj hfield
    exact hchron
  · intro hchron
    exact ⟨report py key (Json.truthy (args.get "desc")) true none entries, _, _, h.invoke, rfl, rfl,
      rfl, hchron⟩

end

/-! ## Offsets -/

def plain : Lexicon where
  casefold := id
  repr _ := []
  float _ := none
  msg name _ := name
  aliases := none
  setOrder := id

def onDate (text : String) : Json := .obj [("date", .str text)]

def dateArgs (entries : List Json) : Dict :=
  [("entries", .arr entries), ("by", .str "date"), ("value_type", .str "date")]

theorem dateRequest (entries : List Json) : DateRequest (dateArgs entries) entries "date" :=
  ⟨rfl, rfl, by decide, rfl, rfl⟩

/-- Two days, the later one given first. -/
theorem days_sorted : SortsByDate plain (dateArgs [onDate "2026-01-02", onDate "2026-01-01"])
    [onDate "2026-01-02", onDate "2026-01-01"] := by
  refine (sortsByDate_iff plain (dateRequest _)).mpr ?_
  have hlater : dateKey "date" (onDate "2026-01-02") = some ⟨63902995200000000, none⟩ := by
    decide +kernel
  have hearlier : dateKey "date" (onDate "2026-01-01") = some ⟨63902908800000000, none⟩ := by
    decide +kernel
  rintro x hx y hy m n hm hn - hlt
  replace hm : dateKey "date" x = some m := hm
  replace hn : dateKey "date" y = some n := hn
  obtain rfl | rfl : x = onDate "2026-01-02" ∨ x = onDate "2026-01-01" := by simpa using hx
  · obtain rfl | rfl : y = onDate "2026-01-02" ∨ y = onDate "2026-01-01" := by simpa using hy
    · obtain rfl := Option.some.inj (hm.symm.trans hn)
      exact absurd hlt (lt_irrefl _)
    · obtain rfl := Option.some.inj (hlater.symm.trans hm)
      obtain rfl := Option.some.inj (hearlier.symm.trans hn)
      exact absurd hlt (by decide)
  · obtain rfl | rfl : y = onDate "2026-01-02" ∨ y = onDate "2026-01-01" := by simpa using hy
    · show valueText "date" (onDate "2026-01-01") < valueText "date" (onDate "2026-01-02")
      decide +kernel
    · obtain rfl := Option.some.inj (hm.symm.trans hn)
      exact absurd hlt (lt_irrefl _)

/-- Ten o'clock east of Greenwich comes before eight o'clock there, its text comes after. -/
theorem eastern_date_sorted_late : ¬ ∀ (py : Lexicon) (args : Dict) (entries : List Json)
    (key : String), DateRequest args entries key → SortsByDate py args entries := by
  intro h
  let east := onDate "2026-01-01T10:00:00+05:00"
  let west := onDate "2026-01-01T08:00:00+00:00"
  obtain ⟨out, sorted, field, hout, -, hentries, hfield, hchron⟩ :=
    h plain _ _ _ (dateRequest [east, west])
  obtain rfl := Option.some.inj hout
  obtain rfl := Json.arr.inj hentries
  obtain rfl := Json.str.inj hfield
  have horder := (byDate_chronological_iff plain).mp hchron
  have heast : dateKey "date" east = some ⟨63902944800000000, some 18000000000⟩ := by
    decide +kernel
  have hwest : dateKey "date" west = some ⟨63902937600000000, some 0⟩ := by decide +kernel
  have htexts := horder east (List.mem_cons_self ..) west (List.mem_cons_of_mem _
    (List.mem_cons_self ..)) _ _ heast hwest rfl (by decide)
  exact absurd htexts (by decide +kernel)

/-! ## Any values -/

/-- Where a value stands: numbers before texts. -/
def place (py : Lexicon) : Json → Bool ×ₗ Place ×ₗ Text
  | .str s => toLex (true, toLex (⊥, s.toList))
  | v => toLex (false, toLex ((py.number v).getD ⊥, []))

/-- The order of a sort by any value, in its direction. -/
def inOrder (py : Lexicon) (field : String) (desc : Bool) (x y : Json) : Prop :=
  if desc then place py ((value field y).getD .null) ≤ place py ((value field x).getD .null)
  else place py ((value field x).getD .null) ≤ place py ((value field y).getD .null)

instance (py : Lexicon) (field : String) (desc : Bool) : DecidableRel (inOrder py field desc) :=
  fun _ _ => inferInstanceAs (Decidable (ite _ _ _))

/-- The float of every entry has a place: none is a `nan`. -/
def Comparable (py : Lexicon) (field : String) (entries : List Json) : Prop :=
  ∀ e ∈ entries, ∀ v, value field e = some v → isNumber v = true → (py.number v).isSome = true

/-- A request to sort entries by any value. -/
structure AutoRequest (args : Dict) (entries : List Json) (key : String) (top : Option ℤ) :
    Prop where
  items : args.get "entries" = .arr entries
  field : args.get "by" = .str key
  named : key ≠ ""
  top : topOf args = some top
  auto : valueType args = .str "auto"

section
variable {py : Lexicon} {args : Dict} {entries : List Json} {key field : String} {top : Option ℤ}
  {desc : Bool} {v w : Json}

theorem value_kind {e : Json} (h : value field e = some v) :
    isNumber v = true ∨ ∃ s, v = .str s := by
  unfold value at h
  split at h
  · split_ifs at h
    obtain rfl := Option.some.inj h
    exact .inr ⟨_, rfl⟩
  · split_ifs at h with number
    obtain rfl := Option.some.inj h
    exact .inl number
  · cases h

theorem place_of_number (hv : isNumber v = true) :
    place py v = toLex (false, toLex ((py.number v).getD ⊥, [])) := by
  cases v <;> first | rfl | cases hv

theorem keyLe_of_numbers (hv : isNumber v = true) (hw : isNumber w = true) : keyLe py v w =
    !((py.number v).any fun m => (py.number w).any fun n => decide (n < m)) := by
  cases v <;> cases w <;> first | rfl | (cases hv; done) | cases hw

theorem keyLe_iff (hv : isNumber v = true → (py.number v).isSome = true)
    (hw : isNumber w = true → (py.number w).isSome = true)
    (kv : isNumber v = true ∨ ∃ s, v = .str s) (kw : isNumber w = true ∨ ∃ s, w = .str s) :
    keyLe py v w = true ↔ place py v ≤ place py w := by
  rcases kv with nv | ⟨s, rfl⟩ <;> rcases kw with nw | ⟨t, rfl⟩
  · obtain ⟨m, hm⟩ := Option.isSome_iff_exists.mp (hv nv)
    obtain ⟨n, hn⟩ := Option.isSome_iff_exists.mp (hw nw)
    rw [keyLe_of_numbers nv nw, place_of_number nv, place_of_number nw, hm, hn]
    simp only [Prod.Lex.toLex_le_toLex]
    simp [le_iff_lt_or_eq]
  · have : keyLe py v (.str t) = true := by
      cases v <;> first | rfl | cases nv
    rw [place_of_number nv]
    simp [this, place, Prod.Lex.toLex_le_toLex]
  · have : keyLe py (.str s) w = false := by
      cases w <;> first | rfl | cases nw
    rw [place_of_number nw]
    simp [this, place, Prod.Lex.toLex_le_toLex]
  · simp only [place, Prod.Lex.toLex_le_toLex]
    simp [keyLe, le_iff_lt_or_eq]

theorem inOrder_total (x y : Json) : inOrder py field desc x y ∨ inOrder py field desc y x := by
  unfold inOrder
  cases desc
  · exact le_total _ _
  · exact le_total _ _

theorem inOrder_trans (x y z : Json) (hxy : inOrder py field desc x y)
    (hyz : inOrder py field desc y z) : inOrder py field desc x z := by
  unfold inOrder at *
  cases desc
  · exact le_trans hxy hyz
  · exact le_trans hyz hxy

theorem rank_eq_two {e : Json} : rank field e = 2 ↔ ¬ (value field e).isSome = true := by
  have dated : (dateKey field e).isSome = true → (value field e).isSome = true := by
    unfold dateKey
    intro h
    cases hv : value field e with
    | none =>
      rw [hv] at h
      cases h
    | some v => rfl
  unfold rank
  split_ifs with hdate hval
  · simp [dated hdate]
  · simp [hval]
  · simp [hval]

theorem AutoRequest.invoke (h : AutoRequest args entries key top) :
    invoke py args = some (report py key (Json.truthy (args.get "desc")) false top entries) := by
  unfold SortEntries.invoke
  rw [h.items, h.field]
  dsimp only
  rw [if_neg h.named, h.top]
  dsimp only
  rw [h.auto, if_neg (show ¬ hashable (.str "auto") = false from Bool.noConfusion)]
  rfl

/-- **Sorting by any value.**  The entries with a value come first, in the order of their values and
otherwise as they were, then the ones without, as they were; and `top` leaves the first ones. -/
theorem invoke_sorts (h : AutoRequest args entries key top)
    (comparable : Comparable py (sortField py key entries) entries) :
    ∃ out valued kept, invoke py args = some out ∧ out.get "ok" = .bool true ∧
      out.get "entries" = .arr kept ∧ out.get "sorted_by" = .str (sortField py key entries) ∧
      Sorting.Stable (inOrder py (sortField py key entries) (Json.truthy (args.get "desc")))
        (entries.filter fun e => (value (sortField py key entries) e).isSome) valued ∧
      let sorted := valued ++
        entries.filter fun e => !(value (sortField py key entries) e).isSome
      sorted.Perm entries ∧ (kept = sorted ∨
        ∃ k, top = some k ∧ 0 < k ∧ k < entries.length ∧ kept = sorted.take k.toNat) := by
  generalize hfield : sortField py key entries = field at *
  generalize hdesc : Json.truthy (args.get "desc") = desc
  have missing : ranked field 2 entries =
      entries.filter fun e => !(value field e).isSome := by
    refine List.filter_congr fun e _ => ?_
    have two := @rank_eq_two field e
    cases hv : (value field e).isSome
    · rw [decide_eq_true (two.mpr (by simp [hv]))]
      rfl
    · rw [decide_eq_false fun h => two.mp h hv]
      rfl
  have stable : Sorting.Stable (inOrder py field desc)
      (entries.filter fun e => (value field e).isSome)
      (sortBy (fun x y => keyLe py ((value field x).getD .null) ((value field y).getD .null)) desc
        (entries.filter fun e => (value field e).isSome)) := by
    refine Sorting.stable_insertionSort inOrder_total inOrder_trans fun x hx y hy => ?_
    rw [List.mem_filter] at hx hy
    obtain ⟨v, hv⟩ := Option.isSome_iff_exists.mp hx.2
    obtain ⟨w, hw⟩ := Option.isSome_iff_exists.mp hy.2
    have cv := comparable x hx.1 v hv
    have cw := comparable y hy.1 w hw
    unfold inOrder
    simp only [hv, hw, Option.getD_some]
    cases desc
    · exact keyLe_iff cv cw (value_kind hv) (value_kind hw)
    · exact keyLe_iff cw cv (value_kind hw) (value_kind hv)
  have sorted : byValue py field desc entries = _ ++ _ := congrArg (_ ++ ·) missing
  have perm := stable.perm.append_right (entries.filter fun e => !(value field e).isSome)
  have whole := perm.trans (List.filter_append_perm _ entries)
  refine ⟨report py key desc false top entries, _, _, hdesc ▸ h.invoke, rfl, rfl, ?_, stable, whole,
    ?_⟩
  · rw [← hfield]
    rfl
  · rw [← whole.length_eq, ← sorted, hfield]
    unfold truncate
    rw [if_neg Bool.false_ne_true]
    cases top with
    | none => exact .inl rfl
    | some k =>
      by_cases cut : 0 < k ∧ k < (byValue py field desc entries).length
      · refine .inr ⟨k, rfl, cut.1, cut.2, ?_⟩
        simp only [Option.bind_some, if_pos cut, Option.getD_some]
      · refine .inl ?_
        simp only [Option.bind_some, if_neg cut, Option.getD_none]

end

def ofSize (size : ℤ) : Json := .obj [("size", .int size)]

def largestArgs : Dict :=
  [("entries", .arr [ofSize 1, ofSize 2]), ("by", .str "size"), ("desc", .bool true),
    ("top", .int 1)]

theorem largest_sorted :
    ∃ out, invoke plain largestArgs = some out ∧ out.get "sorted_by" = .str "size" := by
  have field : sortField plain "size" [ofSize 1, ofSize 2] = "size" := by decide +kernel
  have request : AutoRequest largestArgs [ofSize 1, ofSize 2] "size" (some 1) :=
    ⟨rfl, rfl, by decide, rfl, rfl⟩
  obtain ⟨out, -, -, hout, -, -, hfield, -⟩ := @invoke_sorts plain _ _ _ _ request (by
    rw [field]
    intro e he v hv number
    obtain rfl | rfl : e = ofSize 1 ∨ e = ofSize 2 := by simpa using he
    · have found : value "size" (ofSize 1) = some (.int 1) := rfl
      obtain rfl := Option.some.inj (found.symm.trans hv)
      rfl
    · have found : value "size" (ofSize 2) = some (.int 2) := rfl
      obtain rfl := Option.some.inj (found.symm.trans hv)
      rfl)
  exact ⟨out, hout, field ▸ hfield⟩

end Metnos.Entries.SortEntries
