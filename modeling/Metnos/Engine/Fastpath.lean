import Metnos.Engine.Pipeline
import Metnos.Lib.Regex
import Metnos.Sanitizer.Digits

/-!
# Engine.Fastpath — which plans are recorded for later turns

`recordSuccess` keeps the plan of a turn for the turns to come, unless a literal of its arguments is
a date: a plan with a date would be replayed on another day.  The tables of the interpreter, the
texts that are stored beside the plan and the faults of the database are given from outside.
-/

namespace Metnos.Engine

open Dynamic Regex

/-- `NON_CACHEABLE_TOOLS` -/
def nonCacheableTools : List String :=
  ["undo_last_turn", "get_inputs", "get_approval", "open_sites", "login_sites", "read_sites",
    "delete_sites", "act_sites"]

structure Framework where
  steps : List StepSpec
  fillers : Json
  finalMessage : String

/-! ## Dates among the arguments -/

/-- `\d{4}-\d{2}-\d{2}` -/
def dateChars : List (Char → Bool) :=
  let d := Sanitizer.Pat.isDigit
  let dash := fun c => decide (c = '-')
  [d, d, d, d, dash, d, d, dash, d, d]

/-- `_ABS_TEMPORAL_RE`; a digit is a word character, so that a boundary beside it is one beside
something else.  `word` is the table of word characters. -/
def absTemporal (word : Char → Bool) : Pattern :=
  .seq (.notAfter word) (.seq (.group 0 (.chars dateChars)) (.notBefore word))

/-- `"${" in v` -/
def hasReference (text : List Char) : Bool := decide (['$', '{'] <:+: text)

/-- The dates that the pattern finds in a text. -/
def dates (word : Char → Bool) (text : List Char) : List (List Char) :=
  (segments (absTemporal word) text).filterMap fun
    | .left _ => none
    | .hit g => some (g.get 0)

section
variable (word : Char → Bool) (tool : String)

mutual

/-- `_scan`: the tool, the path of the argument and the date. -/
def scan (path : String) : Json → List (String × String × List Char)
  | .str v =>
    if hasReference v.toList then [] else (dates word v.toList).map fun date => (tool, path, date)
  | .arr items => scanItems path 0 items
  | .obj fields => scanFields path fields
  | .null | .bool _ | .int _ | .float _ => []

def scanItems (path : String) (index : ℕ) : List Json → List (String × String × List Char)
  | [] => []
  | v :: rest =>
    scan (path ++ "[" ++ toString index ++ "]") v ++ scanItems path (index + 1) rest

def scanFields (path : String) : List (String × Json) → List (String × String × List Char)
  | [] => []
  | (k, v) :: rest =>
    scan (if path = "" then k else path ++ "." ++ k) v ++ scanFields path rest

end

end

/-- `_absolute_temporal_literals` -/
def absoluteTemporalLiterals (word : Char → Bool) (framework : Framework) :
    List (String × String × List Char) :=
  framework.steps.flatMap fun step => scan word step.tool "args" (.obj step.args)

/-! ## The store -/

/-- A row of `fastpaths`. -/
structure Fastpath where
  id : ℕ
  canonicalText : String
  canonicalHash : String
  exactQuery : String
  embedding : Option (List UInt8)
  frameworkJson : String
  origin : String
  intentVerb : String
  intentObject : String
  querySpecific : Bool
  createdAt : String
  nUses : ℕ
  lastUsed : Option String
  toolsSig : String
  poolSig : String

/-- The rows and the number of the next one. -/
structure FastpathStore where
  rows : List Fastpath
  next : ℕ
  next_pos : 0 < next
  id_pos : ∀ r ∈ rows, 0 < r.id

/-- `ON CONFLICT(canonical_hash) DO UPDATE` -/
def Fastpath.refresh (excluded row : Fastpath) : Fastpath :=
  { row with
    frameworkJson := excluded.frameworkJson
    embedding := excluded.embedding.or row.embedding
    querySpecific := excluded.querySpecific
    intentVerb := excluded.intentVerb
    intentObject := excluded.intentObject
    toolsSig := excluded.toolsSig
    poolSig := excluded.poolSig
    exactQuery := excluded.exactQuery }

namespace FastpathStore

/-- A row with the hash is refreshed, or the row is inserted under the next number. -/
def upsert (store : FastpathStore) (row : Fastpath) : FastpathStore :=
  if store.rows.any fun r => r.canonicalHash = row.canonicalHash then
    { store with
      rows := store.rows.map fun r => if r.canonicalHash = row.canonicalHash then row.refresh r else r
      id_pos := by
        intro r hr
        obtain ⟨r', hr', rfl⟩ := List.mem_map.mp hr
        split_ifs
        · exact store.id_pos r' hr'
        · exact store.id_pos r' hr' }
  else
    { rows := store.rows ++ [{ row with id := store.next }]
      next := store.next + 1
      next_pos := Nat.succ_pos _
      id_pos := by
        intro r hr
        rcases List.mem_append.mp hr with hr | hr
        · exact store.id_pos r hr
        · obtain rfl := List.mem_singleton.mp hr
          exact store.next_pos }

/-- `SELECT id FROM fastpaths WHERE canonical_hash = ?`, or zero. -/
def idOf (store : FastpathStore) (hash : String) : ℕ :=
  ((store.rows.find? fun r => r.canonicalHash = hash).map Fastpath.id).getD 0

end FastpathStore

/-! ## `record_success` -/

/-- What stands beside the plan: the texts of the query, the plan as a text, the signatures (empty
where they failed), and the intent in lower case. -/
structure Surroundings where
  word : Char → Bool
  normalizeQuery : String → String
  normalizeHash : String → String
  embed : String → Option (List UInt8)
  frameworkJson : Framework → String
  isQuerySpecific : String → Bool
  toolsSig : Framework → String
  poolSig : Framework → String
  intentVerb : String
  intentObject : String
  now : String

/-- The database raises before the commit, or after it. -/
inductive Fault
  | write
  | read

section
variable (w : Surroundings) (query : String) (framework : Framework) (origin : String)

def newFastpath : Fastpath where
  id := 0
  canonicalText := w.normalizeQuery query
  canonicalHash := w.normalizeHash query
  exactQuery := query
  embedding := w.embed query
  frameworkJson := w.frameworkJson framework
  origin := origin
  intentVerb := w.intentVerb
  intentObject := w.intentObject
  querySpecific := w.isQuerySpecific (w.frameworkJson framework)
  createdAt := w.now
  nUses := 0
  lastUsed := none
  toolsSig := w.toolsSig framework
  poolSig := w.poolSig framework

def execSteps : List String :=
  (framework.steps.map StepSpec.tool).filter fun tool => tool ≠ "" && tool ≠ "final_answer"

def recordSuccess (fault : Option Fault) (store : FastpathStore) : ℕ × FastpathStore :=
  if !nonBlank query then (0, store)
  else if (execSteps framework).isEmpty then (0, store)
  else if (execSteps framework).any fun tool => tool ∈ nonCacheableTools then (0, store)
  else if !(absoluteTemporalLiterals w.word framework).isEmpty then (0, store)
  else
    let stored := store.upsert (newFastpath w query framework origin)
    match fault with
    | some .write => (0, store)
    | some .read => (0, stored)
    | none => (stored.idOf (w.normalizeHash query), stored)

end

/-! ## The texts of a plan -/

mutual

/-- The strings at every depth; keys are none of them. -/
def texts : Json → List String
  | .str v => [v]
  | .arr items => textsOfItems items
  | .obj fields => textsOfFields fields
  | .null | .bool _ | .int _ | .float _ => []

def textsOfItems : List Json → List String
  | [] => []
  | v :: rest => texts v ++ textsOfItems rest

def textsOfFields : List (String × Json) → List String
  | [] => []
  | (_, v) :: rest => texts v ++ textsOfFields rest

end

def Framework.texts (framework : Framework) : List String :=
  framework.steps.flatMap fun step => Engine.texts (.obj step.args)

section
variable {word : Char → Bool} {tool : String}

/-- The text stops no record: it has a reference, or no date is found in it. -/
def Undated (word : Char → Bool) (s : String) : Prop :=
  hasReference s.toList = true ∨ dates word s.toList = []

mutual

theorem scan_eq_nil : ∀ {path : String} {v : Json},
    scan word tool path v = [] ↔ ∀ s ∈ texts v, Undated word s
  | path, .str v => by
    rw [scan, texts, List.forall_mem_singleton]
    unfold Undated
    split_ifs with href
    · simp [href]
    · simp [href]
  | path, .arr items => by
    rw [scan, texts]
    exact scanItems_eq_nil
  | path, .obj fields => by
    rw [scan, texts]
    exact scanFields_eq_nil
  | path, .null => by simp [scan, texts]
  | path, .bool _ => by simp [scan, texts]
  | path, .int _ => by simp [scan, texts]
  | path, .float _ => by simp [scan, texts]

theorem scanItems_eq_nil : ∀ {path : String} {index : ℕ} {items : List Json},
    scanItems word tool path index items = [] ↔ ∀ s ∈ textsOfItems items, Undated word s
  | path, index, [] => by simp [scanItems, textsOfItems]
  | path, index, v :: rest => by
    rw [scanItems, textsOfItems, List.append_eq_nil_iff, List.forall_mem_append, scan_eq_nil,
      scanItems_eq_nil]

theorem scanFields_eq_nil : ∀ {path : String} {fields : List (String × Json)},
    scanFields word tool path fields = [] ↔ ∀ s ∈ textsOfFields fields, Undated word s
  | path, [] => by simp [scanFields, textsOfFields]
  | path, (k, v) :: rest => by
    rw [scanFields, textsOfFields, List.append_eq_nil_iff, List.forall_mem_append, scan_eq_nil,
      scanFields_eq_nil]

end

theorem absoluteTemporalLiterals_eq_nil {framework : Framework} :
    absoluteTemporalLiterals word framework = [] ↔ ∀ s ∈ framework.texts, Undated word s := by
  unfold absoluteTemporalLiterals Framework.texts
  rw [List.flatMap_eq_nil_iff, List.forall_mem_flatMap]
  exact forall₂_congr fun step _ => scan_eq_nil

/-! ## Where a date is found -/

/-- A date between characters that belong to no word. -/
def Delimited (word : Char → Bool) (text : List Char) : Prop :=
  ∃ before date after, text = before ++ (date ++ after) ∧
    List.Forall₂ (fun p c => p c = true) dateChars date ∧
    (∀ c ∈ before.getLast?, word c = false) ∧ ∀ c ∈ after.head?, word c = false

theorem mem_absTemporal {prev : Option Char} {rest : List Char} {t : At}
    (h : t ∈ Regex.run (absTemporal word) ⟨prev, rest, []⟩) :
    ∃ date, List.Forall₂ (fun p c => p c = true) dateChars date ∧ rest = date ++ t.rest ∧
      (∀ c ∈ prev, word c = false) ∧ ∀ c ∈ t.rest.head?, word c = false := by
  obtain ⟨u, hu, h⟩ := mem_seq.mp h
  obtain ⟨hprev, rfl⟩ := mem_notAfter.mp hu
  obtain ⟨v, hv, h⟩ := mem_seq.mp h
  obtain ⟨hnext, rfl⟩ := mem_notBefore.mp h
  obtain ⟨x, hx, rfl⟩ := mem_group.mp hv
  obtain ⟨date, hdate, hrest, -⟩ := mem_chars.mp hx
  exact ⟨date, hdate, hrest, hprev, hnext⟩

theorem exists_mem_absTemporal {prev : Option Char} {date after : List Char}
    (hdate : List.Forall₂ (fun p c => p c = true) dateChars date)
    (hprev : ∀ c ∈ prev, word c = false) (hnext : ∀ c ∈ after.head?, word c = false) :
    ∃ t, t ∈ Regex.run (absTemporal word) ⟨prev, date ++ after, []⟩ := by
  refine ⟨_, mem_seq.mpr ⟨_, mem_notAfter.mpr ⟨hprev, rfl⟩, mem_seq.mpr ⟨_, mem_group.mpr
    ⟨⟨date.getLast?.or prev, after, []⟩, mem_chars.mpr ⟨date, hdate, rfl, rfl⟩, rfl⟩,
    mem_notBefore.mpr ⟨hnext, rfl⟩⟩⟩⟩

theorem length_of_date {date : List Char}
    (hdate : List.Forall₂ (fun p c => p c = true) dateChars date) : date.length = 10 :=
  hdate.length_eq.symm

theorem dates_ne_nil_iff {text : List Char} : dates word text ≠ [] ↔ Delimited word text := by
  have hhit : dates word text ≠ [] ↔ ∃ g, .hit g ∈ segments (absTemporal word) text := by
    unfold dates
    rw [Ne, List.filterMap_eq_nil_iff]
    simp only [not_forall]
    constructor
    · rintro ⟨segment, hmem, hsome⟩
      cases segment with
      | left c => exact absurd rfl hsome
      | hit g => exact ⟨g, hmem⟩
    · rintro ⟨g, hmem⟩
      exact ⟨.hit g, hmem, nofun⟩
  rw [hhit, exists_hit_iff]
  constructor
  · rintro ⟨before, rest, t, rfl, hmatch, -⟩
    obtain ⟨date, hdate, rfl, hprev, hnext⟩ := mem_absTemporal (matchAt_mem hmatch)
    exact ⟨before, date, t.rest, rfl, hdate, hprev, hnext⟩
  · rintro ⟨before, date, after, rfl, hdate, hprev, hnext⟩
    obtain ⟨t', ht'⟩ := exists_mem_absTemporal hdate hprev hnext
    obtain ⟨t, ht⟩ : ∃ t, matchAt (absTemporal word) before.getLast? (date ++ after) = some t :=
      Option.isSome_iff_exists.mp (List.isSome_head?.mpr (List.ne_nil_of_mem ht'))
    refine ⟨before, date ++ after, t, rfl, ht, ?_⟩
    obtain ⟨read, hread, hrest, -⟩ := mem_absTemporal (matchAt_mem ht)
    have hlen := length_of_date hread
    rw [hrest, List.length_append]
    omega

end

/-! ## What is recorded -/

section
variable {w : Surroundings} {query : String} {framework : Framework} {origin : String}
  {store : FastpathStore} {row : Fastpath}

/-- The rows of the hash are there, and they are what a refresh makes of them. -/
def UpToDate (store : FastpathStore) (row : Fastpath) : Prop :=
  (∃ r ∈ store.rows, r.canonicalHash = row.canonicalHash) ∧
    ∀ r ∈ store.rows, r.canonicalHash = row.canonicalHash → row.refresh r = r

theorem store_ext {s t : FastpathStore} (hrows : s.rows = t.rows) (hnext : s.next = t.next) :
    s = t := by
  cases s
  cases t
  cases hrows
  cases hnext
  rfl

theorem map_eq_self_iff {rows : List Fastpath} {f : Fastpath → Fastpath} :
    rows.map f = rows ↔ ∀ r ∈ rows, f r = r := by
  conv_lhs => rhs; rw [← List.map_id rows]
  exact List.map_inj_left

theorem upsert_eq_self_iff : store.upsert row = store ↔ UpToDate store row := by
  unfold FastpathStore.upsert UpToDate
  by_cases hany : (store.rows.any fun r => r.canonicalHash = row.canonicalHash) = true
  · rw [if_pos hany]
    have hexists : ∃ r ∈ store.rows, r.canonicalHash = row.canonicalHash := by
      simpa using hany
    constructor
    · intro heq
      refine ⟨hexists, fun r hr hhash => ?_⟩
      have hrows : (store.rows.map fun r =>
          if r.canonicalHash = row.canonicalHash then row.refresh r else r) = store.rows :=
        congrArg FastpathStore.rows heq
      have hfixed := map_eq_self_iff.mp hrows r hr
      rwa [if_pos hhash] at hfixed
    · rintro ⟨-, hfixed⟩
      refine store_ext (map_eq_self_iff.mpr fun r hr => ?_) rfl
      split_ifs with hhash
      · exact hfixed r hr hhash
      · rfl
  · rw [if_neg hany]
    constructor
    · intro heq
      have hnext : store.next + 1 = store.next := congrArg FastpathStore.next heq
      omega
    · rintro ⟨⟨r, hr, hhash⟩, -⟩
      exact absurd (List.any_eq_true.mpr ⟨r, hr, decide_eq_true hhash⟩) hany

theorem exists_hash_upsert :
    ∃ r ∈ (store.upsert row).rows, r.canonicalHash = row.canonicalHash := by
  unfold FastpathStore.upsert
  split_ifs with hany
  · obtain ⟨r, hr, hhash⟩ := List.any_eq_true.mp hany
    have hhash' : r.canonicalHash = row.canonicalHash := of_decide_eq_true hhash
    refine ⟨row.refresh r, List.mem_map.mpr ⟨r, hr, if_pos hhash'⟩, hhash'⟩
  · exact ⟨_, List.mem_append_right _ (List.mem_singleton_self _), rfl⟩

theorem idOf_upsert_pos : 0 < (store.upsert row).idOf row.canonicalHash := by
  have written : ∃ r ∈ (store.upsert row).rows, r.canonicalHash = row.canonicalHash :=
    exists_hash_upsert
  obtain ⟨r, hr, hhash⟩ := written
  unfold FastpathStore.idOf
  cases hfind : (store.upsert row).rows.find? fun r => r.canonicalHash = row.canonicalHash with
  | none =>
    rw [List.find?_eq_none] at hfind
    exact absurd (decide_eq_true hhash) (hfind r hr)
  | some found => exact (store.upsert row).id_pos found (List.mem_of_find?_eq_some hfind)

/-- Nothing is recorded exactly if there is nothing to record, a tool forbids it, a date stands alone
in a text without references, or the database fails before it changed anything. -/
theorem record_skips_iff (w : Surroundings) (query : String) (framework : Framework)
    (origin : String) (fault : Option Fault) (store : FastpathStore) :
    recordSuccess w query framework origin fault store = (0, store) ↔
      nonBlank query = false ∨ execSteps framework = [] ∨
      (∃ tool ∈ execSteps framework, tool ∈ nonCacheableTools) ∨
      (∃ s ∈ framework.texts, hasReference s.toList = false ∧ Delimited w.word s.toList) ∨
      fault = some .write ∨
      fault = some .read ∧ UpToDate store (newFastpath w query framework origin) := by
  have hdated : (absoluteTemporalLiterals w.word framework).isEmpty = false ↔
      ∃ s ∈ framework.texts, hasReference s.toList = false ∧ Delimited w.word s.toList := by
    rw [← Bool.not_eq_true, List.isEmpty_iff, absoluteTemporalLiterals_eq_nil]
    simp only [not_forall, Undated, not_or, ← dates_ne_nil_iff, Bool.not_eq_true, exists_prop, ne_eq]
  unfold recordSuccess
  by_cases hquery : nonBlank query = true
  swap
  · simp [hquery]
  by_cases hexec : execSteps framework = []
  · simp [hexec]
  by_cases htool : ∃ tool ∈ execSteps framework, tool ∈ nonCacheableTools
  · simp [htool]
  by_cases hdate : ∃ s ∈ framework.texts, hasReference s.toList = false ∧ Delimited w.word s.toList
  · simp [hdated.mpr hdate, hdate]
  have hnone : (absoluteTemporalLiterals w.word framework).isEmpty = true := by
    rw [← hdated, Bool.not_eq_false] at hdate
    exact hdate
  rw [if_neg (by simpa using hquery), if_neg (by simpa using hexec), if_neg (by simpa using htool),
    if_neg (by simpa using hnone)]
  simp only [hquery, hexec, htool, hdate, Bool.true_eq_false, false_or]
  cases fault with
  | some fault =>
    cases fault with
    | write => simp
    | read => simp [upsert_eq_self_iff]
  | none =>
    simp only [reduceCtorEq, false_and, or_self, iff_false]
    intro heq
    have hpos : 0 < (store.upsert (newFastpath w query framework origin)).idOf
        (w.normalizeHash query) := idOf_upsert_pos
    rw [(Prod.mk.inj heq).1] at hpos
    exact absurd hpos (Nat.lt_irrefl 0)

end

/-! ## A date with a time -/

/-- The digits of a number, with zeros before them up to the width. -/
def asciiDigits (n width : ℕ) : List Char :=
  let digits := Nat.toDigits 10 n
  List.replicate (width - digits.length) '0' ++ digits

def daysIn (year month : ℕ) : ℕ :=
  if month = 2 then
    if year % 4 = 0 ∧ (year % 100 ≠ 0 ∨ year % 400 = 0) then 29 else 28
  else if month ∈ [4, 6, 9, 11] then 30
  else 31

def calendarDate (year month day : ℕ) : List Char :=
  asciiDigits year 4 ++ '-' :: asciiDigits month 2 ++ '-' :: asciiDigits day 2

def clockTime (hour minute : ℕ) : List Char :=
  'T' :: asciiDigits hour 2 ++ ':' :: asciiDigits minute 2

/-- The text is a date of the calendar, alone or followed by a time. -/
def IsMoment (text : List Char) : Prop :=
  ∃ year month day, 1 ≤ year ∧ year ≤ 9999 ∧ 1 ≤ month ∧ month ≤ 12 ∧ 1 ≤ day ∧
    day ≤ daysIn year month ∧ (text = calendarDate year month day ∨ ∃ hour minute, hour ≤ 23 ∧ minute ≤ 59 ∧
      text = calendarDate year month day ++ clockTime hour minute)

/-- The text has such a moment, and no reference is open before it. -/
def HasMoment (text : List Char) : Prop :=
  ∃ before moment after, text = before ++ (moment ++ after) ∧ IsMoment moment ∧
    ∀ a b, before = a ++ '$' :: '{' :: b → '}' ∈ b

/-- The letters, digits and the underscore of ASCII are word characters; nothing is embedded. -/
def asciiSurroundings : Surroundings where
  word := fun c => c.isAlphanum || c = '_'
  normalizeQuery := id
  normalizeHash := id
  embed := fun _ => none
  frameworkJson := fun _ => ""
  isQuerySpecific := fun _ => false
  toolsSig := fun _ => ""
  poolSig := fun _ => ""
  intentVerb := "get"
  intentObject := "events"
  now := ""

def eventsFrom (start : String) : Framework :=
  ⟨[⟨"get_events", [("start", .str start)], false⟩], .obj [], ""⟩

def emptyStore : FastpathStore := ⟨[], 1, Nat.one_pos, nofun⟩

/-- An argument that is a date with a time is recorded. -/
theorem moment_is_recorded :
    ¬ ∀ (w : Surroundings) (query : String) (framework : Framework) (origin : String)
      (fault : Option Fault) (store : FastpathStore),
      (∃ s ∈ framework.texts, HasMoment s.toList) →
        recordSuccess w query framework origin fault store = (0, store) := by
  intro all
  have moment : ∃ s ∈ (eventsFrom "2026-06-15T10:00").texts, HasMoment s.toList := by
    refine ⟨"2026-06-15T10:00", List.mem_singleton_self _, [], "2026-06-15T10:00".toList, [],
      by simp, ⟨2026, 6, 15, by decide, by decide, by decide, by decide, by decide, by decide,
        .inr ⟨10, 0, by decide⟩⟩, ?_⟩
    intro a b hnil
    simp at hnil
  have skipped := all asciiSurroundings "events of Monday" (eventsFrom "2026-06-15T10:00") "auto"
    none emptyStore moment
  have recorded : (recordSuccess asciiSurroundings "events of Monday"
      (eventsFrom "2026-06-15T10:00") "auto" none emptyStore).1 = 1 := by decide +kernel
  rw [skipped] at recorded
  exact absurd recorded (by decide)

end Metnos.Engine
