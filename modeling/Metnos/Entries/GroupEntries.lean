import Mathlib.Data.List.Dedup
import Mathlib.Data.List.Lex
import Mathlib.Data.List.Sort
import Metnos.Entries.Values

/-!
# Entries.GroupEntries — the options of `group_entries.py`

Every option has a default, and one that does not have the form it should is refused under a code of
its own.
-/

namespace Metnos.Entries.GroupEntries

open Dynamic
open Undo (Text isSpace strip)

/-- What grouping asks for besides. -/
structure Library extends Interpreter where
  /-- The integer that a float is equal to. -/
  whole : String → Option ℤ
  /-- `unicodedata.normalize("NFKD", text)` -/
  nfkd : Text → Text
  combining : Char → Bool

variable (py : Library)

/-- The options as they are used; names of domains are folded. -/
structure Options where
  dedupKeys : Option (List String)
  crossDomainKeys : Option (List String)
  domainField : String
  crossMatchFields : List String
  missingConflictFields : List String
  missingValueLabel : Text
  requiredFields : List (Text × List String)
  unmatchedConflictKeys : Option (List String)
  unmatchedConflictFields : List String
  matchField : Option String
  matchLabels : List (String × String)
  matchStateField : String
  cancellationStates : List Text
  reconcileWithin : List Text
  anchorField : Option String
  anchorEqualFields : List String
  anchorMatchFields : List String
  anchorWithin : List Text
  dropUnmatched : List Text
  coalesceSourceFacts : Bool
  sourceField : String
  typeField : String
  subjectTypes : List Text
  coalesceFields : List String
  mergeFields : List String
  conflictFields : List String
  conflictField : String

/-! ## Forms -/

/-- `args.get(key) or default` -/
def orDefault (args : Dict) (key : String) (fallback : Json) : Json :=
  if Json.truthy (args.get key) then args.get key else fallback

/-- `in (None, "", [])` -/
def isBlank : Json → Bool
  | .null | .str "" | .arr [] => true
  | _ => false

/-- A list of texts, each of them in the form it should have. -/
def textsWith (form : String → Bool) (v : Json) : Option (List String) :=
  (asList v).bind fun items => items.mapM fun x => (asStr x).bind fun s =>
    if form s then some s else none

def fieldNames (v : Json) : Option (List String) := textsWith (fun s => decide (s ≠ "")) v

def names (v : Json) : Option (List String) := textsWith (fun s => !(strip s.toList).isEmpty) v

/-- One field, or a list of fields that is not empty. -/
def keyFields : Json → Option (List String)
  | .str s => some [s]
  | .arr [] => none
  | v => fieldNames v

def optionalKey (v : Json) : Option (Option (List String)) :=
  if isBlank v then some none else (keyFields v).map some

/-- `dedup_key`, which is `"url"` where nothing is said and no key at all where it is empty. -/
def dedupKey (args : Dict) : Option (Option (List String)) :=
  let v := if args.has "dedup_key" then args.get "dedup_key" else .str "url"
  if isNull v || decide (asStr v = some "") || (isNumber v && !Json.truthy v) then some none
  else (keyFields v).map some

def optionalName : Json → Option (Option String)
  | .null => some none
  | .str s => if strip s.toList = [] then none else some (some s)
  | _ => none

def fieldName : Json → Option String
  | .str s => if s = "" then none else some s
  | _ => none

/-- The fields that a domain has to have. -/
def requiredBy (v : Json) : Option (List (String × List String)) :=
  (asDict v).bind fun fields => fields.mapM fun f =>
    if strip f.1.toList = [] then none else (fieldNames f.2).map fun l => (f.1, l)

def labelsOf (v : Json) : Option (List (String × String)) :=
  (asDict v).bind fun fields => fields.mapM fun f => (asStr f.2).bind fun s =>
    if f.1 = "" ∨ s = "" then none else some (f.1, s)

/-- `name.strip().casefold()` -/
def foldName (s : String) : Text := py.casefold (strip s.toList)

/-- `d[name] = fields` -/
def setName (l : List (Text × List String)) (name : Text) (fields : List String) :
    List (Text × List String) :=
  if l.any fun x => decide (x.1 = name) then l.map fun x => if x.1 = name then (name, fields) else x
  else l ++ [(name, fields)]

/-- The later of two entries under one name counts. -/
def byName (entries : List (String × List String)) : List (Text × List String) :=
  entries.foldl (fun l e => setName l (foldName py e.1) e.2) []

/-! ## The checks -/

/-- An option in its form, or what is said where it has not. -/
def check {α : Type} (v : Option α) (code error : String) : Except Dict α :=
  match v with
  | some a => .ok a
  | none => .error (failure code error)

def checkFields (args : Dict) (key : String) : Except Dict (List String) :=
  check (fieldNames (orDefault args key (.arr []))) (key ++ "_invalid")
    (key ++ " must be a list of field names")

def checkDomains (args : Dict) (key : String) : Except Dict (List Text) :=
  (check (names (orDefault args key (.arr []))) (key ++ "_invalid")
    (key ++ " must be a list of domains")).map fun l => l.map (foldName py)

def checkKey (args : Dict) (key : String) : Except Dict (Option (List String)) :=
  check (optionalKey (args.get key)) (key ++ "_invalid")
    (key ++ " must be a field name or non-empty list of field names")

def checkName (args : Dict) (key : String) : Except Dict (Option String) :=
  check (optionalName (args.get key)) (key ++ "_invalid") (key ++ " must be a non-empty field name")

/-- The checks on merging, which have messages of the catalogue. -/
def checkMerge (args : Dict) (key : String) : Except Dict (List String) :=
  check (fieldNames (orDefault args key (.arr []))) (key ++ "_not_list")
    (py.msg "ERR_ARG_NOT_LIST_OF" [("arg", key), ("of", "strings")])

/-- A state field and the states that stand for a cancellation. -/
def checkStates (args : Dict) : Except Dict (String × List Text) :=
  check ((fieldName (orDefault args "match_state_field" (.str "stato"))).bind fun field =>
      (names (orDefault args "cancellation_states" (.arr []))).map fun l =>
        (field, l.map (foldName py))) "match_state_invalid"
    "match_state_field must be a field name and cancellation_states a list of strings"

def checkCoalesce (args : Dict) : Except Dict (String × String) :=
  check ((fieldName (orDefault args "source_field" (.str "origine"))).bind fun source =>
      (fieldName (orDefault args "type_field" (.str "tipo"))).map fun type => (source, type))
    "coalesce_field_invalid" "source_field and type_field must be field names"

def checkSubjects (args : Dict) : Except Dict (List Text) :=
  (check (names (orDefault args "subject_types"
      (.arr (["progetto", "project", "impegno", "commitment"].map .str))))
    "subject_types_invalid" "subject_types must be a non-empty list of strings").map
      fun l => l.map (foldName py)

/-- An anchor comes with the fields that have to agree. -/
def checkAnchors (field : Option String) (equal matching : List String) : Except Dict Unit :=
  check (if field.isSome ∧ (equal = [] ∨ matching = []) then none else some ())
    "anchor_policy_incomplete"
    "anchor_field requires non-empty anchor_equal_fields and anchor_match_fields"

/-- The options but for the conflict field, checked one after the other. -/
def optionsWith (args : Dict) (conflictField : String) : Except Dict Options := do
  let dedupKeys ← check (dedupKey args) "dedup_key_invalid"
    "dedup_key must be a field name or list of names"
  let crossDomainKeys ← checkKey args "cross_domain_key"
  let unmatchedConflictKeys ← checkKey args "unmatched_conflict_key"
  let domainField ← check (fieldName (orDefault args "domain_field" (.str "dominio")))
    "domain_field_invalid" "domain_field must be a field name"
  let crossMatchFields ← checkFields args "cross_match_fields"
  let missingConflictFields ← checkFields args "missing_conflict_fields"
  let required ← check (requiredBy (orDefault args "required_fields_by_domain" (.obj [])))
    "required_fields_by_domain_invalid"
    "required_fields_by_domain must map domain names to lists of field names"
  let unmatchedConflictFields ← checkFields args "unmatched_conflict_fields"
  let matchField ← checkName args "match_field"
  let matchLabels ← check (labelsOf (orDefault args "match_labels" (.obj [])))
    "match_labels_invalid" "match_labels must be an object of string labels"
  let states ← checkStates py args
  let reconcileWithin ← checkDomains py args "reconcile_within_domains"
  let anchorField ← checkName args "anchor_field"
  let anchorEqualFields ← checkFields args "anchor_equal_fields"
  let anchorMatchFields ← checkFields args "anchor_match_fields"
  let anchorWithin ← checkDomains py args "anchor_within_domains"
  checkAnchors anchorField anchorEqualFields anchorMatchFields
  let dropUnmatched ← checkDomains py args "drop_unmatched_domains"
  let coalesce ← checkCoalesce args
  let subjectTypes ← checkSubjects py args
  let coalesceFields ← check (fieldNames (orDefault args "coalesce_fields"
      (.arr (["organizzazione", "importo", "scadenza", "decisione", "stato", "responsabile"].map
        .str)))) "coalesce_fields_invalid" "coalesce_fields must be a list of field names"
  let mergeFields ← checkMerge py args "merge_fields"
  let conflictFields ← checkMerge py args "conflict_fields"
  return {
    dedupKeys := dedupKeys
    crossDomainKeys := crossDomainKeys
    domainField := domainField
    crossMatchFields := crossMatchFields
    missingConflictFields := missingConflictFields
    missingValueLabel := py.str (orDefault args "missing_value_label" (.str "missing"))
    requiredFields := byName py required
    unmatchedConflictKeys := unmatchedConflictKeys
    unmatchedConflictFields := unmatchedConflictFields
    matchField := matchField
    matchLabels := matchLabels
    matchStateField := states.1
    cancellationStates := states.2
    reconcileWithin := reconcileWithin
    anchorField := anchorField
    anchorEqualFields := anchorEqualFields
    anchorMatchFields := anchorMatchFields
    anchorWithin := anchorWithin
    dropUnmatched := dropUnmatched
    coalesceSourceFacts := Json.truthy (args.get "coalesce_source_facts")
    sourceField := coalesce.1
    typeField := coalesce.2
    subjectTypes := subjectTypes
    coalesceFields := coalesceFields
    mergeFields := mergeFields
    conflictFields := conflictFields
    conflictField := conflictField }

/-- The options; a conflict field that is no text, which the manifest rules out, is not modelled. -/
def options (args : Dict) : Option (Except Dict Options) :=
  (asStr (orDefault args "conflict_field" (.str "conflitto"))).map (optionsWith py args)

end Metnos.Entries.GroupEntries

/-!
## Items that become records, one after the other

An item joins the record that its key leads to, or one of another domain that agrees with it, or one
that shares its anchors; otherwise it is a record of its own.  Three tables lead from keys and domains
to the places of the records.
-/

namespace Metnos.Entries.GroupEntries

open Dynamic
open Undo (Text isSpace strip)

variable (py : Library) (o : Options)

/-! ## Values -/

def parts : Json → List Json
  | .arr items => items
  | v => [v]

/-- `_values` -/
def values (v : Json) : List Text :=
  (((parts v).filter fun x => !isBlank x).map fun x => strip (py.str x)).filter fun t => !t.isEmpty

/-- `"; ".join(details)` -/
def joined (l : List Text) : Text := [';', ' '].intercalate l

/-- `text.split("; ")`, after what was read already. -/
def splitDetails : Text → Text → List Text
  | acc, [] => [acc]
  | acc, ';' :: ' ' :: rest => acc :: splitDetails [] rest
  | acc, c :: rest => splitDetails (acc ++ [c]) rest

/-- `_conflict_values` -/
def conflictValues (v : Json) : List Text :=
  ((parts v).filter fun x => !isBlank x).flatMap fun x =>
    ((splitDetails [] (py.str x)).map strip).filter fun t => !t.isEmpty

/-- The list with those of the others whose key it has not. -/
def addBy (key : Text → Text) (l others : List Text) : List Text :=
  others.foldl (fun acc t => if acc.any fun u => decide (key u = key t) then acc else acc ++ [t]) l

/-- `_merge_value` -/
def mergeValue (left right : Json) : Text :=
  joined (addBy py.casefold [] (values py left ++ values py right))

/-- A character of `[a-z0-9@.+_-]`. -/
def isToken (c : Char) : Bool :=
  c.isLower || c.isDigit || decide (c ∈ ['@', '.', '+', '_', '-'])

def runsOf (p : Char → Bool) (t : Text) : List Text :=
  (t.splitOnP fun c => !p c).filter fun w => !w.isEmpty

/-- `_text_key` -/
def textKey (t : Text) : Text :=
  [' '].intercalate (runsOf isToken ((py.nfkd (py.casefold t)).filter fun c => !py.combining c))

/-! ## Keys -/

/-- A part of a key: values that are equal have the same. -/
inductive KeyPart where
  | text (t : Text)
  | int (n : ℤ)
  | float (text : String)
deriving DecidableEq

abbrev Key := List KeyPart

/-- `_key_part` -/
def keyPart : Json → Option KeyPart
  | .str s => if s = "" ∨ py.casefold (strip s.toList) = [] then none
      else some (.text (py.casefold (strip s.toList)))
  | .float text => some ((py.whole text).elim (.float text) .int)
  | v => (asInt v).map .int

/-- `_lookup_key` -/
def lookupKey (item : Dict) (fields : Option (List String)) : Option Key :=
  fields.bind fun l => l.mapM fun f => keyPart py (item.get f)

/-- `_domains` -/
def domainsOf (item : Dict) : List Text :=
  (((parts (item.get o.domainField)).filter fun x => !isBlank x).flatMap fun x =>
    (((py.str x).splitOn ';').map fun t => py.casefold (strip t)).filter fun t => !t.isEmpty).dedup

def disjoint (s t : List Text) : Bool := s.all fun d => decide (d ∉ t)

/-! ## Candidates -/

/-- `1 << max(0, len(fields) - index - 1)` for each field. -/
def weighted (fields : List String) (score : String → ℕ) : ℕ :=
  (fields.zipIdx.map fun f => 2 ^ (fields.length - f.2 - 1) * score f.1).sum

/-- Both have the part, and it is the same. -/
def samePart (existing item : Dict) (field : String) : Bool :=
  decide (keyPart py (existing.get field) ≠ none ∧
    keyPart py (existing.get field) = keyPart py (item.get field))

/-- `_cross_match_score` -/
def crossMatchScore (existing item : Dict) : ℕ :=
  weighted o.crossMatchFields fun f => if samePart py existing item f then 1 else 0

/-- `_anchors` -/
def anchors (item : Dict) : List Text :=
  o.anchorField.elim [] fun f =>
    ((values py (item.get f)).map (textKey py)).filter fun t => !t.isEmpty

/-- `_field_similarity` -/
def fieldSimilarity (left right : Json) : ℕ :=
  let keys := fun v => (((values py v).map (textKey py)).filter fun t => !t.isEmpty).dedup
  let l := keys left
  let r := keys right
  if l = [] ∨ r = [] then 0
  else if disjoint l r = false then 4
  else
    let lt := (l.flatMap (runsOf fun c => decide (c ≠ ' '))).dedup
    let rt := (r.flatMap (runsOf fun c => decide (c ≠ ' '))).dedup
    let common := (lt.filter fun w => decide (w ∈ rt)).length
    if common = 0 then 0
    else if common = lt.length ∨ common = rt.length then 3
    else if min lt.length rt.length ≤ 2 * common then 2
    else 1

/-- `_anchor_match_score` -/
def anchorMatchScore (existing item : Dict) : ℕ :=
  weighted o.anchorMatchFields fun f => fieldSimilarity py (existing.get f) (item.get f)

/-- `_anchor_candidate` -/
def anchorCandidate (existing item : Dict) (existingDomains itemDomains : List Text) : Bool :=
  let shared := existingDomains.filter fun d => decide (d ∈ itemDomains)
  o.anchorField.isSome && !existingDomains.isEmpty && !itemDomains.isEmpty &&
    (shared.isEmpty || !disjoint shared o.anchorWithin) &&
    !disjoint (anchors py o existing) (anchors py o item) &&
    o.anchorEqualFields.all (samePart py existing item)

/-- The place with the best score, if the score is not zero and no other place has it. -/
def uniqueBest (scored : List (ℕ × ℕ)) : Option ℕ :=
  let best := (scored.map Prod.fst).foldl max 0
  match scored.filter fun s => decide (s.1 = best) with
  | [s] => if 0 < best then some s.2 else none
  | _ => none

/-! ## Merging -/

def mergeFieldsInto (existing item : Dict) : Dict :=
  o.mergeFields.foldl (fun e f =>
    let merged := mergeValue py (e.get f) (item.get f)
    if merged = [] then e else e.set f (.str (String.ofList merged))) existing

/-- The fields whose values are kept as evidence. -/
def evidenceFields : List String :=
  o.anchorField.elim [] fun a =>
    (a :: o.anchorMatchFields.filter fun f => decide (f.toList.head? = some '_')).dedup

def evidenceInto (existing item : Dict) : Dict :=
  (evidenceFields o).foldl (fun e f =>
    let found := addBy (textKey py) [] ((values py (e.get f) ++ values py (item.get f)).filter
      fun t => !(textKey py t).isEmpty)
    if found = [] then e else e.set f (.arr (found.map fun t => .str (String.ofList t)))) existing

/-- `f"{field}: {left} ↔ {right}"` -/
def detail (field : String) (left right : Text) : Text :=
  field.toList ++ ": ".toList ++ left ++ " ↔ ".toList ++ right

/-- The two have values, and not the same. -/
def differing (existing item : Dict) (field : String) : Option Text :=
  match values py (existing.get field), values py (item.get field) with
  | l :: ls, r :: rs =>
    let left := (l :: ls).map py.casefold
    let right := (r :: rs).map py.casefold
    if left.all (fun t => decide (t ∈ right)) ∧ right.all (fun t => decide (t ∈ left)) then none
    else some (detail field l r)
  | _, _ => none

def missingLabel : Text := '[' :: o.missingValueLabel ++ [']']

/-- One of the two has a value, and the other has none. -/
def lacking (existing item : Dict) (field : String) : Option Text :=
  match values py (existing.get field), values py (item.get field) with
  | l :: _, [] => some (detail field l (missingLabel o))
  | [], r :: _ => some (detail field (missingLabel o) r)
  | _, _ => none

/-- What the item says against the record. -/
def conflictsOf (existing item : Dict) : List Text :=
  o.conflictFields.filterMap (differing py existing item) ++
    o.missingConflictFields.filterMap (lacking py o existing item)

/-- The conflicts of a record, as they are written into it. -/
def note (e : Dict) (conflicts : List Text) : Dict :=
  if conflicts = [] then e
  else (e.set o.conflictField (.str (String.ofList (joined conflicts)))).set "_conflict_count"
    (.int conflicts.length)

/-- The record with details added to its conflicts, and how many of them are new. -/
def addConflicts (e : Dict) (details : List Text) : Dict × ℕ :=
  let known := conflictValues py (e.get o.conflictField)
  let conflicts := addBy py.casefold known details
  (note o e conflicts, conflicts.length - known.length)

def mergeInto (existing item : Dict) : Dict × ℕ :=
  let e := evidenceInto py o (mergeFieldsInto py o existing item) item
  addConflicts py o e (conflictsOf py o e item)

/-! ## The tables -/

/-- A record, and the domains that its items came from. -/
structure Row where
  record : Dict
  domains : List Text

structure Table where
  rows : List Row
  /-- The place of every exact key. -/
  seen : List (Key × ℕ)
  /-- The places of every key across domains. -/
  cross : List (Key × ℕ)
  totalIn : ℕ
  dedupes : ℕ
  conflicts : ℕ
  reconciled : ℕ

def Table.empty : Table := ⟨[], [], [], 0, 0, 0, 0⟩

/-- `domains_by_index.get(i, set()) or _domains(record)` -/
def Row.allDomains (r : Row) : List Text :=
  if r.domains = [] then domainsOf py o r.record else r.domains

/-- The place that the keys across domains lead to. -/
def crossPlace (t : Table) (item : Dict) : Option ℕ :=
  let domains := domainsOf py o item
  match lookupKey py item o.crossDomainKeys with
  | none => none
  | some key =>
    if domains = [] then none
    else
      let candidates := (t.cross.filter fun c => decide (c.1 = key)).filterMap fun c =>
        t.rows[c.2]?.bind fun r =>
          if disjoint r.domains domains ∨
              ((r.domains.filter fun d => decide (d ∈ domains)).any fun d =>
                decide (d ∈ o.reconcileWithin)) then some (c.2, r) else none
      match candidates with
      | [c] => some c.1
      | _ => uniqueBest (candidates.map fun c => (crossMatchScore py o c.2.record item, c.1))

def anchorPlace (t : Table) (item : Dict) : Option ℕ :=
  let domains := domainsOf py o item
  if o.anchorField.isNone ∨ domains = [] then none
  else uniqueBest ((t.rows.zipIdx.filter fun r =>
    anchorCandidate py o r.1.record item (r.1.allDomains py o) domains).map fun r =>
      (anchorMatchScore py o r.1.record item, r.2))

/-- The place of the record that the item belongs to. -/
def findPlace (t : Table) (item : Dict) : Option ℕ :=
  (((lookupKey py item o.dedupKeys).bind fun k => t.seen.lookup k).or
    (crossPlace py o t item)).or (anchorPlace py o t item)

def byAnchor (t : Table) (item : Dict) : Bool :=
  (((lookupKey py item o.dedupKeys).bind fun k => t.seen.lookup k).or
    (crossPlace py o t item)).isNone

/-- `seen.setdefault(key, place)` -/
def Table.remember (t : Table) (key : Option Key) (place : ℕ) : List (Key × ℕ) :=
  match key with
  | none => t.seen
  | some k => if (t.seen.lookup k).isSome then t.seen else t.seen ++ [(k, place)]

/-- The item joins the record at the place. -/
def Table.join (t : Table) (item : Dict) (place : ℕ) : Table :=
  { t with
    rows := t.rows.modify place fun r =>
      ⟨(mergeInto py o r.record item).1, (r.domains ++ domainsOf py o item).dedup⟩
    seen := t.remember (lookupKey py item o.dedupKeys) place
    dedupes := t.dedupes + 1
    conflicts := t.conflicts + (t.rows[place]?.elim 0 fun r => (mergeInto py o r.record item).2)
    reconciled := t.reconciled + if byAnchor py o t item then 1 else 0 }

def Table.start (t : Table) (item : Dict) : Table :=
  { t with
    rows := t.rows ++ [⟨item, domainsOf py o item⟩]
    seen := t.remember (lookupKey py item o.dedupKeys) t.rows.length
    cross := t.cross ++ ((lookupKey py item o.crossDomainKeys).map fun k => (k, t.rows.length)).toList }

def Table.keep (t : Table) (record : Dict) : Table := { t with rows := t.rows ++ [⟨record, []⟩] }

def Table.take (t : Table) (item : Json) : Table :=
  match asDict item with
  | none => t.keep [("value", item)]
  | some d =>
    if o.dedupKeys.isNone then t.keep d
    else
      match findPlace py o t d with
      | some place => t.join py o d place
      | none => t.start py o d

def Table.step (t : Table) (item : Json) : Table :=
  { t.take py o item with totalIn := t.totalIn + 1 }

end Metnos.Entries.GroupEntries

/-!
## `group_entries.py`

The items of all lists become records; then what they lack, what they say against each other and what
they match is written into them, and records of some domains alone are dropped.
-/

namespace Metnos.Entries.GroupEntries

open Dynamic
open Undo (Text isSpace strip)

variable (py : Library) (o : Options)

/-! ## Facts of a source -/

def sourceOf (item : Json) : Option Text :=
  (asDict item).bind fun d =>
    if isBlank (d.get o.sourceField) then none else some (py.str (d.get o.sourceField))

def isSubject (item : Json) : Bool :=
  (asDict item).any fun d =>
    let type := if Json.truthy (d.get o.typeField) then py.str (d.get o.typeField) else []
    decide (py.casefold (strip type) ∈ o.subjectTypes)

/-- The fields of a subject that are blank, where the others agree on one value. -/
def fillFrom (others : List Dict) (subject : Dict) : Dict × ℕ :=
  o.coalesceFields.foldl (fun s f =>
    if isBlank (s.1.get f) then
      match addBy py.casefold [] (others.flatMap fun d => values py (d.get f)) with
      | [v] => (s.1.set f (.str (String.ofList v)), s.2 + 1)
      | _ => s
    else s) (subject, 0)

/-- `_coalesce_unique_subject_facts`, of one item of the list. -/
def coalesceOne (sub : List Json) (item : Json) (place : ℕ) : Json × ℕ :=
  match sourceOf py o item with
  | none => (item, 0)
  | some source =>
    let peers := sub.zipIdx.filter fun x => decide (sourceOf py o x.1 = some source)
    match peers.filter fun x => isSubject py o x.1 with
    | [subject] =>
      if subject.2 = place then
        let filled := fillFrom py o
          ((peers.filter fun x => decide (x.2 ≠ place)).filterMap fun x => asDict x.1)
          ((asDict item).getD [])
        (.obj filled.1, filled.2)
      else (item, 0)
    | _ => (item, 0)

def coalesce (sub : List Json) : List (Json × ℕ) :=
  sub.zipIdx.map fun x => coalesceOne py o sub x.1 x.2

/-- The items of the lists, each with the number of facts that it was given. -/
def inputs (lists : List Json) : List (Json × ℕ) :=
  (lists.filterMap asList).flatMap fun sub =>
    if o.coalesceSourceFacts then coalesce py o sub else sub.map fun x => (x, 0)

def gather (items : List Json) : Table := items.foldl (Table.step py o) Table.empty

/-! ## Completeness -/

/-- `_append_conflict` -/
def appendConflict (e : Dict) (text : Text) : Dict × ℕ :=
  let known := conflictValues py (e.get o.conflictField)
  if known.any fun t => decide (py.casefold t = py.casefold text) then (e, 0)
  else (note o e (known ++ [text]), 1)

/-- The fields that records of the domains have to have, in their order. -/
def requiredOf (domains : List Text) : List String :=
  (((o.requiredFields.filter fun f => decide (f.1 ∈ domains)).flatMap Prod.snd).dedup).insertionSort
    fun s t => s.toList ≤ t.toList

def requireField (s : Dict × ℕ) (field : String) : Dict × ℕ :=
  if values py (s.1.get field) = [] then
    let noted := appendConflict py o s.1 (field.toList ++ ": ".toList ++ missingLabel o)
    (noted.1, s.2 + noted.2)
  else s

/-- The record with the fields noted that it lacks. -/
def requireAll (r : Row) : Row × ℕ :=
  let checked := (requiredOf o (r.allDomains py o)).foldl (requireField py o) (r.record, 0)
  (⟨checked.1, r.domains⟩, checked.2)

def completeness (t : Table) : Table :=
  if o.requiredFields = [] then t
  else { t with
    rows := t.rows.map fun r => (requireAll py o r).1
    conflicts := t.conflicts + (t.rows.map fun r => (requireAll py o r).2).sum }

/-! ## Unmatched pairs -/

def sameSet (s t : List Text) : Bool :=
  s.all (fun d => decide (d ∈ t)) && t.all fun d => decide (d ∈ s)

def email : List Text := ["email".toList]

def calendar : List Text := ["calendar".toList]

/-- The key under which a record of one of the two domains may have a counterpart. -/
def relatedKey (r : Row) : Option Key :=
  if sameSet (r.allDomains py o) email || sameSet (r.allDomains py o) calendar then
    lookupKey py r.record o.unmatchedConflictKeys
  else none

/-- The places of the records under each key, in the order of the first of them. -/
def buckets (rows : List Row) : List (List ℕ) :=
  let keyed := rows.zipIdx.filterMap fun r => (relatedKey py o r.1).map fun k => (k, r.2)
  ((keyed.map Prod.fst).reverse.dedup.reverse).map fun k =>
    (keyed.filter fun x => decide (x.1 = k)).map Prod.snd

/-- The places in the bucket of the records of a domain. -/
def placesOf (rows : List Row) (bucket : List ℕ) (domain : List Text) : List ℕ :=
  bucket.filter fun i => rows[i]?.any fun r => sameSet (r.allDomains py o) domain

/-- `(possibile divergenza, non unificati)` -/
def divergence (text : Text) : Text := text ++ " (possibile divergenza, non unificati)".toList

def noteAt (t : Table) (place : ℕ) (text : Text) : Table :=
  match t.rows[place]? with
  | none => t
  | some r =>
    { t with
      rows := t.rows.set place ⟨(appendConflict py o r.record text).1, r.domains⟩
      conflicts := t.conflicts + (appendConflict py o r.record text).2 }

/-- What a field of the two says is noted in both. -/
def compareField (left right : ℕ) (t : Table) (field : String) : Table :=
  match t.rows[left]?, t.rows[right]? with
  | some l, some r =>
    match differing py l.record r.record field with
    | none => t
    | some text => noteAt py o (noteAt py o t left (divergence text)) right (divergence text)
  | _, _ => t

def compareBucket (t : Table) (bucket : List ℕ) : Table :=
  match placesOf py o t.rows bucket email, placesOf py o t.rows bucket calendar with
  | [left], [right] => o.unmatchedConflictFields.foldl (compareField py o left right) t
  | _, _ => t

def unmatched (t : Table) : Table :=
  if o.unmatchedConflictKeys.isNone ∨ o.unmatchedConflictFields = [] then t
  else (buckets py o t.rows).foldl (compareBucket py o) t

/-! ## Labels -/

def defaultLabels : List (String × String) :=
  [("exact", "exact_match"), ("probable", "probable_match"), ("email_only", "email_only"),
    ("calendar_only", "calendar_only"), ("cancelled", "cancellation_without_event"),
    ("unmatched", "unmatched")]

def labelOf (key : String) : String :=
  ((o.matchLabels.lookup key).or (defaultLabels.lookup key)).getD key

/-- The state of the record speaks of a cancellation. -/
def cancelled (record : Dict) : Bool :=
  let states := py.casefold ([' '].intercalate (values py (record.get o.matchStateField)))
  o.cancellationStates.any fun t => decide (t <:+: states)

def matchLabel (r : Row) : String :=
  let domains := r.allDomains py o
  labelOf o <|
    if (email ++ calendar).all fun d => decide (d ∈ domains) then
      if Json.truthy (r.record.get o.conflictField) then "probable" else "exact"
    else if sameSet domains email then
      if cancelled py o r.record then "cancelled" else "email_only"
    else if sameSet domains calendar then "calendar_only"
    else "unmatched"

def labelled (t : Table) : Table :=
  match o.matchField with
  | none => t
  | some field =>
    { t with rows := t.rows.map fun r => ⟨r.record.set field (.str (matchLabel py o r)), r.domains⟩ }

def matchCounts (t : Table) : Dict :=
  match o.matchField with
  | none => []
  | some _ =>
    let labels := t.rows.map (matchLabel py o)
    labels.reverse.dedup.reverse.map fun l => (l, .int (labels.count l))

/-! ## Dropping -/

/-- The record names domains, and all of them are among those that are dropped. -/
def isDropped (r : Row) : Bool :=
  let domains := domainsOf py o r.record
  !domains.isEmpty && domains.all fun d => decide (d ∈ o.dropUnmatched)

def returned (t : Table) : List Row :=
  if o.dropUnmatched = [] then t.rows else t.rows.filter fun r => !isDropped py o r

/-! ## The executor -/

/-- What is said of the lists that are none. -/
def failedLists (lists : List Json) : List Dict :=
  (lists.zipIdx.filter fun l => (asList l.1).isNone).map fun l =>
    [("index", .int l.2), ("error_class", .str "invalid_input"),
      ("error_code", .str "entry_list_not_list"),
      ("error", .str (py.msg "ERR_ARG_NOT_LIST_OF"
        [("arg", "entries_lists[" ++ toString l.2 ++ "]"), ("of", "dicts")]))]

/-- The table after the items, and after each of the passes. -/
def checked (items : List Json) : Table := unmatched py o (completeness py o (gather py o items))

def final (items : List Json) : Table := labelled py o (checked py o items)

def report (lists : List Json) : Dict :=
  let given := inputs py o lists
  let t := final py o (given.map Prod.fst)
  let kept := returned py o t
  let failed := failedLists py lists
  [("ok", .bool (failed.isEmpty || !kept.isEmpty)), ("ok_count", .int kept.length),
    ("fail_count", .int failed.length), ("entries", .arr (kept.map fun r => .obj r.record)),
    ("total_in", .int t.totalIn), ("dedupes", .int t.dedupes), ("conflicts", .int t.conflicts),
    ("dropped_unmatched", .int (t.rows.length - kept.length : ℕ)),
    ("coalesced_source_facts", .int ((given.map Prod.snd).sum : ℕ)),
    ("anchor_reconciliations", .int t.reconciled),
    ("match_counts", .obj (matchCounts py o (checked py o (given.map Prod.fst)))),
    ("partial", .bool (!failed.isEmpty && !kept.isEmpty)),
    ("failed", .arr (failed.map .obj))]

/-- `entries_lists`, or the one list of `entries`. -/
def listsOf (args : Dict) : Json :=
  match args.get "entries_lists", args.get "entries" with
  | .null, .arr items => .arr [.arr items]
  | .null, _ => .arr []
  | v, _ => v

/-- `invoke`; nothing is said of a conflict field that is no text. -/
def invoke (args : Dict) : Option Dict :=
  match listsOf args with
  | .arr lists => (options py args).map fun
    | .ok o => report py o lists
    | .error refused => refused
  | _ => some (failure "entries_lists_not_list"
      (py.msg "ERR_ARG_NOT_LIST_OF" [("arg", "entries_lists"), ("of", "lists")]))

end Metnos.Entries.GroupEntries
