import Metnos.Lib.Dynamic
import Metnos.Lib.Transaction
import Metnos.Undo.Selection

/-!
# Engine.Projection — the entries of a producer become the arguments of its consumer

`projectFromEntries` gives the arguments of the consumer and the argument that takes the vector, or
nothing where the interpreter raises.  Five sources write into the arguments, each with a rule of
its own on what is there already: the metadata of the result, the vector, the entries themselves,
the limits of the producer, and the scalars that all entries share.
-/

namespace Metnos.Engine

open Dynamic Undo

/-- What the engine asks of the interpreter: `str.casefold`, `str` of a value, the integer that a
float is equal to, `str.isdigit`, and `int` of what is no integer, where it gives one. -/
structure Interpreter where
  casefold : String → String
  str : Json → String
  whole : String → Option ℤ
  isdigit : String → Bool
  int : Json → Option ℤ

/-- `CONTEXT_ERRORS_KEY` -/
def contextErrorsKey : String := "_from_step_context_errors"

/-- `_SCALAR_TYPES` -/
def scalarTypes : List String := ["string", "integer", "number", "boolean"]

/-- `SOURCE_METADATA_FIELDS` -/
def sourceMetadataFields : List String :=
  ["partial", "collection_partial", "truncated", "used", "available_total", "truncated_what",
    "cap_field", "cap_value", "truncations", "partial_reason"]

/-! ## Manifests -/

/-- `_properties` -/
def properties (schema : Json) : Dict :=
  ((asDict schema).bind fun s => asDict (s.get "properties")).getD []

/-- `_is_array_property` -/
def isArrayProperty (spec : Json) : Bool :=
  (asDict spec).any fun s =>
    match s.get "type" with
    | .arr items => items.any fun v => asStr v = some "array"
    | v => asStr v = some "array"

/-- `_is_scalar_property`; a type that is an object cannot be looked up. -/
def isScalarProperty (spec : Json) : Option Bool :=
  match asDict spec with
  | none => some false
  | some s =>
    match s.get "type" with
    | .arr items =>
      let values := items.filterMap asStr
      some (!values.isEmpty && values.all fun v => v ∈ scalarTypes || v = "null")
    | .obj _ => none
    | v => some ((asStr v).any fun v => v ∈ scalarTypes)

def nonBlank (s : String) : Bool := !(strip s.toList).isEmpty

/-- `_is_provided` -/
def isProvided : Json → Bool
  | .null => false
  | .str s => nonBlank s
  | .arr items => !items.isEmpty
  | .obj fields => !fields.isEmpty
  | .bool _ | .int _ | .float _ => true

/-- `_effective_arg_value` -/
def effectiveArgValue (args props : Dict) (argName : String) : Json :=
  if !isNull (args.get argName) then args.get argName
  else ((asDict (props.get argName)).map fun s => s.get "default").getD .null

/-- `_context_requirement_applies` -/
def contextRequirementApplies (interp : Interpreter) (requirement : Json) (args props : Dict) :
    Bool :=
  isTrue requirement || (asDict requirement).any fun r =>
    (asStr (r.get "arg")).any fun selector =>
      nonBlank selector &&
        match r.get "values" with
        | .arr values => values.any fun v => eq interp.whole (effectiveArgValue args props selector) v
        | _ => isTrue (r.get "nonempty") && isProvided (effectiveArgValue args props selector)

/-! ## `consumer_match_arg` -/

/-- The property is declared, and not as an array: it takes no vector. -/
def declaredOtherwise (spec : Json) : Bool :=
  ((asDict spec).any fun s => (s.get "type").truthy) && !isArrayProperty spec

/-- The name without a final `s`. -/
def singular (argName : String) : String :=
  if argName.toList.getLast? = some 's' ∧ 1 < argName.toList.length then
    String.ofList argName.toList.dropLast
  else argName

def required (schema : Json) : List Json :=
  ((asDict schema).bind fun s => asList (s.get "required")).getD []

/-- The search for no entries; a name that is no string is no property, and one that is a list or an
object cannot be looked up. -/
def firstRequired (props : Dict) : List Json → Option Json
  | [] => some .null
  | name :: rest =>
    if !hashable name then none
    else match asStr name with
      | none => some name
      | some argName =>
        if argName ∈ ["entries", "from_step"] || declaredOtherwise (props.get argName) then
          firstRequired props rest
        else some name

/-- The rank of a property that can take the vector. -/
def candidate (required : List Json) (sampleKeys : List String) (f : String × Json) :
    Option (ℤ × String) :=
  if f.1 ∈ ["entries", "from_step"] || declaredOtherwise f.2 then none
  else
    let rank : ℤ := if required.any fun v => asStr v = some f.1 then 0 else 1
    let declared := (asDict f.2).any fun s => (asStr (s.get "from_entries_key")).any fun key =>
      key ∈ sampleKeys || isTrue (s.get "from_entries_complete")
    if declared then some (rank - 1, f.1)
    else if singular f.1 ∈ sampleKeys then some (rank, f.1)
    else none

def consumerMatchArg (schema : Json) (entries : List Json) : Option Json :=
  let props := properties schema
  if props.isEmpty then some .null
  else match entries with
    | [] => firstRequired props (required schema)
    | first :: _ =>
      match asDict first with
      | none => some .null
      | some sample =>
        let candidates := props.filterMap (candidate (required schema) (sample.map Prod.fst))
        let sorted := candidates.insertionSort fun a b => a.1 < b.1 ∨ a.1 = b.1 ∧ a.2 ≤ b.2
        some ((sorted.head?.map fun c => .str c.2).getD .null)

/-! ## The sources of a value -/

/-- `_uniform_scalar` asks this of two values of one type. -/
def sameScalar : Json → Json → Bool
  | .str s, .str t => s = t
  | .int n, .int k => n = k
  | .float s, .float t => floatEq s t
  | .bool b, .bool c => b = c
  | _, _ => false

def isScalar : Json → Bool
  | .str _ | .int _ | .float _ | .bool _ => true
  | _ => false

/-- The scalar that an entry has under a key. -/
def entryScalar (sourceKey : String) (entry : Json) : Option Json :=
  ((asDict entry).bind fun e => Json.get? e sourceKey).bind fun v =>
    if isScalar v then some v else none

/-- `_uniform_scalar` -/
def uniformScalar (entries : List Json) (sourceKey : String) : Option Json :=
  match entries.mapM (entryScalar sourceKey) with
  | none | some [] => none
  | some (first :: rest) => if rest.all fun v => sameScalar v first then some first else none

/-- One entry of `checks` -/
def hasKind (value : Json) (kind : String) : Bool :=
  match value with
  | .arr _ => kind = "array"
  | .obj _ => kind = "object"
  | .str _ => kind = "string"
  | .int _ => kind = "integer" || kind = "number"
  | .float _ => kind = "number"
  | .bool _ => kind = "boolean"
  | .null => kind = "null"

/-- `_matches_declared_type`; the declared types form a set. -/
def matchesDeclaredType (value : Json) (spec : Dict) : Option Bool :=
  let kinds := match spec.get "type" with
    | .arr items => items
    | v => [v]
  if kinds.all hashable then some (kinds.any fun kind => (asStr kind).any (hasKind value)) else none

/-- `str(item.get(k) or "")` -/
def textOf (interp : Interpreter) (item : Dict) (k : String) : Json :=
  .str (if (item.get k).truthy then interp.str (item.get k) else "")

/-- The identities that an unresolved entry may denote, one for each folded name. -/
def identityOptions (interp : Interpreter) (sourceKey : String) (raw : Json) : Dict :=
  ((asList raw).getD []).foldl (fun options v =>
    match asDict v with
    | none => options
    | some item =>
      match asStr (item.get sourceKey) with
      | none => options
      | some identity =>
        if nonBlank identity then
          options.setDefault (interp.casefold identity) (.obj [("value", .str identity),
            ("name", textOf interp item "name"), ("version", textOf interp item "version")])
        else options) []

/-- `_identity_slots` -/
def identitySlots (interp : Interpreter) (entries : List Json) (sourceKey : String)
    (candidatesKey : Json) : Option (List Json) :=
  (asStr candidatesKey).bind fun key =>
    if key = "" then none
    else entries.mapM fun v => (asDict v).bind fun entry =>
      if !isNull (entry.get sourceKey) then some (entry.get sourceKey)
      else
        let options := identityOptions interp sourceKey (entry.get key)
        if options.length < 2 then none else some (.arr (options.map Prod.snd))

/-- `has_explicit_column_sources` -/
def hasExplicitColumnSources (args : Dict) : Bool :=
  (asList (args.get "column_specs")).any fun specs =>
    specs.any fun spec => (asDict spec).any fun s => s.has "source"

/-! ## `project_from_entries` -/

/-- The metadata that a property asks for, where it has the declared type. -/
def metadataFor (source : Dict) (spec : Json) : Option (Option Json) :=
  match asDict spec with
  | none => some none
  | some s =>
    match asStr (s.get "from_result_key") with
    | none => some none
    | some sourceKey =>
      if sourceKey = "" then some none
      else match Json.get? source sourceKey with
        | none => some none
        | some value =>
          (matchesDeclaredType value s).map fun matching => if matching then some value else none

def metadataStep (source : Dict) (out : Dict) (f : String × Json) : Option Dict :=
  if out.has f.1 then some out
  else (metadataFor source f.2).map fun value => (value.map fun v => out.set f.1 v).getD out

def withMetadata (props : Dict) (source : Json) (out : Dict) : Option Dict :=
  match asDict source with
  | none => some out
  | some source => props.foldlM (metadataStep source) out

/-- The key under which the entries have the values of the vector. -/
def vectorSourceKey (spec : Dict) (vectorArg : String) : String :=
  match asStr (spec.get "from_entries_key") with
  | none => singular vectorArg
  | some key => if key = "" then singular vectorArg else key

/-- The values of the vector: what the entries have under the key and is not null. -/
def projectedValues (entries : List Json) (sourceKey : String) : List Json :=
  entries.filterMap fun v => (asDict v).bind fun entry =>
    if isNull (entry.get sourceKey) then none else some (entry.get sourceKey)

def incompleteError (interp : Interpreter) (entries : List Json) (vectorArg sourceKey : String)
    (spec : Dict) : Json :=
  let error : Dict := [("arg", .str vectorArg), ("source_key", .str sourceKey),
    ("reason", .str "incomplete_vector_projection")]
  match identitySlots interp entries sourceKey (spec.get "from_entries_candidates_key") with
  | none => .obj error
  | some slots => .obj (error.set "slots" (.arr slots))

/-- Every entry must have a value, and one has none. -/
def incomplete (spec : Dict) (entries : List Json) (sourceKey : String) : Bool :=
  isTrue (spec.get "from_entries_complete") &&
    (projectedValues entries sourceKey).length ≠ entries.length

/-- The arguments, the argument that takes the vector, and the errors. -/
abbrev Projected := Dict × Option String × List Json

/-- `properties.get(vector_arg) or {}`, of which the attributes of a dict are read. -/
def vectorSpec (props : Dict) (vectorArg : String) : Option Dict :=
  if (props.get vectorArg).truthy then asDict (props.get vectorArg) else some []

def fillVector (interp : Interpreter) (props : Dict) (entries : List Json) (out : Dict)
    (vectorArg : String) : Option Projected :=
  (vectorSpec props vectorArg).map fun spec =>
    let sourceKey := vectorSourceKey spec vectorArg
    if incomplete spec entries sourceKey then
      (out, some vectorArg, [incompleteError interp entries vectorArg sourceKey spec])
    else (out.set vectorArg (.arr (projectedValues entries sourceKey)), some vectorArg, [])

def projectVector (interp : Interpreter) (schema : Json) (entries : List Json) (out : Dict) :
    Option Projected :=
  let fallback : Projected := (out.set "entries" (.arr entries), none, [])
  if hasExplicitColumnSources out then some fallback
  else (consumerMatchArg schema entries).bind fun name =>
    if !name.truthy then some fallback
    else (asStr name).bind fun vectorArg =>
      if out.has vectorArg then some fallback
      else fillVector interp (properties schema) entries out vectorArg

/-- The limits of the producer; what is set already stays. -/
def withLimits (source : Json) (out : Dict) : Dict :=
  match asDict source with
  | none => out
  | some source => sourceMetadataFields.foldl (fun out key =>
      match Json.get? source key with
      | none => out
      | some v => out.setDefault key v) out

def contextError (argName sourceKey : String) : Json :=
  .obj [("arg", .str argName), ("source_key", .str sourceKey), ("reason", .str "mixed_or_missing")]

/-- The key of a scalar property, if it has one. -/
def scalarKey (spec : Json) : Option String :=
  ((asDict spec).bind fun s => asStr (s.get "from_entries_key")).filter fun key => key ≠ ""

/-- What the property demands of its context. -/
def entriesRequired (spec : Json) : Json :=
  ((asDict spec).map fun s => s.get "from_entries_required").getD .null

def scalarStep (interp : Interpreter) (props : Dict) (entries : List Json)
    (acc : Dict × List Json) (f : String × Json) : Option (Dict × List Json) :=
  if acc.1.has f.1 then some acc
  else (isScalarProperty f.2).map fun isScalar =>
    match scalarKey f.2 with
    | none => acc
    | some sourceKey =>
      if !isScalar then acc
      else match uniformScalar entries sourceKey with
        | some value => (acc.1.set f.1 value, acc.2)
        | none =>
          if contextRequirementApplies interp (entriesRequired f.2) acc.1 props then
            (acc.1, acc.2 ++ [contextError f.1 sourceKey])
          else acc

def withErrors (out : Dict) (errors : List Json) : Dict :=
  if errors.isEmpty then out else out.set contextErrorsKey (.arr errors)

def projectFromEntries (interp : Interpreter) (args : Dict) (entries : List Json) (schema : Json)
    (source : Json) : Option (Dict × Option String) := do
  let props := properties schema
  let out ← withMetadata props source args
  let (filled, used, errors) ← projectVector interp schema entries out
  let limited := if hasExplicitColumnSources out then withLimits source filled else filled
  let (out, errors) ← props.foldlM (scalarStep interp props entries) (limited, errors)
  some (withErrors out errors, used)

/-! ## What each source writes -/

section
variable {interp : Interpreter} {args out out' props : Dict} {entries : List Json}
  {schema source : Json}

/-- The metadata of the result, where a property of the name asks for it. -/
def FromMetadata (props : Dict) (source : Json) (k : String) (x : Json) : Prop :=
  ∃ spec s, (k, spec) ∈ props ∧ asDict source = some s ∧ metadataFor s spec = some (some x)

def FromLimits (source : Json) (k : String) (x : Json) : Prop :=
  k ∈ sourceMetadataFields ∧ ∃ s, asDict source = some s ∧ Json.get? s k = some x

/-- There are entries, and each carries the value under the key, with the same type. -/
def Shared (entries : List Json) (sourceKey : String) (x : Json) : Prop :=
  entries ≠ [] ∧ ∀ entry ∈ entries, ∃ v, entryScalar sourceKey entry = some v ∧
    (v = x ∨ sameScalar v x = true)

/-- A scalar that the entries share, where a scalar property of the name asks for it. -/
def FromEntries (props : Dict) (entries : List Json) (k : String) (x : Json) : Prop :=
  ∃ spec sourceKey, (k, spec) ∈ props ∧ isScalarProperty spec = some true ∧
    scalarKey spec = some sourceKey ∧ Shared entries sourceKey x

theorem metadataStep_fills {s : Dict} {f : String × Json} (hf : f ∈ props)
    (hs : asDict source = some s) (h : metadataStep s out f = some out') :
    Dict.Fills (FromMetadata props source) out out' := by
  unfold metadataStep at h
  by_cases hhas : out.has f.1 = true
  · rw [if_pos hhas] at h
    obtain rfl := Option.some.inj h
    exact .refl
  · rw [if_neg hhas] at h
    obtain ⟨value, hvalue, rfl⟩ := Option.map_eq_some_iff.mp h
    cases value with
    | none => exact .refl
    | some x =>
      refine Dict.fills_set ?_ ⟨f.2, s, hf, hs, hvalue⟩
      simpa [Dict.has] using hhas

theorem withMetadata_fills (h : withMetadata props source out = some out') :
    Dict.Fills (FromMetadata props source) out out' := by
  unfold withMetadata at h
  cases hs : asDict source with
  | none =>
    rw [hs] at h
    obtain rfl := Option.some.inj h
    exact .refl
  | some s =>
    rw [hs] at h
    exact foldlM_rel (R := Dict.Fills (FromMetadata props source)) props (fun _ => .refl)
      Dict.Fills.trans (fun f hf b c hstep => metadataStep_fills hf hs hstep) h

theorem withLimits_fills : Dict.Fills (FromLimits source) out (withLimits source out) := by
  unfold withLimits
  cases hs : asDict source with
  | none => exact .refl
  | some s =>
    have each : ∀ l : List String, (∀ k ∈ l, k ∈ sourceMetadataFields) → ∀ d : Dict,
        Dict.Fills (FromLimits source) d (l.foldl (fun out key =>
          match Json.get? s key with
          | none => out
          | some v => Dict.setDefault out key v) d) := by
      intro l
      induction l with
      | nil => exact fun _ _ => .refl
      | cons key l ih =>
        intro hl d
        rw [List.foldl_cons]
        refine Dict.Fills.trans ?_ (ih (fun k hk => hl k (by simp [hk])) _)
        cases hv : Json.get? s key with
        | none => exact .refl
        | some v => exact Dict.fills_setDefault ⟨hl key (by simp), s, hs, hv⟩
    exact each _ (fun _ => id) out

theorem shared_of_uniformScalar {sourceKey : String} {x : Json}
    (h : uniformScalar entries sourceKey = some x) : Shared entries sourceKey x := by
  unfold uniformScalar at h
  cases hvalues : entries.mapM (entryScalar sourceKey) with
  | none =>
    rw [hvalues] at h
    contradiction
  | some values =>
    rw [hvalues] at h
    cases values with
    | nil => contradiction
    | cons first rest =>
      dsimp only at h
      split_ifs at h with hall
      obtain rfl := Option.some.inj h
      obtain ⟨back, forth⟩ := Transaction.mapM_mem hvalues
      refine ⟨?_, fun entry hentry => ?_⟩
      · rintro rfl
        obtain ⟨_, hmem, -⟩ := back first (by simp)
        exact List.not_mem_nil hmem
      · obtain ⟨v, hv, hsome⟩ := forth entry hentry
        refine ⟨v, hsome, ?_⟩
        rcases List.mem_cons.mp hv with rfl | hrest
        · exact .inl rfl
        · exact .inr (List.all_eq_true.mp hall v hrest)

theorem scalarStep_fills {ps : Dict} {acc acc' : Dict × List Json} {f : String × Json} (hf : f ∈ ps)
    (h : scalarStep interp props entries acc f = some acc') :
    Dict.Fills (FromEntries ps entries) acc.1 acc'.1 ∧ acc.2 ⊆ acc'.2 := by
  have same : Dict.Fills (FromEntries ps entries) acc.1 acc.1 ∧ acc.2 ⊆ acc.2 :=
    ⟨.refl, fun _ => id⟩
  unfold scalarStep at h
  by_cases hhas : acc.1.has f.1 = true
  · rw [if_pos hhas] at h
    obtain rfl := Option.some.inj h
    exact same
  rw [if_neg hhas] at h
  obtain ⟨scalar, hscalar, rfl⟩ := Option.map_eq_some_iff.mp h
  cases hkey : scalarKey f.2 with
  | none => exact same
  | some sourceKey =>
    cases scalar with
    | false => exact same
    | true =>
      dsimp only
      rw [Bool.not_true, if_neg Bool.false_ne_true]
      cases huniform : uniformScalar entries sourceKey with
      | some value =>
        refine ⟨Dict.fills_set ?_ ?_, fun _ => id⟩
        · simpa [Dict.has] using hhas
        · exact ⟨f.2, sourceKey, hf, hscalar, hkey, shared_of_uniformScalar huniform⟩
      | none =>
        dsimp only
        split_ifs with happlies
        · exact ⟨.refl, List.subset_append_left _ _⟩
        · exact same

theorem scalars_fill {ps : Dict} {acc acc' : Dict × List Json}
    (h : ps.foldlM (scalarStep interp props entries) acc = some acc') :
    Dict.Fills (FromEntries ps entries) acc.1 acc'.1 ∧ acc.2 ⊆ acc'.2 :=
  foldlM_rel (R := fun a b : Dict × List Json =>
      Dict.Fills (FromEntries ps entries) a.1 b.1 ∧ a.2 ⊆ b.2) ps
    (fun _ => ⟨.refl, fun _ => id⟩) (fun hab hbc => ⟨hab.1.trans hbc.1, fun _ he => hbc.2 (hab.2 he)⟩)
    (fun _ hf _ _ hstep => scalarStep_fills hf hstep) h

/-! ## The argument of the vector -/

theorem firstRequired_takes {l : List Json} {v : String}
    (h : firstRequired props l = some (.str v)) : declaredOtherwise (props.get v) = false := by
  induction l with
  | nil => cases h
  | cons name rest ih =>
    unfold firstRequired at h
    by_cases hhash : hashable name = true
    swap
    · simp [hhash] at h
    simp only [hhash, Bool.not_true, Bool.false_eq_true, if_false] at h
    cases hname : asStr name with
    | none =>
      rw [hname] at h
      obtain rfl := Option.some.inj h
      cases hname
    | some argName =>
      rw [hname] at h
      dsimp only at h
      split_ifs at h with hskip
      · exact ih h
      · obtain rfl := Option.some.inj h
        obtain rfl := Option.some.inj hname
        rw [Bool.or_eq_true, not_or, Bool.not_eq_true, Bool.not_eq_true] at hskip
        exact hskip.2

theorem candidate_takes {names : List Json} {keys : List String} {f : String × Json}
    {c : ℤ × String} (h : candidate names keys f = some c) :
    c.2 = f.1 ∧ declaredOtherwise f.2 = false := by
  unfold candidate at h
  dsimp only at h
  split_ifs at h with hskip hdeclared hsingular
  all_goals
    rw [Bool.or_eq_true, not_or, Bool.not_eq_true, Bool.not_eq_true] at hskip
    obtain rfl := Option.some.inj h
    exact ⟨rfl, hskip.2⟩

theorem get_of_mem (distinct : (props.map Prod.fst).Nodup) {f : String × Json} (hf : f ∈ props) :
    props.get f.1 = f.2 := by
  unfold Dict.get Json.get?
  induction props with
  | nil => cases hf
  | cons g rest ih =>
    rw [List.map_cons, List.nodup_cons] at distinct
    rcases List.mem_cons.mp hf with rfl | hrest
    · simp
    · have hne : g.1 ≠ f.1 := by
        intro heq
        exact distinct.1 (heq ▸ List.mem_map_of_mem hrest)
      rw [List.find?_cons_of_neg (by simpa using hne)]
      exact ih distinct.2 hrest

theorem consumerMatchArg_takes {v : String} (distinct : ((properties schema).map Prod.fst).Nodup)
    (h : consumerMatchArg schema entries = some (.str v)) :
    declaredOtherwise ((properties schema).get v) = false := by
  unfold consumerMatchArg at h
  dsimp only at h
  by_cases hempty : (properties schema).isEmpty = true
  · rw [if_pos hempty] at h
    cases h
  rw [if_neg hempty] at h
  cases entries with
  | nil => exact firstRequired_takes h
  | cons first rest =>
    dsimp only at h
    cases hfirst : asDict first with
    | none =>
      rw [hfirst] at h
      cases h
    | some sample =>
      rw [hfirst] at h
      dsimp only at h
      generalize hsorted : List.insertionSort
        (fun a b : ℤ × String => a.1 < b.1 ∨ a.1 = b.1 ∧ a.2 ≤ b.2) _ = sorted at h
      cases sorted with
      | nil => cases h
      | cons c cs =>
        obtain rfl : c.2 = v := by simpa using h
        have hc : c ∈ (properties schema).filterMap
            (candidate (required schema) (sample.map Prod.fst)) := by
          refine (List.perm_insertionSort
            (fun a b : ℤ × String => a.1 < b.1 ∨ a.1 = b.1 ∧ a.2 ≤ b.2) _).subset ?_
          rw [hsorted]
          simp
        obtain ⟨f, hf, hcand⟩ := List.mem_filterMap.mp hc
        obtain ⟨heq, htakes⟩ := candidate_takes hcand
        rw [heq, get_of_mem distinct hf]
        exact htakes

theorem declaredOtherwise_of_scalar {spec : Json} (h : isScalarProperty spec = some true) :
    declaredOtherwise spec = true := by
  unfold isScalarProperty at h
  unfold declaredOtherwise isArrayProperty
  cases hs : asDict spec with
  | none => simp [hs] at h
  | some s =>
    rw [hs] at h
    simp only [Option.any_some]
    cases htype : s.get "type" with
    | arr items =>
      simp only [htype, Option.some.injEq, Bool.and_eq_true, Bool.not_eq_true',
        List.all_eq_true] at h
      have hitems : items ≠ [] := by
        rintro rfl
        simp at h
      have harray : items.any (fun v => asStr v = some "array") = false := by
        rw [List.any_eq_false]
        intro v hv harr
        have := h.2 "array" (List.mem_filterMap.mpr ⟨v, hv, by simpa using harr⟩)
        simp [scalarTypes] at this
      simp [Json.truthy, harray, hitems]
    | str t =>
      simp only [htype, asStr, Option.any_some, Option.some.injEq, decide_eq_true_eq] at h
      have hne : t ≠ "" ∧ t ≠ "array" := by
        constructor
        all_goals
          rintro rfl
          simp [scalarTypes] at h
      simp [Json.truthy, asStr, hne.1, hne.2]
    | null => simp [htype, asStr] at h
    | bool b => simp [htype, asStr] at h
    | int n => simp [htype, asStr] at h
    | float t => simp [htype, asStr] at h
    | obj fields => simp [htype] at h

/-! ## The stages of a projection -/

theorem projectFromEntries_stages {used : Option String}
    (h : projectFromEntries interp args entries schema source = some (out, used)) :
    ∃ d filled errors acc, withMetadata (properties schema) source args = some d ∧
      projectVector interp schema entries d = some (filled, used, errors) ∧
      (properties schema).foldlM (scalarStep interp (properties schema) entries)
        (if hasExplicitColumnSources d then withLimits source filled else filled, errors) =
          some acc ∧ out = withErrors acc.1 acc.2 := by
  obtain ⟨d, hd, h⟩ := Option.bind_eq_some_iff.mp h
  obtain ⟨⟨filled, used', errors⟩, hvector, h⟩ := Option.bind_eq_some_iff.mp h
  obtain ⟨acc, hacc, h⟩ := Option.bind_eq_some_iff.mp h
  obtain ⟨rfl, rfl⟩ := Prod.mk.inj (Option.some.inj h)
  exact ⟨d, filled, errors, acc, hd, hvector, hacc, rfl⟩

theorem projectVector_cases {filled : Dict} {used : Option String} {errors : List Json}
    (h : projectVector interp schema entries out = some (filled, used, errors)) :
    (filled = out.set "entries" (.arr entries) ∧ used = none ∧ errors = []) ∨
    ∃ v spec, used = some v ∧ hasExplicitColumnSources out = false ∧
      consumerMatchArg schema entries = some (.str v) ∧ Json.get? out v = none ∧
      vectorSpec (properties schema) v = some spec ∧
      if incomplete spec entries (vectorSourceKey spec v) then
        filled = out ∧ errors = [incompleteError interp entries v (vectorSourceKey spec v) spec]
      else
        filled = out.set v (.arr (projectedValues entries (vectorSourceKey spec v))) ∧
          errors = [] := by
  unfold projectVector at h
  dsimp only at h
  have fallback : some (Dict.set out "entries" (.arr entries), (none : Option String), []) =
      some (filled, used, errors) →
      filled = out.set "entries" (.arr entries) ∧ used = none ∧ errors = [] := by
    intro heq
    obtain ⟨rfl, rfl, rfl⟩ := by simpa using heq
    exact ⟨rfl, rfl, rfl⟩
  by_cases hexplicit : hasExplicitColumnSources out = true
  · rw [if_pos hexplicit] at h
    exact .inl (fallback h)
  rw [if_neg hexplicit] at h
  obtain ⟨name, hname, h⟩ := Option.bind_eq_some_iff.mp h
  by_cases htruthy : name.truthy = true
  swap
  · simp only [htruthy, Bool.not_false, if_true] at h
    exact .inl (fallback h)
  simp only [htruthy, Bool.not_true, Bool.false_eq_true, if_false] at h
  obtain ⟨v, hv, h⟩ := Option.bind_eq_some_iff.mp h
  by_cases hhas : out.has v = true
  · rw [if_pos hhas] at h
    exact .inl (fallback h)
  rw [if_neg hhas] at h
  unfold fillVector at h
  obtain ⟨spec, hspec, h⟩ := Option.map_eq_some_iff.mp h
  have hstr : name = .str v := by
    cases name with
    | str s => exact congrArg Json.str (Option.some.inj hv)
    | _ => cases hv
  have hnone : Json.get? out v = none := by simpa [Dict.has] using hhas
  dsimp only at h
  split_ifs at h with hincomplete
  · obtain ⟨rfl, rfl, rfl⟩ := by simpa using h
    refine .inr ⟨v, spec, rfl, by simpa using hexplicit, hstr ▸ hname, hnone, hspec, ?_⟩
    rw [if_pos hincomplete]
    exact ⟨rfl, rfl⟩
  · obtain ⟨rfl, rfl, rfl⟩ := by simpa using h
    refine .inr ⟨v, spec, rfl, by simpa using hexplicit, hstr ▸ hname, hnone, hspec, ?_⟩
    rw [if_neg hincomplete]
    exact ⟨rfl, rfl⟩

theorem get?_withErrors {errors : List Json} {k : String} (hk : k ≠ contextErrorsKey) :
    Json.get? (withErrors out errors) k = Json.get? out k := by
  unfold withErrors
  split_ifs
  · rfl
  · rw [Dict.get?_set, if_neg hk]

theorem unset_of_withErrors {errors : List Json} {k : String}
    (h : Json.get? (withErrors out errors) k = none) : Json.get? out k = none := by
  unfold withErrors at h
  split_ifs at h with hempty
  · exact h
  · rw [Dict.get?_set] at h
    split_ifs at h with hk
    exact h

/-- The error is in the list that the arguments carry. -/
def Reported (out : Dict) (error : Json) : Prop :=
  ∃ errors, Json.get? out contextErrorsKey = some (.arr errors) ∧ error ∈ errors

theorem reported_withErrors {errors : List Json} {error : Json} (h : error ∈ errors) :
    Reported (withErrors out errors) error := by
  refine ⟨errors, ?_, h⟩
  unfold withErrors
  rw [if_neg, Dict.get?_set, if_pos rfl]
  simpa using List.ne_nil_of_mem h

end

/-! ## Faithful projections -/

/-- Arguments stay, the vector is what the entries have, a scalar is what all entries share, and a
required scalar that is not set is reported. -/
structure Faithful (interp : Interpreter) (args : Dict) (entries : List Json) (schema : Json)
    (out : Dict) (used : Option String) : Prop where
  keeps : ∀ k v, Json.get? args k = some v → Json.get? out k = some v
  vector : ∀ v x, used = some v → Json.get? out v = some x →
    ∃ spec, vectorSpec (properties schema) v = some spec ∧
      x = .arr (projectedValues entries (vectorSourceKey spec v)) ∧
      incomplete spec entries (vectorSourceKey spec v) = false
  scalar : ∀ f ∈ properties schema, isScalarProperty f.2 = some true →
    Json.get? args f.1 = none → ∀ x, Json.get? out f.1 = some x →
      ∃ sourceKey, scalarKey f.2 = some sourceKey ∧ Shared entries sourceKey x
  reports : ∀ f ∈ properties schema, isScalarProperty f.2 = some true →
    ∀ sourceKey, scalarKey f.2 = some sourceKey → Json.get? out f.1 = none →
      contextRequirementApplies interp (entriesRequired f.2) out (properties schema) = true →
        Reported out (contextError f.1 sourceKey)

/-- The argument of which the value decides whether the property is required. -/
def selector (spec : Json) : Option String :=
  (asDict (entriesRequired spec)).bind fun r => asStr (r.get "arg")

/-- What a projection does.  The key of the errors is its own, the entries replace `entries` where
they are not projected, and a scalar may come from what the producer says of its result. -/
structure Projects (interp : Interpreter) (args : Dict) (entries : List Json) (schema : Json)
    (source : Json) (out : Dict) (used : Option String) : Prop where
  keeps : ∀ k v, k ≠ contextErrorsKey → (k = "entries" → used ≠ none) →
    Json.get? args k = some v → Json.get? out k = some v
  vector : ∀ v, used = some v → v ≠ contextErrorsKey →
    ∃ spec, vectorSpec (properties schema) v = some spec ∧
      if incomplete spec entries (vectorSourceKey spec v) then
        Json.get? out v = none ∧
          Reported out (incompleteError interp entries v (vectorSourceKey spec v) spec)
      else Json.get? out v = some (.arr (projectedValues entries (vectorSourceKey spec v)))
  scalar : ∀ f ∈ properties schema, isScalarProperty f.2 = some true →
    f.1 ≠ contextErrorsKey → Json.get? args f.1 = none → ∀ x, Json.get? out f.1 = some x →
      (∃ sourceKey, scalarKey f.2 = some sourceKey ∧ Shared entries sourceKey x) ∨
      (∃ s, asDict source = some s ∧ metadataFor s f.2 = some (some x)) ∨
      (hasExplicitColumnSources out = true ∧ FromLimits source f.1 x) ∨
      (f.1 = "entries" ∧ used = none ∧ x = .arr entries)
  reports : ∀ before f after, properties schema = before ++ f :: after →
    isScalarProperty f.2 = some true → ∀ sourceKey, scalarKey f.2 = some sourceKey →
      Json.get? out f.1 = none →
      (∀ k, selector f.2 = some k →
        k ≠ contextErrorsKey ∧ (k ∈ after.map Prod.fst → args.has k = true)) →
      contextRequirementApplies interp (entriesRequired f.2) out (properties schema) = true →
        Reported out (contextError f.1 sourceKey)

section
variable {interp : Interpreter} {args out d filled props : Dict} {entries errors : List Json}
  {schema source : Json} {used : Option String} {acc : Dict × List Json} {k : String} {x : Json}

theorem kept_of_stages
    (hvector : projectVector interp schema entries d = some (filled, used, errors))
    (hacc : (properties schema).foldlM (scalarStep interp (properties schema) entries)
      (if hasExplicitColumnSources d then withLimits source filled else filled, errors) = some acc)
    (hk : k ≠ contextErrorsKey) (hentries : k = "entries" → used ≠ none)
    (hget : Json.get? d k = some x) : Json.get? (withErrors acc.1 acc.2) k = some x := by
  rw [get?_withErrors hk]
  refine (scalars_fill hacc).1.keeps ?_
  have hfilled : Json.get? filled k = some x := by
    obtain ⟨rfl, hnone, -⟩ | ⟨v, spec, -, -, -, hv, -, hrest⟩ := projectVector_cases hvector
    · rw [Dict.get?_set, if_neg, hget]
      exact fun heq => hentries heq hnone
    · split_ifs at hrest with hincomplete
      · rw [hrest.1, hget]
      · rw [hrest.1, Dict.get?_set, if_neg, hget]
        rintro rfl
        rw [hv] at hget
        contradiction
  dsimp only
  split_ifs
  · exact withLimits_fills.keeps hfilled
  · exact hfilled

theorem has_of_stages (hvector : projectVector interp schema entries d = some (filled, used, errors))
    (hd : d.has k = true) :
    (if hasExplicitColumnSources d then withLimits source filled else filled).has k = true := by
  have hfilled : filled.has k = true := by
    obtain ⟨rfl, -⟩ | ⟨v, spec, -, -, -, -, -, hrest⟩ := projectVector_cases hvector
    · rw [Dict.has_set, hd, Bool.or_true]
    · split_ifs at hrest with hincomplete
      · rw [hrest.1, hd]
      · rw [hrest.1, Dict.has_set, hd, Bool.or_true]
  split_ifs
  · obtain ⟨v, hv⟩ := Option.isSome_iff_exists.mp hfilled
    exact Option.isSome_iff_exists.mpr ⟨v, withLimits_fills.keeps hv⟩
  · exact hfilled

theorem explicit_of_kept (hd : hasExplicitColumnSources d = true)
    (h : ∀ v, Json.get? d "column_specs" = some v → Json.get? out "column_specs" = some v) :
    hasExplicitColumnSources out = true := by
  unfold hasExplicitColumnSources Dict.get at hd ⊢
  cases hcs : Json.get? d "column_specs" with
  | none =>
    rw [hcs] at hd
    cases hd
  | some v =>
    rw [h v hcs, ← hcs]
    exact hd

theorem contextRequirementApplies_congr {spec : Json}
    (h : ∀ k, selector spec = some k → d.get k = out.get k) :
    contextRequirementApplies interp (entriesRequired spec) d props =
      contextRequirementApplies interp (entriesRequired spec) out props := by
  unfold contextRequirementApplies
  cases hreq : asDict (entriesRequired spec) with
  | none => rfl
  | some r =>
    rw [Option.any_some, Option.any_some]
    cases hsel : asStr (r.get "arg") with
    | none => rfl
    | some k =>
      have hval : effectiveArgValue d props k = effectiveArgValue out props k := by
        unfold effectiveArgValue
        rw [h k (by rw [selector, hreq, Option.bind_some, hsel])]
      simp only [Option.any_some, hval]

theorem reported_of_scalars {before after : Dict} {f : String × Json} {start : Dict × List Json}
    {sourceKey : String}
    (h : (before ++ f :: after).foldlM (scalarStep interp props entries) start = some acc)
    (hscalar : isScalarProperty f.2 = some true) (hkey : scalarKey f.2 = some sourceKey)
    (hunset : Json.get? acc.1 f.1 = none)
    (hsel : ∀ k, selector f.2 = some k → k ∈ after.map Prod.fst → start.1.has k = true)
    (happlies : contextRequirementApplies interp (entriesRequired f.2) acc.1 props = true) :
    contextError f.1 sourceKey ∈ acc.2 := by
  rw [List.foldlM_append] at h
  obtain ⟨a, ha, h⟩ := Option.bind_eq_some_iff.mp h
  rw [List.foldlM_cons] at h
  obtain ⟨b, hb, hafter⟩ := Option.bind_eq_some_iff.mp h
  obtain ⟨fillBefore, -⟩ := scalars_fill ha
  have fillRound : Dict.Fills (FromEntries [f] entries) a.1 b.1 :=
    (scalarStep_fills (List.mem_singleton_self f) hb).1
  obtain ⟨fillAfter, grows⟩ := scalars_fill hafter
  have hbnone := fillAfter.was_none hunset
  have hanone := fillRound.was_none hbnone
  -- the round itself: nothing is set, so the entries share no value
  unfold scalarStep at hb
  have hhas : a.1.has f.1 = false := by simp [Dict.has, hanone]
  rw [hhas, if_neg Bool.false_ne_true, hscalar, Option.map_some, hkey] at hb
  dsimp only at hb
  rw [Bool.not_true, if_neg Bool.false_ne_true] at hb
  cases huniform : uniformScalar entries sourceKey with
  | some value =>
    rw [huniform] at hb
    obtain rfl := Option.some.inj hb
    rw [Dict.get?_set, if_pos rfl] at hbnone
    contradiction
  | none =>
    rw [huniform] at hb
    have hsame : contextRequirementApplies interp (entriesRequired f.2) a.1 props = true := by
      refine (contextRequirementApplies_congr fun k hk => ?_).trans happlies
      have hround : b.1 = a.1 := by
        obtain rfl := Option.some.inj hb
        dsimp only
        split_ifs
        · rfl
        · rfl
      unfold Dict.get
      rw [← hround]
      obtain hsame | ⟨hnone, y, -, spec, -, hmem, -⟩ := fillAfter k
      · rw [hsame]
      · have hmem' : k ∈ after.map Prod.fst := List.mem_map_of_mem hmem
        obtain ⟨v, hv⟩ := Option.isSome_iff_exists.mp (hsel k hk hmem')
        rw [fillRound.keeps (fillBefore.keeps hv)] at hnone
        contradiction
    dsimp only at hb
    rw [if_pos hsame] at hb
    obtain rfl := Option.some.inj hb
    exact grows (by simp)

theorem projectFromEntries_projects (distinct : ((properties schema).map Prod.fst).Nodup)
    (h : projectFromEntries interp args entries schema source = some (out, used)) :
    Projects interp args entries schema source out used := by
  obtain ⟨d, filled, errors, acc, hd, hvector, hacc, rfl⟩ := projectFromEntries_stages h
  have metadata := withMetadata_fills hd
  obtain ⟨scalars, grows⟩ := scalars_fill hacc
  constructor
  case keeps =>
    intro k v hk hentries hv
    exact kept_of_stages hvector hacc hk hentries (metadata.keeps hv)
  case vector =>
    rintro v rfl hv
    obtain ⟨-, hnone, -⟩ | ⟨v', spec, hused, hexplicit, hmatch, hunset, hspec, hrest⟩ :=
      projectVector_cases hvector
    · cases hnone
    obtain rfl := Option.some.inj hused
    rw [hexplicit, if_neg Bool.false_ne_true] at hacc scalars
    refine ⟨spec, hspec, ?_⟩
    split_ifs at hrest ⊢ with hincomplete
    · obtain ⟨rfl, rfl⟩ := hrest
      refine ⟨?_, reported_withErrors (grows (by simp))⟩
      rw [get?_withErrors hv]
      obtain hsame | ⟨-, _, -, spec', _, hmem, hscalar, -⟩ := scalars v
      · rw [hsame, hunset]
      · have htakes := consumerMatchArg_takes distinct hmatch
        rw [get_of_mem distinct hmem, declaredOtherwise_of_scalar hscalar] at htakes
        contradiction
    · obtain ⟨rfl, rfl⟩ := hrest
      rw [get?_withErrors hv]
      refine scalars.keeps ?_
      rw [Dict.get?_set, if_pos rfl]
  case scalar =>
    intro f hf hscalar hkey hargs x hx
    rw [get?_withErrors hkey] at hx
    obtain hx | ⟨-, spec, sourceKey, hmem, -, hsource, hshared⟩ := scalars.origin hx
    swap
    · have hspec : f.2 = spec := (get_of_mem distinct hf).symm.trans (get_of_mem distinct hmem)
      exact .inl ⟨sourceKey, hspec ▸ hsource, hshared⟩
    have hfilled : (hasExplicitColumnSources (withErrors acc.1 acc.2) = true ∧
        FromLimits source f.1 x) ∨ Json.get? filled f.1 = some x := by
      dsimp only at hx
      split_ifs at hx with hexplicit
      · obtain hx | ⟨-, hlimits⟩ := withLimits_fills.origin hx
        · exact .inr hx
        · refine .inl ⟨explicit_of_kept hexplicit fun v hv => ?_, hlimits⟩
          exact kept_of_stages hvector hacc (by decide) (fun heq => absurd heq (by decide)) hv
      · exact .inr hx
    obtain hlimits | hx := hfilled
    · exact .inr (.inr (.inl hlimits))
    have hd' : (f.1 = "entries" ∧ used = none ∧ x = .arr entries) ∨ Json.get? d f.1 = some x := by
      obtain ⟨rfl, hnone, -⟩ | ⟨v, spec, -, -, hmatch, -, -, hrest⟩ := projectVector_cases hvector
      · rw [Dict.get?_set] at hx
        split_ifs at hx with heq
        · exact .inl ⟨heq, hnone, (Option.some.inj hx).symm⟩
        · exact .inr hx
      · split_ifs at hrest with hincomplete
        · exact .inr (hrest.1 ▸ hx)
        · rw [hrest.1, Dict.get?_set, if_neg] at hx
          · exact .inr hx
          · rintro rfl
            have htakes := consumerMatchArg_takes distinct hmatch
            rw [get_of_mem distinct hf, declaredOtherwise_of_scalar hscalar] at htakes
            contradiction
    obtain hfallback | hx := hd'
    · exact .inr (.inr (.inr hfallback))
    obtain hx | ⟨-, spec, s, hmem, hs, hmeta⟩ := metadata.origin hx
    · rw [hargs] at hx
      contradiction
    · have hspec : f.2 = spec := (get_of_mem distinct hf).symm.trans (get_of_mem distinct hmem)
      exact .inr (.inl ⟨s, hs, hspec ▸ hmeta⟩)
  case reports =>
    intro before f after hprops hscalar sourceKey hkey hunset hsel happlies
    generalize hlimited : (if hasExplicitColumnSources d then withLimits source filled
      else filled) = limited at hacc
    have hround : (before ++ f :: after).foldlM
        (scalarStep interp (properties schema) entries) (limited, errors) = some acc := by
      rw [← hprops]
      exact hacc
    refine reported_withErrors
      (reported_of_scalars hround hscalar hkey (unset_of_withErrors hunset) ?_ ?_)
    · intro k hk hmem
      obtain ⟨v, hv⟩ := Option.isSome_iff_exists.mp ((hsel k hk).2 hmem)
      rw [← hlimited]
      exact has_of_stages hvector (Option.isSome_iff_exists.mpr ⟨v, metadata.keeps hv⟩)
    · rw [← happlies]
      refine contextRequirementApplies_congr fun k hk => ?_
      unfold Dict.get
      rw [get?_withErrors (hsel k hk).1]

end

/-! ## Messages and their mailbox -/

/-- Folded names, texts, floats and digits play no part here. -/
def plainInterpreter : Interpreter :=
  ⟨id, fun _ => "", fun _ => none, fun _ => false, fun _ => none⟩

/-- The messages are named by `uid`, and the mailbox that they share is required. -/
def messagesSchema : Json :=
  .obj [("properties", .obj [
    ("message_ids", .obj [("type", .str "array"), ("from_entries_key", .str "uid"),
      ("from_entries_complete", .bool true)]),
    ("account", .obj [("type", .str "string"), ("from_entries_key", .str "account"),
      ("from_entries_required", .bool true)])])]

def twoMessages : List Json :=
  [.obj [("uid", .str "7"), ("account", .str "work")],
    .obj [("uid", .str "9"), ("account", .str "work")]]

theorem projectFromEntries_projects_messages :
    Projects plainInterpreter [("confirm", .bool true)] twoMessages messagesSchema .null
      [("confirm", .bool true), ("message_ids", .arr [.str "7", .str "9"]),
        ("account", .str "work")] (some "message_ids") :=
  projectFromEntries_projects (by decide) rfl

/-- The unit of a result goes to the scalar argument that asks for it; no entry carries it. -/
theorem metadata_not_shared :
    ¬ ∀ (interp : Interpreter) (args : Dict) (entries : List Json) (schema source : Json)
      (out : Dict) (used : Option String), ((properties schema).map Prod.fst).Nodup →
        projectFromEntries interp args entries schema source = some (out, used) →
          Faithful interp args entries schema out used := by
  intro all
  have faithful := all plainInterpreter [] [.obj []]
    (.obj [("properties", .obj [("unit", .obj [("type", .str "string"),
      ("from_result_key", .str "unit")])])])
    (.obj [("unit", .str "EUR")]) [("unit", .str "EUR"), ("entries", .arr [.obj []])] none
    (by decide) rfl
  obtain ⟨sourceKey, hkey, -⟩ := faithful.scalar
    ("unit", .obj [("type", .str "string"), ("from_result_key", .str "unit")])
    (List.mem_singleton.mpr rfl) rfl rfl (.str "EUR") rfl
  cases hkey

end Metnos.Engine
