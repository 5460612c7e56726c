import Metnos.Lib.Dynamic

/-!
# Engine.CoerceArgs — proposed arguments are conformed to the schema of their tool

`coerceFrameworkToSchema` is the first guard of a plan.  It leaves what belongs to the pipe or to a
later guard, drops what the schema does not declare or keeps for the runtime, and brings the strings
of an enumeration to the spelling of the manifest.  `lower` is the interpreter's `str.lower`.
-/

namespace Metnos.Engine

open Dynamic

/-- `UNIVERSAL_ARGS` -/
def universalArgs : List String := ["from_step", "entries"]

/-- A step as the proposer wrote it: neither the tool nor the arguments need to be of their type. -/
structure ProposedStep where
  tool : Json
  args : Json

/-- An executor of the catalog. -/
structure CatalogEntry where
  name : Json
  argsSchema : Json

/-- The name is kept for metadata of the runtime. -/
def reserved (argName : String) : Bool := argName.toList.head? = some '_'

/-- `_typed_props` -/
def typedProps (schema : Json) : Option Dict :=
  ((asDict schema).bind fun s => asDict (s.get "properties")).filter fun props => !props.isEmpty

/-- The values of an enumeration of strings. -/
def stringEnum (decl : Json) : Option (List String) :=
  ((asDict decl).bind fun d => asList (d.get "enum")).bind fun values =>
    if values.isEmpty then none else values.mapM asStr

/-- The schema declares the name and does not keep it for the runtime. -/
def declares (props : Dict) (argName : String) : Bool :=
  !isNull (props.get argName) &&
    !(asDict (props.get argName)).any fun d => (d.get "runtime_resolved").truthy

section
variable (lower : String → String)

/-- What becomes of an argument. -/
inductive Verdict
  | keep
  | normalize (value : String)
  | drop

/-- A string of an enumeration: valid, valid in one other spelling, or not at all. -/
def enumVerdict (enum : List String) (val : String) : Verdict :=
  if val ∈ enum then .keep
  else match enum.filter fun v => lower v = lower val with
    | [v] => .normalize v
    | _ => .drop

/-- One round of the loop over the arguments. -/
def verdict (props : Dict) (guardOwned : List String) (f : String × Json) : Verdict :=
  if f.1 ∈ universalArgs ∨ f.1 ∈ guardOwned then .keep
  else if !declares props f.1 then .drop
  else match stringEnum (props.get f.1), asStr f.2 with
    | some enum, some val => enumVerdict lower enum val
    | _, _ => .keep

def Verdict.apply (f : String × Json) : Verdict → Option (String × Json)
  | .keep => some f
  | .normalize v => some (f.1, .str v)
  | .drop => none

def Verdict.changes : Verdict → Bool
  | .keep => false
  | .normalize _ | .drop => true

/-- `coerce_step_args`: the arguments, and whether they changed. -/
def coerceStepArgs (args schema : Json) (guardOwned : List String) : Json × Bool :=
  match asDict args with
  | none => (args, false)
  | some d =>
    if d.isEmpty then (args, false)
    else
      let out : Dict := d.filter fun f => !reserved f.1
      let changed : Bool := out.length ≠ d.length
      match typedProps schema with
      | none => (.obj out, changed)
      | some props =>
        (.obj (out.filterMap fun f => (verdict lower props guardOwned f).apply f),
          changed || out.any fun f => (verdict lower props guardOwned f).changes)

/-- The schema of a tool; the last executor of a name counts. -/
def schemaOf (catalog : List CatalogEntry) (tool : String) : Json :=
  ((catalog.reverse.find? fun e => asStr e.name = some tool).map CatalogEntry.argsSchema).getD .null

def coerceStep (catalog : List CatalogEntry) (guardOwned : List String) (s : ProposedStep) :
    ProposedStep :=
  let schema := ((asStr s.tool).map (schemaOf catalog)).getD .null
  if isNull schema then s
  else
    let coerced := coerceStepArgs lower s.args schema guardOwned
    if coerced.2 then { s with args := coerced.1 } else s

/-- `coerce_framework_to_schema`; a tool that cannot be looked up ends the loop. -/
def coerceFrameworkToSchema (catalog : List CatalogEntry) (guardOwned : List String) :
    List ProposedStep → List ProposedStep
  | [] => []
  | s :: rest =>
    if hashable s.tool then
      coerceStep lower catalog guardOwned s :: coerceFrameworkToSchema catalog guardOwned rest
    else s :: rest

/-! ## Conformed arguments -/

/-- The arguments of a tool that has the schema. -/
def conformed (schema : Json) (guardOwned : List String) (d : Dict) : Dict :=
  let out : Dict := d.filter fun f => !reserved f.1
  match typedProps schema with
  | none => out
  | some props => out.filterMap fun f => (verdict lower props guardOwned f).apply f

variable {lower} {catalog : List CatalogEntry} {guardOwned : List String} {props d : Dict}
  {f g : String × Json} {s : ProposedStep} {schema : Json} {tool : String}

theorem apply_of_unchanged {v : Verdict} (h : v.changes = false) : v.apply f = some f := by
  cases v with
  | keep => rfl
  | normalize value => cases h
  | drop => cases h

theorem filterMap_unchanged {v : String × Json → Verdict} (h : ∀ f ∈ d, (v f).changes = false) :
    (d.filterMap fun f => (v f).apply f) = d :=
  (List.filterMap_congr fun f hf => apply_of_unchanged (h f hf)).trans List.filterMap_some

theorem coerceStepArgs_eq : (if (coerceStepArgs lower (.obj d) schema guardOwned).2 then
      (coerceStepArgs lower (.obj d) schema guardOwned).1 else .obj d) =
    .obj (conformed lower schema guardOwned d) := by
  unfold coerceStepArgs conformed
  simp only [asDict]
  by_cases hempty : d.isEmpty = true
  · obtain rfl := List.isEmpty_iff.mp hempty
    cases typedProps schema with
    | none => rfl
    | some props => rfl
  have whole : ¬ (d.filter fun f => !reserved f.1).length ≠ d.length →
      (d.filter fun f => !reserved f.1) = d := by
    intro hlen
    exact List.filter_eq_self.mpr (List.length_filter_eq_length_iff.mp (not_not.mp hlen))
  rw [if_neg hempty]
  cases typedProps schema with
  | none =>
    dsimp only
    by_cases hlen : (d.filter fun f => !reserved f.1).length ≠ d.length
    · rw [if_pos (decide_eq_true hlen)]
    · rw [if_neg (by simpa using hlen), whole hlen]
  | some props =>
    dsimp only
    split_ifs with hchanged
    · rfl
    · rw [Bool.or_eq_true, decide_eq_true_eq, not_or, Bool.not_eq_true, List.any_eq_false]
        at hchanged
      obtain ⟨hlen, hkept⟩ := hchanged
      rw [whole hlen] at hkept ⊢
      rw [filterMap_unchanged fun f hf => by simpa using hkept f hf]

theorem coerceStep_of_args (hs : s.args = .obj d) (htool : asStr s.tool = some tool)
    (hschema : isNull (schemaOf catalog tool) = false) :
    coerceStep lower catalog guardOwned s =
      { s with args := .obj (conformed lower (schemaOf catalog tool) guardOwned d) } := by
  unfold coerceStep
  simp only [htool, Option.map_some, Option.getD_some, hschema, Bool.false_eq_true, if_false]
  rw [← coerceStepArgs_eq, ← hs]
  split_ifs
  · rfl
  · rfl

theorem coerceStep_of_no_args (hs : asDict s.args = none) :
    coerceStep lower catalog guardOwned s = s := by
  have hargs : coerceStepArgs lower s.args
      (((asStr s.tool).map (schemaOf catalog)).getD .null) guardOwned = (s.args, false) := by
    rw [coerceStepArgs, hs]
  unfold coerceStep
  dsimp only
  rw [hargs]
  exact ite_self _

theorem coerceStep_of_unknown
    (h : ∀ tool, asStr s.tool = some tool → isNull (schemaOf catalog tool) = true) :
    coerceStep lower catalog guardOwned s = s := by
  unfold coerceStep
  cases htool : asStr s.tool with
  | none => rfl
  | some tool =>
    simp only [Option.map_some, Option.getD_some, h tool htool, if_true]

/-! ## What is conformed is left alone -/

theorem member_of_normalize {enum : List String} {val v : String}
    (h : enumVerdict lower enum val = .normalize v) : v ∈ enum := by
  unfold enumVerdict at h
  by_cases hval : val ∈ enum
  · rw [if_pos hval] at h
    cases h
  · rw [if_neg hval] at h
    cases hfolded : enum.filter fun v => lower v = lower val with
    | nil =>
      rw [hfolded] at h
      cases h
    | cons w rest =>
      rw [hfolded] at h
      cases rest with
      | nil =>
        obtain rfl := Verdict.normalize.inj h
        exact List.mem_of_mem_filter (by rw [hfolded]; exact List.mem_singleton_self w)
      | cons w' rest => cases h

theorem member_of_keep {enum : List String} {val : String}
    (h : enumVerdict lower enum val = .keep) : val ∈ enum := by
  unfold enumVerdict at h
  by_contra hval
  rw [if_neg hval] at h
  split at h
  · cases h
  · cases h

theorem verdict_keep_iff : verdict lower props guardOwned f = .keep ↔
    (f.1 ∈ universalArgs ∨ f.1 ∈ guardOwned) ∨ declares props f.1 = true ∧
      ∀ enum val, stringEnum (props.get f.1) = some enum → asStr f.2 = some val → val ∈ enum := by
  unfold verdict
  by_cases hexempt : f.1 ∈ universalArgs ∨ f.1 ∈ guardOwned
  · simp [hexempt]
  rw [if_neg hexempt]
  by_cases hdeclared : declares props f.1 = true
  swap
  · simp [hdeclared, hexempt]
  simp only [hdeclared, hexempt, Bool.not_true, Bool.false_eq_true, if_false, true_and, false_or]
  cases henum : stringEnum (props.get f.1) with
  | none => simp
  | some enum =>
    cases hval : asStr f.2 with
    | none => simp
    | some val =>
      constructor
      · rintro hkeep _ _ ⟨⟩ ⟨⟩
        exact member_of_keep hkeep
      · intro hmem
        dsimp only
        rw [enumVerdict, if_pos (hmem enum val rfl rfl)]

theorem verdict_apply (h : (verdict lower props guardOwned f).apply f = some g) :
    verdict lower props guardOwned g = .keep := by
  cases hv : verdict lower props guardOwned f with
  | keep =>
    rw [hv] at h
    obtain rfl := Option.some.inj h
    exact hv
  | drop =>
    rw [hv] at h
    cases h
  | normalize v =>
    rw [hv] at h
    obtain rfl := Option.some.inj h
    rw [verdict_keep_iff]
    unfold verdict at hv
    split_ifs at hv with hexempt hdeclared
    refine .inr ⟨by simpa using hdeclared, fun enum val henum hval => ?_⟩
    obtain rfl := Option.some.inj hval
    dsimp only at henum
    rw [henum] at hv
    cases hval' : asStr f.2 with
    | none =>
      rw [hval'] at hv
      cases hv
    | some val =>
      rw [hval'] at hv
      exact member_of_normalize hv

theorem apply_fst {v : Verdict} (h : v.apply f = some g) : g.1 = f.1 := by
  cases v with
  | drop => cases h
  | keep | normalize value =>
    obtain rfl := Option.some.inj h
    rfl

theorem not_reserved_of_mem (hg : g ∈ conformed lower schema guardOwned d) :
    reserved g.1 = false := by
  unfold conformed at hg
  cases hprops : typedProps schema with
  | none =>
    rw [hprops] at hg
    simpa using (List.mem_filter.mp hg).2
  | some props =>
    rw [hprops] at hg
    obtain ⟨f, hf, happly⟩ := List.mem_filterMap.mp hg
    rw [apply_fst happly]
    simpa using (List.mem_filter.mp hf).2

theorem verdict_of_mem (hprops : typedProps schema = some props)
    (hg : g ∈ conformed lower schema guardOwned d) :
    verdict lower props guardOwned g = .keep := by
  unfold conformed at hg
  rw [hprops] at hg
  obtain ⟨f, -, happly⟩ := List.mem_filterMap.mp hg
  exact verdict_apply happly

theorem conformed_idempotent :
    conformed lower schema guardOwned (conformed lower schema guardOwned d) =
      conformed lower schema guardOwned d := by
  generalize hc : conformed lower schema guardOwned d = c
  have hfilter : (c.filter fun f => !reserved f.1) = c := by
    refine List.filter_eq_self.mpr fun f hf => ?_
    rw [not_reserved_of_mem (hc ▸ hf), Bool.not_false]
  unfold conformed
  rw [hfilter]
  cases hprops : typedProps schema with
  | none => rfl
  | some props =>
    refine filterMap_unchanged fun f hf => ?_
    rw [verdict_of_mem hprops (hc ▸ hf)]
    rfl

theorem coerceStep_tool : (coerceStep lower catalog guardOwned s).tool = s.tool := by
  unfold coerceStep
  dsimp only
  split_ifs
  · rfl
  · rfl
  · rfl

theorem coerceStep_idempotent :
    coerceStep lower catalog guardOwned (coerceStep lower catalog guardOwned s) =
      coerceStep lower catalog guardOwned s := by
  by_cases hknown : ∀ tool, asStr s.tool = some tool → isNull (schemaOf catalog tool) = true
  · rw [coerceStep_of_unknown hknown, coerceStep_of_unknown hknown]
  · simp only [not_forall, Bool.not_eq_true] at hknown
    obtain ⟨tool, htool, hschema⟩ := hknown
    cases hs : s.args with
    | obj d =>
      rw [coerceStep_of_args hs htool hschema]
      refine (coerceStep_of_args rfl ?_ hschema).trans ?_
      · exact htool
      · rw [conformed_idempotent]
    | _ =>
      have hnone : asDict s.args = none := by rw [hs]; rfl
      rw [coerceStep_of_no_args hnone, coerceStep_of_no_args hnone]

theorem coerceFramework_idempotent (steps : List ProposedStep) :
    coerceFrameworkToSchema lower catalog guardOwned
        (coerceFrameworkToSchema lower catalog guardOwned steps) =
      coerceFrameworkToSchema lower catalog guardOwned steps := by
  induction steps with
  | nil => rfl
  | cons s rest ih =>
    by_cases hhash : hashable s.tool = true
    · rw [coerceFrameworkToSchema, if_pos hhash, coerceFrameworkToSchema, coerceStep_tool,
        if_pos hhash, ih, coerceStep_idempotent]
    · rw [coerceFrameworkToSchema, if_neg hhash, coerceFrameworkToSchema, if_neg hhash]

theorem coerceFramework_getElem? {steps : List ProposedStep} {j : ℕ} (hs : steps[j]? = some s)
    (hhash : ∀ i t, i ≤ j → steps[i]? = some t → hashable t.tool = true) :
    (coerceFrameworkToSchema lower catalog guardOwned steps)[j]? =
      some (coerceStep lower catalog guardOwned s) := by
  induction steps generalizing j with
  | nil => cases hs
  | cons t rest ih =>
    rw [coerceFrameworkToSchema, if_pos (hhash 0 t (Nat.zero_le j) rfl)]
    cases j with
    | zero =>
      obtain rfl := Option.some.inj hs
      rfl
    | succ j => exact ih hs fun i u hi hu => hhash (i + 1) u (by omega) hu

end

/-! ## Conforming frameworks -/

/-- The arguments of a step; what is no object has none. -/
def ProposedStep.arguments (s : ProposedStep) : Dict := (asDict s.args).getD []

/-- What the guard makes of the arguments of a tool.  The strings of the enumerations need not be
valid where `owned` holds. -/
structure Conforms (guardOwned : List String) (owned : String → Prop) (schema : Json)
    (args args' : Dict) : Prop where
  unmarked : ∀ f ∈ args', reserved f.1 = false
  declared : ∀ props, typedProps schema = some props → ∀ f ∈ args',
    f.1 ∈ universalArgs ∨ f.1 ∈ guardOwned ∨ declares props f.1 = true
  valid : ∀ props, typedProps schema = some props → ∀ f ∈ args', ¬ owned f.1 →
    ∀ enum val, stringEnum (props.get f.1) = some enum → asStr f.2 = some val → val ∈ enum
  unchanged : ∀ f ∈ args, reserved f.1 = false →
    (∀ props, typedProps schema = some props → declares props f.1 = true ∧
      ∀ enum val, stringEnum (props.get f.1) = some enum → asStr f.2 = some val → val ∈ enum) →
    f ∈ args'

/-- The name belongs to the pipe or to a later guard. -/
def Owned (guardOwned : List String) (argName : String) : Prop :=
  argName ∈ universalArgs ∨ argName ∈ guardOwned

section
variable {lower : String → String} {guardOwned : List String} {schema : Json} {d : Dict}

theorem conforms_conformed :
    Conforms guardOwned (Owned guardOwned) schema d (conformed lower schema guardOwned d) := by
  constructor
  case unmarked => exact fun f hf => not_reserved_of_mem hf
  case declared =>
    intro props hprops f hf
    obtain hexempt | ⟨hdeclared, -⟩ := verdict_keep_iff.mp (verdict_of_mem hprops hf)
    · exact hexempt.imp_right .inl
    · exact .inr (.inr hdeclared)
  case valid =>
    intro props hprops f hf howned
    obtain hexempt | ⟨-, hvalid⟩ := verdict_keep_iff.mp (verdict_of_mem hprops hf)
    · exact absurd hexempt howned
    · exact hvalid
  case unchanged =>
    intro f hf hreserved hschema
    have hout : f ∈ d.filter fun f => !reserved f.1 := by
      rw [List.mem_filter, hreserved]
      exact ⟨hf, rfl⟩
    unfold conformed
    cases hprops : typedProps schema with
    | none => exact hout
    | some props =>
      refine List.mem_filterMap.mpr ⟨f, hout, ?_⟩
      rw [verdict_keep_iff.mpr (.inr (hschema props hprops))]
      rfl

/-- Of the arguments that belong to the pipe or to a later guard only the names are judged; all
others are conformed, and a second pass changes nothing. -/
theorem coerceFramework_conforms (lower : String → String) (catalog : List CatalogEntry)
    (guardOwned : List String) (steps : List ProposedStep) :
    (∀ (j : ℕ) s tool, steps[j]? = some s → asStr s.tool = some tool →
      isNull (schemaOf catalog tool) = false →
      (∀ i t, i ≤ j → steps[i]? = some t → hashable t.tool = true) →
      ∃ s', (coerceFrameworkToSchema lower catalog guardOwned steps)[j]? = some s' ∧
        s'.tool = s.tool ∧ Conforms guardOwned (Owned guardOwned) (schemaOf catalog tool)
          s.arguments s'.arguments) ∧
    coerceFrameworkToSchema lower catalog guardOwned
        (coerceFrameworkToSchema lower catalog guardOwned steps) =
      coerceFrameworkToSchema lower catalog guardOwned steps := by
  refine ⟨fun j s tool hs htool hschema hhash => ?_, coerceFramework_idempotent steps⟩
  refine ⟨_, coerceFramework_getElem? hs hhash, coerceStep_tool, ?_⟩
  cases hargs : s.args with
  | obj d =>
    rw [coerceStep_of_args hargs htool hschema]
    unfold ProposedStep.arguments
    rw [hargs]
    exact conforms_conformed
  | _ =>
    have hnone : asDict s.args = none := by rw [hargs]; rfl
    rw [coerceStep_of_no_args hnone]
    unfold ProposedStep.arguments
    rw [hnone]
    exact ⟨nofun, nofun, nofun, nofun⟩

end

/-! ## A tool with a mode -/

/-- The mode is an enumeration with one value. -/
def filesCatalog : List CatalogEntry :=
  [⟨.str "get_files", .obj [("properties", .obj [("mode", .obj [("enum", .arr [.str "fast"])])])]⟩]

def filesStep (mode : String) : ProposedStep := ⟨.str "get_files", .obj [("mode", .str mode)]⟩

theorem coerceFramework_conforms_files :
    ∃ s', (coerceFrameworkToSchema String.toLower filesCatalog [] [filesStep "FAST"])[0]? = some s' ∧
      s'.tool = .str "get_files" ∧ Conforms [] (Owned []) (schemaOf filesCatalog "get_files")
        [("mode", .str "FAST")] s'.arguments := by
  refine (coerceFramework_conforms String.toLower filesCatalog [] [filesStep "FAST"]).1 0
    (filesStep "FAST") "get_files" rfl rfl rfl ?_
  intro i t hi ht
  obtain rfl : i = 0 := by omega
  obtain rfl := Option.some.inj ht
  rfl

/-- The mode belongs to a guard: a value that the enumeration does not have stays. -/
theorem owned_not_valid :
    ¬ ∀ (lower : String → String) (catalog : List CatalogEntry) (guardOwned : List String)
      (steps : List ProposedStep),
      (∀ (j : ℕ) s s' tool, steps[j]? = some s →
        (coerceFrameworkToSchema lower catalog guardOwned steps)[j]? = some s' →
        asStr s.tool = some tool → (∃ e ∈ catalog, asStr e.name = some tool) →
        Conforms guardOwned (fun _ => False) (schemaOf catalog tool) s.arguments s'.arguments) ∧
      coerceFrameworkToSchema lower catalog guardOwned
          (coerceFrameworkToSchema lower catalog guardOwned steps) =
        coerceFrameworkToSchema lower catalog guardOwned steps := by
  intro all
  have conforms := (all String.toLower filesCatalog ["mode"] [filesStep "wild"]).1 0
    (filesStep "wild") (filesStep "wild") "get_files" rfl rfl rfl
    ⟨_, List.mem_singleton_self _, rfl⟩
  have member := conforms.valid _ rfl ("mode", .str "wild") (List.mem_singleton_self _) id
    ["fast"] "wild" rfl rfl
  exact absurd member (by decide)

end Metnos.Engine
