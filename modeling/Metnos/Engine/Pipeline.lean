import Metnos.Engine.Effects
import Metnos.Engine.Projection

/-!
# Engine.Pipeline — what one step takes from the steps before it

`resolveFromStep` picks the list of a result that goes to the consumer, by presence and type.
`mutatingInputIsEmpty` asks beforehand whether that list is empty, and `stepListPayload` picks it in
its own way, by truth and from more keys.
-/

namespace Metnos.Engine

open Dynamic

/-- A step of the plan. -/
structure StepSpec where
  tool : String
  args : Dict
  ifPrevEntriesNonempty : Bool

/-- A step that ran, or that was there before the plan; `kind` says which. -/
structure StepRun where
  stepIdx : ℤ
  tool : String
  result : Dict
  kind : String
  host : String
  dataHost : Option String

/-- `_ENTRIES_CONSUMERS` -/
def entriesConsumers : List String :=
  ["filter_entries", "sort_entries", "group_entries", "compute_entries", "classify_entries",
    "compare_entries", "extract_entries", "describe_entries"]

/-- `_TEMPLATE_CONSUMERS` -/
def templateConsumers : List String := ["write_files", "move_files"]

/-- `_TEMPLATE_ARGS` -/
def templateArgs : List String :=
  ["content_template", "path_template", "dst_template", "content_field"]

def nonEmptyList (v : Json) : Option (List Json) := (asList v).filter fun items => !items.isEmpty

/-- `_step_list_payload` -/
def stepListPayload (result : Dict) : Option (List Json) :=
  ["entries", "results", "lines", "matches"].findSome? fun k => nonEmptyList (result.get k)

/-- A non-empty list of which the first element is an object. -/
def listOfDicts (v : Json) : Option (List Json) :=
  (asList v).filter fun items => items.head?.any fun v => (asDict v).isSome

/-- `_find_list_of_dicts` -/
def findListOfDicts (result : Dict) : List Json :=
  (result.findSome? fun f => listOfDicts f.2).getD []

/-- The list of a result that goes to the consumer. -/
def fromStepEntries (result : Dict) : List Json :=
  match asList (result.get "entries"), asList (result.get "results") with
  | some entries, _ => entries
  | none, some results => results
  | none, none => findListOfDicts result

def stepAt (history : List StepRun) (n : ℤ) : Option StepRun :=
  if 1 ≤ n then history[(n - 1).toNat]? else none

/-! ## `_resolve_from_step` -/

/-- `if isinstance(n, str) and n.isdigit(): n = int(n)` -/
def stepNumber (interp : Interpreter) (v : Json) : Option Json :=
  match asStr v with
  | none => some v
  | some s => if interp.isdigit s then (interp.int (.str s)).map .int else some v

/-! ## `_mutating_input_is_empty` -/

namespace StepSpec

def isMutating (step : StepSpec) : Bool := mutatingToolPrefixes.any fun p => p.isPrefixOf step.tool

def consumes (step : StepSpec) : Bool :=
  !isNull (step.args.get "from_step") || step.args.has "entries" || step.tool ∈ entriesConsumers ||
    step.tool ∈ templateConsumers || templateArgs.any fun k => step.args.has k

end StepSpec

/-- `int(v)` -/
def readInt (interp : Interpreter) (v : Json) : Option ℤ := (asInt v).or (interp.int v)

def mutatingInputIsEmpty (interp : Interpreter) (step : StepSpec) (history : List StepRun) : Bool :=
  if !step.isMutating || !step.consumes then false
  else if !isNull (step.args.get "from_step") then
    match (readInt interp (step.args.get "from_step")).bind (stepAt history) with
    | none => false
    | some run => (stepListPayload run.result).isNone
  else match asList (step.args.get "entries") with
    | some entries => entries.isEmpty
    | none => history.getLast?.any fun run => (stepListPayload run.result).isNone

/-- The step that the condition looks at. -/
def conditionProducer (interp : Interpreter) (step : StepSpec) (history : List StepRun) :
    Option StepRun :=
  let source := step.args.get "from_step"
  ((if isNull source then none else readInt interp source).bind (stepAt history)).or
    history.getLast?

/-- `_step_condition_passes` -/
def stepConditionPasses (interp : Interpreter) (step : StepSpec) (history : List StepRun) : Bool :=
  if step.ifPrevEntriesNonempty && history.isEmpty then true
  else if step.ifPrevEntriesNonempty &&
      (conditionProducer interp step history).all fun run => (stepListPayload run.result).isNone then
    false
  else !mutatingInputIsEmpty interp step history

/-! ## The list and the payload -/

section
variable {interp : Interpreter} {step : StepSpec} {history : List StepRun} {run : StepRun} {n : ℤ}
  {result : Dict}

theorem nonEmptyList_of_list {v : Json} {items : List Json} (h : asList v = some items) :
    nonEmptyList v = none ↔ items = [] := by
  unfold nonEmptyList
  rw [h]
  cases items with
  | nil => simp [Option.filter]
  | cons v rest => simp [Option.filter]

theorem nonEmptyList_of_none {v : Json} (h : asList v = none) : nonEmptyList v = none := by
  unfold nonEmptyList
  rw [h]
  rfl

theorem stepListPayload_eq_none : stepListPayload result = none ↔
    nonEmptyList (result.get "entries") = none ∧ nonEmptyList (result.get "results") = none ∧
      nonEmptyList (result.get "lines") = none ∧ nonEmptyList (result.get "matches") = none := by
  unfold stepListPayload
  rw [List.findSome?_eq_none_iff]
  simp

theorem findListOfDicts_eq_nil : findListOfDicts result = [] ↔
    ∀ f ∈ result, listOfDicts f.2 = none := by
  unfold findListOfDicts
  cases hfound : result.findSome? fun f => listOfDicts f.2 with
  | none => simpa using hfound
  | some items =>
    obtain ⟨f, hf, hitems⟩ := List.exists_of_findSome?_eq_some hfound
    have hne : items ≠ [] := by
      rintro rfl
      unfold listOfDicts at hitems
      have := (Option.filter_eq_some_iff.mp hitems).2
      simp at this
    simp only [Option.getD_some, hne, false_iff, not_forall]
    exact ⟨f, hf, by simp [hitems]⟩

/-- The payload has no other list to offer where the list that goes to the consumer is empty, and it
sees that list where no key names it. -/
def payloadAgrees (result : Dict) : Bool :=
  let others := (nonEmptyList (result.get "lines")).isSome ||
    (nonEmptyList (result.get "matches")).isSome
  match asList (result.get "entries"), asList (result.get "results") with
  | some entries, _ =>
    !entries.isEmpty || !((nonEmptyList (result.get "results")).isSome || others)
  | none, some results => !results.isEmpty || !others
  | none, none => (result.any fun f => (listOfDicts f.2).isSome) = others

theorem payload_agrees_iff :
    (stepListPayload result = none ↔ fromStepEntries result = []) ↔
      payloadAgrees result = true := by
  rw [stepListPayload_eq_none]
  unfold fromStepEntries payloadAgrees
  cases hentries : asList (result.get "entries") with
  | some entries =>
    rw [nonEmptyList_of_list hentries]
    by_cases hempty : entries = []
    · simp [hempty]
    · simp [hempty]
  | none =>
    rw [nonEmptyList_of_none hentries]
    cases hresults : asList (result.get "results") with
    | some results =>
      rw [nonEmptyList_of_list hresults]
      by_cases hempty : results = []
      · simp [hempty]
      · simp [hempty]
    | none =>
      rw [nonEmptyList_of_none hresults]
      have hany : (result.any fun f => (listOfDicts f.2).isSome) = false ↔
          findListOfDicts result = [] := by
        rw [findListOfDicts_eq_nil, List.any_eq_false]
        simp
      have hothers : ((nonEmptyList (result.get "lines")).isSome ||
          (nonEmptyList (result.get "matches")).isSome) = false ↔
          nonEmptyList (result.get "lines") = none ∧ nonEmptyList (result.get "matches") = none := by
        simp
      dsimp only
      rw [← hany, decide_eq_true_eq, eq_self, true_and, true_and, ← hothers]
      generalize (result.any fun f => (listOfDicts f.2).isSome) = found
      generalize ((nonEmptyList (result.get "lines")).isSome ||
        (nonEmptyList (result.get "matches")).isSome) = others
      revert found others
      decide

theorem mutatingInputIsEmpty_eq (mutating : step.isMutating = true)
    (hn : asInt (step.args.get "from_step") = some n) (hrun : stepAt history n = some run) :
    mutatingInputIsEmpty interp step history = (stepListPayload run.result).isNone := by
  have hpresent : isNull (step.args.get "from_step") = false := by
    cases hv : step.args.get "from_step" with
    | null =>
      rw [hv] at hn
      cases hn
    | _ => rfl
  unfold mutatingInputIsEmpty StepSpec.consumes readInt
  simp [mutating, hpresent, hn, hrun]

/-! ## The rule of the empty input -/

/-- The rule and the projection agree on a mutating step that names a step in range exactly where the
payload and the projected list of the result do. -/
theorem empty_input_agrees_iff (mutating : step.isMutating = true)
    (hn : asInt (step.args.get "from_step") = some n) (hrun : stepAt history n = some run) :
    (mutatingInputIsEmpty interp step history = true ↔ fromStepEntries run.result = []) ↔
      payloadAgrees run.result = true := by
  rw [mutatingInputIsEmpty_eq mutating hn hrun, Option.isNone_iff_eq_none]
  exact payload_agrees_iff

end

/-- Messages go out for the entries of the first step. -/
def sendEntries : StepSpec := ⟨"send_messages", [("from_step", .int 1)], false⟩

def nothingRead : StepRun :=
  ⟨1, "read_messages", [("entries", .arr [])], "live", "server", none⟩

/-- Nothing matches, and the issues that were searched are there. -/
def nothingFound : StepRun :=
  ⟨1, "find_issues", [("entries", .arr []), ("results", .arr [.obj []])], "live", "server", none⟩

theorem empty_input_agrees_iff_nothing :
    (mutatingInputIsEmpty plainInterpreter sendEntries [nothingRead] = true ↔
      fromStepEntries nothingRead.result = []) ↔ payloadAgrees nothingRead.result = true :=
  empty_input_agrees_iff (by decide +kernel)
    (show asInt (sendEntries.args.get "from_step") = some 1 from rfl)
    (show stepAt [nothingRead] 1 = some nothingRead from rfl)

/-- No entries and one result: the projected list is empty, and the step is not skipped. -/
theorem results_stand_for_entries :
    ¬ ∀ (interp : Interpreter) (step : StepSpec) (history : List StepRun) (n : ℤ) (run : StepRun),
      step.isMutating = true → asInt (step.args.get "from_step") = some n →
      stepAt history n = some run →
        (mutatingInputIsEmpty interp step history = true ↔ fromStepEntries run.result = []) := by
  intro all
  have agrees := all plainInterpreter sendEntries [nothingFound] 1 nothingFound
    (by decide +kernel) rfl rfl
  have nothing : fromStepEntries nothingFound.result = [] := rfl
  exact absurd (agrees.mpr nothing) (by decide +kernel)

end Metnos.Engine
