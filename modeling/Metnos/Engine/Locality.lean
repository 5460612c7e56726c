import Metnos.Engine.Pipeline
import Metnos.Lib.Regex
import Metnos.Sanitizer.Digits

/-!
# Engine.Locality — where the data of a step are, and which step they come from

A reference by number is resolved twice.  The data come from the step at the position; the host
comes from the first step that bears the number, and only then from the position.  `histories` are
those that the loop of the executor builds, with what the outside decides as `act`.
-/

namespace Metnos.Engine

open Dynamic Regex Undo

/-- `_PATH_PRESERVING_TRANSFORMS` -/
def pathPreservingTransforms : List String :=
  ["filter_entries", "sort_entries", "classify_entries", "compare_entries"]

/-! ## The data -/

/-- The place of the step at a position, from one. -/
def stepIndex (history : List StepRun) (n : ℤ) : Option ℕ :=
  if 1 ≤ n ∧ n ≤ history.length then some (n - 1).toNat else none

/-! ## The host -/

/-- The place of the first step that bears the number, or of the step at the position. -/
def numberedIndex (history : List StepRun) (n : ℤ) : Option ℕ :=
  (history.findIdx? fun s => s.stepIdx = n).or (stepIndex history n)

def numberedAt (history : List StepRun) (n : ℤ) : Option StepRun :=
  (numberedIndex history n).bind fun j => history[j]?

/-- The host of the data, or else the one that ran the step. -/
def StepRun.dataAuthority (run : StepRun) : String :=
  (run.dataHost.filter fun host => host ≠ "").getD run.host

/-- The number in `from_step`. -/
def fromStep (interp : Interpreter) (step : StepSpec) : Option ℤ :=
  (stepNumber interp (step.args.get "from_step")).bind asInt

/-- `_referenced_producer` -/
def referencedProducer (interp : Interpreter) (step : StepSpec) (history : List StepRun) :
    Option StepRun :=
  match fromStep interp step with
  | some n => numberedAt history n
  | none =>
    if step.tool ∈ pathPreservingTransforms then
      history.reverse.find? fun run => (asList (run.result.get "entries")).isSome
    else none

/-- `_data_host_for_step` -/
def dataHostForStep (interp : Interpreter) (step : StepSpec) (history : List StepRun)
    (executionHost : String) : String :=
  if executionHost = "server" ∧ step.tool ∈ pathPreservingTransforms then
    ((referencedProducer interp step history).map StepRun.dataAuthority).getD executionHost
  else executionHost

/-! ## `Executor.run` -/

/-- What comes of a step that is not passed over, in the order of the source.  A step that was
invoked may be the last one. -/
inductive Outcome
  | identityChoice (result : Dict)
  | contextErrors (result : Dict)
  | describeSkipped (result : Dict)
  | unresolved (result : Dict)
  | notifySkipped (tool : String) (result : Dict)
  | guardRefused (tool : String) (result : Dict)
  | invoked (tool : String) (result : Dict) (host : String) (last : Bool)

namespace Outcome

/-- The step is recorded under its number in the plan, and not under its position. -/
def byPlan : Outcome → Bool
  | .identityChoice _ | .contextErrors _ | .describeSkipped _ | .unresolved _ => false
  | .notifySkipped _ _ | .guardRefused _ _ | .invoked _ _ _ _ => true

def last : Outcome → Bool
  | .contextErrors _ | .describeSkipped _ | .unresolved _ | .notifySkipped _ _ => false
  | .identityChoice _ | .guardRefused _ _ => true
  | .invoked _ _ _ last => last

def result : Outcome → Dict
  | .identityChoice result | .contextErrors result | .describeSkipped result | .unresolved result
  | .notifySkipped _ result | .guardRefused _ result | .invoked _ result _ _ => result

def tool (o : Outcome) (step : StepSpec) : String :=
  match o with
  | .identityChoice _ | .contextErrors _ | .describeSkipped _ | .unresolved _ => step.tool
  | .notifySkipped tool _ | .guardRefused tool _ | .invoked tool _ _ _ => tool

end Outcome

/-- The executor of a run.  `act` says what comes of the step at an index of the plan; where it says
nothing, the run raised. -/
structure Executor where
  interp : Interpreter
  seeds : List StepRun
  maxSteps : ℕ
  act : ℕ → StepSpec → List StepRun → Option Outcome

/-- `_seed_done_tools` -/
def seedDoneTools (seeds : List StepRun) : List String :=
  ((seeds.filter fun s => s.kind = "done").map StepRun.tool).filter fun t => t ≠ ""

inductive Move
  | stop
  | skip
  | record (o : Outcome)

def Executor.move (ex : Executor) (i : ℕ) (step : StepSpec) (history : List StepRun) : Move :=
  if ex.maxSteps ≤ i then .stop
  else if step.tool = "" then .stop
  else if !stepConditionPasses ex.interp step history then .skip
  else if step.tool ≠ "final_answer" ∧ step.tool ∈ seedDoneTools ex.seeds then .skip
  else if step.tool = "final_answer" then .stop
  else ((ex.act i step history).map Move.record).getD .stop

/-- A step that the run records, with its index in the plan and the history before it. -/
structure Recording where
  index : ℕ
  step : StepSpec
  before : List StepRun
  outcome : Outcome

/-- The step that is appended; only an invocation tells its host and the host of its data. -/
def Recording.run (interp : Interpreter) (r : Recording) : StepRun where
  stepIdx := if r.outcome.byPlan then r.index + 1 else r.before.length + 1
  tool := r.outcome.tool r.step
  result := r.outcome.result
  kind := "live"
  host := match r.outcome with
    | .invoked _ _ host _ => host
    | _ => "server"
  dataHost := match r.outcome with
    | .invoked _ _ host _ => some (dataHostForStep interp r.step r.before host)
    | _ => none

def Recording.after (interp : Interpreter) (r : Recording) : List StepRun :=
  r.before ++ [r.run interp]

namespace Executor

variable (ex : Executor)

/-- The loop from an index of the plan on. -/
def recordingsFrom : ℕ → List StepSpec → List StepRun → List Recording
  | _, [], _ => []
  | i, step :: rest, history =>
    match ex.move i step history with
    | .stop => []
    | .skip => recordingsFrom (i + 1) rest history
    | .record o =>
      let r : Recording := ⟨i, step, history, o⟩
      r :: if o.last then [] else recordingsFrom (i + 1) rest (r.after ex.interp)

def recordings (plan : List StepSpec) : List Recording := ex.recordingsFrom 0 plan ex.seeds

/-- The histories that a run goes through. -/
def histories (plan : List StepSpec) : List (List StepRun) :=
  ex.seeds :: (ex.recordings plan).map fun r => r.after ex.interp

end Executor

/-! ## Numbers and positions -/

/-- Every reference names one step, for its data and for its host. -/
def Agrees (history : List StepRun) : Prop :=
  ∀ n, numberedIndex history n = stepIndex history n

/-- The number is that of the next position, or of a step that bears it at its position. -/
def InPlace (history : List StepRun) (n : ℤ) : Prop :=
  n = history.length + 1 ∨ ∃ run, stepAt history n = some run ∧ run.stepIdx = n

section
variable {history : List StepRun} {run : StepRun} {n : ℤ} {j : ℕ}

theorem stepAt_eq_some : stepAt history n = some run ↔
    ∃ j, stepIndex history n = some j ∧ history[j]? = some run := by
  unfold stepAt stepIndex
  by_cases hn : 1 ≤ n
  · by_cases hlen : n ≤ history.length
    · rw [if_pos hn, if_pos ⟨hn, hlen⟩]
      simp
    · rw [if_pos hn, if_neg (fun h => hlen h.2), List.getElem?_eq_none (by omega)]
      simp
  · rw [if_neg hn, if_neg (fun h => hn h.1)]
    simp

theorem stepIndex_eq_some : stepIndex history n = some j ↔ n = j + 1 ∧ j < history.length := by
  unfold stepIndex
  split_ifs with h
  · rw [Option.some.injEq]
    omega
  · constructor
    · intro hnone
      cases hnone
    · intro hj
      omega

theorem inPlace_iff_of_agrees (agrees : Agrees history) : InPlace history n ↔
    n = history.length + 1 ∨ (history.findIdx? fun s => s.stepIdx = n) ≠ none := by
  unfold InPlace
  refine or_congr_right ⟨?_, ?_⟩
  · rintro ⟨run, hrun, hn⟩ hnone
    obtain ⟨j, -, hj⟩ := stepAt_eq_some.mp hrun
    rw [List.findIdx?_eq_none_iff] at hnone
    simpa [hn] using hnone run (List.mem_of_getElem? hj)
  · intro hfound
    obtain ⟨j, hj⟩ := Option.ne_none_iff_exists'.mp hfound
    have hindex : stepIndex history n = some j := by
      rw [← agrees n, numberedIndex, hj, Option.some_or]
    obtain ⟨hlt, hbears, -⟩ := List.findIdx?_eq_some_iff_getElem.mp hj
    exact ⟨history[j], stepAt_eq_some.mpr ⟨j, hindex, List.getElem?_eq_getElem hlt⟩,
      of_decide_eq_true hbears⟩

theorem agrees_append (agrees : Agrees history) :
    Agrees (history ++ [run]) ↔ InPlace history run.stepIdx := by
  rw [inPlace_iff_of_agrees agrees]
  unfold Agrees numberedIndex
  simp only [List.findIdx?_append, List.findIdx?_singleton]
  constructor
  · intro h
    by_cases hnone : (history.findIdx? fun s => s.stepIdx = run.stepIdx) = none
    · left
      have hn := h run.stepIdx
      rw [hnone] at hn
      simp only [decide_true, if_true, Option.none_or, Option.map_some, Option.some_or] at hn
      have := (stepIndex_eq_some.mp hn.symm).1
      omega
    · exact .inr hnone
  · intro h n
    cases hfound : history.findIdx? fun s => s.stepIdx = n with
    | some j =>
      rw [Option.some_or, Option.some_or]
      have hindex : stepIndex history n = some j := by
        rw [← agrees n, numberedIndex, hfound, Option.some_or]
      obtain ⟨hn, hj⟩ := stepIndex_eq_some.mp hindex
      exact (stepIndex_eq_some.mpr ⟨hn, by simp; omega⟩).symm
    | none =>
      by_cases hrun : run.stepIdx = n
      · have hnext : run.stepIdx = history.length + 1 := by
          obtain hnext | hborne := h
          · exact hnext
          · rw [hrun] at hborne
            exact absurd hfound hborne
        simp only [hrun, decide_true, if_true, Option.none_or, Option.map_some, Option.some_or]
        exact (stepIndex_eq_some.mpr ⟨by omega, by simp⟩).symm
      · simp [hrun]

theorem agrees_before {after : List StepRun} (agrees : Agrees (history ++ after)) :
    Agrees history := by
  intro n
  unfold numberedIndex
  cases hfound : history.findIdx? fun s => s.stepIdx = n with
  | none => rw [Option.none_or]
  | some j =>
    have hall : numberedIndex (history ++ after) n = some j := by
      rw [numberedIndex, List.findIdx?_append, hfound, Option.some_or, Option.some_or]
    rw [agrees n] at hall
    obtain ⟨hlt, -⟩ := List.findIdx?_eq_some_iff_getElem.mp hfound
    rw [Option.some_or]
    exact (stepIndex_eq_some.mpr ⟨(stepIndex_eq_some.mp hall).1, hlt⟩).symm

/-- Every step is in place among those before it. -/
def AllInPlace (history : List StepRun) : Prop :=
  ∀ before s after, history = before ++ s :: after → InPlace before s.stepIdx

theorem agrees_iff : Agrees history ↔ AllInPlace history := by
  induction history using List.reverseRecOn with
  | nil =>
    refine ⟨fun _ before s after h => ?_, fun _ n => ?_⟩
    · simp at h
    · rfl
  | append_singleton history run ih =>
    constructor
    · intro agrees before s after heq
      have hbefore : Agrees (before ++ [s]) := by
        rw [heq, List.append_cons] at agrees
        exact agrees_before agrees
      exact (agrees_append (agrees_before hbefore)).mp hbefore
    · intro all
      have hhistory : Agrees history := by
        refine ih.mpr fun before s after heq => all before s (after ++ [run]) ?_
        rw [heq]
        simp
      exact (agrees_append hhistory).mpr (all history run [] rfl)

end

/-! ## Runs -/

section
variable {ex : Executor}

theorem inPlace_run {r : Recording} : InPlace r.before (r.run ex.interp).stepIdx ↔
    (r.outcome.byPlan = true → InPlace r.before (r.index + 1)) := by
  unfold Recording.run
  by_cases hplan : r.outcome.byPlan = true
  · simp [hplan]
  · simp [hplan, InPlace]

theorem agrees_recordingsFrom {i : ℕ} {plan : List StepSpec} {history : List StepRun}
    (agrees : Agrees history) :
    (∀ r ∈ ex.recordingsFrom i plan history, Agrees (r.after ex.interp)) ↔
      ∀ r ∈ ex.recordingsFrom i plan history,
        r.outcome.byPlan = true → InPlace r.before (r.index + 1) := by
  induction plan generalizing i history with
  | nil => simp [Executor.recordingsFrom]
  | cons step rest ih =>
    unfold Executor.recordingsFrom
    cases ex.move i step history with
    | stop => simp
    | skip => exact ih agrees
    | record o =>
      dsimp only
      generalize hr : (⟨i, step, history, o⟩ : Recording) = r
      have hbefore : r.before = history := by rw [← hr]
      have hround : Agrees (r.after ex.interp) ↔
          (r.outcome.byPlan = true → InPlace r.before (r.index + 1)) := by
        rw [← inPlace_run, Recording.after, agrees_append (hbefore ▸ agrees)]
      rw [List.forall_mem_cons, List.forall_mem_cons, hround]
      refine and_congr_right fun hplace => ?_
      split_ifs
      · simp
      · exact ih (hround.mpr hplace)

/-- In all histories of a run the data and the host of a reference belong to one step, exactly if
every seed bears a number in place, and so does every step that is recorded under its number in the
plan. -/
theorem locality_follows_data_iff (ex : Executor) (plan : List StepSpec) :
    (∀ history ∈ ex.histories plan, ∀ n, numberedIndex history n = stepIndex history n) ↔
      AllInPlace ex.seeds ∧ ∀ r ∈ ex.recordings plan,
        r.outcome.byPlan = true → InPlace r.before (r.index + 1) := by
  unfold Executor.histories
  rw [List.forall_mem_cons, List.forall_mem_map, ← agrees_iff]
  exact and_congr_right fun agrees => agrees_recordingsFrom agrees

end

/-! ## A run with a seed -/

/-- The photos that came with the message, from a device. -/
def photos : StepRun := ⟨1, "@uploaded", [("entries", .arr [.obj []])], "input", "phone", none⟩

def twoReads : List StepSpec :=
  [⟨"read_messages", [], false⟩, ⟨"read_files", [], false⟩]

/-- Every step is invoked and finds nothing. -/
def seeded : Executor where
  interp := plainInterpreter
  seeds := [photos]
  maxSteps := 12
  act := fun _ step _ => some (.invoked step.tool [("entries", .arr [])] "server" false)

/-- After the seed, the second step of the plan bears the number of the first one's position. -/
theorem seed_moves_references :
    ¬ ∀ (ex : Executor) (plan : List StepSpec), ∀ history ∈ ex.histories plan,
      ∀ n, numberedIndex history n = stepIndex history n := by
  intro all
  have apart : ((seeded.histories twoReads).any fun history =>
      numberedIndex history 2 ≠ stepIndex history 2) = true := by decide +kernel
  obtain ⟨history, hmem, hne⟩ := List.any_eq_true.mp apart
  exact of_decide_eq_true hne (all seeded twoReads history hmem 2)

end Metnos.Engine
