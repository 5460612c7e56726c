import Metnos.Lib.Dynamic

/-!
# Engine.Effects — what the steps of a turn really changed

`pipelineEffectCounts` counts the effects that are reported; `committedMutations` names the steps
that a recovery must not run again.  Both read the same steps, each with tests of its own.  `loads`
is the interpreter's `json.loads`, which gives nothing where it raises.
-/

namespace Metnos.Engine

open Dynamic

/-- A step, as an object with these attributes or as a dict with these keys (`mapping`). -/
structure Step where
  mapping : Bool
  chosenTool : String
  tool : String
  result : Json
  resolvedArgs : Json
  args : Json
  rawArgs : Json
  executionEffect : Option String
  kind : Option String
  ok : Json

/-- `MUTATING_TOOL_PREFIXES` -/
def mutatingToolPrefixes : List String :=
  ["delete_", "move_", "change_", "send_", "create_", "set_", "write_", "share_", "render_",
    "compress_", "organize_"]

/-- `MUTATE_COUNT_KEYS` -/
def mutateCountKeys : List String :=
  ["n_deleted", "n_moved", "n_sent", "n_created", "n_written", "n_set", "n_shared", "n_changed",
    "n_ordered", "n_organized", "ok_count"]

namespace Step

/-- `_step_tool`; an empty name is none. -/
def stepTool (s : Step) : String := if s.chosenTool ≠ "" then s.chosenTool else s.tool

/-- `not tool or tool == "final_answer" or tool.startswith("@")` -/
def passedOver (s : Step) : Bool :=
  s.stepTool = "" || s.stepTool = "final_answer" || "@".isPrefixOf s.stepTool

/-- `_step_result` -/
def stepResult (loads : String → Option Json) (s : Step) : Option Dict :=
  match s.result with
  | .str text => (loads text).bind asDict
  | v => asDict v

/-- `_step_args` -/
def stepArgs (s : Step) : Dict :=
  (((asDict s.resolvedArgs).or (asDict s.args)).or (asDict s.rawArgs)).getD []

/-- `_is_mutating_step` -/
def isMutating (s : Step) : Bool :=
  match s.executionEffect with
  | some effect => effect ≠ "read_only" && effect ≠ "interactive"
  | none => mutatingToolPrefixes.any fun p => p.isPrefixOf s.stepTool

/-- `(kind or "live") == "live"` -/
def isLive (s : Step) : Bool := s.kind.all fun k => k = "" || k = "live"

/-- `getattr(s, "ok", None) is False`; a dict has no such attribute. -/
def failed (s : Step) : Bool := !s.mapping && isFalse s.ok

/-- The step consumed an empty list of entries. -/
def emptyInput (s : Step) : Bool := (asList (s.stepArgs.get "entries")).any List.isEmpty

end Step

/-- `_mutation_count` -/
def mutationCount (res : Dict) : Option ℤ :=
  if (asDict (res.get "_undo")).any fun metadata => asStr (metadata.get "outcome") = some "no_effect"
  then some 0
  else (mutateCountKeys.findSome? fun k => asInt (res.get k)).or
    ((asList (res.get "results")).map fun results => (results.length : ℤ))

def isDuplicate (res : Dict) : Bool := isTrue (res.get "_duplicate")

def resultFailed (res : Dict) : Bool := isFalse (res.get "ok")

/-- `_partial`: a failed step of which a part was done. -/
def isPartial (res : Dict) : Bool := (res.get "ok_count").truthy || (res.get "results").truthy

/-! ## `pipeline_effect_counts` -/

structure Counts where
  countable : ℕ
  items : ℕ
  mutations : ℕ
  mutatingAttempted : Bool
  failures : ℕ

namespace Counts

def start : Counts := ⟨0, 0, 0, false, 0⟩

def failure (c : Counts) (s : Step) (res : Dict) : Counts :=
  let c := { c with failures := c.failures + 1 }
  if s.isMutating then
    let c := { c with mutatingAttempted := true }
    match mutationCount res with
    | some n =>
      if n ≠ 0 then
        { c with countable := c.countable + 1, mutations := c.mutations + n.toNat }
      else c
    | none => c
  else c

def mutation (c : Counts) (s : Step) (res : Dict) : Counts :=
  let c := { c with mutatingAttempted := true }
  if s.emptyInput then { c with countable := c.countable + 1 }
  else match mutationCount res with
    | none => c
    | some n => { c with countable := c.countable + 1, mutations := c.mutations + n.toNat }

def production (c : Counts) (res : Dict) : Counts :=
  match asList (res.get "entries"), asList (res.get "results"), asInt (res.get "ok_count") with
  | some entries, _, _ => { c with countable := c.countable + 1, items := c.items + entries.length }
  | none, some results, _ =>
    { c with countable := c.countable + 1, items := c.items + results.length }
  | none, none, some n => { c with countable := c.countable + 1, items := c.items + n.toNat }
  | none, none, none => c

def step (loads : String → Option Json) (c : Counts) (s : Step) : Counts :=
  if s.passedOver then c
  else match s.stepResult loads with
    | none => c
    | some res =>
      if isDuplicate res then c
      else if resultFailed res then c.failure s res
      else if s.isMutating then c.mutation s res
      else c.production res

end Counts

def pipelineEffectCounts (loads : String → Option Json) (steps : List Step) : Option Counts :=
  let c := steps.foldl (Counts.step loads) .start
  if c.countable = 0 ∧ c.failures = 0 then none else some c

/-! ## `committed_mutations` -/

/-- One round of the loop: what it appends. -/
def committed (loads : String → Option Json) (s : Step) : List String :=
  if !s.isLive then []
  else if s.passedOver then []
  else if !s.isMutating then []
  else match s.stepResult loads with
    | none => if s.failed || s.emptyInput then [] else [s.stepTool]
    | some res =>
      if isDuplicate res then []
      else if s.failed && !isPartial res then []
      else if resultFailed res && !isPartial res then []
      else if s.emptyInput then []
      else match mutationCount res with
        | none => [s.stepTool]
        | some n => if 0 < n then [s.stepTool] else []

def committedMutations (loads : String → Option Json) (steps : List Step) : List String :=
  steps.flatMap (committed loads)

/-! ## What one step adds -/

section
variable {loads : String → Option Json} {c : Counts} {s : Step} {res : Dict}

/-- The mutations that a step adds to the count. -/
def mutationsOf (loads : String → Option Json) (s : Step) : ℕ :=
  if s.passedOver || !s.isMutating then 0
  else match s.stepResult loads with
    | none => 0
    | some res =>
      if isDuplicate res || !resultFailed res && s.emptyInput then 0
      else ((mutationCount res).getD 0).toNat

theorem failure_mutations : (c.failure s res).mutations =
    c.mutations + if s.isMutating then ((mutationCount res).getD 0).toNat else 0 := by
  unfold Counts.failure
  by_cases hmut : s.isMutating = true
  · simp only [hmut, if_true]
    cases mutationCount res with
    | none => rfl
    | some n =>
      by_cases hn : n = 0
      · simp [hn]
      · simp [hn]
  · simp [hmut]

theorem mutation_mutations : (c.mutation s res).mutations =
    c.mutations + if s.emptyInput then 0 else ((mutationCount res).getD 0).toNat := by
  unfold Counts.mutation
  by_cases hempty : s.emptyInput = true
  · simp [hempty]
  · cases mutationCount res with
    | none => simp [hempty]
    | some n => simp [hempty]

theorem production_mutations : (c.production res).mutations = c.mutations := by
  unfold Counts.production
  split <;> rfl

theorem step_mutations : (c.step loads s).mutations = c.mutations + mutationsOf loads s := by
  unfold Counts.step mutationsOf
  by_cases hpass : s.passedOver = true
  · simp [hpass]
  cases s.stepResult loads with
  | none => simp [hpass]
  | some res =>
    by_cases hdup : isDuplicate res = true
    · simp [hdup, hpass]
    by_cases hfail : resultFailed res = true
    · by_cases hmut : s.isMutating = true
      · simp [hpass, hdup, hfail, hmut, failure_mutations]
      · simp [hpass, hdup, hfail, hmut, failure_mutations]
    · by_cases hmut : s.isMutating = true
      · simp [hpass, hdup, hfail, hmut, mutation_mutations]
      · simp [hpass, hmut, hfail, hdup, production_mutations]

theorem step_countable (h : c.countable = 0 → c.mutations = 0)
    (zero : (c.step loads s).countable = 0) : (c.step loads s).mutations = 0 := by
  have grown : ∀ c' : Counts, c'.countable = c.countable → c'.mutations = c.mutations →
      c'.countable = 0 → c'.mutations = 0 := fun c' hc hm hz => by omega
  revert zero
  unfold Counts.step Counts.failure Counts.mutation Counts.production
  dsimp only
  split_ifs
  all_goals repeat' split
  all_goals first
    | exact grown _ rfl rfl
    | exact fun hz => absurd hz (Nat.succ_ne_zero _)

theorem foldl_mutations (steps : List Step) :
    (steps.foldl (Counts.step loads) c).mutations =
      c.mutations + (steps.map (mutationsOf loads)).sum := by
  induction steps generalizing c with
  | nil => rfl
  | cons s steps ih =>
    rw [List.foldl_cons, ih, step_mutations, List.map_cons, List.sum_cons, Nat.add_assoc]

theorem foldl_countable (steps : List Step) (h : c.countable = 0 → c.mutations = 0) :
    (steps.foldl (Counts.step loads) c).countable = 0 →
      (steps.foldl (Counts.step loads) c).mutations = 0 := by
  induction steps generalizing c with
  | nil => exact h
  | cons s steps ih => exact ih (step_countable h)

/-- The mutations of a turn; a turn that is not judged has none. -/
def mutationsIn (loads : String → Option Json) (steps : List Step) : ℕ :=
  ((pipelineEffectCounts loads steps).map Counts.mutations).getD 0

theorem mutationsIn_eq (steps : List Step) :
    mutationsIn loads steps = (steps.map (mutationsOf loads)).sum := by
  have total : (steps.foldl (Counts.step loads) .start).mutations =
      Counts.start.mutations + (steps.map (mutationsOf loads)).sum := foldl_mutations steps
  rw [show Counts.start.mutations = 0 from rfl, Nat.zero_add] at total
  unfold mutationsIn pipelineEffectCounts
  dsimp only
  by_cases hzero : (steps.foldl (Counts.step loads) .start).countable = 0 ∧
      (steps.foldl (Counts.step loads) .start).failures = 0
  · rw [if_pos hzero, ← total]
    exact (foldl_countable steps (fun _ => rfl) hzero.1).symm
  · rw [if_neg hzero, ← total]
    rfl

/-! ## Retry protection -/

/-- The step is counted with a positive number of mutations. -/
def CountedAfter (loads : String → Option Json) (pre : List Step) (s : Step) : Prop :=
  mutationsIn loads pre < mutationsIn loads (pre ++ [s])

theorem countedAfter_iff {pre : List Step} :
    CountedAfter loads pre s ↔ 0 < mutationsOf loads s := by
  unfold CountedAfter
  rw [mutationsIn_eq, mutationsIn_eq, List.map_append, List.sum_append]
  simp

/-- The mutating step changed something, and a mark of failure hides it: its result failed and shows
no part that was done, or it had an empty input; or the step itself failed and shows no part. -/
def overlooked (loads : String → Option Json) (s : Step) : Bool :=
  !s.passedOver && s.isMutating && (s.stepResult loads).any fun res =>
    !isDuplicate res && (mutationCount res).any (fun n => 0 < n) &&
      if resultFailed res then !isPartial res || s.emptyInput
      else s.failed && !isPartial res && !s.emptyInput

theorem committed_of_counted (live : s.isLive = true) (counted : 0 < mutationsOf loads s) :
    committed loads s = [s.stepTool] ↔ overlooked loads s = false := by
  unfold mutationsOf at counted
  unfold committed overlooked
  by_cases hpass : s.passedOver = true
  · simp [hpass] at counted
  by_cases hmut : s.isMutating = true
  swap
  · simp [hmut] at counted
  simp only [hpass, hmut, live, Bool.not_true, Bool.or_false, Bool.false_eq_true, if_false,
    Bool.not_false, Bool.true_and] at counted ⊢
  cases hres : s.stepResult loads with
  | none => simp [hres] at counted
  | some res =>
    rw [hres] at counted
    dsimp only at counted ⊢
    by_cases hdup : isDuplicate res = true
    · simp [hdup] at counted
    cases hcount : mutationCount res with
    | none => simp [hcount] at counted
    | some n =>
      have hn : 0 < n := by
        by_contra hn
        have hzero : n.toNat = 0 := by omega
        simp [hcount, hzero] at counted
      simp only [hdup, hcount, Option.any_some, hn, if_true]
      by_cases hfail : resultFailed res = true
      · by_cases hpart : isPartial res = true
        · by_cases hempty : s.emptyInput = true
          · simp [hfail, hpart, hempty]
          · simp [hfail, hpart, hempty]
        · simp [hfail, hpart]
      · have hempty : s.emptyInput = false := by
          rw [← Bool.not_eq_true]
          intro hempty
          simp [hempty, hfail] at counted
        by_cases hpart : isPartial res = true
        · simp [hfail, hpart, hempty]
        · by_cases hown : s.failed = true
          · simp [hfail, hpart, hempty, hown]
          · simp [hfail, hpart, hempty, hown]

theorem committedMutations_append (pre post : List Step) :
    committedMutations loads (pre ++ s :: post) =
      committedMutations loads pre ++ (committed loads s ++ committedMutations loads post) := by
  unfold committedMutations
  rw [List.flatMap_append, List.flatMap_cons]

theorem counted_of_overlooked (h : overlooked loads s = true) : 0 < mutationsOf loads s := by
  unfold overlooked at h
  unfold mutationsOf
  rw [Bool.and_eq_true, Bool.and_eq_true, Bool.not_eq_true'] at h
  obtain ⟨⟨hpass, hmut⟩, h⟩ := h
  rw [hpass, hmut]
  cases hres : s.stepResult loads with
  | none => simp [hres] at h
  | some res =>
    rw [hres, Option.any_some, Bool.and_eq_true, Bool.and_eq_true] at h
    obtain ⟨⟨hdup, hcount⟩, h⟩ := h
    cases hn : mutationCount res with
    | none => simp [hn] at hcount
    | some n =>
      have hpos : 0 < n := by simpa [hn] using hcount
      rw [Bool.not_eq_true'] at hdup
      by_cases hfail : resultFailed res = true
      · simp only [hn, hdup, hfail, Option.getD_some, Bool.not_true, Bool.false_and, Bool.or_false,
          Bool.false_eq_true, if_false]
        omega
      · rw [if_neg hfail, Bool.and_eq_true, Bool.not_eq_true'] at h
        simp only [hn, hdup, h.2, Option.getD_some, Bool.not_true, Bool.and_false, Bool.or_false,
          Bool.false_eq_true, if_false]
        omega

end

/-- **Retry protection.**  In a list of live steps, all that are counted with mutations are reported
as committed exactly if no mark of failure hides one of them. -/
theorem retry_protects_iff (loads : String → Option Json) (steps : List Step)
    (live : ∀ s ∈ steps, s.isLive = true) :
    (∀ pre s post, steps = pre ++ s :: post → CountedAfter loads pre s →
      committedMutations loads steps =
        committedMutations loads pre ++ s.stepTool :: committedMutations loads post) ↔
    ∀ s ∈ steps, overlooked loads s = false := by
  have reported : ∀ pre s post, committedMutations loads (pre ++ s :: post) =
      committedMutations loads pre ++ s.stepTool :: committedMutations loads post ↔
        committed loads s = [s.stepTool] := by
    intro pre s post
    rw [committedMutations_append, List.append_cancel_left_eq,
      show s.stepTool :: committedMutations loads post =
        [s.stepTool] ++ committedMutations loads post from rfl, List.append_cancel_right_eq]
  constructor
  · intro h s hs
    rw [← Bool.not_eq_true]
    intro hover
    have counted := counted_of_overlooked hover
    obtain ⟨pre, post, hsteps⟩ := List.append_of_mem hs
    have hreport := h pre s post hsteps (countedAfter_iff.mpr counted)
    rw [hsteps, reported, committed_of_counted (live s hs) counted] at hreport
    rw [hreport] at hover
    cases hover
  · intro h pre s post hsteps hcounted
    have hs : s ∈ steps := by
      rw [hsteps]
      exact List.mem_append_right _ (List.mem_cons_self ..)
    rw [hsteps, reported]
    exact (committed_of_counted (live s hs) (countedAfter_iff.mp hcounted)).mpr (h s hs)

def stepRun (tool : String) (args result : Dict) (ok : Bool) : Step :=
  ⟨false, "", tool, .obj result, .null, .obj args, .null, none, some "live", .bool ok⟩

/-- Three files were moved and one was refused, with the count of the moved ones. -/
def movedPartly : Step :=
  stepRun "move_files" [] [("ok", .bool false), ("ok_count", .int 3)] false

/-- Three files were deleted and one was refused, with a count under another name. -/
def deletedPartly : Step :=
  stepRun "delete_files" [] [("ok", .bool false), ("n_deleted", .int 3)] false

theorem retry_protects_sample :
    committedMutations (fun _ => none) [movedPartly] = committedMutations (fun _ => none) [] ++
      "move_files" :: committedMutations (fun _ => none) [] :=
  (retry_protects_iff (fun _ => none) [movedPartly] (by decide)).mpr (by decide +kernel) [] _ [] rfl
    (countedAfter_iff.mpr (by decide +kernel))

/-- The count sees the deletions, the list of what was committed does not. -/
theorem deleted_not_committed :
    ¬ ∀ (loads : String → Option Json) (steps : List Step), (∀ s ∈ steps, s.isLive = true) →
      ∀ pre s post, steps = pre ++ s :: post → CountedAfter loads pre s →
        committedMutations loads steps =
          committedMutations loads pre ++ s.stepTool :: committedMutations loads post := by
  intro h
  have counted : 0 < mutationsOf (fun _ => none) deletedPartly := by decide +kernel
  have reported := h (fun _ => none) [deletedPartly] (by decide) [] deletedPartly [] rfl
    (countedAfter_iff.mpr counted)
  have nothing : committedMutations (fun _ => none) [deletedPartly] = [] := by decide +kernel
  rw [nothing] at reported
  cases reported

end Metnos.Engine
