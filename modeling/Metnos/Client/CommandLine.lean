import Metnos.Lib.WinArgs

/-!
# Client.CommandLine — the command line of a sandboxed process

`quote_win_arg` and `build_command_line`: `CreateProcessW` takes one string, which the process
splits again.
-/

namespace Metnos.Client.CommandLine

open WinArgs

/-- The loop of `quote_win_arg`, after `backslashes` of them. -/
def quoteBody : ℕ → Text → Text
  | backslashes, [] => List.replicate (backslashes * 2) '\\'
  | backslashes, c :: rest =>
    if c = '\\' then quoteBody (backslashes + 1) rest
    else if c = '"' then
      List.replicate (backslashes * 2 + 1) '\\' ++ '"' :: quoteBody 0 rest
    else List.replicate backslashes '\\' ++ c :: quoteBody 0 rest

def needsQuote (arg : Text) : Bool :=
  arg.isEmpty || arg.any (fun c => c = ' ' || c = '\t' || c = '"')

/-- `quote_win_arg`. -/
def quoteWinArg (arg : Text) : Text :=
  if needsQuote arg then '"' :: quoteBody 0 arg ++ ['"'] else arg

/-- `build_command_line`. -/
def buildCommandLine (parts : List Text) : Text :=
  List.intercalate [' '] (parts.map quoteWinArg)

/-! ## One argument -/

theorem scan_quoteBody (n : ℕ) (arg text rest : Text) :
    scan true 0 (some arg) (quoteBody n text ++ '"' :: rest) =
      scan false 0 (some (arg ++ List.replicate n '\\' ++ text)) rest := by
  induction text generalizing n arg with
  | nil =>
    rw [quoteBody, scan_backslashes, Nat.zero_add, Nat.mul_comm, scan_quote, List.append_nil]
    rfl
  | cons c text ih =>
    unfold quoteBody
    by_cases slash : c = '\\'
    · rw [if_pos slash, ih, List.replicate_succ', slash]
      simp
    rw [if_neg slash]
    by_cases quote : c = '"'
    · rw [if_pos quote, List.append_assoc, scan_backslashes, Nat.zero_add, Nat.mul_comm,
        List.cons_append, scan_literal_quote, ih, quote]
      simp
    · rw [if_neg quote, List.append_assoc, scan_backslashes, Nat.zero_add, List.cons_append,
        scan_plain ⟨slash, quote, fun h => by cases h⟩, ih]
      simp

theorem scan_quoteWinArg (arg rest : Text) :
    ∃ m arg', scan false 0 none (quoteWinArg arg ++ rest) = scan false m (some arg') rest ∧
      arg' ++ List.replicate m '\\' = arg := by
  unfold quoteWinArg
  by_cases needs : needsQuote arg = true
  · rw [if_pos needs]
    refine ⟨0, arg, ?_, List.append_nil arg⟩
    rw [List.cons_append, List.cons_append, List.append_assoc, List.singleton_append]
    have opening : scan false 0 none ('"' :: (quoteBody 0 arg ++ '"' :: rest)) =
        scan true 0 (some []) (quoteBody 0 arg ++ '"' :: rest) := scan_quote 0
    exact opening.trans (scan_quoteBody 0 [] arg rest)
  · rw [if_neg needs]
    simp only [needsQuote, Bool.or_eq_true, List.isEmpty_iff, List.any_eq_true, decide_eq_true_eq,
      not_or, not_exists, not_and] at needs
    obtain ⟨nonempty, bare⟩ := needs
    obtain ⟨c, text, rfl⟩ := List.exists_cons_of_ne_nil nonempty
    -- the first character begins the argument
    have first : scan false 0 none (c :: (text ++ rest)) =
        scan false 0 (some []) (c :: (text ++ rest)) := by
      by_cases slash : c = '\\'
      · subst slash
        rw [scan_backslash, scan_backslash]
        rfl
      · obtain ⟨⟨space, tab⟩, quote⟩ := bare c (List.mem_cons_self ..)
        have plain : Plain false c := ⟨slash, quote, fun _ => ⟨space, tab⟩⟩
        rw [scan_plain plain, scan_plain plain]
        rfl
    have others : ∀ d ∈ c :: text, d ≠ '"' ∧ d ≠ ' ' ∧ d ≠ '\t' := fun d hd =>
      ⟨(bare d hd).2, (bare d hd).1⟩
    obtain ⟨m, arg', hscan, harg⟩ : ∃ m arg', scan false 0 (some []) ((c :: text) ++ rest) =
        scan false m (some arg') rest ∧ arg' ++ List.replicate m '\\' = c :: text :=
      scan_bare others
    exact ⟨m, arg', first.trans hscan, harg⟩

/-! ## The command line -/

/-- **The command line is split into the arguments it was built from.** -/
theorem split_buildCommandLine (parts : List Text) : split (buildCommandLine parts) = parts := by
  unfold split buildCommandLine
  induction parts with
  | nil => rfl
  | cons arg parts ih =>
    cases parts with
    | nil =>
      obtain ⟨m, arg', hscan, harg⟩ := scan_quoteWinArg arg []
      rw [List.append_nil] at hscan
      show scan false 0 none (List.intercalate [' '] [quoteWinArg arg]) = [arg]
      rw [List.intercalate_singleton, hscan, scan_end, harg]
    | cons next parts =>
      obtain ⟨m, arg', hscan, harg⟩ := scan_quoteWinArg arg
        (' ' :: List.intercalate [' '] ((next :: parts).map quoteWinArg))
      rw [List.map_cons, List.map_cons, List.intercalate_cons_cons, List.append_assoc,
        List.singleton_append]
      rw [List.map_cons] at hscan ih
      rw [hscan, scan_space, harg, ih]

/-- A path with a blank and a final backslash, a quote after a backslash, and an empty argument. -/
example : buildCommandLine ["C:\\a b\\".toList, "x\\\"y".toList, []] =
    "\"C:\\a b\\\\\" \"x\\\\\\\"y\" \"\"".toList := by decide

end Metnos.Client.CommandLine
