import Mathlib.Data.List.Basic

/-!
# Lib.WinArgs — the argument rules of a Windows command line

A space or a tab outside quotes ends an argument.  A run of backslashes before a quote counts in
pairs, each a backslash; a quote after an even run begins or ends a quoted section, after an odd
run it is a character.  Other backslashes are characters.  These are the rules for the arguments
after the first.
-/

namespace WinArgs

abbrev Text := List Char

/-- What is left of a command line: inside quotes or not, `n` backslashes not yet interpreted, and
the argument so far, if one has begun. -/
def scan (quoted : Bool) (n : ℕ) : Option Text → Text → List Text
  | none, [] => []
  | some arg, [] => [arg ++ List.replicate n '\\']
  | cur, c :: rest =>
    let arg := cur.getD []
    if c = '\\' then scan quoted (n + 1) (some arg) rest
    else if c = '"' then
      if n % 2 = 0 then scan (!quoted) 0 (some (arg ++ List.replicate (n / 2) '\\')) rest
      else scan quoted 0 (some (arg ++ List.replicate (n / 2) '\\' ++ ['"'])) rest
    else if (c = ' ' ∨ c = '\t') ∧ quoted = false then
      match cur with
      | none => scan false 0 none rest
      | some arg => (arg ++ List.replicate n '\\') :: scan false 0 none rest
    else scan quoted 0 (some (arg ++ List.replicate n '\\' ++ [c])) rest

def split (line : Text) : List Text := scan false 0 none line

/-- A character that is neither a backslash nor a quote, and separates no arguments. -/
def Plain (quoted : Bool) (c : Char) : Prop :=
  c ≠ '\\' ∧ c ≠ '"' ∧ (quoted = false → c ≠ ' ' ∧ c ≠ '\t')

variable {quoted : Bool} {n : ℕ} {arg rest : Text}

theorem scan_backslash {cur : Option Text} : scan quoted n cur ('\\' :: rest) =
    scan quoted (n + 1) (some (cur.getD [])) rest := by
  cases cur <;> rw [scan, if_pos rfl]

theorem scan_backslashes (m : ℕ) : scan quoted n (some arg) (List.replicate m '\\' ++ rest) =
    scan quoted (n + m) (some arg) rest := by
  induction m generalizing n with
  | zero => rfl
  | succ m ih =>
    rw [List.replicate_succ, List.cons_append, scan_backslash, Option.getD_some, ih]
    congr 1
    omega

/-- A quote after an even run of backslashes begins or ends a quoted section. -/
theorem scan_quote {cur : Option Text} (m : ℕ) : scan quoted (2 * m) cur ('"' :: rest) =
    scan (!quoted) 0 (some (cur.getD [] ++ List.replicate m '\\')) rest := by
  have half : 2 * m / 2 = m := by omega
  cases cur <;> rw [scan, if_neg (by decide), if_pos rfl, if_pos (by omega), half]

/-- After an odd run it is a character. -/
theorem scan_literal_quote (m : ℕ) : scan quoted (2 * m + 1) (some arg) ('"' :: rest) =
    scan quoted 0 (some (arg ++ List.replicate m '\\' ++ ['"'])) rest := by
  have half : (2 * m + 1) / 2 = m := by omega
  rw [scan, if_neg (by decide), if_pos rfl, if_neg (by omega), half, Option.getD_some]

theorem scan_plain {cur : Option Text} {c : Char} (h : Plain quoted c) :
    scan quoted n cur (c :: rest) =
      scan quoted 0 (some (cur.getD [] ++ List.replicate n '\\' ++ [c])) rest := by
  obtain ⟨slash, quote, blank⟩ := h
  have stays : ¬ ((c = ' ' ∨ c = '\t') ∧ quoted = false) := by
    rintro ⟨hc, hq⟩
    exact hc.elim (blank hq).1 (blank hq).2
  cases cur <;> rw [scan, if_neg slash, if_neg quote, if_neg stays]

/-- The end of the line ends an argument. -/
theorem scan_end : scan false n (some arg) [] = [arg ++ List.replicate n '\\'] := rfl

/-- A space outside quotes ends an argument. -/
theorem scan_space : scan false n (some arg) (' ' :: rest) =
    (arg ++ List.replicate n '\\') :: scan false 0 none rest := by
  rw [scan, if_neg (by decide), if_neg (by decide), if_pos ⟨.inl rfl, rfl⟩]

/-- A text without quotes and blanks is read as it is. -/
theorem scan_bare {text : Text} (h : ∀ c ∈ text, c ≠ '"' ∧ c ≠ ' ' ∧ c ≠ '\t') :
    ∃ m arg', scan false n (some arg) (text ++ rest) = scan false m (some arg') rest ∧
      arg' ++ List.replicate m '\\' = arg ++ List.replicate n '\\' ++ text := by
  induction text generalizing n arg with
  | nil => exact ⟨n, arg, rfl, (List.append_nil _).symm⟩
  | cons c text ih =>
    obtain ⟨quote, space, tab⟩ := h c (List.mem_cons_self ..)
    have others : ∀ d ∈ text, d ≠ '"' ∧ d ≠ ' ' ∧ d ≠ '\t' := fun d hd =>
      h d (List.mem_cons_of_mem _ hd)
    rw [List.cons_append]
    by_cases hc : c = '\\'
    · subst hc
      obtain ⟨m, arg', hscan, harg⟩ := @ih (n + 1) arg others
      refine ⟨m, arg', ?_, ?_⟩
      · rw [scan_backslash]
        exact hscan
      · rw [harg, List.replicate_succ']
        simp
    · obtain ⟨m, arg', hscan, harg⟩ := @ih 0 (arg ++ List.replicate n '\\' ++ [c]) others
      refine ⟨m, arg', ?_, ?_⟩
      · rw [scan_plain ⟨hc, quote, fun _ => ⟨space, tab⟩⟩]
        exact hscan
      · rw [harg]
        simp

end WinArgs
