import Mathlib.Data.List.Induction
import Mathlib.Data.List.Infix

/-!
# Lib.Texts — fields joined by a separator, and lines ended by a terminator

Fields that do not contain the separator are what they were before they were joined.  A file of
lines is read up to each terminator; what stands after the last one is a line too.  A write that
was cut leaves such a line, and the next write continues it: only a text that is empty or ends
with the terminator is one to which a line can be appended.
-/

namespace Texts

/-! ## Joined fields -/

/-- The fields with the separator between them. -/
def join (c : Char) (fields : List String) : String := (String.singleton c).intercalate fields

def Free (c : Char) (s : String) : Prop := c ∉ s.toList

instance (c : Char) (s : String) : Decidable (Free c s) := inferInstanceAs (Decidable (c ∉ s.toList))

theorem free_of_all {c : Char} {s : String} {p : Char → Bool} (h : s.toList.all p = true)
    (hc : p c = false) : Free c s := by
  intro hmem
  rw [List.all_eq_true.mp h c hmem] at hc
  cases hc

theorem mem_intercalate {α : Type} {sep : List α} {ls : List (List α)} {a : α}
    (h : a ∈ sep.intercalate ls) : a ∈ sep ∨ ∃ l ∈ ls, a ∈ l := by
  induction ls with
  | nil => cases h
  | cons l ls ih =>
    cases ls with
    | nil =>
      rw [List.intercalate_singleton] at h
      exact .inr ⟨l, List.mem_cons_self .., h⟩
    | cons l' ls =>
      rw [List.intercalate_cons_cons, List.mem_append, List.mem_append] at h
      obtain (h | h) | h := h
      · exact .inr ⟨l, List.mem_cons_self .., h⟩
      · exact .inl h
      · obtain h | ⟨l'', hl, h⟩ := ih h
        · exact .inl h
        · exact .inr ⟨l'', List.mem_cons_of_mem _ hl, h⟩

/-- What is in a text is in one of its parts, or cuts them. -/
theorem mem_splitOn {c d : Char} {l : List Char} (h : c ∈ l) (ne : c ≠ d) :
    ∃ part ∈ l.splitOn d, c ∈ part := by
  have back : [d].intercalate (l.splitOn d) = l := List.intercalate_splitOn d
  rw [← back] at h
  obtain h | h := mem_intercalate h
  · exact absurd (List.mem_singleton.mp h) ne
  · exact h

theorem free_join {c d : Char} {fields : List String} (ne : c ≠ d)
    (h : ∀ s ∈ fields, Free c s) : Free c (join d fields) := by
  intro hmem
  rw [join, String.toList_intercalate, String.toList_singleton] at hmem
  obtain hmem | ⟨l, hl, hmem⟩ := mem_intercalate hmem
  · exact ne (List.mem_singleton.mp hmem)
  · obtain ⟨s, hs, rfl⟩ := List.mem_map.mp hl
    exact h s hs hmem

theorem join_injective {c : Char} {l l' : List String} (hl : ∀ s ∈ l, Free c s)
    (hl' : ∀ s ∈ l', Free c s) (ne : l ≠ []) (ne' : l' ≠ []) (h : join c l = join c l') :
    l = l' := by
  have split := congrArg (fun s : String => s.toList.splitOn c) h
  simp only [join, String.toList_intercalate, String.toList_singleton] at split
  rw [List.splitOn_intercalate c (by simpa [Free] using hl) (by simpa using ne),
    List.splitOn_intercalate c (by simpa [Free] using hl') (by simpa using ne')] at split
  exact (List.map_inj_right fun _ _ h => String.toList_injective h).mp split

/-- A field that is itself joined by the separator. -/
theorem join_join {c : Char} {s : String} {l l' : List String} (ne : l ≠ []) (ne' : l' ≠ []) :
    join c (s :: join c l :: l') = join c (s :: l ++ l') := by
  unfold join
  rw [String.intercalate_cons_of_ne_nil (by simp), String.intercalate_cons_of_ne_nil ne',
    List.cons_append, String.intercalate_cons_of_ne_nil (by simp [ne]),
    String.intercalate_append_of_ne_nil ne ne']

/-! ## Lines -/

section
variable {α : Type} (nl : α)

/-- Each line with a terminator behind it. -/
def render (ls : List (List α)) : List α := ls.flatMap (fun l => l ++ [nl])

def Terminated (text : List α) : Prop := text = [] ∨ ∃ init, text = init ++ [nl]

variable {nl}

theorem terminated_render (ls : List (List α)) : Terminated nl (render nl ls) := by
  induction ls using List.reverseRecOn with
  | nil => exact .inl rfl
  | append_singleton ls l ih => exact .inr ⟨render nl ls ++ l, by simp [render]⟩

@[simp] theorem render_nil : render nl [] = [] := rfl

theorem render_append (ls ls' : List (List α)) :
    render nl (ls ++ ls') = render nl ls ++ render nl ls' := List.flatMap_append

theorem render_singleton (l : List α) : render nl [l] = l ++ [nl] := by simp [render]

end

section
variable {α : Type} [DecidableEq α] (nl : α)

/-- The lines of a text, the last one also without its terminator. -/
def lines : List α → List (List α)
  | [] => []
  | c :: text =>
    if c = nl then [] :: lines text
    else match lines text with
      | [] => [[c]]
      | line :: rest => (c :: line) :: rest

variable {nl}

theorem lines_line {l : List α} (h : nl ∉ l) (text : List α) :
    lines nl (l ++ nl :: text) = l :: lines nl text := by
  induction l with
  | nil => simp [lines]
  | cons c l ih =>
    rw [List.mem_cons, not_or] at h
    rw [List.cons_append, lines, if_neg (Ne.symm h.1), ih h.2]

/-- A text that ends with the terminator is cut into its lines. -/
theorem lines_append {a : List α} (h : Terminated nl a) (b : List α) :
    lines nl (a ++ b) = lines nl a ++ lines nl b := by
  obtain rfl | ⟨init, rfl⟩ := h
  · rfl
  · induction init with
    | nil => simp [lines]
    | cons c init ih =>
      simp only [List.cons_append] at ih ⊢
      rw [lines, lines]
      by_cases hc : c = nl
      · rw [if_pos hc, if_pos hc, ih, List.cons_append]
      · rw [if_neg hc, if_neg hc, ih]
        cases hlines : lines nl (init ++ [nl]) with
        | nil =>
          have len : lines nl (init ++ [nl]) ≠ [] := by
            cases init with
            | nil => simp [lines]
            | cons d init =>
              rw [List.cons_append, lines]
              split
              · simp
              · split <;> simp
          exact absurd hlines len
        | cons line rest => rfl

theorem lines_render {ls : List (List α)} (h : ∀ l ∈ ls, nl ∉ l) : lines nl (render nl ls) = ls := by
  induction ls with
  | nil => rfl
  | cons l ls ih =>
    have hl := h l (List.mem_cons_self ..)
    rw [show render nl (l :: ls) = l ++ nl :: render nl ls by simp [render], lines_line hl,
      ih (fun l' h' => h l' (List.mem_cons_of_mem _ h'))]

/-- No line contains the terminator. -/
theorem not_mem_lines {text l : List α} (h : l ∈ lines nl text) : nl ∉ l := by
  induction text generalizing l with
  | nil => cases h
  | cons c text ih =>
    rw [lines] at h
    split at h
    · rcases List.mem_cons.mp h with rfl | h
      · exact List.not_mem_nil
      · exact ih h
    · rename_i hc
      split at h
      · rcases List.mem_cons.mp h with rfl | h
        · simpa using Ne.symm hc
        · cases h
      · rename_i line rest hlines
        rw [hlines] at ih
        rcases List.mem_cons.mp h with rfl | h
        · rw [List.mem_cons, not_or]
          exact ⟨Ne.symm hc, ih (List.mem_cons_self ..)⟩
        · exact ih (List.mem_cons_of_mem _ h)

/-- What a line holds is in the text. -/
theorem mem_of_mem_lines {text l : List α} {c : α} (h : l ∈ lines nl text) (hc : c ∈ l) :
    c ∈ text := by
  induction text generalizing l with
  | nil => cases h
  | cons d text ih =>
    rw [lines] at h
    split at h
    · rcases List.mem_cons.mp h with rfl | h
      · cases hc
      · exact List.mem_cons_of_mem _ (ih h hc)
    · split at h
      · rw [List.mem_singleton.mp h] at hc
        rw [List.mem_singleton.mp hc]
        exact List.mem_cons_self ..
      · rename_i line rest hlines
        rw [hlines] at ih
        rcases List.mem_cons.mp h with rfl | h
        · rcases List.mem_cons.mp hc with rfl | hc
          · exact List.mem_cons_self ..
          · exact List.mem_cons_of_mem _ (ih (List.mem_cons_self ..) hc)
        · exact List.mem_cons_of_mem _ (ih (List.mem_cons_of_mem _ h) hc)

theorem length_lines {text : List α} (h : Terminated nl text) :
    (lines nl text).length = text.count nl := by
  obtain rfl | ⟨init, rfl⟩ := h
  · rfl
  · induction init with
    | nil => simp [lines]
    | cons c init ih =>
      simp only [List.cons_append]
      rw [lines]
      by_cases hc : c = nl
      · subst hc
        rw [if_pos rfl, List.length_cons, ih, List.count_cons_self]
      · rw [if_neg hc, List.count_cons_of_ne (Ne.symm (Ne.symm hc)), ← ih]
        split
        · rename_i hlines
          rw [hlines] at ih
          simp at ih
        · rename_i line rest hlines
          rw [hlines]
          rfl

end

end Texts

/-!
## The `LIKE` of a database

A percent sign stands for any characters, an underscore for one, and the letters of ASCII match
without their case.  The texts end at a character zero.  A pattern that is a literal prefix with a
percent sign behind it matches every text with this prefix, and may match others.
-/

namespace SqlLike

abbrev Text := List Char

/-- The comparison, without an escape character. -/
def patternCompare : Text → Text → Bool
  | [], t => t.isEmpty
  | c :: p, t =>
    if c = '%' then t.tails.any fun rest => patternCompare p rest
    else match t with
      | [] => false
      | d :: t => (c = d || c.toLower = d.toLower || c = '_') && patternCompare p t

def ended (t : Text) : Text := t.takeWhile fun c => c ≠ Char.ofNat 0

/-- `text LIKE pattern` -/
def like (pattern text : Text) : Bool := patternCompare (ended pattern) (ended text)

theorem patternCompare_percent (p t : Text) :
    patternCompare ('%' :: p) t = t.tails.any fun rest => patternCompare p rest := rfl

theorem patternCompare_cons {c : Char} (hc : c ≠ '%') (p : Text) (d : Char) (t : Text) :
    patternCompare (c :: p) (d :: t) =
      ((c = d || c.toLower = d.toLower || c = '_') && patternCompare p t) := by
  show (if c = '%' then _ else _) = _
  exact if_neg hc

theorem patternCompare_append (p : Text) {q t : Text} (h : patternCompare q t = true) :
    patternCompare (p ++ q) (p ++ t) = true := by
  induction p with
  | nil => exact h
  | cons c p ih =>
    rw [List.cons_append, List.cons_append]
    by_cases hc : c = '%'
    · rw [hc, patternCompare_percent, List.any_eq_true]
      exact ⟨p ++ t, (List.mem_tails _ _).mpr (List.suffix_cons _ _), ih⟩
    · rw [patternCompare_cons hc, ih]
      simp

theorem patternCompare_any (t : Text) : patternCompare ['%'] t = true := by
  rw [patternCompare_percent, List.any_eq_true]
  exact ⟨[], (List.mem_tails _ _).mpr List.nil_suffix, rfl⟩

theorem ended_append (p t : Text) :
    ended (p ++ t) = if Char.ofNat 0 ∈ p then ended p else p ++ ended t := by
  induction p with
  | nil => rfl
  | cons c p ih =>
    unfold ended at ih ⊢
    rw [List.cons_append]
    by_cases hc : c = Char.ofNat 0
    · rw [List.takeWhile_cons_of_neg (by simpa using hc),
        List.takeWhile_cons_of_neg (by simpa using hc), hc, if_pos List.mem_cons_self]
    · rw [List.takeWhile_cons_of_pos (by simpa using hc), ih,
        List.takeWhile_cons_of_pos (by simpa using hc)]
      by_cases hp : Char.ofNat 0 ∈ p
      · rw [if_pos hp, if_pos (List.mem_cons_of_mem _ hp)]
      · rw [if_neg hp, if_neg (by rw [List.mem_cons]; exact not_or.mpr ⟨Ne.symm hc, hp⟩)]
        rfl

/-- A text with the literal prefix matches. -/
theorem like_of_prefix {p t : Text} (h : p <+: t) : like (p ++ ['%']) t = true := by
  obtain ⟨rest, rfl⟩ := h
  unfold like
  rw [ended_append, ended_append]
  by_cases hp : Char.ofNat 0 ∈ p
  · rw [if_pos hp, if_pos hp]
    have same := patternCompare_append (ended p) (show patternCompare [] [] = true from rfl)
    rwa [List.append_nil] at same
  · rw [if_neg hp, if_neg hp]
    exact patternCompare_append p (patternCompare_any (ended rest))

end SqlLike
