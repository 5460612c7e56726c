import Mathlib.Data.Finset.Card
import Mathlib.Data.List.Nodup

/-!
# Recent — a set of the most recent elements, in the order of their insertion

An element stays in the set until as many others as the set holds were inserted after it.  What
stands after an element in the list is what came later; `R` is a set known to contain it.
-/

namespace Recent

variable {α : Type*} [DecidableEq α]

def insert (cap : ℕ) (s : List α) (x : α) : List α :=
  if x ∈ s then s else (s ++ [x]).drop ((s ++ [x]).length - cap)

def push (s : List α) (x : α) : List α := if x ∈ s then s else s ++ [x]

def keepFirst (l : List α) : List α := l.foldl push []

/-- Everything after the element is in `R`. -/
def Followed (R : Finset α) (s : List α) (x : α) : Prop :=
  ∃ a b, s = a ++ x :: b ∧ ∀ y ∈ b, y ∈ R

/-- `R` has as many others as the set holds. -/
def Crowded (cap : ℕ) (R : Finset α) (x : α) : Prop := cap ≤ (R.erase x).card

variable {cap : ℕ} {R R' : Finset α} {s : List α} {x y : α}

omit [DecidableEq α] in
theorem Followed.mem (h : Followed R s x) : x ∈ s := by
  obtain ⟨a, b, rfl, -⟩ := h
  simp

omit [DecidableEq α] in
theorem Followed.mono (h : Followed R s x) (sub : R ⊆ R') : Followed R' s x := by
  obtain ⟨a, b, hs, hb⟩ := h
  exact ⟨a, b, hs, fun y hy => sub (hb y hy)⟩

theorem Crowded.mono (h : Crowded cap R x) (sub : R ⊆ R') : Crowded cap R' x :=
  h.trans (Finset.card_le_card (Finset.erase_subset_erase x sub))

omit [DecidableEq α] in
theorem nodup_append_one (h : s.Nodup) (fresh : x ∉ s) : (s ++ [x]).Nodup := by
  refine List.nodup_append.mpr ⟨h, List.nodup_singleton x, fun y hy z hz heq => fresh ?_⟩
  rw [← List.mem_singleton.mp hz, ← heq]
  exact hy

theorem nodup_insert (h : s.Nodup) (cap : ℕ) (x : α) : (insert cap s x).Nodup := by
  unfold insert
  split
  · exact h
  · rename_i fresh
    exact (nodup_append_one h fresh).sublist (List.drop_sublist _ _)

theorem nodup_foldl_insert (h : s.Nodup) (cap : ℕ) (l : List α) :
    (l.foldl (insert cap) s).Nodup := by
  induction l generalizing s with
  | nil => exact h
  | cons x l ih => exact ih (nodup_insert h cap x)

/-- Dropping the oldest elements down to `cap` loses the element only to `cap` others. -/
theorem Followed.drop (h : Followed R s x) (nodup : s.Nodup) :
    Followed R (s.drop (s.length - cap)) x ∨ Crowded cap R x := by
  obtain ⟨a, b, rfl, hb⟩ := h
  by_cases room : (a ++ x :: b).length - cap ≤ a.length
  · refine .inl ⟨a.drop ((a ++ x :: b).length - cap), b, ?_, hb⟩
    rw [List.drop_append_of_le_length room]
  · refine .inr ?_
    have notMem : x ∉ b := by
      have := (List.nodup_append.mp nodup).2.1
      exact (List.nodup_cons.mp this).1
    have sub : b.toFinset ⊆ R.erase x := by
      intro y hy
      rw [List.mem_toFinset] at hy
      exact Finset.mem_erase.mpr ⟨fun heq => notMem (heq ▸ hy), hb y hy⟩
    have bNodup : b.Nodup := (List.nodup_cons.mp (List.nodup_append.mp nodup).2.1).2
    have card := Finset.card_le_card sub
    rw [List.toFinset_card_of_nodup bNodup] at card
    rw [List.length_append, List.length_cons] at room
    show cap ≤ _
    omega

omit [DecidableEq α] in
theorem Followed.append (h : Followed R s x) (hy : y ∈ R) : Followed R (s ++ [y]) x := by
  obtain ⟨a, b, rfl, hb⟩ := h
  refine ⟨a, b ++ [y], by simp, fun z hz => ?_⟩
  rcases List.mem_append.mp hz with hz | hz
  · exact hb z hz
  · exact List.mem_singleton.mp hz ▸ hy

theorem Followed.insert (h : Followed R s x) (nodup : s.Nodup) (hy : y = x ∨ y ∈ R) :
    Followed R (insert cap s y) x ∨ Crowded cap R x := by
  unfold Recent.insert
  split
  · exact .inl h
  · rename_i fresh
    rcases hy with rfl | hy
    · exact absurd h.mem fresh
    · exact (h.append hy).drop (nodup_append_one nodup fresh)

theorem followed_insert_self (pos : 0 < cap) (h : x ∉ s) : Followed R (insert cap s x) x := by
  unfold insert
  rw [if_neg h]
  refine ⟨s.drop ((s ++ [x]).length - cap), [], ?_, by simp⟩
  rw [List.drop_append_of_le_length (by rw [List.length_append, List.length_singleton]; omega)]

theorem mem_of_mem_insert (h : x ∈ insert cap s y) (hne : x ≠ y) : x ∈ s := by
  unfold insert at h
  split at h
  · exact h
  · rcases List.mem_append.mp (List.mem_of_mem_drop h) with h | h
    · exact h
    · exact absurd (List.mem_singleton.mp h) hne

theorem Followed.foldl {l : List α} (h : Followed R s x ∨ Crowded cap R x) (nodup : s.Nodup)
    (hl : ∀ y ∈ l, y = x ∨ y ∈ R) :
    Followed R (l.foldl (Recent.insert cap) s) x ∨ Crowded cap R x := by
  induction l generalizing s with
  | nil => exact h
  | cons y l ih =>
    refine ih ?_ (nodup_insert nodup cap y) fun z hz => hl z (List.mem_cons_of_mem _ hz)
    rcases h with h | h
    · exact h.insert nodup (hl y List.mem_cons_self)
    · exact .inr h

theorem followed_foldl_mem {l : List α} (pos : 0 < cap)
    (h : x ∈ s → Followed R s x ∨ Crowded cap R x) (nodup : s.Nodup)
    (hl : ∀ y ∈ l, y = x ∨ y ∈ R) (hx : x ∈ l) :
    Followed R (l.foldl (insert cap) s) x ∨ Crowded cap R x := by
  induction l generalizing s with
  | nil => cases hx
  | cons y l ih =>
    have rest : ∀ z ∈ l, z = x ∨ z ∈ R := fun z hz => hl z (List.mem_cons_of_mem _ hz)
    by_cases hy : x = y
    · subst hy
      show Followed R (l.foldl (insert cap) (insert cap s x)) x ∨ Crowded cap R x
      refine Followed.foldl ?_ (nodup_insert nodup cap x) rest
      by_cases hs : x ∈ s
      · rcases h hs with h | h
        · exact h.insert nodup (.inl rfl)
        · exact .inr h
      · exact .inl (followed_insert_self pos hs)
    · refine ih (fun hmem => ?_) (nodup_insert nodup cap y) rest
        ((List.mem_cons.mp hx).resolve_left hy)
      rcases h (mem_of_mem_insert hmem hy) with h | h
      · exact h.insert nodup (hl y List.mem_cons_self)
      · exact .inr h

/-- An element of the set after insertions was there or was inserted. -/
theorem mem_of_mem_foldl {l : List α} (h : x ∈ l.foldl (insert cap) s) : x ∈ s ∨ x ∈ l := by
  induction l generalizing s with
  | nil => exact .inl h
  | cons y l ih =>
    rcases ih h with h | h
    · by_cases hy : x = y
      · exact .inr (hy ▸ List.mem_cons_self)
      · exact .inl (mem_of_mem_insert h hy)
    · exact .inr (List.mem_cons_of_mem _ h)

theorem followed_of_mem_foldl {l : List α} (pos : 0 < cap)
    (h : x ∈ s → Followed R s x ∨ Crowded cap R x) (nodup : s.Nodup)
    (hl : ∀ y ∈ l, y = x ∨ y ∈ R) (hx : x ∈ l.foldl (insert cap) s) :
    Followed R (l.foldl (insert cap) s) x ∨ Crowded cap R x := by
  rcases mem_of_mem_foldl hx with hs | hmem
  · exact Followed.foldl (h hs) nodup hl
  · exact followed_foldl_mem pos h nodup hl hmem

/-- A list that fits is a set of its own. -/
theorem foldl_insert_of_nodup {l : List α} (nodup : (s ++ l).Nodup) (room : (s ++ l).length ≤ cap) :
    l.foldl (insert cap) s = s ++ l := by
  induction l generalizing s with
  | nil => simp
  | cons x l ih =>
    have fresh : x ∉ s := fun hx =>
      (List.nodup_append.mp nodup).2.2 x hx x List.mem_cons_self rfl
    have one : insert cap s x = s ++ [x] := by
      unfold insert
      rw [if_neg fresh, Nat.sub_eq_zero_of_le, List.drop_zero]
      rw [List.length_append, List.length_cons] at room
      rw [List.length_append, List.length_singleton]
      omega
    have assoc : s ++ [x] ++ l = s ++ x :: l := by simp
    rw [List.foldl_cons, one, ih (assoc ▸ nodup) (assoc ▸ room), assoc]

/-! ### First places -/

theorem keepFirst_append_one (l : List α) (x : α) : keepFirst (l ++ [x]) = push (keepFirst l) x := by
  unfold keepFirst
  rw [List.foldl_append]
  rfl

theorem mem_keepFirst (l : List α) (x : α) : x ∈ keepFirst l ↔ x ∈ l := by
  induction l using List.reverseRecOn with
  | nil => simp [keepFirst]
  | append_singleton l y ih =>
    rw [keepFirst_append_one, push, List.mem_append, List.mem_singleton, ← ih]
    split
    · rename_i hy
      exact ⟨.inl, fun h => h.elim id fun h => h ▸ hy⟩
    · simp

theorem nodup_keepFirst (l : List α) : (keepFirst l).Nodup := by
  induction l using List.reverseRecOn with
  | nil => exact List.nodup_nil
  | append_singleton l y ih =>
    rw [keepFirst_append_one, push]
    split
    · exact ih
    · rename_i fresh
      exact nodup_append_one ih fresh

theorem keepFirst_filter (p : α → Bool) (l : List α) :
    keepFirst (l.filter p) = (keepFirst l).filter p := by
  induction l using List.reverseRecOn with
  | nil => rfl
  | append_singleton l y ih =>
    rw [List.filter_append, keepFirst_append_one, push]
    by_cases hp : p y = true
    · rw [List.filter_cons_of_pos hp, List.filter_nil, keepFirst_append_one, ih]
      by_cases hy : y ∈ keepFirst l
      · have inside : y ∈ (keepFirst l).filter p := List.mem_filter.mpr ⟨hy, hp⟩
        rw [push, if_pos inside, if_pos hy]
      · have outside : y ∉ (keepFirst l).filter p := fun h => hy (List.mem_filter.mp h).1
        rw [push, if_neg outside, if_neg hy, List.filter_append, List.filter_cons_of_pos hp,
          List.filter_nil]
    · rw [List.filter_cons_of_neg hp, List.filter_nil, List.append_nil, ih]
      split
      · rfl
      · rw [List.filter_append, List.filter_cons_of_neg hp, List.filter_nil, List.append_nil]

theorem Followed.push (h : Followed R s x) (hy : y = x ∨ y ∈ R) : Followed R (push s y) x := by
  unfold Recent.push
  split
  · exact h
  · rename_i fresh
    rcases hy with rfl | hy
    · exact absurd h.mem fresh
    · exact h.append hy

omit [DecidableEq α] in
theorem followed_append_self (R : Finset α) (s : List α) (x : α) : Followed R (s ++ [x]) x :=
  ⟨s, [], rfl, by simp⟩

/-! ### The last of the first places -/

theorem foldl_push (l s : List α) :
    ∃ b, l.foldl push s = s ++ b ∧ ∀ y, y ∈ b ↔ y ∈ l ∧ y ∉ s := by
  induction l generalizing s with
  | nil => exact ⟨[], by simp, by simp⟩
  | cons x l ih =>
    obtain ⟨b, hb, mem⟩ := ih (push s x)
    by_cases hx : x ∈ s
    · have same : push s x = s := if_pos hx
      rw [same] at hb mem
      refine ⟨b, by rw [List.foldl_cons, same, hb], fun y => ?_⟩
      rw [mem, List.mem_cons]
      constructor
      · exact fun ⟨hy, hs⟩ => ⟨.inr hy, hs⟩
      · rintro ⟨rfl | hy, hs⟩
        · exact absurd hx hs
        · exact ⟨hy, hs⟩
    · have one : push s x = s ++ [x] := if_neg hx
      rw [one] at hb mem
      refine ⟨x :: b, by rw [List.foldl_cons, one, hb, List.append_assoc]; rfl, fun y => ?_⟩
      rw [List.mem_cons, mem, List.mem_cons, List.mem_append, List.mem_singleton]
      constructor
      · rintro (rfl | ⟨hy, hs⟩)
        · exact ⟨.inl rfl, hx⟩
        · exact ⟨.inr hy, fun h => hs (.inl h)⟩
      · rintro ⟨hy, hs⟩
        by_cases heq : y = x
        · exact .inl heq
        · exact .inr ⟨hy.resolve_left heq, fun h => h.elim hs heq⟩

/-- The others that come for the first time after `x`. -/
def later (l : List α) (x : α) : Finset α :=
  (l.filter fun y => y ≠ x ∧ y ∉ l.takeWhile (· ≠ x)).toFinset

theorem keepFirst_split {l : List α} (h : x ∈ l) :
    ∃ a b, keepFirst l = a ++ x :: b ∧ b.toFinset = later l x := by
  obtain ⟨before, after, hl, fresh⟩ := List.eq_append_cons_of_mem h
  have start : l.takeWhile (fun y => y ≠ x) = before := by
    have others : ∀ y ∈ before, decide (y ≠ x) = true := by
      intro y hy
      rw [decide_eq_true_eq]
      intro heq
      exact fresh (heq ▸ hy)
    rw [hl, List.takeWhile_append_of_pos others]
    simp
  obtain ⟨b, hb, mem⟩ := foldl_push after (keepFirst before ++ [x])
  refine ⟨keepFirst before, b, ?_, ?_⟩
  · have whole : keepFirst l = after.foldl push (push (keepFirst before) x) := by
      rw [hl, keepFirst, List.foldl_append, List.foldl_cons]
      rfl
    have one : push (keepFirst before) x = keepFirst before ++ [x] :=
      if_neg fun hx => fresh ((mem_keepFirst _ _).mp hx)
    rw [whole, one, hb, ← List.append_cons]
  · ext y
    rw [List.mem_toFinset, mem, later, start, List.mem_toFinset, List.mem_filter,
      List.mem_append, List.mem_singleton, mem_keepFirst, hl, List.mem_append, List.mem_cons]
    simp only [ne_eq, decide_eq_true_eq]
    constructor
    · rintro ⟨hy, hs⟩
      exact ⟨.inr (.inr hy), fun heq => hs (.inr heq), fun hb => hs (.inl hb)⟩
    · rintro ⟨hy, hne, hb⟩
      exact ⟨(hy.resolve_left hb).resolve_left hne, fun h => h.elim hb hne⟩

/-- The last `cap` first places hold `x` unless as many others came after it. -/
theorem mem_last_keepFirst {l : List α} (h : x ∈ l) :
    x ∈ (keepFirst l).drop ((keepFirst l).length - cap) ↔ (later l x).card < cap := by
  obtain ⟨a, b, hsplit, hb⟩ := keepFirst_split h
  have nodup := nodup_keepFirst l
  rw [hsplit] at nodup ⊢
  have tail := (List.nodup_append.mp nodup).2.1
  rw [← hb, List.toFinset_card_of_nodup (List.nodup_cons.mp tail).2]
  have length : (a ++ x :: b).length = a.length + (b.length + 1) := by simp
  constructor
  · intro hmem
    by_contra few
    rw [List.drop_append, List.drop_eq_nil_of_le (by omega), List.nil_append] at hmem
    have past : (a ++ x :: b).length - cap - a.length = b.length - cap + 1 := by omega
    rw [past, List.drop_succ_cons] at hmem
    exact (List.nodup_cons.mp tail).1 (List.mem_of_mem_drop hmem)
  · intro few
    rw [List.drop_append_of_le_length (by omega)]
    exact List.mem_append_right _ List.mem_cons_self

end Recent
