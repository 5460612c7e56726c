import Mathlib

/-!
# Placement — items that are put in places, under keys that lead back to them

An item goes to a new place, the next one, or to a place that there is.  A key that was used leads to
the place where it was used first, and an item with that key goes there.
-/

namespace Placement

variable {κ : Type} [BEq κ]

/-- How many places there are, and where the keys lead. -/
structure Book (κ : Type) where
  size : ℕ
  seen : List (κ × ℕ)

def Book.empty : Book κ := ⟨0, []⟩

variable (b : Book κ) (key : Option κ) (place : ℕ)

/-- Where the key leads afterwards: to where it led, or to the place. -/
def Book.remember : List (κ × ℕ) :=
  match key with
  | none => b.seen
  | some k => if (b.seen.lookup k).isSome then b.seen else b.seen ++ [(k, place)]

def Book.put : Book κ := ⟨max b.size (place + 1), b.remember key place⟩

/-- The place is there or the next one, and the one that the key leads to. -/
structure Book.Fits : Prop where
  bound : place ≤ b.size
  agrees : ∀ k, key = some k → ∀ p, b.seen.lookup k = some p → place = p

def Runs : Book κ → List (Option κ × ℕ) → Prop
  | _, [] => True
  | b, (key, place) :: rest => b.Fits key place ∧ Runs (b.put key place) rest

def Book.after (b : Book κ) (moves : List (Option κ × ℕ)) : Book κ :=
  moves.foldl (fun b m => b.put m.1 m.2) b

variable {b key place} {moves : List (Option κ × ℕ)}

/-! ## Keys -/

section
variable [LawfulBEq κ] [DecidableEq κ]

theorem Book.lookup_put (k : κ) : (b.put key place).seen.lookup k =
    (b.seen.lookup k).or (if key = some k then some place else none) := by
  unfold Book.put Book.remember
  cases key with
  | none => simp
  | some k' =>
    by_cases hseen : (b.seen.lookup k').isSome
    · simp only [if_pos hseen, Option.some.injEq]
      by_cases hk : k' = k
      · subst hk
        obtain ⟨p, hp⟩ := Option.isSome_iff_exists.mp hseen
        rw [hp, Option.some_or]
      · rw [if_neg hk, Option.or_none]
    · simp only [if_neg hseen, List.lookup_append, Option.some.injEq]
      by_cases hk : k' = k
      · subst hk
        simp
      · have : (k == k') = false := beq_eq_false_iff_ne.mpr (Ne.symm hk)
        simp [List.lookup, this, hk]

def Book.Sound (b : Book κ) : Prop := ∀ k p, b.seen.lookup k = some p → p < b.size

theorem Book.Sound.put (h : b.Sound) : (b.put key place).Sound := by
  intro k p hp
  rw [Book.lookup_put] at hp
  show p < max b.size (place + 1)
  cases hk : b.seen.lookup k with
  | some q =>
    rw [hk, Option.some_or] at hp
    obtain rfl := Option.some.inj hp
    have := h k q hk
    omega
  | none =>
    rw [hk, Option.none_or] at hp
    split at hp
    · obtain rfl := Option.some.inj hp
      omega
    · contradiction

/-- What a key leads to stays. -/
theorem Book.lookup_after {k : κ} {p : ℕ} : ∀ {moves : List (Option κ × ℕ)} {b : Book κ},
    b.seen.lookup k = some p → (b.after moves).seen.lookup k = some p
  | [], _, h => h
  | m :: rest, b, h => by
    refine @Book.lookup_after k p rest (b.put m.1 m.2) ?_
    rw [Book.lookup_put, h, Option.some_or]

/-- A key leads to the place of an item that has it. -/
theorem Runs.lookup : ∀ {moves : List (Option κ × ℕ)} {b : Book κ}, Runs b moves →
    ∀ {k : κ} {p : ℕ}, (some k, p) ∈ moves → (b.after moves).seen.lookup k = some p
  | (key, place) :: rest, b, h, k, p, hmem => by
    rcases List.mem_cons.mp hmem with heq | hmem
    · obtain ⟨rfl, rfl⟩ := Prod.mk.inj heq
      refine @Book.lookup_after κ _ _ _ k p rest (b.put (some k) p) ?_
      rw [Book.lookup_put, if_pos rfl]
      cases hk : b.seen.lookup k with
      | none => rfl
      | some q => rw [Option.some_or, h.1.agrees k rfl q hk]
    · exact h.2.lookup hmem

/-- Items with one key are in one place. -/
theorem Runs.same (h : Runs b moves) {k : κ} {p q : ℕ} (hp : (some k, p) ∈ moves)
    (hq : (some k, q) ∈ moves) : p = q :=
  Option.some.inj ((h.lookup hp).symm.trans (h.lookup hq))

end

/-! ## Places -/

theorem Runs.append : ∀ {moves more : List (Option κ × ℕ)} {b : Book κ},
    Runs b (moves ++ more) ↔ Runs b moves ∧ Runs (b.after moves) more
  | [], _, _ => (true_and _).symm.to_iff
  | (key, place) :: rest, more, b => by
    show b.Fits key place ∧ Runs (b.put key place) (rest ++ more) ↔ _
    rw [Runs.append, ← and_assoc]
    rfl

/-- The places that are there are those that items were put in. -/
theorem Runs.size_iff {i : ℕ} : ∀ {moves : List (Option κ × ℕ)} {b : Book κ}, Runs b moves →
    (i < (b.after moves).size ↔ i < b.size ∨ i ∈ moves.map Prod.snd)
  | [], b, _ => by simp [Book.after]
  | (key, place) :: rest, b, h => by
    have hbound := h.1.bound
    show i < ((b.put key place).after rest).size ↔ _
    rw [h.2.size_iff, List.map_cons, List.mem_cons, ← or_assoc]
    refine or_congr_left ?_
    show i < max b.size (place + 1) ↔ _
    omega

/-- Places come into being in their order. -/
theorem Runs.idxOf_lt (h : Runs Book.empty moves) {i j : ℕ} (hij : i < j)
    (hj : j ∈ moves.map Prod.snd) :
    (moves.map Prod.snd).idxOf i < (moves.map Prod.snd).idxOf j := by
  obtain ⟨before, after, hsplit, hnot⟩ := List.eq_append_cons_of_mem hj
  obtain ⟨first, rest, rfl, rfl, hrest⟩ := List.map_eq_append_iff.mp hsplit
  obtain ⟨m, others, rfl, rfl, rfl⟩ := List.map_eq_cons_iff.mp hrest
  obtain ⟨hfirst, hnext⟩ := Runs.append.mp h
  -- when the later place came into being, the earlier one was there
  have hi : i ∈ first.map Prod.snd := by
    have hsize := hnext.1.bound
    have hlt : i < (Book.empty.after first).size := by omega
    refine (hfirst.size_iff.mp hlt).resolve_left ?_
    exact Nat.not_lt_zero i
  rw [hsplit, List.idxOf_append_of_mem hi, List.idxOf_append_of_notMem hnot, List.idxOf_cons_self]
  exact List.idxOf_lt_length_iff.mpr hi

end Placement
