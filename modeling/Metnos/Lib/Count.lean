import Mathlib
import Metnos.Lib.Table

/-!
# Count — counting over lists that change in one place

How a count or a weighted sum over a list changes when one element is replaced, one index of the
weight is, or one element of the list is taken out; and how sums over two tables compare, key by
key.
-/

namespace Count

variable {α ι : Type}

/-- An element of a list that is changed in one place is the changed one or an old one. -/
theorem getElem?_modify_some {f : α → α} {l : List α} {i j : ℕ} {x : α}
    (h : (l.modify i f)[j]? = some x) :
    (j = i ∧ ∃ a, l[i]? = some a ∧ x = f a) ∨ (j ≠ i ∧ l[j]? = some x) := by
  rw [List.getElem?_modify] at h
  by_cases hj : i = j
  · subst hj
    simp only [if_true, Option.map_eq_map, Option.map_eq_some_iff] at h
    obtain ⟨a, ha, rfl⟩ := h
    exact .inl ⟨rfl, a, ha, rfl⟩
  · exact .inr ⟨Ne.symm hj, by simpa [hj] using h⟩

/-- The same for one element that is replaced. -/
theorem set_cases {l : List α} {p q : ℕ} {x y : α} (h : (l.set p x)[q]? = some y) :
    (q = p ∧ y = x) ∨ (q ≠ p ∧ l[q]? = some y) := by
  rw [List.getElem?_set] at h
  by_cases hq : p = q
  · rw [if_pos hq] at h
    split at h
    · exact .inl ⟨hq.symm, (Option.some.inj h).symm⟩
    · cases h
  · rw [if_neg hq] at h
    exact .inr ⟨Ne.symm hq, h⟩

theorem mem_modify {f : α → α} {l : List α} {i : ℕ} {a x : α} (h : l[i]? = some a)
    (hx : x ∈ l.modify i f) : x = f a ∨ ∃ j, j ≠ i ∧ l[j]? = some x := by
  obtain ⟨j, hj⟩ := List.getElem?_of_mem hx
  rcases getElem?_modify_some hj with ⟨rfl, b, hb, rfl⟩ | ⟨hji, hj⟩
  · rw [h, Option.some.injEq] at hb
    exact .inl (by rw [hb])
  · exact .inr ⟨j, hji, hj⟩

/-- In a list without repeated keys, the other elements have other keys. -/
theorem key_ne_of_getElem? {key : α → ι} {l : List α} {i j : ℕ} {a x : α}
    (hnodup : (l.map key).Nodup) (ha : l[i]? = some a) (hx : l[j]? = some x) (hij : j ≠ i) :
    key x ≠ key a := by
  intro heq
  obtain ⟨hj, -⟩ := List.getElem?_eq_some_iff.mp hx
  refine hij ((List.getElem?_inj (by simpa using hj) hnodup).mp ?_)
  rw [List.getElem?_map, List.getElem?_map, ha, hx, Option.map_some, Option.map_some, heq]

theorem countP_modify {p : α → Bool} {f : α → α} :
    ∀ {l : List α} {i : ℕ} {a : α}, l[i]? = some a →
      (l.modify i f).countP p + (p a).toNat = l.countP p + (p (f a)).toNat
  | [], _, _, h => by simp at h
  | x :: l, 0, a, h => by
    obtain rfl : x = a := by simpa using h
    rw [List.modify_zero_cons, List.countP_cons, List.countP_cons]
    cases p x <;> cases p (f x) <;> simp
  | x :: l, i + 1, a, h => by
    have ih := countP_modify (p := p) (f := f) (l := l) (i := i) (by simpa using h)
    rw [List.modify_succ_cons, List.countP_cons, List.countP_cons]
    omega

theorem sum_modify {w : α → ℕ} {f : α → α} :
    ∀ {l : List α} {i : ℕ} {a : α}, l[i]? = some a →
      ((l.modify i f).map w).sum + w a = (l.map w).sum + w (f a)
  | [], _, _, h => by simp at h
  | x :: l, 0, a, h => by
    obtain rfl : x = a := by simpa using h
    rw [List.modify_zero_cons, List.map_cons, List.map_cons, List.sum_cons, List.sum_cons]
    omega
  | x :: l, i + 1, a, h => by
    have ih := sum_modify (w := w) (f := f) (l := l) (i := i) (by simpa using h)
    rw [List.modify_succ_cons, List.map_cons, List.map_cons, List.sum_cons, List.sum_cons]
    omega

/-- A weight that changes at an index outside the list. -/
theorem sum_update_of_notMem [DecidableEq ι] {w : ι → ℕ} {o : ι} {v : ℕ} {l : List ι}
    (h : o ∉ l) : (l.map (Function.update w o v)).sum = (l.map w).sum := by
  congr 1
  refine List.map_congr_left fun x hx => Function.update_of_ne ?_ _ _
  rintro rfl
  exact h hx

/-- A weight that changes at one index of a list without repetitions. -/
theorem sum_update [DecidableEq ι] {w : ι → ℕ} {o : ι} {v : ℕ} :
    ∀ {l : List ι}, l.Nodup → o ∈ l →
      (l.map (Function.update w o v)).sum + w o = (l.map w).sum + v
  | [], _, h => by simp at h
  | x :: l, hnodup, h => by
    rw [List.nodup_cons] at hnodup
    rw [List.map_cons, List.map_cons, List.sum_cons, List.sum_cons]
    by_cases hx : o = x
    · subst hx
      rw [Function.update_self, sum_update_of_notMem hnodup.1]
      omega
    · have hl : o ∈ l := (List.mem_cons.mp h).resolve_left hx
      rw [Function.update_of_ne (Ne.symm hx)]
      have ih := sum_update (w := w) (v := v) hnodup.2 hl
      omega

/-- How many arguments a function sends into `p`, when it changes at one of them. -/
theorem card_filter_update {T : Type} [Fintype T] [DecidableEq T] (p : α → Bool) (f : T → α)
    (t : T) (a : α) :
    (Finset.univ.filter fun x => p (Function.update f t a x) = true).card + (p (f t)).toNat =
      (Finset.univ.filter fun x => p (f x) = true).card + (p a).toNat := by
  have others : ∑ x ∈ Finset.univ.erase t, (if p (Function.update f t a x) = true then 1 else 0) =
      ∑ x ∈ Finset.univ.erase t, if p (f x) = true then 1 else 0 := by
    refine Finset.sum_congr rfl fun x hx => ?_
    rw [Function.update_of_ne (Finset.ne_of_mem_erase hx)]
  have bit : ∀ b : Bool, b.toNat = if b = true then 1 else 0 := by decide
  rw [Finset.card_filter, Finset.card_filter, ← Finset.add_sum_erase _ _ (Finset.mem_univ t),
    ← Finset.add_sum_erase _ _ (Finset.mem_univ t), others, Function.update_self, bit, bit]
  omega

/-! ### Tables -/

section
variable {ρ κ : Type} {key : ρ → κ} [DecidableEq κ]

/-- The weight of the row with key `k`, and 0 when there is none. -/
def weightAt (t : Table ρ κ key) (w : ρ → ℕ) (k : κ) : ℕ := ((t.find? k).map w).getD 0

theorem weightAt_of_find {t : Table ρ κ key} {w : ρ → ℕ} {k : κ} {r : ρ}
    (h : t.find? k = some r) : weightAt t w k = w r := by
  rw [weightAt, h]
  rfl

theorem weightAt_of_none {t : Table ρ κ key} {w : ρ → ℕ} {k : κ} (h : t.find? k = none) :
    weightAt t w k = 0 := by
  rw [weightAt, h]
  rfl

/-- A sum over the rows, as a sum over any set that contains their keys. -/
theorem sum_rows (t : Table ρ κ key) (w : ρ → ℕ) {s : Finset κ}
    (hs : ∀ r ∈ t.rows, key r ∈ s) : (t.rows.map w).sum = ∑ k ∈ s, weightAt t w k := by
  have hkeys : (t.rows.map w).sum = ((t.rows.map key).map (weightAt t w)).sum := by
    rw [List.map_map]
    refine congrArg List.sum (List.map_congr_left fun r hr => ?_)
    exact (weightAt_of_find (Table.find?_of_mem hr)).symm
  rw [hkeys, ← List.sum_toFinset _ t.nodup]
  refine Finset.sum_subset (fun k hk => ?_) fun k _ hk => ?_
  · obtain ⟨r, hr, rfl⟩ := List.mem_map.mp (List.mem_toFinset.mp hk)
    exact hs r hr
  · refine weightAt_of_none (Table.find?_eq_none.mpr fun r hr heq => hk ?_)
    exact List.mem_toFinset.mpr (List.mem_map.mpr ⟨r, hr, heq⟩)

/-- Two tables compared key by key, with an allowance at one key. -/
theorem sum_rows_le {t t' : Table ρ κ key} {w w' : ρ → ℕ} (k₀ : κ) (m n : ℕ)
    (h : ∀ k, weightAt t' w' k + (if k = k₀ then m else 0) ≤
      weightAt t w k + (if k = k₀ then n else 0)) :
    (t'.rows.map w').sum + m ≤ (t.rows.map w).sum + n := by
  let s : Finset κ := insert k₀ ((t.rows.map key).toFinset ∪ (t'.rows.map key).toFinset)
  have hold : ∀ r ∈ t.rows, key r ∈ s := fun r hr => by
    refine Finset.mem_insert_of_mem (Finset.mem_union_left _ ?_)
    exact List.mem_toFinset.mpr (List.mem_map_of_mem hr)
  have hnew : ∀ r ∈ t'.rows, key r ∈ s := fun r hr => by
    refine Finset.mem_insert_of_mem (Finset.mem_union_right _ ?_)
    exact List.mem_toFinset.mpr (List.mem_map_of_mem hr)
  have hone : ∀ x : ℕ, ∑ k ∈ s, (if k = k₀ then x else 0) = x := fun x => by
    rw [Finset.sum_ite_eq' s k₀ (fun _ => x), if_pos (Finset.mem_insert_self _ _)]
  rw [sum_rows t w hold, sum_rows t' w' hnew]
  have hsum := Finset.sum_le_sum fun k (_ : k ∈ s) => h k
  rw [Finset.sum_add_distrib, Finset.sum_add_distrib, hone, hone] at hsum
  exact hsum

end

/-! ## Sums by key -/

section Sums

variable {κ : Type} [DecidableEq κ]

/-- A sum is the sum, over distinct keys that cover the list, of the sums of the elements with
each key. -/
theorem sum_by_key (key : α → κ) (f : α → ℕ) {keys : List κ} (distinct : keys.Nodup) :
    ∀ l : List α, (∀ a ∈ l, key a ∈ keys) →
      (l.map f).sum = (keys.map (fun k => ((l.filter (fun a => key a = k)).map f).sum)).sum
  | [], _ => by simp
  | a :: l, cover => by
    have ih := sum_by_key key f distinct l (fun b hb => cover b (List.mem_cons_of_mem _ hb))
    have split : ∀ k, (((a :: l).filter (fun b => key b = k)).map f).sum =
        (if k = key a then f a else 0) + ((l.filter (fun b => key b = k)).map f).sum := by
      intro k
      by_cases hk : k = key a
      · simp [hk]
      · simp [hk, Ne.symm hk]
    have one : (keys.map (fun k => if k = key a then f a else 0)).sum = f a := by
      rw [← List.sum_toFinset _ distinct, Finset.sum_ite_eq', if_pos]
      exact List.mem_toFinset.mpr (cover a (List.mem_cons_self ..))
    rw [List.map_congr_left (fun k _ => split k), List.sum_map_add, one, ← ih, List.map_cons,
      List.sum_cons]

/-- The order of two summations. -/
theorem sum_swap (f : α → ι → ℕ) (r : List ι) : ∀ l : List α,
    (l.map (fun a => (r.map (f a)).sum)).sum = (r.map (fun b => (l.map (fun a => f a b)).sum)).sum
  | [] => by simp
  | a :: l => by
    simp only [List.map_cons, List.sum_cons, List.sum_map_add, sum_swap f r l]

end Sums

end Count
