import Mathlib.Data.List.Sort

/-!
# LastMax — the last of the greatest elements

A stable sort by a key ends with the last element of the list that has the greatest key.  It stays
the last when elements before and behind it go, and when keys grow only an element whose key grew
can take its place.
-/

namespace LastMax

variable {α κ : Type*} [LinearOrder κ] (key : α → κ)

/-- The last of the elements with the greatest key. -/
def lastMax : List α → Option α
  | [] => none
  | x :: l =>
    match lastMax l with
    | none => some x
    | some m => if key x ≤ key m then some m else some x

/-- A stable sort by the key. -/
abbrev sortBy (l : List α) : List α := l.insertionSort fun x y => key x ≤ key y

variable {key}

theorem lastMax_cons_none {x : α} {l : List α} (h : lastMax key l = none) :
    lastMax key (x :: l) = some x := by
  rw [lastMax, h]

theorem lastMax_cons_some {x m : α} {l : List α} (h : lastMax key l = some m) :
    lastMax key (x :: l) = if key x ≤ key m then some m else some x := by
  rw [lastMax, h]

theorem lastMax_eq_none {l : List α} : lastMax key l = none ↔ l = [] := by
  cases l with
  | nil => exact ⟨fun _ => rfl, fun _ => rfl⟩
  | cons x l =>
    refine ⟨fun h => ?_, fun h => by cases h⟩
    cases hl : lastMax key l with
    | none =>
      rw [lastMax_cons_none hl] at h
      cases h
    | some m =>
      rw [lastMax_cons_some hl] at h
      split at h <;> cases h

theorem lastMax_map {β : Type*} (f : β → α) (l : List β) :
    lastMax key (l.map f) = (lastMax (fun x => key (f x)) l).map f := by
  induction l with
  | nil => rfl
  | cons x l ih =>
    rw [List.map_cons]
    cases hl : lastMax (fun x => key (f x)) l with
    | none =>
      rw [hl] at ih
      rw [lastMax_cons_none ih, lastMax_cons_none hl]
      rfl
    | some m =>
      rw [hl] at ih
      rw [lastMax_cons_some ih, lastMax_cons_some hl]
      split
      · rfl
      · rfl

theorem lastMax_mem {l : List α} {m : α} (h : lastMax key l = some m) :
    m ∈ l ∧ ∀ x ∈ l, key x ≤ key m := by
  induction l generalizing m with
  | nil => cases h
  | cons x l ih =>
    cases hl : lastMax key l with
    | none =>
      rw [lastMax_cons_none hl] at h
      obtain rfl := Option.some.inj h
      rw [lastMax_eq_none.mp hl]
      exact ⟨List.mem_cons_self, fun y hy => (List.mem_singleton.mp hy ▸ le_refl _)⟩
    | some m' =>
      obtain ⟨mem, most⟩ := ih hl
      rw [lastMax_cons_some hl] at h
      split at h
      · rename_i le
        obtain rfl := Option.some.inj h
        refine ⟨List.mem_cons_of_mem _ mem, fun y hy => ?_⟩
        rcases List.mem_cons.mp hy with rfl | hy
        · exact le
        · exact most y hy
      · rename_i nle
        obtain rfl := Option.some.inj h
        refine ⟨List.mem_cons_self, fun y hy => ?_⟩
        rcases List.mem_cons.mp hy with rfl | hy
        · exact le_refl _
        · exact (most y hy).trans (le_of_not_ge nle)

theorem getLast?_orderedInsert (x : α) (l : List α) (sorted : l.Pairwise fun a b => key a ≤ key b) :
    (l.orderedInsert (fun a b => key a ≤ key b) x).getLast? =
      match l.getLast? with
      | none => some x
      | some m => if key x ≤ key m then some m else some x := by
  induction l with
  | nil => rfl
  | cons y l ih =>
    obtain ⟨first, rest⟩ := List.pairwise_cons.mp sorted
    obtain ⟨m, hm⟩ : ∃ m, (y :: l).getLast? = some m :=
      ⟨(y :: l).getLast (List.cons_ne_nil y l), List.getLast?_eq_some_getLast (List.cons_ne_nil y l)⟩
    have least : key y ≤ key m := by
      rcases List.mem_cons.mp (List.mem_of_getLast? hm) with rfl | hmem
      · exact le_refl _
      · exact first m hmem
    rw [hm, List.orderedInsert_cons]
    by_cases le : key x ≤ key y
    · rw [if_pos le, List.getLast?_cons_cons, hm]
      exact (if_pos (le.trans least)).symm
    · rw [if_neg le]
      have ne : l.orderedInsert (fun a b => key a ≤ key b) x ≠ [] := by
        intro empty
        have := congrArg List.length empty
        rw [List.orderedInsert_length] at this
        cases this
      obtain ⟨z, hz⟩ := List.getLast?_isSome.mpr ne |> Option.isSome_iff_exists.mp
      rw [List.getLast?_cons, hz, Option.getD_some, ← hz, ih rest]
      cases l with
      | nil =>
        obtain rfl : y = m := by simpa using hm
        exact (if_neg le).symm
      | cons w l =>
        rw [List.getLast?_cons_cons] at hm
        rw [hm]

/-- The sorted list ends with the last of the greatest elements. -/
theorem getLast?_sortBy (l : List α) : (sortBy key l).getLast? = lastMax key l := by
  have total : Std.Total fun a b : α => key a ≤ key b := ⟨fun a b => le_total _ _⟩
  have transitive : IsTrans α fun a b => key a ≤ key b := ⟨fun _ _ _ => le_trans⟩
  induction l with
  | nil => rfl
  | cons x l ih =>
    show ((sortBy key l).orderedInsert _ x).getLast? = _
    rw [getLast?_orderedInsert x _ (List.pairwise_insertionSort _ l), ih]
    rfl

/-- It stays the last when others go. -/
theorem lastMax_sublist {l l' : List α} {m : α} (sub : l'.Sublist l) (nodup : l.Nodup)
    (h : lastMax key l = some m) (mem : m ∈ l') : lastMax key l' = some m := by
  induction sub with
  | slnil => exact h
  | @cons l' l x sub ih =>
    have inside := sub.subset mem
    refine ih (List.nodup_cons.mp nodup).2 ?_ mem
    cases hl : lastMax key l with
    | none => rw [lastMax_eq_none.mp hl] at inside; cases inside
    | some m' =>
      rw [lastMax_cons_some hl] at h
      split at h
      · exact h
      · obtain rfl := Option.some.inj h
        exact absurd inside (List.nodup_cons.mp nodup).1
  | @cons_cons l' l x sub ih =>
    obtain ⟨fresh, nodup⟩ := List.nodup_cons.mp nodup
    cases hl : lastMax key l with
    | none =>
      rw [lastMax_cons_none hl] at h
      have none' : l' = [] := by
        rw [lastMax_eq_none.mp hl] at sub
        exact List.sublist_nil.mp sub
      rw [none']
      exact h
    | some m' =>
      rw [lastMax_cons_some hl] at h
      split at h
      · rename_i le
        obtain rfl := Option.some.inj h
        have inside : m' ∈ l' := by
          rcases List.mem_cons.mp mem with rfl | mem
          · exact absurd (lastMax_mem hl).1 fresh
          · exact mem
        rw [lastMax_cons_some (ih nodup hl inside), if_pos le]
      · rename_i nle
        obtain rfl := Option.some.inj h
        cases hl' : lastMax key l' with
        | none => exact lastMax_cons_none hl'
        | some m'' =>
          have most := (lastMax_mem hl).2 m'' (sub.subset (lastMax_mem hl').1)
          rw [lastMax_cons_some hl', if_neg fun le => nle (le.trans most)]

/-- The elements come from a list of places, where some change to elements that are no smaller. -/
def Grows {β : Type*} (key : α → κ) (g g' : β → Option α) (l : List β) : Prop :=
  ∀ b ∈ l, g' b = g b ∨ ∃ y, g' b = some y ∧ ∀ x, g b = some x → key x ≤ key y

theorem Grows.most {β : Type*} {g g' : β → Option α} {l : List β} (grows : Grows key g g' l)
    {m : α} (most : ∀ y ∈ l.filterMap g', key y ≤ key m) : ∀ x ∈ l.filterMap g, key x ≤ key m := by
  intro x hx
  obtain ⟨b, hb, hg⟩ := List.mem_filterMap.mp hx
  rcases grows b hb with same | ⟨y, hy, le⟩
  · exact most x (List.mem_filterMap.mpr ⟨b, hb, same.trans hg⟩)
  · exact (le x hg).trans (most y (List.mem_filterMap.mpr ⟨b, hb, hy⟩))

/-- Where keys grow the last one is an element that changed, or the one that was the last. -/
theorem lastMax_grows {β : Type*} {g g' : β → Option α} {l : List β} {m : α}
    (grows : Grows key g g' l) (h : lastMax key (l.filterMap g') = some m) :
    (∃ b ∈ l, g' b ≠ g b ∧ g' b = some m) ∨ lastMax key (l.filterMap g) = some m := by
  induction l generalizing m with
  | nil => cases h
  | cons b l ih =>
    have rest : Grows key g g' l := fun c hc => grows c (List.mem_cons_of_mem _ hc)
    have lift : (∃ c ∈ l, g' c ≠ g c ∧ g' c = some m) → ∃ c ∈ b :: l, g' c ≠ g c ∧ g' c = some m :=
      fun ⟨c, hc, changed⟩ => ⟨c, List.mem_cons_of_mem _ hc, changed⟩
    cases hnew : g' b with
    | none =>
      have hold : g b = none := by
        rcases grows b List.mem_cons_self with same | ⟨y, hy, -⟩
        · rw [← same, hnew]
        · rw [hnew] at hy
          cases hy
      rw [List.filterMap_cons_none hnew] at h
      rw [List.filterMap_cons_none hold]
      exact (ih rest h).imp_left lift
    | some y =>
      rw [List.filterMap_cons_some hnew] at h
      by_cases changed : g' b = g b
      · have hold : g b = some y := changed ▸ hnew
        rw [List.filterMap_cons_some hold]
        cases hl : lastMax key (l.filterMap g') with
        | none =>
          rw [lastMax_cons_none hl] at h
          right
          cases hl' : lastMax key (l.filterMap g) with
          | none =>
            rw [lastMax_cons_none hl']
            exact h
          | some m' =>
            obtain ⟨c, hc, hg⟩ := List.mem_filterMap.mp (lastMax_mem hl').1
            have empty := lastMax_eq_none.mp hl
            rcases rest c hc with same | ⟨z, hz, -⟩
            · have : m' ∈ l.filterMap g' := List.mem_filterMap.mpr ⟨c, hc, same.trans hg⟩
              rw [empty] at this
              cases this
            · have : z ∈ l.filterMap g' := List.mem_filterMap.mpr ⟨c, hc, hz⟩
              rw [empty] at this
              cases this
        | some m' =>
          rw [lastMax_cons_some hl] at h
          split at h
          · rename_i le
            obtain rfl := Option.some.inj h
            rcases ih rest hl with new | old
            · exact .inl (lift new)
            · exact .inr (by rw [lastMax_cons_some old, if_pos le])
          · rename_i nle
            obtain rfl := Option.some.inj h
            right
            cases hl' : lastMax key (l.filterMap g) with
            | none => exact lastMax_cons_none hl'
            | some old =>
              have most := rest.most (lastMax_mem hl).2 old (lastMax_mem hl').1
              rw [lastMax_cons_some hl', if_neg fun le => nle (le.trans most)]
      · cases hl : lastMax key (l.filterMap g') with
        | none =>
          rw [lastMax_cons_none hl] at h
          exact .inl ⟨b, List.mem_cons_self, changed, hnew.trans h⟩
        | some m' =>
          rw [lastMax_cons_some hl] at h
          split at h
          · rename_i le
            obtain rfl := Option.some.inj h
            rcases ih rest hl with new | old
            · exact .inl (lift new)
            · right
              cases hold : g b with
              | none =>
                rw [List.filterMap_cons_none hold]
                exact old
              | some x =>
                rcases grows b List.mem_cons_self with same | ⟨z, hz, grow⟩
                · exact absurd same changed
                · rw [List.filterMap_cons_some hold, lastMax_cons_some old]
                  obtain rfl := Option.some.inj (hnew.symm.trans hz)
                  exact if_pos ((grow x hold).trans le)
          · exact .inl ⟨b, List.mem_cons_self, changed, hnew.trans h⟩

end LastMax
