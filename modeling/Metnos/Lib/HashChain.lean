import Mathlib.Data.List.Chain
import Mathlib.Data.List.Induction

/-!
# HashChain — lists of records that name their predecessors

A record has an identity and names the identity of the record before it.  Where the identity
determines what the record names, a whole list is determined by its last identity.
-/

namespace HashChain

variable {α ι κ : Type} {id : α → ι} {previous : α → Option ι} {l l' : List α} {a : α}

/-- The first record names nothing, and each other one names the record before it. -/
def Linked (id : α → ι) (previous : α → Option ι) (l : List α) : Prop :=
  (∀ a ∈ l.head?, previous a = none) ∧ l.IsChain fun a b => previous b = some (id a)

theorem linked_append_one :
    Linked id previous (l ++ [a]) ↔ Linked id previous l ∧ previous a = l.getLast?.map id := by
  rcases List.eq_nil_or_concat l with rfl | ⟨k, b, rfl⟩
  · simp [Linked]
  · have hhead : (k ++ [b] ++ [a]).head? = (k ++ [b]).head? := by
      rw [List.head?_append]
      cases k <;> rfl
    rw [List.concat_eq_append, Linked, Linked, hhead, List.isChain_append]
    simp [and_assoc]

/-- **The last identity determines the list.**  `key` is what an identity stands for. -/
theorem map_eq_of_last {key : α → κ} {ok : α → Prop}
    (determines : ∀ a b, ok a → ok b → id a = id b → key a = key b)
    (names : ∀ a b, ok a → ok b → key a = key b → previous a = previous b)
    (hl : ∀ a ∈ l, ok a) (hl' : ∀ a ∈ l', ok a) (h : Linked id previous l)
    (h' : Linked id previous l') (hlast : l.getLast?.map id = l'.getLast?.map id) :
    l.map key = l'.map key := by
  induction l using List.reverseRecOn generalizing l' with
  | nil =>
    rcases List.eq_nil_or_concat l' with rfl | ⟨k, b, rfl⟩
    · rfl
    · simp at hlast
  | append_singleton l a ih =>
    rcases List.eq_nil_or_concat l' with rfl | ⟨k, b, rfl⟩
    · simp at hlast
    · rw [List.concat_eq_append] at *
      have ha : ok a := hl a (by simp)
      have hb : ok b := hl' b (by simp)
      have hid : id a = id b := by simpa using hlast
      have hkey := determines a b ha hb hid
      obtain ⟨hinit, hprev⟩ := linked_append_one.mp h
      obtain ⟨hinit', hprev'⟩ := linked_append_one.mp h'
      -- both last records name the last identity of what comes before
      have hbefore : l.getLast?.map id = k.getLast?.map id := by
        rw [← hprev, ← hprev', names a b ha hb hkey]
      have hmap := ih (fun c hc => hl c (by simp [hc])) (fun c hc => hl' c (by simp [hc])) hinit
        hinit' hbefore
      rw [List.map_append, List.map_append, hmap, List.map_singleton, List.map_singleton, hkey]

end HashChain
