import Mathlib.Algebra.Order.Group.Int
import Mathlib.Data.Int.Notation
import Mathlib.Data.List.Find
import Mathlib.Tactic.Linarith

/-!
# Lib.Reservation — demands that are served one after the other from one budget

A demand takes units of one cost: some in any case, and more of them while they fit.  The budget is
kept to exactly when each demand finds the cost of its fixed units (`spent_le_iff`).
-/

namespace SharedBudget

structure Demand where
  cost : ℕ
  fixed : ℕ
  wanted : ℕ

/-- What a demand spends, where so much is left. -/
def Demand.spends (d : Demand) (free : ℤ) : ℕ :=
  (min d.wanted (max 0 (free / (max 1 d.cost : ℕ) - d.fixed)).toNat + d.fixed) * d.cost

def spent (budget : ℤ) : ℤ → List Demand → ℤ
  | used, [] => used
  | used, d :: rest => spent budget (used + d.spends (budget - used)) rest

/-- Each demand finds the cost of its fixed units. -/
def Fits (budget : ℤ) : ℤ → List Demand → Prop
  | _, [] => True
  | used, d :: rest =>
    used + d.fixed * d.cost ≤ budget ∧ Fits budget (used + d.spends (budget - used)) rest

variable {budget used : ℤ} {d : Demand}

theorem le_spent (budget used : ℤ) (ds : List Demand) : used ≤ spent budget used ds := by
  induction ds generalizing used with
  | nil => exact le_rfl
  | cons d ds ih =>
    have later := ih (used + d.spends (budget - used))
    show used ≤ spent budget (used + d.spends (budget - used)) ds
    omega

theorem fixed_le_spends (d : Demand) (free : ℤ) : d.fixed * d.cost ≤ d.spends free :=
  Nat.mul_le_mul_right d.cost (Nat.le_add_left ..)

/-- What finds its fixed units stays within the budget. -/
theorem spends_le (fits : used + d.fixed * d.cost ≤ budget) :
    used + d.spends (budget - used) ≤ budget := by
  obtain ⟨cost, fixed, wanted⟩ := d
  unfold Demand.spends
  dsimp only at fits ⊢
  rcases Nat.eq_zero_or_pos cost with rfl | pos
  · simpa using fits
  · have unit : max 1 cost = cost := Nat.max_eq_right pos
    rw [unit]
    have whole := Int.ediv_mul_le (budget - used) (show (cost : ℤ) ≠ 0 by omega)
    have enough : (fixed : ℤ) ≤ (budget - used) / cost :=
      (Int.le_ediv_iff_mul_le (by omega)).mpr (by omega)
    have units : ((min wanted (max 0 ((budget - used) / cost - fixed)).toNat + fixed : ℕ) : ℤ) ≤
        (budget - used) / cost := by omega
    have costs := mul_le_mul_of_nonneg_right units (show (0 : ℤ) ≤ cost by omega)
    push_cast at costs ⊢
    omega

theorem spent_le_of_le (h : used ≤ budget) (ds : List Demand) :
    spent budget used ds ≤ budget ↔ Fits budget used ds := by
  induction ds generalizing used with
  | nil => exact ⟨fun _ => trivial, fun _ => h⟩
  | cons d ds ih =>
    show spent budget (used + d.spends (budget - used)) ds ≤ budget ↔ _ ∧ _
    by_cases fits : used + d.fixed * d.cost ≤ budget
    · rw [ih (spends_le fits), and_iff_right fits]
    · have more : ((d.fixed * d.cost : ℕ) : ℤ) ≤ d.spends (budget - used) :=
        Int.ofNat_le.mpr (fixed_le_spends d (budget - used))
      have later := le_spent budget (used + d.spends (budget - used)) ds
      refine ⟨fun within => absurd ?_ fits, fun h => absurd h.1 fits⟩
      push_cast at more
      omega

/-- The budget is kept to exactly when each demand finds the cost of its fixed units. -/
theorem spent_le_iff {ds : List Demand} (some_ : ds ≠ []) :
    spent budget used ds ≤ budget ↔ Fits budget used ds := by
  by_cases h : used ≤ budget
  · exact spent_le_of_le h ds
  · have later := le_spent budget used ds
    cases ds with
    | nil => exact absurd rfl some_
    | cons d ds =>
      have fixed : (0 : ℤ) ≤ d.fixed * d.cost := by positivity
      refine ⟨fun within => absurd (later.trans within) h, fun fits => absurd ?_ h⟩
      have := fits.1
      omega

end SharedBudget

/-!
## Elements that take keys, one after the other

Every element of a list takes the first of its candidates whose key is not taken, and the key is
taken from then on.  Where nobody takes a key that another element holds as well, the order does not
matter: everybody takes what it would have taken as the first.
-/

namespace Reservation

variable {α β κ : Type} (key : α → β → κ) (holds : α → κ → Prop)

/-- Nobody that comes later holds the key that an element takes. -/
def Later (l : List α) (picks : List (Option β)) : Prop :=
  ∀ (i j : ℕ) (a : α) (b : β) (a' : α), i < j → l[i]? = some a → picks[i]? = some (some b) →
    l[j]? = some a' → ¬ holds a' (key a b)

/-- Nobody else holds the key that an element takes. -/
def Alone (l : List α) (picks : List (Option β)) : Prop :=
  ∀ (i : ℕ) (a : α) (b : β), l[i]? = some a → picks[i]? = some (some b) →
    ∀ (j : ℕ) (a' : α), j ≠ i → l[j]? = some a' → ¬ holds a' (key a b)

variable {key holds} {l : List α}

theorem Alone.later {picks : List (Option β)} (h : Alone key holds l picks) :
    Later key holds l picks := by
  intro i j a b a' before here picked there
  exact h i a b here picked j a' (Nat.ne_of_gt before) there

theorem Later.tail {a : α} {p : Option β} {picks : List (Option β)}
    (h : Later key holds (a :: l) (p :: picks)) : Later key holds l picks := by
  intro i j a b a' before here picked there
  exact h (i + 1) (j + 1) a b a' (Nat.succ_lt_succ before) here picked there

theorem Later.head {a : α} {b : β} {picks : List (Option β)}
    (h : Later key holds (a :: l) (some b :: picks)) : ∀ a' ∈ l, ¬ holds a' (key a b) := by
  intro a' mem
  obtain ⟨j, found⟩ := List.getElem?_of_mem mem
  exact h 0 (j + 1) a b a' (Nat.succ_pos j) rfl rfl found

variable [DecidableEq κ] (key) (cands : α → List β)

/-- The first candidate whose key is not taken. -/
def pick (taken : List κ) (a : α) : Option β :=
  (cands a).find? fun b => decide (key a b ∉ taken)

def assign : List κ → List α → List (Option β)
  | _, [] => []
  | taken, a :: l =>
    match pick key cands taken a with
    | none => none :: assign taken l
    | some b => some b :: assign (key a b :: taken) l

variable {key cands} {taken : List κ}

theorem pick_mem {a : α} {b : β} (h : pick key cands taken a = some b) : b ∈ cands a :=
  List.mem_of_find?_eq_some h

/-- Keys that the element does not hold do not matter to it. -/
theorem pick_append (own : ∀ a, ∀ b ∈ cands a, holds a (key a b)) {extra : List κ} {a : α}
    (free : ∀ k ∈ extra, ¬ holds a k) :
    pick key cands (extra ++ taken) a = pick key cands taken a := by
  unfold pick
  refine List.find?_congr fun b mem => ?_
  have other : key a b ∉ extra := fun mem' => free _ mem' (own a b mem)
  rw [decide_eq_decide, List.mem_append, not_or]
  exact ⟨fun h => h.2, fun h => ⟨other, h⟩⟩

theorem assign_append (own : ∀ a, ∀ b ∈ cands a, holds a (key a b)) (extra : List κ)
    (free : ∀ k ∈ extra, ∀ a ∈ l, ¬ holds a k)
    (later : Later key holds l (assign key cands (extra ++ taken) l) ∨
      Later key holds l (l.map (pick key cands taken))) :
    assign key cands (extra ++ taken) l = l.map (pick key cands taken) := by
  induction l generalizing extra with
  | nil => rfl
  | cons a l ih =>
    have head : pick key cands (extra ++ taken) a = pick key cands taken a :=
      pick_append own fun k mem => free k mem a (List.mem_cons_self ..)
    have rest : ∀ k ∈ extra, ∀ a' ∈ l, ¬ holds a' k := fun k mem a' mem' =>
      free k mem a' (List.mem_cons_of_mem _ mem')
    rw [List.map_cons]
    unfold assign
    unfold assign at later
    rw [head] at later ⊢
    rw [List.map_cons] at later
    cases picked : pick key cands taken a with
    | none =>
      rw [picked] at later
      dsimp only at later ⊢
      rw [ih extra rest (later.imp Later.tail Later.tail)]
    | some b =>
      rw [picked] at later
      dsimp only at later ⊢
      have alone : ∀ a' ∈ l, ¬ holds a' (key a b) := by
        rcases later with later | later
        · exact later.head
        · exact later.head
      have free' : ∀ k ∈ key a b :: extra, ∀ a' ∈ l, ¬ holds a' k := by
        intro k mem a' mem'
        rcases List.mem_cons.mp mem with rfl | mem
        · exact alone a' mem'
        · exact rest k mem a' mem'
      rw [← List.cons_append] at later ⊢
      rw [ih (key a b :: extra) free' (later.imp Later.tail Later.tail)]

/-- **The order matters only where keys are shared.**  Nobody takes a key that another element holds
exactly when nobody would as the first; and then everybody takes what it would as the first. -/
theorem assign_alone_iff (own : ∀ a, ∀ b ∈ cands a, holds a (key a b)) (taken : List κ)
    (l : List α) :
    (Alone key holds l (assign key cands taken l) ↔
      Alone key holds l (l.map (pick key cands taken))) ∧
    (Alone key holds l (l.map (pick key cands taken)) →
      assign key cands taken l = l.map (pick key cands taken)) := by
  have same : Later key holds l (assign key cands taken l) ∨
      Later key holds l (l.map (pick key cands taken)) →
      assign key cands taken l = l.map (pick key cands taken) := fun later =>
    assign_append own [] nofun later
  refine ⟨⟨fun alone => ?_, fun alone => ?_⟩, fun alone => same (.inr alone.later)⟩
  · rw [← same (.inl alone.later)]
    exact alone
  · rw [same (.inr alone.later)]
    exact alone

end Reservation
