import Mathlib.Data.List.DropRight
import Mathlib.Data.List.Lex
import Mathlib.Data.List.Pairwise
import Mathlib.Data.List.Sort

/-!
# Lib.Sorting — a map as the list of its entries in the order of their keys

Keys compare by a rank.  A list of entries with different keys becomes the same map in whatever order
they are inserted: the sorted list.
-/

namespace SortedMap

variable {κ β α : Type*} [DecidableEq κ] [LinearOrder β] (rank : κ → β)

def insert (m : List (κ × α)) (k : κ) (v : α) : List (κ × α) :=
  (m.filter fun e => e.1 ≠ k).orderedInsert (fun a b => rank a.1 ≤ rank b.1) (k, v)

def ofList (entries : List (κ × α)) : List (κ × α) :=
  entries.foldl (fun m e => insert rank m e.1 e.2) []

abbrev sort (entries : List (κ × α)) : List (κ × α) :=
  entries.insertionSort fun a b => rank a.1 ≤ rank b.1

theorem ofList_append_one (entries : List (κ × α)) (k : κ) (v : α) :
    ofList rank (entries ++ [(k, v)]) = insert rank (ofList rank entries) k v := by
  unfold ofList
  rw [List.foldl_append]
  rfl

local instance total_rank : Std.Total fun a b : κ × α => rank a.1 ≤ rank b.1 := ⟨fun _ _ => le_total _ _⟩

local instance trans_rank : IsTrans (κ × α) fun a b => rank a.1 ≤ rank b.1 := ⟨fun _ _ _ => le_trans⟩

variable {rank}

omit [DecidableEq κ] in
theorem sort_congr (inj : Function.Injective rank) {l l' : List (κ × α)} (perm : l.Perm l')
    (nodup : (l.map Prod.fst).Nodup) : sort rank l = sort rank l' := by
  have all : (sort rank l).Perm (sort rank l') :=
    (List.perm_insertionSort _ l).trans (perm.trans (List.perm_insertionSort _ l').symm)
  refine all.eq_of_pairwise ?_ (List.pairwise_insertionSort _ l) (List.pairwise_insertionSort _ l')
  intro a b ha hb hab hba
  have key : a.1 = b.1 := inj (le_antisymm hab hba)
  exact List.inj_on_of_nodup_map nodup ((List.perm_insertionSort _ l).subset ha)
    (perm.symm.subset ((List.perm_insertionSort _ l').subset hb)) key

theorem ofList_perm_aux (m entries : List (κ × α))
    (nodup : ((m ++ entries).map Prod.fst).Nodup) :
    (entries.foldl (fun m e => insert rank m e.1 e.2) m).Perm (m ++ entries) ∧
      (m.Pairwise (fun a b => rank a.1 ≤ rank b.1) →
        (entries.foldl (fun m e => insert rank m e.1 e.2) m).Pairwise
          fun a b => rank a.1 ≤ rank b.1) := by
  induction entries generalizing m with
  | nil => simp
  | cons e entries ih =>
    -- no entry has the new key, so that nothing is replaced
    have fresh : (m.filter fun x => x.1 ≠ e.1) = m := by
      rw [List.filter_eq_self]
      intro x hx
      rw [List.map_append, List.nodup_append] at nodup
      simpa using nodup.2.2 x.1 (List.mem_map_of_mem hx) e.1 (by simp)
    have perm : (insert rank m e.1 e.2).Perm (e :: m) := by
      unfold insert
      rw [fresh]
      exact List.perm_orderedInsert _ _ _
    have moved : (insert rank m e.1 e.2 ++ entries).Perm (m ++ e :: entries) :=
      (perm.append_right entries).trans List.perm_middle.symm
    obtain ⟨hperm, hsorted⟩ := ih _ ((moved.map Prod.fst).nodup_iff.mpr nodup)
    refine ⟨hperm.trans moved, fun sorted => hsorted ?_⟩
    unfold insert
    rw [fresh]
    exact sorted.orderedInsert _ _

theorem ofList_eq_sort (inj : Function.Injective rank) {entries : List (κ × α)}
    (nodup : (entries.map Prod.fst).Nodup) : ofList rank entries = sort rank entries := by
  obtain ⟨perm, sorted⟩ :
      (ofList rank entries).Perm entries ∧ ([].Pairwise _ → (ofList rank entries).Pairwise _) :=
    ofList_perm_aux [] entries nodup
  refine (perm.trans (List.perm_insertionSort _ entries).symm).eq_of_pairwise ?_
    (sorted .nil) (List.pairwise_insertionSort _ entries)
  intro a b ha hb hab hba
  have key : a.1 = b.1 := inj (le_antisymm hab hba)
  exact List.inj_on_of_nodup_map nodup (perm.subset ha)
    ((List.perm_insertionSort _ entries).subset hb) key

end SortedMap

/-!
## When a sort by one order respects another

A list is sorted by `r`.  No element then stands after one that `lt` wants behind it exactly if `r`
itself never contradicts `lt` on the list.
-/

namespace Sorting

variable {α : Type*} {r lt : α → α → Prop} [DecidableRel r] {l : List α}

/-- Ties of `r` are no business of `lt`. -/
def Separates (r lt : α → α → Prop) (l : List α) : Prop :=
  ∀ x ∈ l, ∀ y ∈ l, r x y → r y x → ¬ lt x y

theorem pairwise_insertionSort_iff (total : ∀ x y, r x y ∨ r y x)
    (transitive : ∀ x y z, r x y → r y z → r x z) (ties : Separates r lt l) :
    (l.insertionSort r).Pairwise (fun x y => ¬ lt y x) ↔ ∀ x ∈ l, ∀ y ∈ l, lt x y → r x y := by
  have : Std.Total r := ⟨total⟩
  have : IsTrans α r := ⟨transitive⟩
  have hsorted : (l.insertionSort r).Pairwise r := List.pairwise_insertionSort r l
  have hmem : ∀ x, x ∈ l.insertionSort r ↔ x ∈ l := fun x => List.mem_insertionSort r
  constructor
  · intro h x hx y hy hlt
    by_cases hxy : x = y
    · subst hxy
      exact (total x x).elim id id
    -- whichever of the two comes first, one of the facts decides
    let either : α → α → Prop := fun x y => (r x y ∧ ¬ lt y x) ∨ (r y x ∧ ¬ lt x y)
    have : Std.Symm either := ⟨fun _ _ => Or.symm⟩
    have heither : (l.insertionSort r).Pairwise either := (hsorted.and h).imp Or.inl
    obtain ⟨hr, -⟩ | ⟨-, hno⟩ := heither.forall ((hmem x).mpr hx) ((hmem y).mpr hy) hxy
    · exact hr
    · exact absurd hlt hno
  · intro h
    refine hsorted.imp_of_mem fun {x y} hx hy hr hlt => ?_
    rw [hmem] at hx hy
    exact ties y hy x hx (h y hy x hx hlt) hr hlt

/-- In the order of `le`; what is equal in it stays as it was. -/
structure Stable (le : α → α → Prop) [DecidableRel le] (l out : List α) : Prop where
  perm : out.Perm l
  sorted : out.Pairwise le
  ties : ∀ x, out.filter (fun y => le x y ∧ le y x) = l.filter fun y => le x y ∧ le y x

/-- A sort whose comparisons agree with a total preorder on the elements is stable in it. -/
theorem stable_insertionSort {le : α → α → Prop} [DecidableRel le] (total : ∀ x y, le x y ∨ le y x)
    (transitive : ∀ x y z, le x y → le y z → le x z)
    (agrees : ∀ x ∈ l, ∀ y ∈ l, r x y ↔ le x y) : Stable le l (l.insertionSort r) := by
  have : Std.Total le := ⟨total⟩
  have : IsTrans α le := ⟨transitive⟩
  have same : l.insertionSort r = l.insertionSort le := by
    have h := List.map_insertionSort r le id l agrees
    rw [List.map_id, List.map_id] at h
    exact h
  have perm : (l.insertionSort le).Perm l := List.perm_insertionSort le l
  rw [same]
  refine ⟨perm, List.pairwise_insertionSort le l, fun x => ?_⟩
  have class_ : (l.filter fun y => le x y ∧ le y x).Pairwise le := by
    refine List.pairwise_of_forall_mem_list fun a ha b hb => ?_
    rw [List.mem_filter, decide_eq_true_eq] at ha hb
    exact transitive a x b ha.2.2 hb.2.1
  have sub := (List.sublist_insertionSort class_ List.filter_sublist).filter
    fun y => decide (le x y ∧ le y x)
  rw [List.filter_filter] at sub
  simp only [Bool.and_self] at sub
  exact (sub.eq_of_length (perm.filter _).length_eq.symm).symm

end Sorting

/-!
## Binary search in a sorted list, and searching by a prefix

`bisectLeft` over any linear order.  Everything that lies in one piece from the key on can be
looked up with a single search; the extensions of a word, in the lexicographic order, are such a
piece.
-/

namespace Bisect

section Search

variable {α : Type} [LinearOrder α]

/-- The loop: `lo` and `hi` close in on the first element that is not below `x`. -/
def loop (l : List α) (x : α) (lo hi : ℕ) : ℕ :=
  if lo < hi then
    let mid := (lo + hi) / 2
    if l[mid]?.any (fun a => a < x) then loop l x (mid + 1) hi else loop l x lo mid
  else lo
termination_by hi - lo

def bisectLeft (l : List α) (x : α) : ℕ := loop l x 0 l.length

/-- Below `lo` all are smaller than `x`, and from `hi` on none is. -/
def Closes (l : List α) (x : α) (lo hi : ℕ) : Prop :=
  ∀ i a, l[i]? = some a → (i < lo → a < x) ∧ (hi ≤ i → x ≤ a)

theorem le_of_sorted {l : List α} (hl : l.Pairwise (· ≤ ·)) {i j : ℕ} {a b : α} (hij : i ≤ j)
    (hi : l[i]? = some a) (hj : l[j]? = some b) : a ≤ b := by
  obtain ⟨hi', rfl⟩ := List.getElem?_eq_some_iff.mp hi
  obtain ⟨hj', rfl⟩ := List.getElem?_eq_some_iff.mp hj
  rcases Nat.lt_or_eq_of_le hij with h | rfl
  · exact List.pairwise_iff_getElem.mp hl i j hi' hj' h
  · exact le_refl _

theorem loop_closes {l : List α} {x : α} (hl : l.Pairwise (· ≤ ·)) {lo hi : ℕ}
    (hlen : hi ≤ l.length) (hle : lo ≤ hi) (h : Closes l x lo hi) :
    Closes l x (loop l x lo hi) (loop l x lo hi) := by
  fun_induction loop l x lo hi with
  | case1 lo hi hlt mid hmid ih =>
    have hm : mid < hi := by omega
    refine ih hlen (by omega) fun i a hi' => ⟨fun hi'' => ?_, (h i a hi').2⟩
    obtain ⟨b, hb, hbx⟩ := Option.any_eq_true .. |>.mp hmid
    simp only [decide_eq_true_eq] at hbx
    exact lt_of_le_of_lt (le_of_sorted hl (by omega) hi' hb) hbx
  | case2 lo hi hlt mid hmid ih =>
    refine ih (by omega) (by omega) fun i a hi' => ⟨(h i a hi').1, fun hi'' => ?_⟩
    have hm : mid < l.length := by omega
    have hb : l[mid]? = some l[mid] := List.getElem?_eq_getElem hm
    rw [hb] at hmid
    simp only [Option.any_some, decide_eq_true_eq, not_lt] at hmid
    exact hmid.trans (le_of_sorted hl hi'' hb hi')
  | case3 lo hi hlt =>
    obtain rfl : lo = hi := by omega
    exact h

theorem bisectLeft_closes {l : List α} (hl : l.Pairwise (· ≤ ·)) (x : α) :
    Closes l x (bisectLeft l x) (bisectLeft l x) := by
  refine loop_closes hl (le_refl _) (Nat.zero_le _) fun i a hi => ⟨by omega, fun hlen => ?_⟩
  rw [List.getElem?_eq_none hlen] at hi
  cases hi

/-- A property that starts at `x` and ends for good is met by an element of the list exactly when
the element found meets it. -/
theorem exists_iff_bisectLeft {l : List α} (hl : l.Pairwise (· ≤ ·)) {x : α} {P : α → Prop}
    (from_x : ∀ y, P y → x ≤ y) (convex : ∀ y z, x ≤ y → y ≤ z → P z → P y) :
    (∃ y ∈ l, P y) ↔ ∃ y, l[bisectLeft l x]? = some y ∧ P y := by
  constructor
  · rintro ⟨z, hz, hP⟩
    obtain ⟨j, hj⟩ := List.getElem?_of_mem hz
    have hle : bisectLeft l x ≤ j := by
      by_contra hlt
      exact absurd (from_x z hP) (not_le.mpr ((bisectLeft_closes hl x j z hj).1 (by omega)))
    obtain ⟨hj', -⟩ := List.getElem?_eq_some_iff.mp hj
    have hb : l[bisectLeft l x]? = some l[bisectLeft l x] := List.getElem?_eq_getElem (by omega)
    refine ⟨_, hb, convex _ z ?_ (le_of_sorted hl hle hb hj) hP⟩
    exact (bisectLeft_closes hl x _ _ hb).2 (le_refl _)
  · rintro ⟨y, hy, hP⟩
    exact ⟨y, List.mem_of_getElem? hy, hP⟩

theorem mem_iff_bisectLeft {l : List α} (hl : l.Pairwise (· ≤ ·)) {x : α} :
    x ∈ l ↔ l[bisectLeft l x]? = some x := by
  have h := exists_iff_bisectLeft hl (x := x) (P := fun y => y = x) (fun y hy => hy.ge)
    (fun y z hy hyz hz => le_antisymm (hz ▸ hyz) hy)
  simpa using h

end Search

section Prefix

variable {α : Type} [LinearOrder α]

theorem cons_le_cons_iff {a b : α} {p y : List α} :
    a :: p ≤ b :: y ↔ a < b ∨ a = b ∧ p ≤ y := by
  rw [← not_lt, ← not_lt, List.cons_lt_cons_iff]
  constructor
  · intro h
    rcases lt_trichotomy a b with hab | rfl | hba
    · exact .inl hab
    · exact .inr ⟨rfl, fun hlt => h (.inr ⟨rfl, hlt⟩)⟩
    · exact absurd (.inl hba) h
  · rintro (hab | ⟨rfl, hle⟩) (hba | ⟨hba, hlt⟩)
    · exact absurd hba hab.asymm
    · exact absurd hab (hba ▸ lt_irrefl _)
    · exact lt_irrefl _ hba
    · exact hle hlt

theorem le_of_isPrefix {p y : List α} (h : p <+: y) : p ≤ y := by
  induction p generalizing y with
  | nil => exact not_lt.mp (List.not_lt_nil y)
  | cons a p ih =>
    obtain ⟨rest, rfl⟩ := h
    exact cons_le_cons_iff.mpr (.inr ⟨rfl, ih (List.prefix_append p rest)⟩)

theorem isPrefix_between {p y z : List α} (hpy : p ≤ y) (hyz : y ≤ z) (h : p <+: z) :
    p <+: y := by
  induction p generalizing y z with
  | nil => exact List.nil_prefix
  | cons a p ih =>
    obtain ⟨rest, rfl⟩ := h
    cases y with
    | nil => exact absurd (List.nil_lt_cons a p) (not_lt.mpr hpy)
    | cons b y =>
      rw [List.cons_append, cons_le_cons_iff] at hyz
      rw [cons_le_cons_iff] at hpy
      rcases hpy with hab | ⟨rfl, hpy⟩
      · rcases hyz with hba | ⟨rfl, -⟩
        · exact absurd hba hab.asymm
        · exact absurd hab (lt_irrefl _)
      · rcases hyz with hba | ⟨-, hyz⟩
        · exact absurd hba (lt_irrefl _)
        · exact List.cons_prefix_cons.mpr ⟨rfl, ih hpy hyz (List.prefix_append p rest)⟩

/-- Some word of the list extends `p` exactly when the first one not below `p` does. -/
theorem exists_isPrefix_iff {l : List (List α)} (hl : l.Pairwise (· ≤ ·)) {p : List α} :
    (∃ y ∈ l, p <+: y) ↔ ∃ y, l[bisectLeft l p]? = some y ∧ p <+: y :=
  exists_iff_bisectLeft hl (fun _ h => le_of_isPrefix h) fun _ _ hpy hyz h =>
    isPrefix_between hpy hyz h

end Prefix

end Bisect
