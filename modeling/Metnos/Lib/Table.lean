import Mathlib.Data.List.Sort
import Mathlib.Data.List.Nodup

/-!
# Table — keyed tables

A table is a list of rows with pairwise different keys, as a relation with a primary key.
`updateWhere` is `UPDATE .. WHERE`, `cas` an update of one row that must hit (compare and set),
`insert?` an insertion that fails on a used key, and `select` is
`SELECT .. WHERE .. ORDER BY .. LIMIT`.  Every operation is described by what it does to
`find?`, so that a proof about one row never looks at the list.
-/

/-- Rows with pairwise different keys. -/
structure Table (ρ κ : Type) (key : ρ → κ) where
  rows : List ρ
  nodup : (rows.map key).Nodup

namespace Table

variable {ρ κ : Type} {key : ρ → κ} [DecidableEq κ]

def empty : Table ρ κ key := ⟨[], List.nodup_nil⟩

/-- The row with key `k`. -/
def find? (t : Table ρ κ key) (k : κ) : Option ρ := t.rows.find? (fun r => key r = k)

/-- `f` applied to every row that satisfies `p`. -/
def updateWhere (t : Table ρ κ key) (p : ρ → Bool) (f : ρ → ρ) (hf : ∀ r, key (f r) = key r) :
    Table ρ κ key :=
  ⟨t.rows.map (fun r => if p r then f r else r), by
    have h : (t.rows.map (fun r => if p r then f r else r)).map key = t.rows.map key := by
      rw [List.map_map]
      refine List.map_congr_left fun r _ => ?_
      by_cases hp : p r <;> simp [hp, hf]
    rw [h]
    exact t.nodup⟩

/-- Update the row with key `k`, which must exist and satisfy `p`. -/
def cas (t : Table ρ κ key) (k : κ) (p : ρ → Bool) (f : ρ → ρ) (hf : ∀ r, key (f r) = key r) :
    Option (Table ρ κ key) :=
  match t.find? k with
  | some r => if p r then some (t.updateWhere (fun x => key x = k) f hf) else none
  | none => none

/-- Append a row whose key is not used yet. -/
def insert? (t : Table ρ κ key) (r : ρ) : Option (Table ρ κ key) :=
  if h : key r ∈ t.rows.map key then none
  else some ⟨t.rows ++ [r], by
    rw [List.map_append, List.nodup_append]
    refine ⟨t.nodup, by simp, ?_⟩
    rintro a ha b hb rfl
    simp only [List.map_cons, List.map_nil, List.mem_singleton] at hb
    exact h (hb ▸ ha)⟩

/-- `INSERT .. ON CONFLICT DO UPDATE` of whole rows: `r` in the place of the row with its key, or
appended. -/
def upsert (t : Table ρ κ key) (r : ρ) : Table ρ κ key :=
  match t.insert? r with
  | some t' => t'
  | none => t.updateWhere (fun _ => true) (fun x => if key x = key r then r else x) fun x => by
    by_cases h : key x = key r <;> simp [h]

/-- The rows that satisfy `p`; the others are deleted. -/
def keep (t : Table ρ κ key) (p : ρ → Bool) : Table ρ κ key :=
  ⟨t.rows.filter p, t.nodup.sublist (List.filter_sublist.map key)⟩

/-- The first `limit` rows satisfying `p`, in the order `le`. -/
def select (t : Table ρ κ key) (p : ρ → Bool) (le : ρ → ρ → Bool) (limit : ℕ) : List ρ :=
  ((t.rows.filter p).insertionSort (fun a b => le a b = true)).take limit

/-- How many rows satisfy `p`. -/
def count (t : Table ρ κ key) (p : ρ → Bool) : ℕ := t.rows.countP p

/-! ### Look-up -/

theorem find?_eq_some {t : Table ρ κ key} {k : κ} {r : ρ} :
    t.find? k = some r ↔ r ∈ t.rows ∧ key r = k := by
  constructor
  · intro h
    exact ⟨List.mem_of_find?_eq_some h, by simpa using List.find?_some h⟩
  · rintro ⟨hr, hk⟩
    cases hf : t.find? k with
    | none =>
      have := List.find?_eq_none.mp hf r hr
      simp [hk] at this
    | some r' =>
      have hr' : r' ∈ t.rows := List.mem_of_find?_eq_some hf
      have hk' : key r' = k := by simpa using List.find?_some hf
      have : r' = r := List.inj_on_of_nodup_map t.nodup hr' hr (hk'.trans hk.symm)
      rw [this]

theorem key_of_find? {t : Table ρ κ key} {k : κ} {r : ρ} (h : t.find? k = some r) : key r = k :=
  (find?_eq_some.mp h).2

theorem mem_of_find? {t : Table ρ κ key} {k : κ} {r : ρ} (h : t.find? k = some r) : r ∈ t.rows :=
  (find?_eq_some.mp h).1

theorem find?_of_mem {t : Table ρ κ key} {r : ρ} (h : r ∈ t.rows) : t.find? (key r) = some r :=
  find?_eq_some.mpr ⟨h, rfl⟩

theorem find?_eq_none {t : Table ρ κ key} {k : κ} :
    t.find? k = none ↔ ∀ r ∈ t.rows, key r ≠ k := by
  unfold find?
  simp [List.find?_eq_none]

@[simp] theorem find?_empty (k : κ) : (empty : Table ρ κ key).find? k = none := rfl

/-! ### Updates -/

theorem find?_updateWhere (t : Table ρ κ key) (p : ρ → Bool) (f : ρ → ρ)
    (hf : ∀ r, key (f r) = key r) (k : κ) :
    (t.updateWhere p f hf).find? k = (t.find? k).map (fun r => if p r then f r else r) := by
  unfold find? updateWhere
  rw [List.find?_map]
  congr 2
  funext r
  by_cases hp : p r <;> simp [Function.comp, hp, hf]

theorem find?_updateWhere_of_some {t : Table ρ κ key} {p : ρ → Bool} {f : ρ → ρ}
    (hf : ∀ r, key (f r) = key r) {k : κ} {x : ρ} (h : t.find? k = some x) :
    (t.updateWhere p f hf).find? k = some (if p x then f x else x) := by
  rw [find?_updateWhere, h]
  rfl

theorem find?_updateWhere_some {t : Table ρ κ key} {p : ρ → Bool} {f : ρ → ρ}
    {hf : ∀ r, key (f r) = key r} {k : κ} {y : ρ} (h : (t.updateWhere p f hf).find? k = some y) :
    ∃ x, t.find? k = some x ∧ (if p x then f x else x) = y := by
  rw [find?_updateWhere] at h
  exact Option.map_eq_some_iff.mp h

/-- A successful compare-and-set hit the row with key `k` and changed nothing else. -/
theorem cas_some {t t' : Table ρ κ key} {k : κ} {p : ρ → Bool} {f : ρ → ρ}
    {hf : ∀ r, key (f r) = key r} (h : t.cas k p f hf = some t') :
    ∃ r, t.find? k = some r ∧ p r = true ∧ t' = t.updateWhere (fun x => key x = k) f hf := by
  unfold cas at h
  cases hr : t.find? k with
  | none => rw [hr] at h; simp at h
  | some r =>
    rw [hr] at h
    by_cases hp : p r = true
    · simp only [hp, if_true, Option.some.injEq] at h
      exact ⟨r, rfl, hp, h.symm⟩
    · simp [hp] at h

theorem find?_update_self {t : Table ρ κ key} {k : κ} {r : ρ} {f : ρ → ρ}
    (hf : ∀ r, key (f r) = key r) (h : t.find? k = some r) :
    (t.updateWhere (fun x => key x = k) f hf).find? k = some (f r) := by
  rw [find?_updateWhere, h]
  simp [key_of_find? h]

theorem find?_update_ne {t : Table ρ κ key} {k j : κ} {f : ρ → ρ}
    (hf : ∀ r, key (f r) = key r) (h : j ≠ k) :
    (t.updateWhere (fun x => key x = k) f hf).find? j = t.find? j := by
  rw [find?_updateWhere]
  cases hj : t.find? j with
  | none => rfl
  | some r => simp [key_of_find? hj, h]

omit [DecidableEq κ] in
/-- Selecting by a condition that the update does not touch. -/
theorem filter_updateWhere {t : Table ρ κ key} {p q : ρ → Bool} {f : ρ → ρ}
    (hf : ∀ r, key (f r) = key r) (hq : ∀ r, q (f r) = q r) :
    (t.updateWhere p f hf).rows.filter q =
      (t.rows.filter q).map (fun r => if p r then f r else r) := by
  unfold updateWhere
  rw [List.filter_map]
  congr 2
  funext r
  by_cases hp : p r <;> simp [Function.comp, hp, hq]

omit [DecidableEq κ] in
theorem mem_updateWhere {t : Table ρ κ key} {p : ρ → Bool} {f : ρ → ρ}
    {hf : ∀ r, key (f r) = key r} {r : ρ} :
    r ∈ (t.updateWhere p f hf).rows ↔ ∃ x ∈ t.rows, (if p x then f x else x) = r :=
  List.mem_map

theorem find?_keep (t : Table ρ κ key) (p : ρ → Bool) (k : κ) :
    (t.keep p).find? k = (t.find? k).filter p := by
  refine Option.ext fun r => ?_
  rw [Option.filter_eq_some_iff, find?_eq_some, find?_eq_some]
  unfold keep
  rw [List.mem_filter]
  constructor
  · rintro ⟨⟨hr, hp⟩, hk⟩
    exact ⟨⟨hr, hk⟩, hp⟩
  · rintro ⟨⟨hr, hk⟩, hp⟩
    exact ⟨⟨hr, hp⟩, hk⟩

/-! ### Insertion -/

theorem insert?_some {t t' : Table ρ κ key} {r : ρ} (h : t.insert? r = some t') :
    t.find? (key r) = none ∧ t'.rows = t.rows ++ [r] := by
  unfold insert? at h
  split_ifs at h with hk
  simp only [Option.some.injEq] at h
  subst h
  refine ⟨find?_eq_none.mpr fun x hx hxk => hk ?_, rfl⟩
  exact List.mem_map.mpr ⟨x, hx, hxk⟩

theorem find?_insert?_self {t t' : Table ρ κ key} {r : ρ} (h : t.insert? r = some t') :
    t'.find? (key r) = some r :=
  find?_of_mem (by rw [(insert?_some h).2]; simp)

theorem find?_insert?_ne {t t' : Table ρ κ key} {r : ρ} {k : κ} (h : t.insert? r = some t')
    (hk : k ≠ key r) : t'.find? k = t.find? k := by
  unfold find?
  rw [(insert?_some h).2, List.find?_append]
  simp [Ne.symm hk]

theorem mem_upsert {t : Table ρ κ key} {r x : ρ} :
    x ∈ (t.upsert r).rows ↔ x = r ∨ (x ∈ t.rows ∧ key x ≠ key r) := by
  unfold upsert
  split
  · rename_i t' h
    obtain ⟨free, rows⟩ := insert?_some h
    rw [rows, List.mem_append, List.mem_singleton, or_comm]
    refine or_congr_right ⟨fun hx => ⟨hx, find?_eq_none.mp free x hx⟩, fun hx => hx.1⟩
  · rename_i h
    have used : ∃ y ∈ t.rows, key y = key r := by
      unfold insert? at h
      split_ifs at h with hk
      exact List.mem_map.mp hk
    rw [mem_updateWhere]
    constructor
    · rintro ⟨y, hy, rfl⟩
      by_cases hk : key y = key r
      · exact .inl (by simp [hk])
      · exact .inr (by simp [hk, hy])
    · rintro (rfl | ⟨hx, hk⟩)
      · obtain ⟨y, hy, hk⟩ := used
        exact ⟨y, hy, by simp [hk]⟩
      · exact ⟨x, hx, by simp [hk]⟩

theorem find?_upsert (t : Table ρ κ key) (r : ρ) (k : κ) :
    (t.upsert r).find? k = if k = key r then some r else t.find? k := by
  refine Option.ext fun x => ?_
  rw [find?_eq_some, mem_upsert]
  split
  · rename_i hk
    subst hk
    constructor
    · rintro ⟨rfl | ⟨-, other⟩, same⟩
      · rfl
      · exact absurd same other
    · rintro ⟨⟩
      exact ⟨.inl rfl, rfl⟩
  · rename_i hk
    rw [find?_eq_some]
    constructor
    · rintro ⟨rfl | ⟨hx, -⟩, rfl⟩
      · exact absurd rfl hk
      · exact ⟨hx, rfl⟩
    · rintro ⟨hx, rfl⟩
      exact ⟨.inr ⟨hx, hk⟩, rfl⟩

/-- A row is replaced in its place. -/
theorem length_upsert_of_some {t : Table ρ κ key} {r x : ρ} (h : t.find? (key r) = some x) :
    (t.upsert r).rows.length = t.rows.length := by
  unfold upsert
  split
  · rename_i t' h'
    rw [(insert?_some h').1] at h
    cases h
  · exact List.length_map _

theorem length_upsert_le (t : Table ρ κ key) (r : ρ) :
    (t.upsert r).rows.length ≤ t.rows.length + 1 := by
  unfold upsert
  split
  · rename_i t' h
    rw [(insert?_some h).2, List.length_append]
    exact le_rfl
  · exact (List.length_map _).le.trans (Nat.le_succ _)

/-! ### Counting -/

omit [DecidableEq κ] in
/-- The keys of the rows that meet `p`, of which there are as many as rows. -/
theorem count_eq_length (t : Table ρ κ key) (p : ρ → Bool) :
    t.count p = ((t.rows.filter p).map key).length := by
  rw [count, List.length_map, List.countP_eq_length_filter]

theorem mem_keys_filter {t : Table ρ κ key} {p : ρ → Bool} {k : κ} :
    k ∈ (t.rows.filter p).map key ↔ (t.find? k).any p = true := by
  simp only [List.mem_map, List.mem_filter, Option.any_eq_true]
  constructor
  · rintro ⟨r, ⟨hr, hp⟩, rfl⟩
    exact ⟨r, find?_of_mem hr, hp⟩
  · rintro ⟨r, hr, hp⟩
    exact ⟨r, ⟨mem_of_find? hr, hp⟩, key_of_find? hr⟩

/-- Tables that agree, key by key, on which rows meet the condition count the same. -/
theorem count_congr {t t' : Table ρ κ key} {p p' : ρ → Bool}
    (h : ∀ k, (t'.find? k).any p' = (t.find? k).any p) : t'.count p' = t.count p := by
  rw [count_eq_length, count_eq_length]
  have nodup : ∀ (t : Table ρ κ key) (p : ρ → Bool), ((t.rows.filter p).map key).Nodup :=
    fun t p => t.nodup.sublist (List.Sublist.map _ List.filter_sublist)
  refine List.Perm.length_eq ((List.perm_ext_iff_of_nodup (nodup t' p') (nodup t p)).mpr fun k => ?_)
  rw [mem_keys_filter, mem_keys_filter, h k]

omit [DecidableEq κ] in
theorem count_append {t t' : Table ρ κ key} {l : List ρ} (h : t'.rows = t.rows ++ l)
    (p : ρ → Bool) : t'.count p = t.count p + l.countP p := by
  rw [count, count, h, List.countP_append]

omit [DecidableEq κ] in
/-- An update that hits no row. -/
theorem updateWhere_idle {t : Table ρ κ key} {p : ρ → Bool} {f : ρ → ρ}
    {hf : ∀ r, key (f r) = key r} (h : ∀ r ∈ t.rows, p r = false) : t.updateWhere p f hf = t := by
  have rows : t.rows.map (fun r => if p r then f r else r) = t.rows := by
    refine (List.map_congr_left fun r hr => ?_).trans (List.map_id t.rows)
    rw [h r hr]
    rfl
  obtain ⟨l, nodup⟩ := t
  unfold updateWhere
  congr

/-! ### Selection -/

omit [DecidableEq κ] in
theorem mem_select {t : Table ρ κ key} {p : ρ → Bool} {le : ρ → ρ → Bool} {n : ℕ} {r : ρ}
    (h : r ∈ t.select p le n) : r ∈ t.rows ∧ p r = true := by
  have h1 := List.mem_of_mem_take h
  rw [List.mem_insertionSort] at h1
  exact List.mem_filter.mp h1

omit [DecidableEq κ] in
/-- The first row of a selection precedes every other. -/
theorem select_first {t : Table ρ κ key} {p : ρ → Bool} {le : ρ → ρ → Bool}
    (total : ∀ a b, le a b = true ∨ le b a = true)
    (trans : ∀ a b c, le a b = true → le b c = true → le a c = true) {r x : ρ}
    (h : (t.select p le 1).head? = some r) (hx : x ∈ t.rows) (hp : p x = true) :
    le r x = true := by
  have : Std.Total (fun a b => le a b = true) := ⟨total⟩
  have : IsTrans ρ (fun a b => le a b = true) := ⟨trans⟩
  have hsorted := List.pairwise_insertionSort (fun a b => le a b = true) (t.rows.filter p)
  have hmem : x ∈ (t.rows.filter p).insertionSort (fun a b => le a b = true) := by
    rw [List.mem_insertionSort, List.mem_filter]
    exact ⟨hx, hp⟩
  unfold select at h
  rw [List.head?_take, if_neg (by omega)] at h
  obtain ⟨rest, hrest⟩ := List.head?_eq_some_iff.mp h
  rw [hrest] at hsorted hmem
  rcases List.mem_cons.mp hmem with rfl | hmem
  · exact (total x x).elim id id
  · exact (List.pairwise_cons.mp hsorted).1 x hmem

omit [DecidableEq κ] in
/-- A row that satisfies the condition is selected, or the selection is full with rows that come
before it. -/
theorem mem_select_or_full {t : Table ρ κ key} {p : ρ → Bool} {le : ρ → ρ → Bool} {n : ℕ}
    (total : ∀ a b, le a b = true ∨ le b a = true)
    (trans : ∀ a b c, le a b = true → le b c = true → le a c = true) {r : ρ} (hr : r ∈ t.rows)
    (hp : p r = true) :
    r ∈ t.select p le n ∨ ((t.select p le n).length = n ∧ ∀ x ∈ t.select p le n, le x r = true) := by
  have : Std.Total (fun a b => le a b = true) := ⟨total⟩
  have : IsTrans ρ (fun a b => le a b = true) := ⟨trans⟩
  unfold select
  have hsorted := List.pairwise_insertionSort (fun a b => le a b = true) (t.rows.filter p)
  have hmem : r ∈ (t.rows.filter p).insertionSort (fun a b => le a b = true) := by
    rw [List.mem_insertionSort, List.mem_filter]
    exact ⟨hr, hp⟩
  generalize (t.rows.filter p).insertionSort (fun a b => le a b = true) = l at hsorted hmem
  rw [← List.take_append_drop n l] at hsorted hmem
  rcases List.mem_append.mp hmem with first | later
  · exact .inl first
  · refine .inr ⟨?_, fun x hx => (List.pairwise_append.mp hsorted).2.2 x hx r later⟩
    rw [List.length_take]
    have : n < l.length := by
      by_contra short
      rw [List.drop_eq_nil_of_le (by omega)] at later
      cases later
    omega

omit [DecidableEq κ] in
/-- Rows selected by a rank that tells them apart come in strictly increasing rank. -/
theorem pairwise_sorted {t : Table ρ κ key} {p : ρ → Bool} {le : ρ → ρ → Bool} {rank : ρ → ℕ}
    (total : ∀ a b, le a b = true ∨ le b a = true)
    (trans : ∀ a b c, le a b = true → le b c = true → le a c = true)
    (mono : ∀ a b, le a b = true → rank a ≤ rank b)
    (inj : ∀ a ∈ t.rows, ∀ b ∈ t.rows, p a = true → p b = true → rank a = rank b → a = b) :
    ((t.rows.filter p).insertionSort (fun a b => le a b = true)).Pairwise
      (fun a b => rank a < rank b) := by
  have : Std.Total (fun a b => le a b = true) := ⟨total⟩
  have : IsTrans ρ (fun a b => le a b = true) := ⟨trans⟩
  have hnodup : ((t.rows.filter p).insertionSort (fun a b => le a b = true)).Nodup := by
    rw [(List.perm_insertionSort _ _).nodup_iff]
    exact (List.Nodup.of_map _ t.nodup).filter p
  have hsorted := List.pairwise_insertionSort (fun a b => le a b = true) (t.rows.filter p)
  refine (hsorted.and hnodup).imp_of_mem fun {a b} ha hb hab => ?_
  rw [List.mem_insertionSort, List.mem_filter] at ha hb
  refine lt_of_le_of_ne (mono a b hab.1) fun heq => hab.2 ?_
  exact inj a ha.1 b hb.1 ha.2 hb.2 heq

/-- `ORDER BY` several columns: the first that differs decides. -/
def orderBy : List ℕ → List ℕ → Bool
  | [], _ => true
  | _ :: _, [] => false
  | a :: x, b :: y => decide (a < b) || (decide (a = b) && orderBy x y)

theorem orderBy_total (x y : List ℕ) : orderBy x y = true ∨ orderBy y x = true := by
  induction x generalizing y with
  | nil => exact .inl rfl
  | cons a x ih =>
    cases y with
    | nil => exact .inr rfl
    | cons b y =>
      simp only [orderBy, Bool.or_eq_true, Bool.and_eq_true, decide_eq_true_eq]
      rcases Nat.lt_trichotomy a b with h | rfl | h
      · exact .inl (.inl h)
      · exact (ih y).imp (fun h => .inr ⟨rfl, h⟩) (fun h => .inr ⟨rfl, h⟩)
      · exact .inr (.inl h)

theorem orderBy_trans {x y z : List ℕ} (h : orderBy x y = true) (h' : orderBy y z = true) :
    orderBy x z = true := by
  induction x generalizing y z with
  | nil => rfl
  | cons a x ih =>
    cases y with
    | nil => cases h
    | cons b y =>
      cases z with
      | nil => cases h'
      | cons c z =>
        simp only [orderBy, Bool.or_eq_true, Bool.and_eq_true, decide_eq_true_eq] at h h' ⊢
        rcases h with h | ⟨rfl, h⟩ <;> rcases h' with h' | ⟨rfl, h'⟩
        · exact .inl (h.trans h')
        · exact .inl h
        · exact .inl h'
        · exact .inr ⟨rfl, ih h h'⟩

/-- The first column decides first. -/
theorem orderBy_head {a b : ℕ} {x y : List ℕ} (h : orderBy (a :: x) (b :: y) = true) : a ≤ b := by
  simp only [orderBy, Bool.or_eq_true, Bool.and_eq_true, decide_eq_true_eq] at h
  omega

/-- A prefix of a list of increasing rank is what does not exceed its last element. -/
theorem mem_prefix_iff {α : Type} {rank : α → ℕ} {pre rest : List α} {last x : α}
    (sorted : (pre ++ rest).Pairwise (fun a b => rank a < rank b))
    (hlast : pre.getLast? = some last) (hx : x ∈ pre ++ rest) :
    x ∈ pre ↔ rank x ≤ rank last := by
  obtain ⟨init, rfl⟩ := List.getLast?_eq_some_iff.mp hlast
  rw [List.append_assoc, List.pairwise_append] at sorted
  obtain ⟨-, htail, hinit⟩ := sorted
  rw [List.singleton_append, List.pairwise_cons] at htail
  constructor
  · intro h
    rcases List.mem_append.mp h with h | h
    · exact (hinit x h last (by simp)).le
    · rw [List.mem_singleton.mp h]
  · intro h
    rcases List.mem_append.mp hx with hx | hx
    · exact hx
    · exact absurd (htail.1 x hx) (by omega)

end Table
