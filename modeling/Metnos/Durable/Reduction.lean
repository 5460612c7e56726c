import Mathlib.Data.List.Perm.Basic
import Metnos.Durable.Frame

/-!
# Durable.Reduction — what the levels of a hierarchical reduction cover

Every level of a reduction groups its inputs: level 0 the exposed units of the dependency, level
`n + 1` the groups of level `n`.  The cursor walks over the inputs in order; a level that is
finished has every input in exactly one group.  `Progress` states this for every level below the
cursor, for the part of the current level the cursor has passed, and for the unit that was marked
as root.
-/

namespace Metnos.Durable

open Transaction

/-! ## Keys and bound dependencies -/

/-- The keys of the units that satisfy `q`. -/
def Store.keys (db : Store) (q : UnitRow → Bool) : List Key :=
  (db.units.rows.filter q).map UnitRow.id

/-- The unit whose result a dependency reads. -/
def Store.producer (db : Store) (d : UnitDependency) : Option Key :=
  (db.results.find? d.sourceResultId).map ResultRow.unitId

/-- The units whose results a unit reads, in order. -/
def Store.producers (db : Store) (k : Key) : List Key :=
  (unitDependenciesOf db k).filterMap db.producer

/-- The dependencies of a unit outside its own stage, through those inside it. -/
def leaves (db : Store) (s : Stage) : ℕ → Key → List Key
  | 0, _ => []
  | n + 1, k => (db.producers k).flatMap fun j =>
      if (db.units.find? j).any (fun u => u.stageId = s.id) then leaves db s n j else [j]

/-- A unit with its dependencies inside its own stage, and theirs. -/
def groups (db : Store) (s : Stage) : ℕ → Key → List Key
  | 0, _ => []
  | n + 1, k => k :: (db.producers k).flatMap fun j =>
      if (db.units.find? j).any (fun u => u.stageId = s.id) then groups db s n j else []

section
variable {D : Digests} {db db' : Store} {s p : Stage} {level : ℕ}

theorem mem_keys {q : UnitRow → Bool} {k : Key} :
    k ∈ db.keys q ↔ ∃ u, db.units.find? k = some u ∧ q u = true := by
  unfold Store.keys
  simp only [List.mem_map, List.mem_filter, Table.find?_eq_some]
  constructor
  · rintro ⟨u, ⟨hu, hq⟩, rfl⟩
    exact ⟨u, ⟨hu, rfl⟩, hq⟩
  · rintro ⟨u, ⟨hu, rfl⟩, hq⟩
    exact ⟨u, ⟨hu, hq⟩, rfl⟩

theorem keys_nodup (q : UnitRow → Bool) : (db.keys q).Nodup :=
  List.Nodup.sublist (List.filter_sublist.map _) db.units.nodup

theorem keys_perm {q q' : UnitRow → Bool} (h : ∀ k, k ∈ db.keys q ↔ k ∈ db'.keys q') :
    (db.keys q).Perm (db'.keys q') :=
  (List.perm_ext_iff_of_nodup (keys_nodup q) (keys_nodup q')).mpr h

/-- Every dependency of the unit has a result. -/
def Bound (db : Store) (k : Key) : Prop :=
  ∀ d ∈ unitDependenciesOf db k, (db.producer d).isSome = true

theorem KeepsBindings.producer (K : KeepsBindings db db') {d : UnitDependency}
    (h : (db.producer d).isSome = true) : db'.producer d = db.producer d := by
  unfold Store.producer at h ⊢
  rw [Option.isSome_map, Option.isSome_iff_exists] at h
  obtain ⟨r, hr⟩ := h
  rw [hr, K.results _ r hr]

theorem KeepsBindings.bound (K : KeepsBindings db db') {k : Key} {u : UnitRow}
    (hu : db.units.find? k = some u) (B : Bound db k) :
    Bound db' k ∧ db'.producers k = db.producers k := by
  have hdeps := K.dependencies k u hu
  constructor
  · intro d hd
    rw [hdeps] at hd
    rw [K.producer (B d hd)]
    exact B d hd
  · unfold Store.producers
    rw [hdeps]
    exact List.filterMap_congr fun d hd => K.producer (B d hd)

/-! ## Covered levels -/

/-- The inputs that satisfy `q` are each in exactly one group of the level. -/
structure Covers (db : Store) (s p : Stage) (level : ℕ) (q : UnitRow → Bool) : Prop where
  bound : ∀ k ∈ db.keys (inLevel s level), Bound db k
  perm : ((db.keys (inLevel s level)).flatMap db.producers).Perm
    (db.keys (fun u => levelInput s p level u && q u))

/-- The part of the inputs the cursor has passed. -/
def consumed (db : Store) (c : StageCursor) (u : UnitRow) : Bool :=
  !afterCursor db c.reductionLevel c.parentUnitId u

/-- What the unit marked as root is: the only group of a covered level, or a unit that is never
committed. -/
inductive Rooted (db : Store) (s p : Stage) (level : ℕ) (u : UnitRow) : Prop
  | sole (only : db.keys (inLevel s level) = [u.id]) (covers : Covers db s p level fun _ => true)
  | dead (state : u.state = .failedPermanent ∨ u.state = .cancelled ∨ u.state = .skipped)
  | blocked (blocked : Blocked db u)

/-- How far the reduction `s` over `p` has come, at the cursor `c`. -/
structure Progress (db : Store) (s p : Stage) (c : StageCursor) : Prop where
  levels : ∀ k u, db.units.find? k = some u → u.stageId = s.id →
    ∃ n ≤ c.reductionLevel, u.reductionLevel = some n
  ordinals : c.completed = false → ∀ k k' u u', db.units.find? k = some u →
    db.units.find? k' = some u' → u.stageId = s.id → u'.stageId = s.id →
    u.reductionLevel = u'.reductionLevel →
    u.reductionOrdinal.getD 0 = u'.reductionOrdinal.getD 0 → k = k'
  top : c.completed = false → ∀ k u, db.units.find? k = some u → u.stageId = s.id →
    u.reductionLevel = some c.reductionLevel → ((u.reductionOrdinal.getD 0 : ℕ) : ℤ) ≤ c.reductionOrdinal
  floor : -1 ≤ c.reductionOrdinal
  passed : c.completed = false → ∀ k, c.parentUnitId = some k →
    ∃ u, db.units.find? k = some u ∧ levelInput s p c.reductionLevel u = true
  closed : ∀ n < c.reductionLevel, Covers db s p n fun _ => true
  current : c.completed = false → c.attentionCode = none →
    Covers db s p c.reductionLevel (consumed db c)
  waiting : c.completed = false → c.attentionCode = none → c.reductionWaiting = true →
    Covers db s p c.reductionLevel fun _ => true
  unmarked : c.completed = false → ∀ k u, db.units.find? k = some u → u.stageId = s.id →
    u.reductionRoot = false
  rooted : c.completed = true → ∀ k u, db.units.find? k = some u → u.stageId = s.id →
    u.reductionRoot = true → Rooted db s p c.reductionLevel u

/-- Before the first round. -/
structure Unstarted (db : Store) (s : Stage) (c : StageCursor) : Prop where
  completed : c.completed = false
  waiting : c.reductionWaiting = false
  parentUnitId : c.parentUnitId = none
  level : c.reductionLevel = 0
  ordinal : c.reductionOrdinal = -1
  noUnits : ∀ k u, db.units.find? k = some u → u.stageId ≠ s.id

/-! ## What identity determines -/

theorem identity_fields {u v : UnitRow} (h : u.identity = v.identity) :
    u.id = v.id ∧ u.revisionId = v.revisionId ∧ u.stageId = v.stageId ∧ u.unitKey = v.unitKey ∧
    u.reductionLevel = v.reductionLevel ∧ u.reductionOrdinal = v.reductionOrdinal ∧
    u.reductionRoot = v.reductionRoot := by
  simp only [UnitRow.identity, Prod.mk.injEq] at h
  exact ⟨h.1, h.2.1, h.2.2.1, h.2.2.2.1, h.2.2.2.2.2.2.1, h.2.2.2.2.2.2.2.1, h.2.2.2.2.2.2.2.2⟩

theorem inLevel_identity {u v : UnitRow} (h : u.identity = v.identity) :
    inLevel s level u = inLevel s level v := by
  obtain ⟨-, h1, h2, -, h3, -⟩ := identity_fields h
  simp only [inLevel, h1, h2, h3]

theorem levelInput_identity {u v : UnitRow} (h : u.identity = v.identity) :
    levelInput s p level u = levelInput s p level v := by
  obtain ⟨-, h1, h2, -, -, -, h3⟩ := identity_fields h
  cases level with
  | zero => simp only [levelInput, exposed, h1, h2, h3]
  | succ n => exact inLevel_identity h

theorem inputRank_identity {u v : UnitRow} (h : u.identity = v.identity) :
    inputRank level u = inputRank level v := by
  obtain ⟨-, -, -, h1, -, h2, -⟩ := identity_fields h
  cases level with
  | zero => exact h1
  | succ n => exact congrArg (fun o => Option.getD o 0) h2

theorem levelInput_stage {u : UnitRow} (h : levelInput s p level u = true) :
    u.stageId = s.id ∨ u.stageId = p.id := by
  cases level with
  | zero =>
    simp only [levelInput, exposed, Bool.and_eq_true, decide_eq_true_eq] at h
    exact .inr h.1.2
  | succ n => exact .inl (inLevel_iff.mp h).2.1

/-! ## What other acts leave alone -/

theorem Evolution.mem_keys {x : Key} (E : Evolution x db db') {q q' : UnitRow → Bool}
    (hx : ∀ u, q u = true → u.stageId = x) (hx' : ∀ u, q' u = true → u.stageId = x)
    (hq : ∀ u u' : UnitRow, u'.identity = u.identity → q' u' = q u) (k : Key) :
    k ∈ db'.keys q' ↔ k ∈ db.keys q := by
  rw [Durable.mem_keys, Durable.mem_keys]
  constructor
  · rintro ⟨u', hu', hq'⟩
    obtain ⟨u, hu, hs⟩ := E.new k u' hu' (hx' u' hq')
    obtain ⟨u'', hu'', hid, -⟩ := E.old k u hu hs
    obtain rfl : u'' = u' := Option.some.inj (hu''.symm.trans hu')
    exact ⟨u, hu, (hq u u'' hid).symm.trans hq'⟩
  · rintro ⟨u, hu, hqu⟩
    obtain ⟨u', hu', hid, -⟩ := E.old k u hu (hx u hqu)
    exact ⟨u', hu', (hq u u' hid).trans hqu⟩

theorem Evolution.level_keys (E : Evolution s.id db db') (k : Key) :
    k ∈ db'.keys (inLevel s level) ↔ k ∈ db.keys (inLevel s level) :=
  E.mem_keys (fun _ h => (inLevel_iff.mp h).2.1) (fun _ h => (inLevel_iff.mp h).2.1)
    (fun _ _ h => inLevel_identity h) k

theorem Evolution.input_keys (Es : Evolution s.id db db') (Ep : Evolution p.id db db')
    {q q' : UnitRow → Bool} (hq : ∀ u u' : UnitRow, u'.identity = u.identity → q' u' = q u)
    (k : Key) : k ∈ db'.keys (fun u => levelInput s p level u && q' u) ↔
      k ∈ db.keys (fun u => levelInput s p level u && q u) := by
  have both : ∀ u u' : UnitRow, u'.identity = u.identity →
      (levelInput s p level u' && q' u') = (levelInput s p level u && q u) := fun u u' h => by
    rw [levelInput_identity h, hq u u' h]
  cases level with
  | zero =>
    refine Ep.mem_keys (fun u h => ?_) (fun u h => ?_) both k <;>
      simp only [levelInput, exposed, Bool.and_eq_true, decide_eq_true_eq] at h <;> exact h.1.1.2
  | succ n =>
    refine Es.mem_keys (fun u h => ?_) (fun u h => ?_) both k <;>
      exact (inLevel_iff.mp (Bool.and_eq_true_iff.mp h).1).2.1

theorem Covers.of_keys {q q' : UnitRow → Bool} (C : Covers db s p level q)
    (groups : ∀ k, k ∈ db'.keys (inLevel s level) ↔ k ∈ db.keys (inLevel s level))
    (inputs : ∀ k, k ∈ db'.keys (fun u => levelInput s p level u && q' u) ↔
      k ∈ db.keys (fun u => levelInput s p level u && q u))
    (K : KeepsBindings db db') : Covers db' s p level q' := by
  have same : ∀ k ∈ db.keys (inLevel s level), Bound db' k ∧ db'.producers k = db.producers k := by
    intro k hk
    obtain ⟨u, hu, -⟩ := mem_keys.mp hk
    exact K.bound hu (C.bound k hk)
  constructor
  · exact fun k hk => (same k ((groups k).mp hk)).1
  · refine ((keys_perm groups).flatMap_right _).trans ?_
    rw [List.flatMap_congr fun k hk => (same k hk).2]
    exact C.perm.trans (keys_perm inputs).symm

theorem Covers.keep {q q' : UnitRow → Bool} (C : Covers db s p level q)
    (Es : Evolution s.id db db') (Ep : Evolution p.id db db') (K : KeepsBindings db db')
    (hq : ∀ u u' : UnitRow, u'.identity = u.identity → q' u' = q u) : Covers db' s p level q' :=
  C.of_keys Es.level_keys (Es.input_keys Ep hq) K

theorem consumed_identity {c : StageCursor}
    (passed : ∀ k, c.parentUnitId = some k → ∃ u u', db.units.find? k = some u ∧
      db'.units.find? k = some u' ∧ u'.identity = u.identity) {u u' : UnitRow}
    (h : u'.identity = u.identity) : consumed db' c u' = consumed db c u := by
  unfold consumed afterCursor
  cases hk : c.parentUnitId with
  | none => rfl
  | some k =>
    obtain ⟨v, v', hv, hv', hid⟩ := passed k hk
    rw [Option.bind_some, Option.bind_some, hv, hv']
    simp only [inputRank_identity h, inputRank_identity hid]

theorem Rooted.keep {u u' : UnitRow} (R : Rooted db s p level u) (Es : Evolution s.id db db')
    (Ep : Evolution p.id db db') (K : KeepsBindings db db') (hid : u'.identity = u.identity)
    (hterminal : u.state.terminal = true → u'.state = u.state)
    (hblocked : Blocked db u → Blocked db' u' ∨ u'.state = .cancelled) :
    Rooted db' s p level u' := by
  cases R with
  | sole only covers =>
    refine .sole ?_ (covers.keep Es Ep K fun _ _ _ => rfl)
    have hperm : (db'.keys (inLevel s level)).Perm _ := keys_perm Es.level_keys
    rw [only, List.perm_singleton] at hperm
    rw [hperm, (identity_fields hid).1]
  | dead state =>
    have hsame : u'.state = u.state := by
      refine hterminal ?_
      rcases state with h | h | h <;> rw [h] <;> rfl
    exact .dead (hsame ▸ state)
  | blocked blocked =>
    rcases hblocked blocked with h | h
    · exact .blocked h
    · exact .dead (.inr (.inl h))

theorem Progress.keep {c : StageCursor} (R : Progress db s p c) (Es : Evolution s.id db db')
    (Ep : Evolution p.id db db') (K : KeepsBindings db db') : Progress db' s p c := by
  have back : ∀ k u', db'.units.find? k = some u' → u'.stageId = s.id → ∃ u,
      db.units.find? k = some u ∧ u.stageId = s.id ∧ u'.identity = u.identity ∧
      (u.state.terminal = true → u'.state = u.state) ∧
      (Blocked db u → Blocked db' u' ∨ u'.state = .cancelled) := by
    intro k u' hu' hs'
    obtain ⟨u, hu, hs⟩ := Es.new k u' hu' hs'
    obtain ⟨u'', hu'', h⟩ := Es.old k u hu hs
    obtain rfl : u'' = u' := Option.some.inj (hu''.symm.trans hu')
    exact ⟨u, hu, hs, h⟩
  have passed : c.completed = false → ∀ k, c.parentUnitId = some k → ∃ u u',
      db.units.find? k = some u ∧ db'.units.find? k = some u' ∧ u'.identity = u.identity ∧
      levelInput s p c.reductionLevel u = true := by
    intro hc k hk
    obtain ⟨u, hu, hin⟩ := R.passed hc k hk
    rcases levelInput_stage hin with hs | hs
    · obtain ⟨u', hu', hid, -⟩ := Es.old k u hu hs
      exact ⟨u, u', hu, hu', hid, hin⟩
    · obtain ⟨u', hu', hid, -⟩ := Ep.old k u hu hs
      exact ⟨u, u', hu, hu', hid, hin⟩
  refine ⟨?_, ?_, ?_, R.floor, ?_, ?_, ?_, ?_, ?_, ?_⟩
  · intro k u' hu' hs'
    obtain ⟨u, hu, hs, hid, -⟩ := back k u' hu' hs'
    obtain ⟨n, hn, hl⟩ := R.levels k u hu hs
    exact ⟨n, hn, (identity_fields hid).2.2.2.2.1.trans hl⟩
  · intro hc k k' u' v' hu' hv' hus hvs hlevel hordinal
    obtain ⟨u, hu, hs, hid, -⟩ := back k u' hu' hus
    obtain ⟨v, hv, hvs', hvid, -⟩ := back k' v' hv' hvs
    obtain ⟨-, -, -, -, hul, huo, -⟩ := identity_fields hid
    obtain ⟨-, -, -, -, hvl, hvo, -⟩ := identity_fields hvid
    refine R.ordinals hc k k' u v hu hv hs hvs' (hul.symm.trans (hlevel.trans hvl)) ?_
    rw [← huo, ← hvo]
    exact hordinal
  · intro hc k u' hu' hs' hl
    obtain ⟨u, hu, hs, hid, -⟩ := back k u' hu' hs'
    obtain ⟨-, -, -, -, hul, huo, -⟩ := identity_fields hid
    rw [huo]
    exact R.top hc k u hu hs (hul.symm.trans hl)
  · intro hc k hk
    obtain ⟨u, u', -, hu', hid, hin⟩ := passed hc k hk
    exact ⟨u', hu', (levelInput_identity hid).trans hin⟩
  · exact fun n hn => (R.closed n hn).keep Es Ep K fun _ _ _ => rfl
  · intro hc ha
    refine (R.current hc ha).keep Es Ep K fun u u' h => consumed_identity (fun k hk => ?_) h
    obtain ⟨v, v', hv, hv', hid, -⟩ := passed hc k hk
    exact ⟨v, v', hv, hv', hid⟩
  · exact fun hc ha hw => (R.waiting hc ha hw).keep Es Ep K fun _ _ _ => rfl
  · intro hc k u' hu' hs'
    obtain ⟨u, hu, hs, hid, -⟩ := back k u' hu' hs'
    rw [(identity_fields hid).2.2.2.2.2.2]
    exact R.unmarked hc k u hu hs
  · intro hc k u' hu' hs' hroot
    obtain ⟨u, hu, hs, hid, hterminal, hblocked⟩ := back k u' hu' hs'
    rw [(identity_fields hid).2.2.2.2.2.2] at hroot
    exact (R.rooted hc k u hu hs hroot).keep Es Ep K hid hterminal hblocked

/-! ## From levels to leaves -/

theorem Covers.producers_input {q : UnitRow → Bool} (C : Covers db s p level q) {k j : Key}
    (hk : k ∈ db.keys (inLevel s level)) (hj : j ∈ db.producers k) :
    ∃ u, db.units.find? j = some u ∧ levelInput s p level u = true := by
  have hm : j ∈ (db.keys (inLevel s level)).flatMap db.producers := List.mem_flatMap.mpr ⟨k, hk, hj⟩
  obtain ⟨u, hu, hq⟩ := mem_keys.mp (C.perm.mem_iff.mp hm)
  exact ⟨u, hu, (Bool.and_eq_true_iff.mp hq).1⟩

theorem Covers.inner_perm (C : Covers db s p (level + 1) fun _ => true) :
    ((db.keys (inLevel s (level + 1))).flatMap db.producers).Perm (db.keys (inLevel s level)) := by
  have hinput : (fun u => levelInput s p (level + 1) u && true) = inLevel s level := by
    funext u
    simp [levelInput]
  have hperm := C.perm
  rwa [hinput] at hperm

theorem Covers.inner_if {q : UnitRow → Bool} (C : Covers db s p (level + 1) q) {k j : Key}
    (hk : k ∈ db.keys (inLevel s (level + 1))) (hj : j ∈ db.producers k) {xs ys : List Key} :
    (if (db.units.find? j).any (fun u => u.stageId = s.id) then xs else ys) = xs := by
  obtain ⟨u, hu, hin⟩ := C.producers_input hk hj
  have hs : u.stageId = s.id := (inLevel_iff.mp hin).2.1
  rw [hu, if_pos]
  simpa using hs

/-- Over the units of a covered level, the dependencies outside the stage are the exposed units of
the dependency, each once. -/
theorem leaves_perm (hp : p.id ≠ s.id) (covers : ∀ n ≤ level, Covers db s p n fun _ => true)
    {fuel : ℕ} (hfuel : level < fuel) :
    ((db.keys (inLevel s level)).flatMap (leaves db s fuel)).Perm (db.keys (exposed p)) := by
  induction level generalizing fuel with
  | zero =>
    obtain ⟨n, rfl⟩ := Nat.exists_eq_succ_of_ne_zero (Nat.pos_iff_ne_zero.mp hfuel)
    have C := covers 0 (Nat.le_refl 0)
    have hleaf : ∀ k ∈ db.keys (inLevel s 0), leaves db s (n + 1) k = db.producers k := by
      intro k hk
      have hone : ∀ j ∈ db.producers k, (if (db.units.find? j).any (fun u => u.stageId = s.id) then
          leaves db s n j else [j]) = [j] := fun j hj => by
        obtain ⟨u, hu, hin⟩ := C.producers_input hk hj
        simp only [levelInput, exposed, Bool.and_eq_true, decide_eq_true_eq] at hin
        rw [hu, if_neg]
        simpa [hin.1.2] using hp
      rw [leaves, List.flatMap_congr hone]
      simp
    rw [List.flatMap_congr hleaf]
    have hinput : (fun u => levelInput s p 0 u && true) = exposed p := by
      funext u
      simp [levelInput]
    have hperm := C.perm
    rwa [hinput] at hperm
  | succ level ih =>
    obtain ⟨n, rfl⟩ := Nat.exists_eq_succ_of_ne_zero (by omega : fuel ≠ 0)
    have C := covers (level + 1) (Nat.le_refl _)
    have hinner : ∀ k ∈ db.keys (inLevel s (level + 1)),
        leaves db s (n + 1) k = (db.producers k).flatMap (leaves db s n) := by
      intro k hk
      rw [leaves]
      exact List.flatMap_congr fun j hj => C.inner_if hk hj
    rw [List.flatMap_congr hinner, ← List.flatMap_assoc]
    exact (C.inner_perm.flatMap_right _).trans (ih (fun m hm => covers m (by omega)) (by omega))

/-- Whether a unit is in one of the levels up to the given one. -/
def upToLevel (s : Stage) (level : ℕ) (u : UnitRow) : Bool :=
  decide (u.revisionId = s.revisionId) && decide (u.stageId = s.id) &&
  u.reductionLevel.any (fun n => n ≤ level)

theorem upToLevel_iff {u : UnitRow} : upToLevel s level u = true ↔ ∃ n ≤ level,
    inLevel s n u = true := by
  simp only [upToLevel, inLevel_iff, Bool.and_eq_true, decide_eq_true_eq, Option.any_eq_true]
  constructor
  · rintro ⟨⟨h1, h2⟩, n, hn, hle⟩
    exact ⟨n, hle, h1, h2, hn⟩
  · rintro ⟨n, hle, h1, h2, hn⟩
    exact ⟨⟨h1, h2⟩, n, hn, hle⟩

theorem upToLevel_zero : db.keys (upToLevel s 0) = db.keys (inLevel s 0) := by
  unfold Store.keys
  congr 2
  funext u
  rw [Bool.eq_iff_iff, upToLevel_iff]
  simp

theorem upToLevel_succ : (db.keys (inLevel s (level + 1)) ++ db.keys (upToLevel s level)).Perm
    (db.keys (upToLevel s (level + 1))) := by
  refine (List.perm_ext_iff_of_nodup ?_ (keys_nodup _)).mpr fun k => ?_
  · refine List.nodup_append'.mpr ⟨keys_nodup _, keys_nodup _, fun k h1 h2 => ?_⟩
    obtain ⟨u, hu, hin⟩ := mem_keys.mp h1
    obtain ⟨v, hv, hup⟩ := mem_keys.mp h2
    obtain rfl : u = v := Option.some.inj (hu.symm.trans hv)
    obtain ⟨n, hn, hin'⟩ := upToLevel_iff.mp hup
    have := (inLevel_iff.mp hin).2.2.symm.trans (inLevel_iff.mp hin').2.2
    have : level + 1 = n := Option.some.inj this
    omega
  · rw [List.mem_append]
    simp only [mem_keys, ← exists_or, ← and_or_left, upToLevel_iff, Nat.le_succ_iff]
    refine exists_congr fun u => and_congr_right fun _ => ?_
    constructor
    · rintro (h | ⟨n, hn, h⟩)
      · exact ⟨level + 1, .inr rfl, h⟩
      · exact ⟨n, .inl hn, h⟩
    · rintro ⟨n, hn | rfl, h⟩
      · exact .inr ⟨n, hn, h⟩
      · exact .inl h

/-- Over the units of a covered level, the dependencies inside the stage are the units of the
levels below, each once. -/
theorem groups_perm (hp : p.id ≠ s.id) (covers : ∀ n ≤ level, Covers db s p n fun _ => true)
    {fuel : ℕ} (hfuel : level < fuel) :
    ((db.keys (inLevel s level)).flatMap (groups db s fuel)).Perm (db.keys (upToLevel s level)) := by
  induction level generalizing fuel with
  | zero =>
    obtain ⟨n, rfl⟩ := Nat.exists_eq_succ_of_ne_zero (Nat.pos_iff_ne_zero.mp hfuel)
    have C := covers 0 (Nat.le_refl 0)
    have hleaf : ∀ k ∈ db.keys (inLevel s 0), groups db s (n + 1) k = [k] := by
      intro k hk
      rw [groups, List.cons_inj_right, List.flatMap_eq_nil_iff]
      intro j hj
      obtain ⟨u, hu, hin⟩ := C.producers_input hk hj
      simp only [levelInput, exposed, Bool.and_eq_true, decide_eq_true_eq] at hin
      rw [hu, if_neg]
      simpa [hin.1.2] using hp
    rw [List.flatMap_congr hleaf, upToLevel_zero, List.flatMap_singleton']
  | succ level ih =>
    obtain ⟨n, rfl⟩ := Nat.exists_eq_succ_of_ne_zero (by omega : fuel ≠ 0)
    have C := covers (level + 1) (Nat.le_refl _)
    have hinner : ∀ k ∈ db.keys (inLevel s (level + 1)),
        groups db s (n + 1) k = [k] ++ (db.producers k).flatMap (groups db s n) := by
      intro k hk
      rw [groups, List.singleton_append, List.cons_inj_right]
      exact List.flatMap_congr fun j hj => C.inner_if hk hj
    rw [List.flatMap_congr hinner]
    refine (List.flatMap_append_perm _ _ _).symm.trans ?_
    rw [List.flatMap_singleton', ← List.flatMap_assoc]
    refine List.Perm.trans (.append_left _ ?_) upToLevel_succ
    exact (C.inner_perm.flatMap_right _).trans (ih (fun m hm => covers m (by omega)) (by omega))

end

end Metnos.Durable
