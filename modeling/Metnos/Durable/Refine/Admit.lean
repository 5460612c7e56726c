import Mathlib
import Metnos.Durable.Refine.Claim

/-!
# Durable.Refine.Admit — the rows that admission inserts

`insertRevisionRows` only appends.  `Admitted` says what: stages and cursors of the new revision,
and initial units of stages whose cursor is complete from the start.
-/

namespace Metnos.Durable

open Transaction

section
variable {D : Digests} {db db' : Store}

def stageRows (ids : FreshIds) (adm : Admission) : List Stage :=
  adm.plan.stages.zipIdx.map (fun x => makeStage adm.plan.stages ids adm.revisionId x.2 x.1)

/-- The stage rows whose units exist from admission on. -/
def initialRows (ids : FreshIds) (adm : Admission) : List Stage :=
  ((adm.plan.stages.zip (stageRows ids adm)).filter
    (fun x => initialStage adm.plan.stages x.1)).map Prod.snd

/-- `UNIQUE (revision_id, stage_id, unit_key)`. -/
def DistinctUnits (db : Store) : Prop :=
  ∀ u ∈ db.units.rows, ∀ v ∈ db.units.rows, u.revisionId = v.revisionId → u.stageId = v.stageId →
    u.unitKey = v.unitKey → u = v

theorem DistinctUnits.insert {u : UnitRow} {units : Table UnitRow Key UnitRow.id}
    (U : DistinctUnits db) (distinct : ∀ v ∈ db.units.rows, unitConflict u v = false)
    (h : db.units.insert? u = some units) (hdb : db'.units = units) : DistinctUnits db' := by
  have new : ∀ v ∈ db.units.rows, v.revisionId = u.revisionId → v.stageId = u.stageId →
      v.unitKey ≠ u.unitKey := fun v hv h1 h2 h3 => by
    have := distinct v hv
    simp [unitConflict, h1, h2, h3] at this
  intro a ha b hb h1 h2 h3
  rw [hdb, (Table.insert?_some h).2, List.mem_append, List.mem_singleton] at ha hb
  rcases ha with ha | rfl <;> rcases hb with hb | rfl
  · exact U a ha b hb h1 h2 h3
  · exact absurd h3 (new a ha h1 h2)
  · exact absurd h3.symm (new b hb h1.symm h2.symm)
  · rfl

theorem DistinctUnits.keep (U : DistinctUnits db)
    (back : ∀ k u', db'.units.find? k = some u' → ∃ u, db.units.find? k = some u ∧
      u'.revisionId = u.revisionId ∧ u'.stageId = u.stageId ∧ u'.unitKey = u.unitKey) :
    DistinctUnits db' := by
  intro a ha b hb h1 h2 h3
  obtain ⟨x, hx, ha1, ha2, ha3⟩ := back a.id a (Table.find?_of_mem ha)
  obtain ⟨y, hy, hb1, hb2, hb3⟩ := back b.id b (Table.find?_of_mem hb)
  have hxy : x = y := U x (Table.mem_of_find? hx) y (Table.mem_of_find? hy)
    (ha1.symm.trans (h1.trans hb1)) (ha2.symm.trans (h2.trans hb2)) (ha3.symm.trans (h3.trans hb3))
  have hid : a.id = b.id :=
    (Table.key_of_find? hx).symm.trans ((congrArg UnitRow.id hxy).trans (Table.key_of_find? hy))
  have hfind := Table.find?_of_mem ha
  rw [hid, Table.find?_of_mem hb] at hfind
  exact (Option.some.inj hfind).symm

theorem insertStages_ok {rows : List Stage} (h : rows.foldlM insertStage db = .ok db') :
    ∃ stages, db' = { db with stages := stages } ∧ stages.rows = db.stages.rows ++ rows := by
  induction rows generalizing db with
  | nil =>
    simp only [List.foldlM_nil, pure_eq_ok] at h
    exact ⟨db.stages, h ▸ rfl, by simp⟩
  | cons s rows ih =>
    simp only [List.foldlM_cons, bind_eq_ok, insertStage, orRaise_ok, pure_eq_ok] at h
    obtain ⟨db1, ⟨stages, hs, rfl⟩, h⟩ := h
    obtain ⟨stages', rfl, hrows⟩ := ih h
    refine ⟨stages', rfl, ?_⟩
    rw [hrows, (Table.insert?_some hs).2]
    simp

/-- The store grew by initial units of the stages `l`, and nothing else changed but sources. -/
structure GrewUnits (D : Digests) (now : ℕ) (l : List Stage) (db db' : Store) : Prop where
  revisions : db'.revisions = db.revisions
  stages : db'.stages = db.stages
  attempts : db'.attempts = db.attempts
  results : db'.results = db.results
  cursors : db'.cursors = db.cursors
  unitDependencies : db'.unitDependencies = db.unitDependencies
  old : ∀ u ∈ db.units.rows, u ∈ db'.units.rows
  new : ∀ u ∈ db'.units.rows, u ∈ db.units.rows ∨
    ∃ s ∈ l, ∃ id source, u = makeInitialUnit D id s source now
  distinct : DistinctUnits db → DistinctUnits db'

theorem GrewUnits.refl (now : ℕ) (l : List Stage) (db : Store) : GrewUnits D now l db db :=
  ⟨rfl, rfl, rfl, rfl, rfl, rfl, fun _ h => h, fun _ h => .inl h, fun h => h⟩

theorem GrewUnits.trans {now : ℕ} {l : List Stage} {a b c : Store} (h : GrewUnits D now l a b)
    (h' : GrewUnits D now l b c) : GrewUnits D now l a c := by
  refine ⟨h'.revisions.trans h.revisions, h'.stages.trans h.stages, h'.attempts.trans h.attempts,
    h'.results.trans h.results, h'.cursors.trans h.cursors,
    h'.unitDependencies.trans h.unitDependencies, fun u hu => h'.old u (h.old u hu), ?_,
    fun U => h'.distinct (h.distinct U)⟩
  intro u hu
  rcases h'.new u hu with hu | hu
  · exact h.new u hu
  · exact .inr hu

theorem insertInitialUnit_grew {ids : FreshIds} {now : ℕ} {l : List Stage} {s : Stage}
    {source : Option Source} (hs : s ∈ l) (h : insertInitialUnit D ids now source db s = .ok db') :
    GrewUnits D now l db db' := by
  obtain ⟨conflicts, units, hins, rfl⟩ := insertUnit_ok h
  have rows := (Table.insert?_some hins).2
  refine ⟨rfl, rfl, rfl, rfl, rfl, rfl, fun u hu => ?_, fun u hu => ?_,
    fun U => U.insert conflicts hins rfl⟩
  · dsimp only
    rw [rows]
    exact List.mem_append_left _ hu
  · dsimp only at hu
    rw [rows, List.mem_append, List.mem_singleton] at hu
    rcases hu with hu | rfl
    · exact .inl hu
    · exact .inr ⟨s, hs, _, source, rfl⟩

theorem insertInitialUnits_grew {ids : FreshIds} {now : ℕ} {l : List Stage}
    {p : Stage → Bool} {source : Option Source}
    (h : (l.filter p).foldlM (insertInitialUnit D ids now source) db = .ok db') :
    GrewUnits D now l db db' :=
  foldlM_invariant (I := fun x => GrewUnits D now l db x)
    (fun _ hs _ _ hab hI => hI.trans (insertInitialUnit_grew (List.mem_filter.mp hs).1 hab)) h
    (.refl now l db)

theorem insertSource_grew {ids : FreshIds} {now : ℕ} {revision : Key} {l : List Stage}
    {item : SourceItem} (h : insertSource D ids now revision l db item = .ok db') :
    GrewUnits D now l db db' := by
  unfold insertSource at h
  simp only [bind_eq_ok, orRaise_ok] at h
  obtain ⟨-, -, sources, -, h⟩ := h
  have grew := insertInitialUnits_grew h
  exact ⟨grew.revisions, grew.stages, grew.attempts, grew.results, grew.cursors,
    grew.unitDependencies, grew.old, grew.new, grew.distinct⟩

theorem insertCursors_ok {stages : List PlanStage} {l : List (PlanStage × Stage)}
    (h : l.foldlM (insertCursor stages) db = .ok db') :
    ∃ cursors, db' = { db with cursors := cursors } ∧
      cursors.rows = db.cursors.rows ++ l.map (fun x =>
        makeCursor (x.1.stageType = .inventory || dependsOnlyOnInventory stages x.1) x.2
          (stageUnitCount db x.2.id)) := by
  induction l generalizing db with
  | nil =>
    simp only [List.foldlM_nil, pure_eq_ok] at h
    exact ⟨db.cursors, h ▸ rfl, by simp⟩
  | cons x l ih =>
    simp only [List.foldlM_cons, bind_eq_ok, insertCursor, orRaise_ok, pure_eq_ok] at h
    obtain ⟨db1, ⟨cursors, hc, rfl⟩, h⟩ := h
    obtain ⟨cursors', rfl, hrows⟩ := ih h
    refine ⟨cursors', rfl, ?_⟩
    rw [hrows, (Table.insert?_some hc).2]
    simp [stageUnitCount]

/-- What admission of a revision did to the store. -/
structure Admitted (D : Digests) (ids : FreshIds) (adm : Admission) (now : ℕ) (db db' : Store) :
    Prop where
  attempts : db'.attempts = db.attempts
  results : db'.results = db.results
  unitDependencies : db'.unitDependencies = db.unitDependencies
  /-- The revision is new and has granted no retry. -/
  revision : db.revisions.find? adm.revisionId = none
  generation : ∀ r, db'.generation r = if r = adm.revisionId then some 0 else db.generation r
  stages : db'.stages.rows = db.stages.rows ++ stageRows ids adm
  units : ∀ u ∈ db.units.rows, u ∈ db'.units.rows
  newUnits : ∀ u ∈ db'.units.rows, u ∈ db.units.rows ∨
    ∃ s ∈ initialRows ids adm, ∃ id source, u = makeInitialUnit D id s source now
  cursors : ∃ count : Stage → ℕ, db'.cursors.rows = db.cursors.rows ++
    (adm.plan.stages.zip (stageRows ids adm)).map (fun x =>
      makeCursor (x.1.stageType = .inventory || dependsOnlyOnInventory adm.plan.stages x.1) x.2
        (count x.2))
  distinct : DistinctUnits db → DistinctUnits db'

theorem insertRevisionRows_admitted {ids : FreshIds} {k : Key} {adm : Admission} {now : ℕ}
    (h : insertRevisionRows D ids db k adm now = .ok db') : Admitted D ids adm now db db' := by
  unfold insertRevisionRows at h
  simp only [bind_eq_ok, orRaise_ok] at h
  obtain ⟨revisions, hrev, usage, -, db1, h1, db2, h2, db3, h3, h4⟩ := h
  obtain ⟨stages, rfl, hstages⟩ := insertStages_ok h1
  have grew2 : GrewUnits D now (initialRows ids adm) _ db2 :=
    foldlM_invariant (I := fun x => GrewUnits D now (initialRows ids adm) _ x)
      (fun _ _ _ _ hab hI => hI.trans (insertSource_grew hab)) h2 (.refl now _ _)
  have grew3 := grew2.trans (insertInitialUnits_grew h3)
  obtain ⟨cursors, rfl, hcursors⟩ := insertCursors_ok h4
  have generation : ∀ r, db3.generation r =
      if r = adm.revisionId then some 0 else db.generation r := by
    intro r
    unfold Store.generation
    rw [grew3.revisions]
    dsimp only
    by_cases hr : r = adm.revisionId
    · rw [if_pos hr, hr]
      exact congrArg _ (Table.find?_insert?_self hrev)
    · rw [if_neg hr]
      exact congrArg _ (Table.find?_insert?_ne hrev hr)
  refine ⟨grew3.attempts, grew3.results, grew3.unitDependencies, (Table.insert?_some hrev).1,
    generation, ?_, grew3.old, grew3.new, ⟨fun s => stageUnitCount db3 s.id, ?_⟩,
    fun U => grew3.distinct U⟩
  · dsimp only
    rw [grew3.stages]
    exact hstages
  · dsimp only
    rw [hcursors, grew3.cursors]
    rfl

/-! ## Reading the new rows -/

variable {ids : FreshIds} {adm : Admission} {now : ℕ}

theorem mem_stageRows {s : Stage} (h : s ∈ stageRows ids adm) : s.revisionId = adm.revisionId := by
  unfold stageRows at h
  rw [List.mem_map] at h
  obtain ⟨x, -, rfl⟩ := h
  rfl

theorem mem_initialRows {s : Stage} (h : s ∈ initialRows ids adm) :
    ∃ p, (p, s) ∈ adm.plan.stages.zip (stageRows ids adm) ∧
      initialStage adm.plan.stages p = true := by
  unfold initialRows at h
  rw [List.mem_map] at h
  obtain ⟨⟨p, s'⟩, hp, rfl⟩ := h
  rw [List.mem_filter] at hp
  exact ⟨p, hp.1, hp.2⟩

theorem initialRows_subset {s : Stage} (h : s ∈ initialRows ids adm) : s ∈ stageRows ids adm := by
  obtain ⟨p, hp, -⟩ := mem_initialRows h
  exact (List.of_mem_zip hp).2

namespace Admitted

variable (A : Admitted D ids adm now db db')
include A

theorem stage_old {k : Key} {s : Stage} (h : db.stages.find? k = some s) :
    db'.stages.find? k = some s := by
  rw [Table.find?_eq_some] at h ⊢
  rw [A.stages]
  exact ⟨List.mem_append_left _ h.1, h.2⟩

theorem stage_new {s : Stage} (h : s ∈ stageRows ids adm) : db'.stages.find? s.id = some s := by
  refine Table.find?_of_mem ?_
  rw [A.stages]
  exact List.mem_append_right _ h

theorem stage_cases {k : Key} {s : Stage} (h : db'.stages.find? k = some s) :
    db.stages.find? k = some s ∨ s ∈ stageRows ids adm := by
  rw [Table.find?_eq_some, A.stages, List.mem_append] at h
  obtain ⟨h | h, hk⟩ := h
  · exact .inl (Table.find?_eq_some.mpr ⟨h, hk⟩)
  · exact .inr h

theorem unit_old {k : Key} {u : UnitRow} (h : db.units.find? k = some u) :
    db'.units.find? k = some u := by
  rw [Table.find?_eq_some] at h ⊢
  exact ⟨A.units u h.1, h.2⟩

theorem unit_cases {k : Key} {u : UnitRow} (h : db'.units.find? k = some u) :
    db.units.find? k = some u ∨
    ∃ s ∈ initialRows ids adm, ∃ id source, u = makeInitialUnit D id s source now := by
  rw [Table.find?_eq_some] at h
  obtain ⟨h, hk⟩ := h
  rcases A.newUnits u h with h | h
  · exact .inl (Table.find?_eq_some.mpr ⟨h, hk⟩)
  · exact .inr h

theorem stage_fresh {s : Stage} (h : s ∈ stageRows ids adm) : db.stages.find? s.id = none := by
  have hnodup := db'.stages.nodup
  rw [A.stages, List.map_append, List.nodup_append] at hnodup
  rw [Table.find?_eq_none]
  intro r hr heq
  exact hnodup.2.2 _ (List.mem_map_of_mem hr) _ (List.mem_map_of_mem h) heq

theorem cursor_old {k : Key} {c : StageCursor} (h : db.cursors.find? k = some c) :
    db'.cursors.find? k = some c := by
  obtain ⟨count, hrows⟩ := A.cursors
  rw [Table.find?_eq_some] at h ⊢
  rw [hrows]
  exact ⟨List.mem_append_left _ h.1, h.2⟩

theorem cursor_cases {k : Key} {c : StageCursor} (h : db'.cursors.find? k = some c) :
    db.cursors.find? k = some c ∨ ∃ x ∈ adm.plan.stages.zip (stageRows ids adm), ∃ n,
      c = makeCursor (x.1.stageType = .inventory || dependsOnlyOnInventory adm.plan.stages x.1)
        x.2 n := by
  obtain ⟨count, hrows⟩ := A.cursors
  rw [Table.find?_eq_some, hrows, List.mem_append] at h
  obtain ⟨h | h, hk⟩ := h
  · exact .inl (Table.find?_eq_some.mpr ⟨h, hk⟩)
  · obtain ⟨x, hx, rfl⟩ := List.mem_map.mp h
    exact .inr ⟨x, hx, _, rfl⟩

theorem cursor_new {x : PlanStage × Stage} (hx : x ∈ adm.plan.stages.zip (stageRows ids adm)) :
    ∃ n, db'.cursors.find? x.2.id = some (makeCursor
      (x.1.stageType = .inventory || dependsOnlyOnInventory adm.plan.stages x.1) x.2 n) := by
  obtain ⟨count, hrows⟩ := A.cursors
  refine ⟨count x.2, ?_⟩
  rw [Table.find?_eq_some, hrows]
  exact ⟨List.mem_append_right _ (List.mem_map_of_mem (f := fun x : PlanStage × Stage => makeCursor
    (x.1.stageType = .inventory || dependsOnlyOnInventory adm.plan.stages x.1) x.2 (count x.2)) hx), rfl⟩

theorem position_unique {i j : ℕ} {p q : PlanStage} (hi : adm.plan.stages[i]? = some p)
    (hj : adm.plan.stages[j]? = some q) (h : ids.stage i = ids.stage j) : i = j := by
  have hnodup := db'.stages.nodup
  rw [A.stages, List.map_append, List.nodup_append] at hnodup
  have hrow : ∀ (n : ℕ) (x : PlanStage), adm.plan.stages[n]? = some x →
      ((stageRows ids adm).map Stage.id)[n]? =
        some (⟨adm.revisionId.owner, ids.stage n⟩ : Key) := fun n x hn => by
    simp [stageRows, hn, makeStage]
  have hlt : i < ((stageRows ids adm).map Stage.id).length :=
    (List.getElem?_eq_some_iff.mp (hrow i p hi)).1
  refine (List.getElem?_inj hlt hnodup.2.1).mp ?_
  rw [hrow i p hi, hrow j q hj, h]

end Admitted

/-! ## Planned stages -/

theorem mem_zip_stageRows {p : PlanStage} {s : Stage} :
    (p, s) ∈ adm.plan.stages.zip (stageRows ids adm) ↔ ∃ i, adm.plan.stages[i]? = some p ∧
      s = makeStage adm.plan.stages ids adm.revisionId i p := by
  rw [List.mem_iff_getElem?]
  refine exists_congr fun i => ?_
  rw [List.getElem?_zip_eq_some]
  refine and_congr_right fun hp => ?_
  simp [stageRows, hp, eq_comm]

theorem mem_stageRows_iff {s : Stage} : s ∈ stageRows ids adm ↔ ∃ i p,
    adm.plan.stages[i]? = some p ∧ s = makeStage adm.plan.stages ids adm.revisionId i p := by
  unfold stageRows
  simp only [List.mem_map, Prod.exists, List.mem_zipIdx_iff_getElem?]
  constructor
  · rintro ⟨p, i, hi, rfl⟩
    exact ⟨i, p, hi, rfl⟩
  · rintro ⟨i, p, hi, rfl⟩
    exact ⟨p, i, hi, rfl⟩

/-- What an accepted plan guarantees. -/
structure ValidPlan (p : Plan) : Prop where
  stages : ∀ s ∈ p.stages, validStage s = true
  keys : (p.stages.map PlanStage.key).Nodup
  dependsOn : ∀ s ∈ p.stages, ∀ k ∈ s.dependsOn, k ∈ p.stages.map PlanStage.key
  units : (p.stages.map PlanStage.maxUnits).sum ≤ p.maxUnits

theorem validPlan_of_validate {p : Plan} (valid : validatePlan p = true) : ValidPlan p := by
  simp only [validatePlan, Bool.and_eq_true, List.all_eq_true, decide_eq_true_eq,
    List.contains_iff_mem] at valid
  obtain ⟨⟨⟨⟨⟨⟨⟨⟨⟨⟨⟨⟨-, hstages⟩, hkeys⟩, -⟩, hdepends⟩, -⟩, hunits⟩, -⟩, -⟩, -⟩, -⟩, -⟩, -⟩ := valid
  exact ⟨hstages, hkeys, hdepends, hunits⟩

theorem validPlan_reduction (valid : validatePlan adm.plan = true) {p : PlanStage} {r : Reduction}
    (hp : p ∈ adm.plan.stages) (hr : p.reduction = some r) :
    p.stageType = .reduce ∧ 2 ≤ r.fanIn ∧ r.fanIn ≤ 1024 := by
  have hvalid := (validPlan_of_validate valid).stages p hp
  simp only [validStage, validReduction, hr, Bool.and_eq_true, decide_eq_true_eq] at hvalid
  obtain ⟨⟨⟨⟨⟨-, ⟨⟨⟨htype, -⟩, -⟩, hfan⟩, -⟩, -⟩, -⟩, -⟩, -⟩ := hvalid
  exact ⟨htype, hfan⟩

theorem dependency_position (ids : FreshIds) (valid : validatePlan adm.plan = true) {i : ℕ} {p : PlanStage}
    (hi : adm.plan.stages[i]? = some p) {key : String} (hkey : key ∈ p.dependsOn) :
    ∃ j q, adm.plan.stages[j]? = some q ∧ q.key = key ∧ j ≠ i ∧
      stageIdOf adm.plan.stages ids adm.revisionId.owner key =
        ⟨adm.revisionId.owner, ids.stage j⟩ := by
  have V := validPlan_of_validate valid
  have hmem : p ∈ adm.plan.stages := List.mem_of_getElem? hi
  obtain ⟨q₀, hq₀, hqkey⟩ := List.mem_map.mp (V.dependsOn p hmem key hkey)
  have hlt : adm.plan.stages.findIdx (fun s => s.key = key) < adm.plan.stages.length :=
    List.findIdx_lt_length_of_exists ⟨q₀, hq₀, by simp [hqkey]⟩
  obtain ⟨j, q, hq, hqk, hj⟩ : ∃ j q, adm.plan.stages[j]? = some q ∧ q.key = key ∧
      adm.plan.stages.findIdx (fun s => s.key = key) = j :=
    ⟨_, _, List.getElem?_eq_getElem hlt, by simpa using List.findIdx_getElem (w := hlt), rfl⟩
  refine ⟨j, q, hq, hqk, ?_, by rw [stageIdOf, hj]⟩
  rintro rfl
  obtain rfl : p = q := Option.some.inj (hi.symm.trans hq)
  have hvalid := V.stages p hmem
  simp only [validStage, Bool.and_eq_true, Bool.not_eq_true'] at hvalid
  have hnot : p.dependsOn.contains p.key = false := hvalid.1.1.1.1.1.1.1.1
  rw [hqk] at hnot
  simp [hkey] at hnot

theorem Admitted.dependency (A : Admitted D ids adm now db db')
    (valid : validatePlan adm.plan = true) {i : ℕ} {p : PlanStage}
    (hi : adm.plan.stages[i]? = some p) {key : String} (hkey : key ∈ p.dependsOn) :
    ∃ j q, q ∈ adm.plan.stages ∧ q.key = key ∧ j ≠ i ∧ adm.plan.stages[j]? = some q ∧
      db'.stages.find? (stageIdOf adm.plan.stages ids adm.revisionId.owner key) =
        some (makeStage adm.plan.stages ids adm.revisionId j q) := by
  obtain ⟨j, q, hq, hqk, hne, hid⟩ := dependency_position ids valid hi hkey
  refine ⟨j, q, List.mem_of_getElem? hq, hqk, hne, hq, ?_⟩
  rw [hid]
  exact A.stage_new (mem_stageRows_iff.mpr ⟨j, q, hq, rfl⟩)

theorem Admitted.parentStages_nil (A : Admitted D ids adm now db db')
    (valid : validatePlan adm.plan = true) {i : ℕ} {p : PlanStage}
    (hi : adm.plan.stages[i]? = some p) :
    parentStages db' (makeStage adm.plan.stages ids adm.revisionId i p) = [] ↔
      dependsOnlyOnInventory adm.plan.stages p = true := by
  have hnodup := (validPlan_of_validate valid).keys
  unfold parentStages dependsOnlyOnInventory
  rw [List.filter_eq_nil_iff, List.all_eq_true]
  constructor
  · intro h key hkey
    obtain ⟨j, q, hq, hqk, -, -, hrow⟩ := A.dependency valid hi hkey
    have hinventory := h _ (List.mem_filterMap.mpr
      ⟨_, List.mem_map_of_mem (f := stageIdOf _ ids adm.revisionId.owner) hkey, hrow⟩)
    simp only [makeStage, decide_true, Bool.true_and, Bool.not_eq_true', Bool.not_eq_false] at hinventory
    exact List.any_eq_true.mpr ⟨q, hq, by simp [hqk, of_decide_eq_true hinventory]⟩
  · intro h row hrow
    obtain ⟨d, hd, hfind⟩ := List.mem_filterMap.mp hrow
    obtain ⟨key, hkey, rfl⟩ := List.mem_map.mp hd
    obtain ⟨j, q, hq, hqk, -, -, hrow'⟩ := A.dependency valid hi hkey
    obtain rfl := Option.some.inj (hfind.symm.trans hrow')
    obtain ⟨t, ht, htk⟩ := List.any_eq_true.mp (h key hkey)
    simp only [Bool.and_eq_true, decide_eq_true_eq] at htk
    obtain rfl : t = q := List.inj_on_of_nodup_map hnodup ht hq (htk.1.trans hqk.symm)
    simp [makeStage, htk.2]

theorem makeInitialUnit_fresh (k : Key) (s : Stage) (source : Option Source) (now : ℕ) :
    (makeInitialUnit D k s source now).Fresh 0 :=
  ⟨.inl rfl, rfl, rfl, rfl, rfl, rfl, rfl, rfl, rfl⟩

end

end Metnos.Durable

/-!
## The initial units, one by one

`Admitted` says which kind of rows admission appends.  Here the appended sources and units are
listed: the sources are those of the sealed inventory in order, every source has one unit in each
initial per-source stage, every initial singleton stage has one unit, and a cursor starts with the
number of units its stage has.
-/

namespace Metnos.Durable

open Transaction

def UnitRow.place (u : UnitRow) : Key × Option Key := (u.stageId, u.sourceRowId)

def Source.item (x : Source) : SourceItem :=
  ⟨x.sourceId, x.ordinal, x.contentDigest, x.state, x.accounted⟩

/-- `UNIQUE (revision_id, source_id)` and `UNIQUE (revision_id, ordinal)`. -/
def DistinctSources (db : Store) : Prop :=
  ∀ a ∈ db.sources.rows, ∀ b ∈ db.sources.rows, sourceConflict a b = true → a = b

section
variable {D : Digests} {db db' : Store}

theorem sourceConflict_comm (a b : Source) : sourceConflict a b = sourceConflict b a := by
  unfold sourceConflict
  congr 1
  · exact decide_eq_decide.mpr eq_comm
  · congr 1
    · exact decide_eq_decide.mpr eq_comm
    · exact decide_eq_decide.mpr eq_comm

theorem DistinctSources.insert {x : Source} {sources : Table Source Key Source.id}
    (U : DistinctSources db) (distinct : ∀ y ∈ db.sources.rows, sourceConflict x y = false)
    (h : db.sources.insert? x = some sources) (hdb : db'.sources = sources) :
    DistinctSources db' := by
  intro a ha b hb hab
  rw [hdb, (Table.insert?_some h).2, List.mem_append, List.mem_singleton] at ha hb
  rcases ha with ha | rfl <;> rcases hb with hb | rfl
  · exact U a ha b hb hab
  · rw [sourceConflict_comm, distinct a ha] at hab
    cases hab
  · rw [distinct b hb] at hab
    cases hab
  · rfl

theorem insertInitialUnits_rows {ids : FreshIds} {now : ℕ} {source : Option Source}
    {l : List Stage} (h : l.foldlM (insertInitialUnit D ids now source) db = .ok db') :
    ∃ (T : Table UnitRow Key UnitRow.id) (units : List UnitRow), db' = { db with units := T } ∧
      T.rows = db.units.rows ++ units ∧
      units.map UnitRow.place = l.map (fun s => (s.id, source.map Source.id)) := by
  induction l generalizing db with
  | nil =>
    simp only [List.foldlM_nil, pure_eq_ok] at h
    exact ⟨db.units, [], h ▸ rfl, by simp, rfl⟩
  | cons s l ih =>
    simp only [List.foldlM_cons, bind_eq_ok] at h
    obtain ⟨db1, h1, h2⟩ := h
    obtain ⟨-, units1, hins, rfl⟩ := insertUnit_ok h1
    obtain ⟨T, units, rfl, hrows, hplaces⟩ := ih h2
    refine ⟨T, makeInitialUnit D ⟨s.id.owner, ids.unit db.units.rows.length⟩ s source now :: units,
      rfl, ?_, ?_⟩
    · rw [hrows, (Table.insert?_some hins).2, List.append_assoc, List.singleton_append]
    · rw [List.map_cons, hplaces]
      rfl

/-- The places of the units that one source gets. -/
def sourcePlaces (stages : List Stage) (x : Source) : List (Key × Option Key) :=
  (stages.filter (fun s => s.cardinality = .perSource)).map (fun s => (s.id, some x.id))

theorem insertSources_rows {ids : FreshIds} {now : ℕ} {revision : Key} {stages : List Stage}
    {items : List SourceItem}
    (h : items.foldlM (insertSource D ids now revision stages) db = .ok db') :
    ∃ (S : Table Source Key Source.id) (T : Table UnitRow Key UnitRow.id)
      (sources : List Source) (units : List UnitRow),
      db' = { db with sources := S, units := T } ∧ S.rows = db.sources.rows ++ sources ∧
      sources.map Source.item = items ∧ (∀ x ∈ sources, x.revisionId = revision) ∧
      T.rows = db.units.rows ++ units ∧
      units.map UnitRow.place = sources.flatMap (sourcePlaces stages) ∧
      (DistinctSources db → DistinctSources db') := by
  induction items generalizing db with
  | nil =>
    simp only [List.foldlM_nil, pure_eq_ok] at h
    subst h
    exact ⟨db.sources, db.units, [], [], rfl, by simp, rfl, by simp, by simp, rfl, fun h => h⟩
  | cons item items ih =>
    simp only [List.foldlM_cons, bind_eq_ok] at h
    obtain ⟨db1, h1, h2⟩ := h
    unfold insertSource at h1
    simp only [bind_eq_ok, orRaise_ok, require_ok, Bool.not_eq_true', List.any_eq_false,
      Bool.not_eq_true] at h1
    obtain ⟨-, hfree, S1, hins, h1⟩ := h1
    obtain ⟨T1, units1, rfl, hrows1, hplaces1⟩ := insertInitialUnits_rows h1
    have distinct1 : DistinctSources db → DistinctSources { db with sources := S1, units := T1 } :=
      fun distinct => distinct.insert hfree hins rfl
    obtain ⟨S, T, sources, units, rfl, hS, hitems, howned, hT, hplaces, hdistinct⟩ := ih h2
    refine ⟨S, T, ⟨⟨revision.owner, ids.source db.sources.rows.length⟩, revision, item.sourceId,
      item.ordinal, item.contentDigest, item.state, item.accounted⟩ :: sources, units1 ++ units, rfl, ?_, ?_, ?_, ?_, ?_,
      fun distinct => hdistinct (distinct1 distinct)⟩
    · rw [hS]
      dsimp only
      rw [(Table.insert?_some hins).2, List.append_assoc, List.singleton_append]
    · rw [List.map_cons, hitems]
      rfl
    · exact List.forall_mem_cons.mpr ⟨rfl, howned⟩
    · rw [hT, hrows1, List.append_assoc]
    · rw [List.map_append, hplaces1, hplaces, List.flatMap_cons]
      rfl

/-! ## The whole admission -/

/-- The sources and units that admission appended. -/
structure Seeded (ids : FreshIds) (adm : Admission) (workloadId : Key) (db db' : Store)
    (newSources : List Source) (newUnits : List UnitRow) : Prop where
  sources : db'.sources.rows = db.sources.rows ++ newSources
  items : newSources.map Source.item = adm.inventory.sources
  owned : ∀ x ∈ newSources, x.revisionId = adm.revisionId
  distinct : DistinctSources db → DistinctSources db'
  units : db'.units.rows = db.units.rows ++ newUnits
  places : newUnits.map UnitRow.place = newSources.flatMap (sourcePlaces (initialRows ids adm)) ++
    ((initialRows ids adm).filter (fun s => s.cardinality = .singleton)).map
      (fun s => (s.id, none))
  cursors : db'.cursors.rows = db.cursors.rows ++
    (adm.plan.stages.zip (stageRows ids adm)).map (fun x =>
      makeCursor (x.1.stageType = .inventory || dependsOnlyOnInventory adm.plan.stages x.1) x.2
        (stageUnitCount db' x.2.id))
  revision : db.revisions.insert? (makeRevision adm.revisionId workloadId adm.plan adm.inventory
    adm.snapshotDigest adm.capsTruncated adm.partialOutputAccepted adm.usageComplete) =
      some db'.revisions
  usage : db.usage.insert? ⟨adm.revisionId, 0, 0, 0, 0, 0, 0, false, none, none⟩ = some db'.usage

theorem insertRevisionRows_seeded {ids : FreshIds} {k : Key} {adm : Admission} {now : ℕ}
    (h : insertRevisionRows D ids db k adm now = .ok db') :
    ∃ sources units, Seeded ids adm k db db' sources units := by
  unfold insertRevisionRows at h
  simp only [bind_eq_ok, orRaise_ok] at h
  obtain ⟨revisions, hrev, usage, husage, db1, h1, db2, h2, db3, h3, h4⟩ := h
  obtain ⟨stages, rfl, -⟩ := insertStages_ok h1
  obtain ⟨S, T, sources, units, rfl, hS, hitems, howned, hT, hplaces, hdistinct⟩ :=
    insertSources_rows h2
  obtain ⟨T', units', rfl, hT', hplaces'⟩ := insertInitialUnits_rows h3
  obtain ⟨cursors, rfl, hcursors⟩ := insertCursors_ok h4
  refine ⟨sources, units ++ units', hS, hitems, howned, hdistinct, ?_, ?_, hcursors, hrev, husage⟩
  · rw [hT', hT, List.append_assoc]
  · rw [List.map_append, hplaces, hplaces']
    rfl

end

end Metnos.Durable
