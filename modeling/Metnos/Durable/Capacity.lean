import Mathlib.Algebra.Order.BigOperators.Group.List
import Mathlib.Algebra.Order.Ring.Nat
import Metnos.Durable.Frame
import Metnos.Durable.Refine.Admit
import Metnos.Durable.Writes

/-!
# Durable.Capacity — how many units a stage has

The cursor of a stage counts its units: admission starts it with the number of initial units, and
`insert_candidate` raises it by one with every unit it inserts, and only below the cap.  The
initial units are inserted without looking at the cap; admission compares it with the number of
sources for required stages alone.
-/

namespace Metnos.Durable

open Transaction

/-- The cap of every initial per-source stage, optional ones included, admits all sources. -/
def Admission.roomy (adm : Admission) : Prop :=
  ∀ s ∈ adm.plan.stages, initialStage adm.plan.stages s = true → s.cardinality = .perSource →
    adm.inventory.sources.length ≤ s.maxUnits

instance (adm : Admission) : Decidable adm.roomy :=
  inferInstanceAs (Decidable (∀ s ∈ adm.plan.stages, _))

/-- Only admissions with room for their sources. -/
def Guard.roomy : Guard := { Guard.none with admission := Admission.roomy }

/-- Units belong to stages of their revision, and cursors count them. -/
structure Counted (db : Store) : Prop where
  stage : ∀ k u, db.units.find? k = some u →
    ∃ s, db.stages.find? u.stageId = some s ∧ u.revisionId = s.revisionId
  cursor : ∀ k s, db.stages.find? k = some s → ∃ c, db.cursors.find? k = some c ∧
    c.legacyReplay = false ∧ c.unitCount = stageUnitCount db k

/-- No stage has more units than its cap. -/
def Capped (db : Store) : Prop :=
  ∀ k s, db.stages.find? k = some s → stageUnitCount db k ≤ s.maxUnits

section
variable {D : Digests} {G : Guard} {db db' : Store}

/-! ## Cells -/

theorem stageUnitCount_congr (old : ∀ k u, db.units.find? k = some u →
      ∃ u', db'.units.find? k = some u' ∧ u'.stageId = u.stageId)
    (new : ∀ k, db.units.find? k = none → db'.units.find? k = none) (stage : Key) :
    stageUnitCount db' stage = stageUnitCount db stage := by
  refine Table.count_congr fun k => ?_
  cases hu : db.units.find? k with
  | none => rw [new k hu]
  | some u =>
    obtain ⟨u', hu', hstage⟩ := old k u hu
    rw [hu', Option.any_some, Option.any_some, hstage]

theorem Counted.keep (C : Counted db) (stages : db'.stages = db.stages)
    (cursors : db'.cursors = db.cursors)
    (old : ∀ k u, db.units.find? k = some u → ∃ u', db'.units.find? k = some u' ∧
      u'.stageId = u.stageId ∧ u'.revisionId = u.revisionId)
    (new : ∀ k, db.units.find? k = none → db'.units.find? k = none) : Counted db' := by
  have counts : ∀ stage, stageUnitCount db' stage = stageUnitCount db stage :=
    stageUnitCount_congr (fun k u hu => (old k u hu).imp fun _ h => ⟨h.1, h.2.1⟩) new
  constructor
  · intro k u' hu'
    cases hu : db.units.find? k with
    | none =>
      rw [new k hu] at hu'
      cases hu'
    | some u =>
      obtain ⟨v, hv, hstage, hrevision⟩ := old k u hu
      obtain rfl : u' = v := Option.some.inj (hu'.symm.trans hv)
      rw [stages, hstage, hrevision]
      exact C.stage k u hu
  · intro k s hs
    rw [stages] at hs
    rw [cursors, counts]
    exact C.cursor k s hs

/-! ## Rounds -/

/-- What a candidate does to the counts. -/
structure Grown (m : Round) (cursor cursor' : StageCursor) (db db' : Store) : Prop where
  stageId : cursor'.stageId = cursor.stageId
  revisionId : cursor'.revisionId = cursor.revisionId
  legacyReplay : cursor'.legacyReplay = false
  count : ∀ k, stageUnitCount db' k =
    stageUnitCount db k + if k = m.stage.id then cursor'.unitCount - cursor.unitCount else 0
  room : cursor'.unitCount = cursor.unitCount ∨
    cursor'.unitCount = cursor.unitCount + 1 ∧ cursor.unitCount < m.stage.maxUnits

theorem Grown.refl {m : Round} {cursor cursor' : StageCursor} (keeps : cursor.Keeps cursor')
    (legacy : cursor.legacyReplay = false) : Grown m cursor cursor' db db := by
  refine ⟨keeps.stageId, keeps.revisionId, keeps.legacyReplay.trans legacy, fun k => ?_,
    .inl keeps.unitCount⟩
  rw [keeps.unitCount, Nat.sub_self, ite_self, Nat.add_zero]

theorem insertCandidate_grown {m : Round} {cursor cursor' : StageCursor} {c : CandidateUnit}
    (legacy : cursor.legacyReplay = false)
    (h : insertCandidate D m db cursor c = .ok (db', cursor')) : Grown m cursor cursor' db db' := by
  unfold insertCandidate at h
  split at h
  · rw [if_neg (by rw [legacy]; simp)] at h
    split at h
    · cases h
      exact .refl ⟨rfl, rfl, rfl, rfl⟩ legacy
    · cases h
  · split at h
    · cases h
      exact .refl ⟨rfl, rfl, rfl, rfl⟩ legacy
    · rename_i hroom
      simp only [bind_eq_ok, pure_eq_ok, Prod.mk.injEq] at h
      obtain ⟨db1, h1, db2, h2, rfl, rfl⟩ := h
      obtain ⟨-, units, hins, rfl⟩ := insertUnit_ok h1
      obtain ⟨rfl, -⟩ := bindDependencies_ok h2
      refine ⟨rfl, rfl, rfl, fun k => ?_, .inr ⟨rfl, Nat.lt_of_not_le hroom⟩⟩
      have hcount := Table.count_append (Table.insert?_some hins).2 (fun u => u.stageId = k)
      have hone : cursor.unitCount + 1 - cursor.unitCount = 1 := by omega
      dsimp only
      rw [hone]
      refine hcount.trans (congrArg (stageUnitCount db k + ·) ?_)
      by_cases hk : k = m.stage.id
      · rw [if_pos hk, hk]
        simp [makeCandidate]
      · rw [if_neg hk]
        simp [makeCandidate, Ne.symm hk]

theorem materializeRound_grown {m : Round} {cursor : StageCursor}
    (legacy : cursor.legacyReplay = false) (h : materializeRound D m db cursor = .ok db') :
    ∃ cursor' db1, Grown m cursor cursor' db db1 ∧ saveCursor db1 cursor' = .ok db' := by
  cases materializeRound_write h with
  | saved cursor' done keeps => exact ⟨cursor', db, .refl keeps legacy, done⟩
  | inserted c advance done keeps =>
    unfold insertAndSave at done
    simp only [bind_eq_ok, Prod.exists] at done
    obtain ⟨db1, cursor1, h1, h2⟩ := done
    have g := insertCandidate_grown legacy h1
    have k := keeps cursor1
    refine ⟨advance cursor1, db1, ⟨k.stageId.trans g.stageId, k.revisionId.trans g.revisionId,
      k.legacyReplay.trans g.legacyReplay, ?_, ?_⟩, h2⟩
    · rw [k.unitCount]
      exact g.count
    · rw [k.unitCount]
      exact g.room
  | rooted level root db1 cursor' picked marked done keeps =>
    refine ⟨cursor', db1, ⟨keeps.stageId, keeps.revisionId, keeps.legacyReplay.trans legacy,
      fun k => ?_, .inl keeps.unitCount⟩, done⟩
    rw [keeps.unitCount, Nat.sub_self, ite_self, Nat.add_zero]
    unfold markRoot at marked
    simp only [bind_eq_ok] at marked
    obtain ⟨-, -, marked⟩ := marked
    obtain ⟨u, -, -, rfl⟩ := casUnit_ok marked
    refine stageUnitCount_congr (fun j v hv => ?_) (fun j hj => ?_) k
    · refine ⟨_, Table.find?_updateWhere_of_some (UnitRow.markRoot_id m.now) hv, ?_⟩
      split <;> rfl
    · dsimp only
      rw [Table.find?_updateWhere, hj]
      rfl

theorem materializeRound_counts {m : Round} {cursor : StageCursor} (C : Counted db)
    (next : nextMaterializationStage db m.revision.id = some (m.stage, cursor))
    (h : materializeRound D m db cursor = .ok db') :
    ∃ c', db'.cursors.find? m.stage.id = some c' ∧ c'.legacyReplay = false ∧
      c'.unitCount = stageUnitCount db' m.stage.id ∧
      (stageUnitCount db' m.stage.id = stageUnitCount db m.stage.id ∨
        stageUnitCount db' m.stage.id ≤ m.stage.maxUnits) ∧
      ∀ k, k ≠ m.stage.id → stageUnitCount db' k = stageUnitCount db k := by
  obtain ⟨hcursor, hstage, -, -, hid, -⟩ := nextStage_facts next
  obtain ⟨c, hc, legacy, hcount⟩ := C.cursor _ _ hstage
  obtain rfl : cursor = c := Option.some.inj (hcursor.symm.trans hc)
  obtain ⟨cursor', db1, grown, saved⟩ := materializeRound_grown legacy h
  have self := saveCursor_self saved grown.legacyReplay
  have units : ∀ k, stageUnitCount db' k = stageUnitCount db1 k := by
    obtain ⟨cursors, -, rfl⟩ := saveCursor_ok saved
    exact fun k => rfl
  have stage : stageUnitCount db' m.stage.id = cursor'.unitCount := by
    have hroom := grown.room
    rw [units, grown.count, if_pos rfl, ← hcount]
    omega
  refine ⟨cursor', ?_, grown.legacyReplay, stage.symm, ?_, fun k hk => ?_⟩
  · rw [← hid, ← grown.stageId]
    exact self
  · rw [stage, ← hcount]
    rcases grown.room with hsame | ⟨hone, hlt⟩
    · exact .inl hsame
    · exact .inr (by omega)
  · rw [units, grown.count, if_neg hk, Nat.add_zero]

theorem Counted.round {m : Round} {cursor : StageCursor} (C : Counted db)
    (next : nextMaterializationStage db m.revision.id = some (m.stage, cursor))
    (h : materializeRound D m db cursor = .ok db') : Counted db' := by
  obtain ⟨hcursor, hstage, -, -, hid, -⟩ := nextStage_facts next
  obtain ⟨c', hc', hlegacy, hcount, -, others⟩ := materializeRound_counts C next h
  have cells := materializeRound_cells h
  constructor
  · intro k u' hu'
    rw [cells.stages]
    cases hu : db.units.find? k with
    | some u =>
      obtain ⟨v, hv, hcase⟩ := cells.old k u hu
      obtain rfl : u' = v := Option.some.inj (hu'.symm.trans hv)
      have hstage := C.stage k u hu
      rcases hcase with rfl | rfl
      · exact hstage
      · exact hstage
    | none =>
      obtain ⟨-, hs, hr⟩ := cells.new k u' hu hu'
      exact ⟨m.stage, hs ▸ hstage, hr⟩
  · intro k s hs
    rw [cells.stages] at hs
    by_cases hk : k = m.stage.id
    · rw [hk]
      exact ⟨c', hc', hlegacy, hcount⟩
    · obtain ⟨c, hc, legacy, -⟩ := C.cursor _ _ hstage
      obtain rfl : cursor = c := Option.some.inj (hcursor.symm.trans hc)
      have frame := materializeRound_frame hid legacy h
      rw [frame.cursors k hk, others k hk]
      exact C.cursor k s hs

theorem Capped.round {m : Round} {cursor : StageCursor} (K : Capped db) (C : Counted db)
    (next : nextMaterializationStage db m.revision.id = some (m.stage, cursor))
    (h : materializeRound D m db cursor = .ok db') : Capped db' := by
  obtain ⟨-, hstage, -⟩ := nextStage_facts next
  obtain ⟨c', -, -, -, hroom, others⟩ := materializeRound_counts C next h
  intro k s hs
  rw [(materializeRound_cells h).stages] at hs
  by_cases hk : k = m.stage.id
  · subst hk
    obtain rfl : m.stage = s := Option.some.inj (hstage.symm.trans hs)
    rcases hroom with hsame | hle
    · rw [hsame]
      exact K _ _ hs
    · exact hle
  · rw [others k hk]
    exact K k s hs

/-! ## Admission -/

section
variable {ids : FreshIds} {adm : Admission} {now : ℕ} {workloadId : Key} {sources : List Source}
  {units : List UnitRow}

theorem countP_places {l : List Stage} (nodup : (l.map Stage.id).Nodup) (source : Option Key)
    (k : Key) : (l.map (fun s => (s.id, source))).countP (fun x => x.1 = k) =
      if k ∈ l.map Stage.id then 1 else 0 := by
  have hcount : (l.map (fun s => (s.id, source))).countP (fun x => x.1 = k) =
      (l.map Stage.id).count k := by
    rw [List.count, List.countP_map, List.countP_map]
    rfl
  rw [hcount]
  by_cases hk : k ∈ l.map Stage.id
  · rw [if_pos hk, List.count_eq_one_of_mem nodup hk]
  · rw [if_neg hk, List.count_eq_zero_of_not_mem hk]

theorem stageRows_nodup (A : Admitted D ids adm now db db') :
    ((stageRows ids adm).map Stage.id).Nodup := by
  have hnodup := db'.stages.nodup
  rw [A.stages, List.map_append] at hnodup
  exact (List.nodup_append.mp hnodup).2.1

theorem initialRows_sublist : (initialRows ids adm).Sublist (stageRows ids adm) := by
  have hzip : ((adm.plan.stages.zip (stageRows ids adm)).map Prod.snd) = stageRows ids adm := by
    rw [List.map_snd_zip]
    simp [stageRows]
  have hsub := List.Sublist.map Prod.snd (List.filter_sublist
    (p := fun x : PlanStage × Stage => initialStage adm.plan.stages x.1)
    (l := adm.plan.stages.zip (stageRows ids adm)))
  rw [hzip] at hsub
  exact hsub

/-- The initial rows of one cardinality. -/
def rowsOf (ids : FreshIds) (adm : Admission) (c : Cardinality) : List Stage :=
  (initialRows ids adm).filter (fun s => s.cardinality = c)

theorem rowsOf_nodup (A : Admitted D ids adm now db db') (c : Cardinality) :
    ((rowsOf ids adm c).map Stage.id).Nodup :=
  (stageRows_nodup A).sublist (List.Sublist.map _ (List.filter_sublist.trans initialRows_sublist))

theorem Seeded.countP (S : Seeded ids adm workloadId db db' sources units)
    (A : Admitted D ids adm now db db') (k : Key) :
    units.countP (fun u => u.stageId = k) =
      (if k ∈ (rowsOf ids adm .perSource).map Stage.id then sources.length else 0) +
      (if k ∈ (rowsOf ids adm .singleton).map Stage.id then 1 else 0) := by
  have hplaces : units.countP (fun u => u.stageId = k) =
      (units.map UnitRow.place).countP (fun x => x.1 = k) := by
    rw [List.countP_map]
    rfl
  rw [hplaces, S.places, List.countP_append, List.countP_flatMap]
  congr 1
  · have hone : ∀ x : Source, (sourcePlaces (initialRows ids adm) x).countP (fun y => y.1 = k) =
        if k ∈ (rowsOf ids adm .perSource).map Stage.id then 1 else 0 :=
      fun x => countP_places (rowsOf_nodup A .perSource) (some x.id) k
    have hmap : sources.map ((List.countP fun y : Key × Option Key => decide (y.1 = k)) ∘
        sourcePlaces (initialRows ids adm)) = sources.map (fun _ =>
          if k ∈ (rowsOf ids adm .perSource).map Stage.id then 1 else 0) :=
      List.map_congr_left fun x _ => hone x
    rw [hmap]
    split <;> simp
  · exact countP_places (rowsOf_nodup A .singleton) none k

theorem mem_rowsOf {c : Cardinality} {s : Stage} (A : Admitted D ids adm now db db')
    (hs : s ∈ stageRows ids adm) (h : s.id ∈ (rowsOf ids adm c).map Stage.id) :
    s.cardinality = c ∧ ∃ p ∈ adm.plan.stages, initialStage adm.plan.stages p = true ∧
      p.cardinality = c ∧ p.maxUnits = s.maxUnits := by
  obtain ⟨t, ht, hid⟩ := List.mem_map.mp h
  obtain ⟨hinitial, hcard⟩ := List.mem_filter.mp ht
  have hst : t = s :=
    List.inj_on_of_nodup_map (stageRows_nodup A) (initialRows_subset hinitial) hs hid
  subst hst
  obtain ⟨p, hp, hinit⟩ := mem_initialRows hinitial
  obtain ⟨i, hi, rfl⟩ := mem_zip_stageRows.mp hp
  have hcard' : p.cardinality = c := of_decide_eq_true hcard
  exact ⟨hcard', p, List.mem_of_getElem? hi, hinit, hcard', rfl⟩

theorem Seeded.count_old (S : Seeded ids adm workloadId db db' sources units)
    (A : Admitted D ids adm now db db') {k : Key} {s : Stage}
    (hs : db.stages.find? k = some s) : stageUnitCount db' k = stageUnitCount db k := by
  have hfresh : ∀ c, k ∉ (rowsOf ids adm c).map Stage.id := by
    intro c hk
    obtain ⟨t, ht, rfl⟩ := List.mem_map.mp hk
    have hnone := A.stage_fresh (initialRows_subset (List.mem_filter.mp ht).1)
    rw [hs] at hnone
    cases hnone
  have hcount := Table.count_append S.units (fun u => u.stageId = k)
  rw [S.countP A, if_neg (hfresh _), if_neg (hfresh _)] at hcount
  exact hcount

theorem Seeded.count_new (S : Seeded ids adm workloadId db db' sources units)
    (A : Admitted D ids adm now db db') (C : Counted db) {s : Stage}
    (hs : s ∈ stageRows ids adm) : stageUnitCount db' s.id =
      (if s.id ∈ (rowsOf ids adm .perSource).map Stage.id then sources.length else 0) +
      (if s.id ∈ (rowsOf ids adm .singleton).map Stage.id then 1 else 0) := by
  have hnone : stageUnitCount db s.id = 0 := by
    refine List.countP_eq_zero.mpr fun u hu heq => ?_
    obtain ⟨t, ht, -⟩ := C.stage u.id u (Table.find?_of_mem hu)
    have hid : u.stageId = s.id := of_decide_eq_true heq
    rw [hid, A.stage_fresh hs] at ht
    cases ht
  have hcount := Table.count_append S.units (fun u => u.stageId = s.id)
  rw [S.countP A] at hcount
  refine hcount.trans ?_
  rw [show db.units.count (fun u => u.stageId = s.id) = 0 from hnone, Nat.zero_add]

theorem Counted.admitted (C : Counted db) (S : Seeded ids adm workloadId db db' sources units)
    (A : Admitted D ids adm now db db') : Counted db' := by
  constructor
  · intro k u hu
    rcases A.unit_cases hu with hold | ⟨s, hs, id, source, rfl⟩
    · obtain ⟨s, hs, hr⟩ := C.stage k u hold
      exact ⟨s, A.stage_old hs, hr⟩
    · exact ⟨s, A.stage_new (initialRows_subset hs), rfl⟩
  · intro k s hs
    rcases A.stage_cases hs with hold | hnew
    · obtain ⟨c, hc, hlegacy, hcount⟩ := C.cursor k s hold
      exact ⟨c, A.cursor_old hc, hlegacy, hcount.trans (S.count_old A hold).symm⟩
    · obtain ⟨i, p, hi, hrow⟩ := mem_stageRows_iff.mp hnew
      have hzip : (p, s) ∈ adm.plan.stages.zip (stageRows ids adm) :=
        mem_zip_stageRows.mpr ⟨i, hi, hrow⟩
      have hk : s.id = k := Table.key_of_find? hs
      subst hk
      refine ⟨makeCursor (p.stageType = .inventory || dependsOnlyOnInventory adm.plan.stages p) s
        (stageUnitCount db' s.id), ?_, rfl, rfl⟩
      refine Table.find?_eq_some.mpr ⟨?_, rfl⟩
      rw [S.cursors]
      exact List.mem_append_right _ (List.mem_map.mpr ⟨(p, s), hzip, rfl⟩)

theorem Capped.admitted (K : Capped db) (C : Counted db)
    (S : Seeded ids adm workloadId db db' sources units) (A : Admitted D ids adm now db db')
    (valid : validatePlan adm.plan = true) (roomy : adm.roomy) : Capped db' := by
  intro k s hs
  rcases A.stage_cases hs with hold | hnew
  · rw [S.count_old A hold]
    exact K k s hold
  · have hk : s.id = k := Table.key_of_find? hs
    subst hk
    rw [S.count_new A C hnew]
    have hlength : sources.length = adm.inventory.sources.length := by
      rw [← S.items, List.length_map]
    by_cases hsource : s.id ∈ (rowsOf ids adm .perSource).map Stage.id
    · obtain ⟨hcard, p, hp, hinit, hpcard, hmax⟩ := mem_rowsOf A hnew hsource
      have hsingle : s.id ∉ (rowsOf ids adm .singleton).map Stage.id := fun h => by
        rw [(mem_rowsOf A hnew h).1] at hcard
        cases hcard
      have hroom := roomy p hp hinit hpcard
      rw [if_pos hsource, if_neg hsingle]
      omega
    · rw [if_neg hsource]
      by_cases hsingle : s.id ∈ (rowsOf ids adm .singleton).map Stage.id
      · obtain ⟨-, p, hp, -, -, hmax⟩ := mem_rowsOf A hnew hsingle
        have hvalid := (validPlan_of_validate valid).stages p hp
        simp only [validStage, Bool.and_eq_true, decide_eq_true_eq] at hvalid
        rw [if_pos hsingle]
        omega
      · rw [if_neg hsingle]
        omega

end

/-! ## Runs -/

theorem cells_places {P : Stage → ℕ → Cell → Prop} (L : Linked P db)
    (old : ∀ k u, db.units.find? k = some u →
      ∃ u', db'.units.find? k = some u' ∧ CellChange G db db' u u') (k : Key) (u : UnitRow)
    (hu : db.units.find? k = some u) : ∃ u', db'.units.find? k = some u' ∧
      u'.stageId = u.stageId ∧ u'.revisionId = u.revisionId := by
  obtain ⟨u', hu', change⟩ := old k u hu
  refine ⟨u', hu', ?_⟩
  rcases change with hcell | step
  · obtain rfl : u' = u := congrArg Cell.unit hcell
    exact ⟨rfl, rfl⟩
  · obtain ⟨s, g, hs, hg, -⟩ := L.cells hu
    have hid : u'.identity = u.identity := (step s g hs hg).identity_eq
    exact ⟨stageId_of_identity hid, revisionId_of_identity hid⟩

theorem Act.counted {P : Stage → ℕ → Cell → Prop} (h : Act D G db db') (L : Linked P db)
    (C : Counted db) : Counted db' := by
  cases h with
  | cells frame old new =>
    exact C.keep frame.stages frame.cursors (cells_places L old) (fun k hk => (new k hk).1)
  | grant revision allowed blocked granted =>
    refine C.keep granted.stages granted.cursors (fun k u hu => ⟨u, ?_, rfl, rfl⟩) fun k hk => ?_
    · rw [granted.units]
      exact hu
    · rw [granted.units]
      exact hk
  | round m cursor next revision allowed done => exact C.round next done
  | admitted ids workloadId adm now allowed valid done =>
    obtain ⟨sources, units, S⟩ := insertRevisionRows_seeded done
    exact C.admitted S (insertRevisionRows_admitted done)

theorem Act.capped {P : Stage → ℕ → Cell → Prop} (h : Act D Guard.roomy db db') (L : Linked P db)
    (C : Counted db) (K : Capped db) : Capped db' := by
  cases h with
  | cells frame old new =>
    intro k s hs
    rw [frame.stages] at hs
    rw [stageUnitCount_congr (fun j u hu => (cells_places L old j u hu).imp fun _ h => ⟨h.1, h.2.1⟩)
      (fun j hj => (new j hj).1)]
    exact K k s hs
  | grant revision allowed blocked granted =>
    intro k s hs
    rw [granted.stages] at hs
    rw [stageUnitCount, granted.units]
    exact K k s hs
  | round m cursor next revision allowed done => exact K.round C next done
  | admitted ids workloadId adm now allowed valid done =>
    obtain ⟨sources, units, S⟩ := insertRevisionRows_seeded done
    exact K.admitted C S (insertRevisionRows_admitted done) valid allowed

theorem Acts.counted (h : Acts D G db db') (L : Linked (fun _ _ _ => True) db) (C : Counted db) :
    Counted db' := by
  induction h with
  | refl => exact C
  | tail pre last ih => exact last.counted (Acts.linked (any_rule G) pre L) ih

theorem Acts.capped (h : Acts D Guard.roomy db db') (L : Linked (fun _ _ _ => True) db)
    (C : Counted db) (K : Capped db) : Capped db' := by
  induction h with
  | refl => exact K
  | tail pre last ih =>
    exact last.capped (Acts.linked (any_rule _) pre L) (Acts.counted pre L C) ih

end

theorem run_counted (D : Digests) (ops : List Op) : Counted (run D Store.empty ops) := by
  have both := run_invariant (I := fun db => Linked (fun _ _ _ => True) db ∧ Counted db)
    (fun ho h hI =>
      have acts := transact_acts ho h
      ⟨acts.linked (any_rule Guard.none) hI.1, acts.counted hI.1 hI.2⟩)
    (meets_of_forall (Op.meets_none D) Store.empty ops)
    ⟨linked_empty, ⟨fun _ _ h => (by cases h), fun _ _ h => (by cases h)⟩⟩
  exact both.2

/-- The condition on one operation: an admission has room for its sources. -/
def Op.roomy : Op → Prop
  | .admitRevision _ _ adm _ _ => adm.roomy
  | _ => True

instance (op : Op) : Decidable op.roomy := by
  unfold Op.roomy
  split <;> infer_instance

theorem Op.roomy.meets {D : Digests} {db : Store} {op : Op} (h : op.roomy) :
    op.meets D Guard.roomy db := by
  unfold Op.meets
  split
  · exact fun _ _ => ⟨fun _ => trivial, fun _ _ _ => trivial⟩
  · exact fun _ _ _ _ _ _ _ _ => trivial
  · exact fun _ _ _ _ => trivial
  · exact fun _ _ _ _ _ => roundsMeet_of_forall (fun _ _ _ => trivial) _ _ _ _ _
  · exact h
  · trivial

theorem run_capped (D : Digests) (ops : List Op) (roomy : ∀ op ∈ ops, op.roomy) :
    Capped (run D Store.empty ops) := by
  have meets : RunMeets D Guard.roomy Store.empty ops :=
    meets_of_mem (fun op hop _ => (roomy op hop).meets) Store.empty
  have all := run_invariant
    (I := fun db => Linked (fun _ _ _ => True) db ∧ Counted db ∧ Capped db)
    (fun ho h hI =>
      have acts := transact_acts ho h
      ⟨acts.linked (any_rule _) hI.1, acts.counted hI.1 hI.2.1, acts.capped hI.1 hI.2.1 hI.2.2⟩)
    meets ⟨linked_empty, ⟨fun _ _ h => (by cases h), fun _ _ h => (by cases h)⟩,
      fun _ _ h => (by cases h)⟩
  exact all.2.2

/-! ## The revision -/

/-- The caps of the stages of a revision, together. -/
def stageCaps (db : Store) (revision : Key) : ℕ :=
  ((db.stages.rows.filter (fun s => s.revisionId = revision)).map Stage.maxUnits).sum

/-- The stages of a revision share its budget of units. -/
structure Budgeted (db : Store) : Prop where
  revision : ∀ s ∈ db.stages.rows, ∃ r, db.revisions.find? s.revisionId = some r
  caps : ∀ k r, db.revisions.find? k = some r → stageCaps db k ≤ r.maxUnits

section
variable {D : Digests} {op : Op} {db db' : Store}

theorem SameFacts.revision_back (F : SameFacts db db') {k : Key} {r' : Revision}
    (h : db'.revisions.find? k = some r') :
    ∃ r, db.revisions.find? k = some r ∧ r'.frozen = r.frozen := by
  have hk := F.revisions k
  rw [h, Option.map_some, eq_comm, Option.map_eq_some_iff] at hk
  obtain ⟨r, hr, heq⟩ := hk
  exact ⟨r, hr, heq.symm⟩

theorem SameFacts.revision_forth (F : SameFacts db db') {k : Key} {r : Revision}
    (h : db.revisions.find? k = some r) :
    ∃ r', db'.revisions.find? k = some r' ∧ r'.frozen = r.frozen := by
  have hk := F.revisions k
  rw [h, Option.map_some, Option.map_eq_some_iff] at hk
  exact hk

theorem SameFacts.budgeted (F : SameFacts db db') (B : Budgeted db) : Budgeted db' := by
  constructor
  · intro s hs
    rw [F.stages] at hs
    obtain ⟨r, hr⟩ := B.revision s hs
    obtain ⟨r', hr', -⟩ := F.revision_forth hr
    exact ⟨r', hr'⟩
  · intro k r' hr'
    obtain ⟨r, hr, hfrozen⟩ := F.revision_back hr'
    have hmax : r'.frozen.maxUnits = r.frozen.maxUnits := congrArg Revision.maxUnits hfrozen
    change r'.maxUnits = r.maxUnits at hmax
    rw [hmax, stageCaps, F.stages]
    exact B.caps k r hr

theorem stageRows_caps (ids : FreshIds) (adm : Admission) :
    ((stageRows ids adm).map Stage.maxUnits) = adm.plan.stages.map PlanStage.maxUnits := by
  unfold stageRows
  rw [List.map_map]
  have hfst : adm.plan.stages.map PlanStage.maxUnits =
      (adm.plan.stages.zipIdx.map Prod.fst).map PlanStage.maxUnits := by
    rw [List.zipIdx_map_fst]
  rw [hfst, List.map_map]
  rfl

theorem Budgeted.admitted {ids : FreshIds} {adm : Admission} {now : ℕ} {workloadId : Key}
    (B : Budgeted db) (valid : validatePlan adm.plan = true)
    (h : insertRevisionRows D ids db workloadId adm now = .ok db') : Budgeted db' := by
  have A := insertRevisionRows_admitted h
  obtain ⟨sources, units, S⟩ := insertRevisionRows_seeded h
  have self := Table.find?_insert?_self S.revision
  have others : ∀ k, k ≠ adm.revisionId → db'.revisions.find? k = db.revisions.find? k :=
    fun k hk => Table.find?_insert?_ne S.revision hk
  have old : ∀ s ∈ db.stages.rows, s.revisionId ≠ adm.revisionId := by
    intro s hs heq
    obtain ⟨r, hr⟩ := B.revision s hs
    rw [heq, A.revision] at hr
    cases hr
  constructor
  · intro s hs
    rw [A.stages, List.mem_append] at hs
    rcases hs with hs | hs
    · rw [others _ (old s hs)]
      exact B.revision s hs
    · rw [mem_stageRows hs]
      exact ⟨_, self⟩
  · intro k r hr
    rw [stageCaps, A.stages, List.filter_append]
    by_cases hk : k = adm.revisionId
    · subst hk
      obtain rfl := Option.some.inj (self.symm.trans hr)
      have hold : db.stages.rows.filter (fun s => s.revisionId = adm.revisionId) = [] :=
        List.filter_eq_nil_iff.mpr fun s hs h => old s hs (of_decide_eq_true h)
      have hnew : (stageRows ids adm).filter (fun s => s.revisionId = adm.revisionId) =
          stageRows ids adm :=
        List.filter_eq_self.mpr fun s hs => decide_eq_true (mem_stageRows hs)
      rw [hold, hnew, List.nil_append, stageRows_caps]
      exact (validPlan_of_validate valid).units
    · have hnew : (stageRows ids adm).filter (fun s => s.revisionId = k) = [] := by
        refine List.filter_eq_nil_iff.mpr fun s hs h => hk ?_
        rw [← of_decide_eq_true h, mem_stageRows hs]
      rw [hnew, List.append_nil]
      rw [others k hk] at hr
      exact B.caps k r hr

theorem Write.budgeted (h : Write D op db db') (B : Budgeted db) : Budgeted db' := by
  cases h with
  | quiet history facts results tokens => exact facts.budgeted B
  | result r recorded history facts tokens => exact facts.budgeted B
  | draft k drafted facts results tokens => exact facts.budgeted B
  | move k w w' moved facts results tokens => exact facts.budgeted B
  | admitted ids workloadId adm v now admits valid history results done =>
    exact B.admitted valid done

end

theorem run_budgeted (D : Digests) (ops : List Op) : Budgeted (run D Store.empty ops) :=
  run_writes_invariant (fun write B => write.budgeted B)
    ⟨fun _ h => (by cases h), fun _ _ h => (by cases h)⟩ ops

theorem countP_le_sum {α β : Type} (l : List α) (conditions : List β) (p : α → Bool)
    (q : β → α → Bool) (covered : ∀ a ∈ l, p a = true → ∃ b ∈ conditions, q b a = true) :
    l.countP p ≤ (conditions.map (fun b => l.countP (q b))).sum := by
  induction l with
  | nil => simp
  | cons a l ih =>
    have hrest := ih fun x hx => covered x (List.mem_cons_of_mem _ hx)
    have hsplit : (conditions.map (fun b => (a :: l).countP (q b))).sum =
        (conditions.map (fun b => l.countP (q b))).sum +
          (conditions.map (fun b => if q b a then 1 else 0)).sum := by
      rw [← List.sum_map_add]
      exact congrArg List.sum (List.map_congr_left fun b _ => List.countP_cons ..)
    rw [hsplit, List.countP_cons]
    by_cases ha : p a = true
    · obtain ⟨b, hb, hq⟩ := covered a (List.mem_cons_self ..) ha
      have hone : 1 ≤ (conditions.map (fun b => if q b a then 1 else 0)).sum := by
        have hmem : (if q b a then 1 else 0) ∈ conditions.map (fun b => if q b a then 1 else 0) :=
          List.mem_map.mpr ⟨b, hb, rfl⟩
        rw [if_pos hq] at hmem
        exact List.le_sum_of_mem hmem
      rw [if_pos ha]
      omega
    · rw [if_neg ha]
      omega

theorem Capped.revision {db : Store} (K : Capped db) (C : Counted db) (B : Budgeted db) {k : Key}
    {r : Revision} (hr : db.revisions.find? k = some r) :
    (unitsOf db k).length ≤ r.maxUnits := by
  have hcovered : db.units.rows.countP (fun u => u.revisionId = k) ≤
      ((db.stages.rows.filter (fun s => s.revisionId = k)).map
        (fun s => stageUnitCount db s.id)).sum := by
    refine countP_le_sum _ _ _ (fun (s : Stage) (u : UnitRow) => decide (u.stageId = s.id)) fun u hu hrevision => ?_
    obtain ⟨s, hs, heq⟩ := C.stage u.id u (Table.find?_of_mem hu)
    refine ⟨s, List.mem_filter.mpr ⟨Table.mem_of_find? hs, ?_⟩, ?_⟩
    · rw [← heq]
      exact hrevision
    · exact decide_eq_true (Table.key_of_find? hs).symm
  have hcaps : ((db.stages.rows.filter (fun s => s.revisionId = k)).map
      (fun s => stageUnitCount db s.id)).sum ≤ stageCaps db k := by
    refine List.sum_le_sum fun s hs => ?_
    exact K s.id s (Table.find?_of_mem (List.mem_filter.mp hs).1)
  calc (unitsOf db k).length = db.units.rows.countP (fun u => u.revisionId = k) :=
        List.countP_eq_length_filter.symm
    _ ≤ _ := hcovered
    _ ≤ stageCaps db k := hcaps
    _ ≤ r.maxUnits := B.caps k r hr

/-- **Unit caps.**  In every run whose admissions have room for their sources, in every store
reached: every stage has at most its cap of units, its cursor counts them, and a revision has at
most its budget of units. -/
theorem unit_caps_hold (D : Digests) (ops : List Op) (roomy : ∀ op ∈ ops, op.roomy) :
    (∀ s ∈ (run D Store.empty ops).stages.rows,
      stageUnitCount (run D Store.empty ops) s.id ≤ s.maxUnits ∧
      ∃ c, (run D Store.empty ops).cursors.find? s.id = some c ∧
        c.unitCount = stageUnitCount (run D Store.empty ops) s.id) ∧
    ∀ r ∈ (run D Store.empty ops).revisions.rows,
      (unitsOf (run D Store.empty ops) r.id).length ≤ r.maxUnits := by
  have C := run_counted D ops
  have K := run_capped D ops roomy
  refine ⟨fun s hs => ⟨K s.id s (Table.find?_of_mem hs), ?_⟩, fun r hr => ?_⟩
  · obtain ⟨c, hc, -, hcount⟩ := C.cursor s.id s (Table.find?_of_mem hs)
    exact ⟨c, hc, hcount⟩
  · exact K.revision C (run_budgeted D ops) (Table.find?_of_mem hr)

/-- Two sources fit the cap of ten. -/
theorem unit_caps_hold_sample :
    let ops := sampleStart 1 1 [sampleInventory, sampleMap] 1000 [7, 8]
    let db := run sampleDigests Store.empty ops
    stageUnitCount db ⟨1, 101⟩ = 2 ∧ ∀ r ∈ db.revisions.rows, (unitsOf db r.id).length ≤ r.maxUnits := by
  intro ops db
  have roomy : ∀ op ∈ ops, op.roomy := by decide +kernel
  exact ⟨by decide +kernel, (unit_caps_hold sampleDigests ops roomy).2⟩

/-! ## An optional stage -/

/-- A per-source stage that is not required, with a cap of one unit. -/
def optionalMap : PlanStage := { sampleMap with requiredFlag := false, maxUnits := 1 }

/-- Admission of the optional stage over three sources, with a budget of two units. -/
def optionalRun : List Op :=
  [.createDraft ⟨1, 1⟩ 1 0 .normal 1,
    .admitRevision (sampleIds 100) ⟨1, 1⟩
      { plan := { samplePlan [{ sampleInventory with maxUnits := 1 }, optionalMap] 1000 1 with
          maxUnits := 2 }
        inventory := ⟨[⟨0, 0, 7, .ready, true⟩, ⟨1, 1, 8, .ready, true⟩, ⟨2, 2, 9, .ready, true⟩], 1⟩
        snapshotDigest := 0
        capsTruncated := false
        partialOutputAccepted := false
        usageComplete := true
        revisionId := ⟨1, 1⟩ } 1 1]

/-- The optional stage has three units under a cap of one, and the revision three under a budget
of two. -/
theorem optional_stage_exceeds_cap :
    ¬ ∀ (D : Digests) (ops : List Op),
      (∀ s ∈ (run D Store.empty ops).stages.rows,
        stageUnitCount (run D Store.empty ops) s.id ≤ s.maxUnits ∧
        ∃ c, (run D Store.empty ops).cursors.find? s.id = some c ∧
          c.unitCount = stageUnitCount (run D Store.empty ops) s.id) ∧
      ∀ r ∈ (run D Store.empty ops).revisions.rows,
        (unitsOf (run D Store.empty ops) r.id).length ≤ r.maxUnits := by
  intro h
  have hcaps := (h sampleDigests optionalRun).1
  have hcount : stageUnitCount (run sampleDigests Store.empty optionalRun) ⟨1, 101⟩ = 3 := by
    decide +kernel
  have hstage : ((run sampleDigests Store.empty optionalRun).stages.find? ⟨1, 101⟩).map
      Stage.maxUnits = some 1 := by decide +kernel
  obtain ⟨s, hs, hmax⟩ := Option.map_eq_some_iff.mp hstage
  have hle := (hcaps s (Table.mem_of_find? hs)).1
  rw [Table.key_of_find? hs, hcount, hmax] at hle
  omega

end Metnos.Durable
