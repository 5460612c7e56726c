import Metnos.Durable.Capacity

/-!
# Durable.Coverage — the units of a per-source stage

Every unit of a per-source stage has a source of its revision, and no two have the same.  At
admission this is how the initial units are made; afterwards the cursor visits the sources by
ordinal, and the units of the stage are those of the sources it has passed.
-/

namespace Metnos.Durable

open Transaction

/-- Every unit of the stage has a source of its own, which the open cursor has passed. -/
structure Sourced (db : Store) (s : Stage) (c : StageCursor) : Prop where
  source : ∀ u ∈ db.units.rows, u.stageId = s.id → ∃ x ∈ db.sources.rows,
    u.sourceRowId = some x.id ∧ x.revisionId = s.revisionId ∧
    (c.completed = false → (x.ordinal : ℤ) ≤ c.sourceOrdinal)
  single : ∀ u ∈ db.units.rows, ∀ v ∈ db.units.rows, u.stageId = s.id → v.stageId = s.id →
    u.sourceRowId = v.sourceRowId → u = v

structure Coverage (db : Store) : Prop where
  inventory : ∀ s ∈ db.stages.rows, s.stageType = .inventory → s.cardinality = .singleton
  reduction : ∀ s ∈ db.stages.rows, s.reduction.isSome = true → s.cardinality = .singleton
  cursor : ∀ k s, db.stages.find? k = some s → ∃ c, db.cursors.find? k = some c ∧
    c.revisionId = s.revisionId ∧ (s.cardinality = .perSource → Sourced db s c)

section
variable {D : Digests} {G : Guard} {db db' : Store}

/-! ## What keeps a stage's units -/

/-- Every unit of the stage was there before, with its source. -/
def UnitsFrom (db db' : Store) (k : Key) : Prop :=
  ∀ u' ∈ db'.units.rows, u'.stageId = k → ∃ u ∈ db.units.rows, u.id = u'.id ∧
    u.stageId = k ∧ u.sourceRowId = u'.sourceRowId

theorem Sourced.keep {s : Stage} {c c' : StageCursor} (S : Sourced db s c)
    (back : UnitsFrom db db' s.id) (sources : ∀ x ∈ db.sources.rows, x ∈ db'.sources.rows)
    (passed : c'.completed = false → c.completed = false ∧ c.sourceOrdinal ≤ c'.sourceOrdinal) :
    Sourced db' s c' := by
  constructor
  · intro u' hu' hs
    obtain ⟨u, hu, -, hstage, hsource⟩ := back u' hu' hs
    obtain ⟨x, hx, hid, hr, hordinal⟩ := S.source u hu hstage
    refine ⟨x, sources x hx, hsource ▸ hid, hr, fun hopen => ?_⟩
    obtain ⟨hopen', hle⟩ := passed hopen
    exact (hordinal hopen').trans hle
  · intro u' hu' v' hv' hsu hsv hsame
    obtain ⟨u, hu, hidu, hstageu, hsourceu⟩ := back u' hu' hsu
    obtain ⟨v, hv, hidv, hstagev, hsourcev⟩ := back v' hv' hsv
    have huv : u = v := S.single u hu v hv hstageu hstagev
      (hsourceu.trans (hsame.trans hsourcev.symm))
    have hid : u'.id = v'.id := hidu.symm.trans ((congrArg UnitRow.id huv).trans hidv)
    have hfind := Table.find?_of_mem hu'
    rw [hid, Table.find?_of_mem hv'] at hfind
    exact (Option.some.inj hfind).symm

theorem sourceRowId_of_identity {u u' : UnitRow} (h : u'.identity = u.identity) :
    u'.sourceRowId = u.sourceRowId := congrArg (fun x => x.2.2.2.2.1) h

theorem cells_from {P : Stage → ℕ → Cell → Prop} (L : Linked P db)
    (old : ∀ k u, db.units.find? k = some u →
      ∃ u', db'.units.find? k = some u' ∧ CellChange G db db' u u')
    (new : ∀ k, db.units.find? k = none → db'.units.find? k = none) (k : Key) :
    UnitsFrom db db' k := by
  intro u' hu' hs
  have hfind := Table.find?_of_mem hu'
  cases hu : db.units.find? u'.id with
  | none =>
    rw [new _ hu] at hfind
    cases hfind
  | some u =>
    obtain ⟨v, hv, change⟩ := old _ u hu
    obtain rfl : u' = v := Option.some.inj (hfind.symm.trans hv)
    refine ⟨u, Table.mem_of_find? hu, Table.key_of_find? hu, ?_⟩
    rcases change with hcell | step
    · obtain rfl : u' = u := congrArg Cell.unit hcell
      exact ⟨hs, rfl⟩
    · obtain ⟨s, g, hstage, hg, -⟩ := L.cells hu
      have hid : u'.identity = u.identity := (step s g hstage hg).identity_eq
      exact ⟨(stageId_of_identity hid).symm.trans hs, (sourceRowId_of_identity hid).symm⟩

theorem Coverage.keep (C : Coverage db) (stages : db'.stages = db.stages)
    (sources : db'.sources = db.sources) (cursors : db'.cursors = db.cursors)
    (back : ∀ k, UnitsFrom db db' k) : Coverage db' := by
  refine ⟨by rw [stages]; exact C.inventory, by rw [stages]; exact C.reduction, fun k s hs => ?_⟩
  rw [stages] at hs
  obtain ⟨c, hc, hr, S⟩ := C.cursor k s hs
  refine ⟨c, by rw [cursors]; exact hc, hr, fun hcard => ?_⟩
  exact (S hcard).keep (back s.id) (fun x hx => by rw [sources]; exact hx) fun h => ⟨h, le_rfl⟩

/-! ## Rounds -/

theorem nextSource_facts {cursor : StageCursor} {x : Source}
    (h : nextSource db cursor = some x) : x ∈ db.sources.rows ∧
      x.revisionId = cursor.revisionId ∧ cursor.sourceOrdinal < x.ordinal := by
  have hm := Table.mem_select (List.mem_of_head? h)
  have hcond := hm.2
  simp only [Bool.and_eq_true, decide_eq_true_eq] at hcond
  exact ⟨hm.1, hcond⟩

theorem candidateOver_source (rows : List ParentRow) (unavailable : Option (UnitError × Bool))
    (source : Option Source) (shard : ShardKey) :
    (candidateOver rows unavailable source shard).source = source := by
  unfold candidateOver
  split <;> rfl

/-- A per-source round: the cursor completes, or it passes the next source, whose unit is the only
one that may be inserted. -/
theorem perSourceRound_ok {m : Round} {cursor : StageCursor}
    (legacy : cursor.legacyReplay = false) (h : perSourceRound D m db cursor = .ok db') :
    (∃ c', saveCursor db c' = .ok db' ∧ cursor.Keeps c' ∧ c'.completed = true) ∨
    ∃ x c db1 cursor1, nextSource db cursor = some x ∧ c.source = some x ∧
      Inserted D m c cursor db db1 cursor1 ∧
      saveCursor db1 { cursor1 with sourceOrdinal := x.ordinal } = .ok db' := by
  unfold perSourceRound at h
  split at h
  · exact .inl ⟨_, h, ⟨rfl, rfl, rfl, rfl⟩, rfl⟩
  · rename_i x hx
    unfold insertAndSave at h
    simp only [bind_eq_ok, Prod.exists] at h
    obtain ⟨db1, cursor1, h1, h2⟩ := h
    exact .inr ⟨x, _, db1, cursor1, hx, candidateOver_source .., insertCandidate_inserted legacy h1,
      h2⟩

theorem perSourceRound_sourced {m : Round} {cursor c' : StageCursor} (S : Sourced db m.stage cursor)
    (legacy : cursor.legacyReplay = false) (hid : cursor.stageId = m.stage.id)
    (hr : cursor.revisionId = m.stage.revisionId) (hopen : cursor.completed = false)
    (h : perSourceRound D m db cursor = .ok db')
    (hc' : db'.cursors.find? m.stage.id = some c') : Sourced db' m.stage c' := by
  rcases perSourceRound_ok legacy h with ⟨c, hsave, keeps, hdone⟩ | ⟨x, c, db1, cursor1, hx, hsource,
    inserted, hsave⟩
  · have self := saveCursor_self hsave (keeps.legacyReplay.trans legacy)
    rw [keeps.stageId, hid, hc', Option.some.injEq] at self
    subst self
    obtain ⟨cursors, -, rfl⟩ := saveCursor_ok hsave
    refine S.keep (fun u hu hs => ⟨u, hu, rfl, hs, rfl⟩) (fun _ h => h) fun h => ?_
    rw [hdone] at h
    cases h
  · obtain ⟨hmem, hrevision, hlt⟩ := nextSource_facts hx
    cases inserted with
    | noted code =>
      have self := saveCursor_self hsave legacy
      dsimp only at self
      rw [hid, hc', Option.some.injEq] at self
      subst self
      obtain ⟨cursors, -, rfl⟩ := saveCursor_ok hsave
      exact S.keep (fun u hu hs => ⟨u, hu, rfl, hs, rfl⟩) (fun _ h => h) fun _ => ⟨hopen, hlt.le⟩
    | inserted id units fresh distinct insert after bound =>
      have self := saveCursor_self hsave rfl
      dsimp only at self
      rw [hid, hc', Option.some.injEq] at self
      subst self
      subst after
      obtain ⟨cursors, -, rfl⟩ := saveCursor_ok hsave
      have rows := (Table.insert?_some insert).2
      have hrow : (makeCandidate D m.stage m.revision c id m.now).sourceRowId = some x.id := by
        simp [makeCandidate, hsource]
      -- no earlier unit has the new source: its ordinal lies beyond the cursor
      have unused : ∀ u ∈ db.units.rows, u.stageId = m.stage.id → u.sourceRowId ≠ some x.id := by
        intro u hu hs heq
        obtain ⟨y, hy, hyid, -, hordinal⟩ := S.source u hu hs
        have hxy : y.id = x.id := Option.some.inj (hyid.symm.trans heq)
        have hfind := Table.find?_of_mem hy
        rw [hxy, Table.find?_of_mem hmem, Option.some.injEq] at hfind
        have hle := hordinal hopen
        rw [← hfind] at hle
        omega
      constructor
      · intro u hu hs
        dsimp only at hu
        rw [rows, List.mem_append, List.mem_singleton] at hu
        rcases hu with hu | rfl
        · obtain ⟨y, hy, hyid, hyr, hordinal⟩ := S.source u hu hs
          exact ⟨y, hy, hyid, hyr, fun _ => (hordinal hopen).trans hlt.le⟩
        · exact ⟨x, hmem, hrow, hrevision.trans hr, fun _ => le_rfl⟩
      · intro u hu v hv hsu hsv hsame
        dsimp only at hu hv
        rw [rows, List.mem_append, List.mem_singleton] at hu hv
        rcases hu with hu | rfl <;> rcases hv with hv | rfl
        · exact S.single u hu v hv hsu hsv hsame
        · exact absurd (hsame.trans hrow) (unused u hu hsu)
        · exact absurd (hsame.symm.trans hrow) (unused v hv hsv)
        · rfl

theorem Coverage.round {m : Round} {cursor : StageCursor} (C : Coverage db) (N : Counted db)
    (next : nextMaterializationStage db m.revision.id = some (m.stage, cursor))
    (h : materializeRound D m db cursor = .ok db') : Coverage db' := by
  obtain ⟨hcursor, hstage, -, -, hid, hopen, -⟩ := nextStage_facts next
  obtain ⟨c, hc, legacy, -⟩ := N.cursor _ _ hstage
  obtain rfl : cursor = c := Option.some.inj (hcursor.symm.trans hc)
  obtain ⟨c, hc, hrevision, hsourced⟩ := C.cursor _ _ hstage
  obtain rfl : cursor = c := Option.some.inj (hcursor.symm.trans hc)
  have cells := materializeRound_cells h
  have frame := materializeRound_frame hid legacy h
  have sources := (materializeRound_ledger h).facts.sources
  refine ⟨by rw [cells.stages]; exact C.inventory, by rw [cells.stages]; exact C.reduction,
    fun k s hs => ?_⟩
  rw [cells.stages] at hs
  by_cases hk : k = m.stage.id
  · subst hk
    obtain rfl : m.stage = s := Option.some.inj (hstage.symm.trans hs)
    obtain ⟨cursor', db1, grown, saved⟩ := materializeRound_grown legacy h
    have self := saveCursor_self saved grown.legacyReplay
    rw [grown.stageId, hid] at self
    refine ⟨cursor', self, grown.revisionId.trans hrevision, fun hcard => ?_⟩
    have hreduction : m.stage.reduction = none := by
      by_contra hne
      have hsome := C.reduction _ (Table.mem_of_find? hs) (Option.isSome_iff_ne_none.mpr hne)
      rw [hcard] at hsome
      cases hsome
    have hround : perSourceRound D m db cursor = .ok db' := by
      unfold materializeRound at h
      rw [hreduction, hcard] at h
      exact h
    exact perSourceRound_sourced (hsourced hcard) legacy hid hrevision hopen hround self
  · obtain ⟨c, hc, hr, S⟩ := C.cursor k s hs
    have hsk : s.id = k := Table.key_of_find? hs
    refine ⟨c, by rw [frame.cursors k hk]; exact hc, hr, fun hcard => ?_⟩
    refine (S hcard).keep (fun u' hu' hstage' => ?_) (fun x hx => by rw [sources]; exact hx)
      fun h => ⟨h, le_rfl⟩
    have hold := frame.new u'.id u' (Table.find?_of_mem hu') (by rw [hstage', hsk]; exact hk)
    exact ⟨u', Table.mem_of_find? hold, rfl, hstage', rfl⟩

/-! ## Admission -/

section
variable {ids : FreshIds} {adm : Admission} {now : ℕ} {workloadId : Key} {sources : List Source}
  {units : List UnitRow}

theorem Seeded.sources_nodup (S : Seeded ids adm workloadId db db' sources units) :
    (sources.map Source.id).Nodup := by
  have hnodup := db'.sources.nodup
  rw [S.sources, List.map_append] at hnodup
  exact (List.nodup_append.mp hnodup).2.1

theorem Seeded.places_nodup (S : Seeded ids adm workloadId db db' sources units)
    (A : Admitted D ids adm now db db') : (units.map UnitRow.place).Nodup := by
  have rows : ∀ (c : Cardinality) (source : Option Key),
      ((rowsOf ids adm c).map (fun s => (s.id, source))).Nodup := by
    intro c source
    refine List.Nodup.of_map Prod.fst ?_
    rw [List.map_map]
    exact rowsOf_nodup A c
  rw [S.places]
  refine List.nodup_append.mpr ⟨List.nodup_flatMap.mpr ⟨fun x _ => rows .perSource (some x.id), ?_⟩,
    rows .singleton none, fun a ha b hb heq => ?_⟩
  · refine (List.pairwise_map.mp S.sources_nodup).imp fun {x y} hxy => ?_
    intro a hax hay
    obtain ⟨s, -, rfl⟩ := List.mem_map.mp hax
    obtain ⟨t, -, ht⟩ := List.mem_map.mp hay
    simp only [Prod.mk.injEq, Option.some.injEq] at ht
    exact hxy ht.2.symm
  · obtain ⟨x, -, hx⟩ := List.mem_flatMap.mp ha
    obtain ⟨s, -, rfl⟩ := List.mem_map.mp hx
    obtain ⟨t, -, rfl⟩ := List.mem_map.mp hb
    simp at heq

theorem Seeded.place (S : Seeded ids adm workloadId db db' sources units)
    (A : Admitted D ids adm now db db') {s : Stage} (hs : s ∈ stageRows ids adm)
    (hcard : s.cardinality = .perSource) {u : UnitRow} (hu : u ∈ units) (hstage : u.stageId = s.id) :
    s ∈ initialRows ids adm ∧ ∃ x ∈ sources, u.sourceRowId = some x.id := by
  have hplace : u.place ∈ units.map UnitRow.place := List.mem_map_of_mem hu
  rw [S.places, List.mem_append] at hplace
  have same : ∀ t ∈ initialRows ids adm, t.id = s.id → t = s := fun t ht hid =>
    List.inj_on_of_nodup_map (stageRows_nodup A) (initialRows_subset ht) hs hid
  rcases hplace with hplace | hplace
  · obtain ⟨x, hx, hplace⟩ := List.mem_flatMap.mp hplace
    obtain ⟨t, ht, heq⟩ := List.mem_map.mp hplace
    simp only [UnitRow.place, Prod.mk.injEq] at heq
    have hinitial := (List.mem_filter.mp ht).1
    obtain rfl := same t hinitial (heq.1.trans hstage)
    exact ⟨hinitial, x, hx, heq.2.symm⟩
  · obtain ⟨t, ht, heq⟩ := List.mem_map.mp hplace
    simp only [UnitRow.place, Prod.mk.injEq] at heq
    obtain ⟨hinitial, hsingle⟩ := List.mem_filter.mp ht
    obtain rfl := same t hinitial (heq.1.trans hstage)
    rw [of_decide_eq_true hsingle] at hcard
    cases hcard

theorem Seeded.mem_new (S : Seeded ids adm workloadId db db' sources units)
    (A : Admitted D ids adm now db db') (N : Counted db) {s : Stage} (hs : s ∈ stageRows ids adm)
    {u : UnitRow} (hu : u ∈ db'.units.rows) (hstage : u.stageId = s.id) : u ∈ units := by
  rw [S.units, List.mem_append] at hu
  rcases hu with hu | hu
  · obtain ⟨t, ht, -⟩ := N.stage u.id u (Table.find?_of_mem hu)
    rw [hstage, A.stage_fresh hs] at ht
    cases ht
  · exact hu

theorem Seeded.sourced (S : Seeded ids adm workloadId db db' sources units)
    (A : Admitted D ids adm now db db') (N : Counted db) {s : Stage} {c : StageCursor}
    (hs : s ∈ stageRows ids adm) (hcard : s.cardinality = .perSource)
    (initial : s ∈ initialRows ids adm → c.completed = true) : Sourced db' s c := by
  constructor
  · intro u hu hstage
    obtain ⟨hinitial, x, hx, hid⟩ := S.place A hs hcard (S.mem_new A N hs hu hstage) hstage
    refine ⟨x, ?_, hid, ?_, fun hopen => ?_⟩
    · rw [S.sources]
      exact List.mem_append_right _ hx
    · rw [S.owned x hx, mem_stageRows hs]
    · rw [initial hinitial] at hopen
      cases hopen
  · intro u hu v hv hsu hsv hsame
    refine List.inj_on_of_nodup_map (S.places_nodup A) (S.mem_new A N hs hu hsu)
      (S.mem_new A N hs hv hsv) ?_
    rw [UnitRow.place, UnitRow.place, hsu, hsv, hsame]

theorem validStage_inventory {p : PlanStage} (h : validStage p = true)
    (hp : p.stageType = .inventory) : p.cardinality = .singleton := by
  simp only [validStage, Bool.and_eq_true, hp, decide_true, Bool.not_true, Bool.false_or,
    decide_eq_true_eq] at h
  exact h.1.2.2

theorem validStage_reduction {p : PlanStage} (h : validStage p = true)
    (hp : p.reduction.isSome = true) : p.cardinality = .singleton := by
  obtain ⟨r, hr⟩ := Option.isSome_iff_exists.mp hp
  simp only [validStage, validReduction, hr, Bool.and_eq_true, decide_eq_true_eq] at h
  obtain ⟨⟨⟨⟨⟨-, ⟨⟨⟨⟨-, hcard⟩, -⟩, -⟩, -⟩⟩, -⟩, -⟩, -⟩, -⟩ := h
  exact hcard

theorem Coverage.admitted (C : Coverage db) (N : Counted db)
    (S : Seeded ids adm workloadId db db' sources units) (A : Admitted D ids adm now db db')
    (valid : validatePlan adm.plan = true) : Coverage db' := by
  have valid := (validPlan_of_validate valid).stages
  refine ⟨fun s hs htype => ?_, fun s hs hreduction => ?_, fun k s hs => ?_⟩
  · rw [A.stages, List.mem_append] at hs
    rcases hs with hs | hs
    · exact C.inventory s hs htype
    · obtain ⟨i, p, hi, rfl⟩ := mem_stageRows_iff.mp hs
      exact validStage_inventory (valid p (List.mem_of_getElem? hi)) htype
  · rw [A.stages, List.mem_append] at hs
    rcases hs with hs | hs
    · exact C.reduction s hs hreduction
    · obtain ⟨i, p, hi, rfl⟩ := mem_stageRows_iff.mp hs
      exact validStage_reduction (valid p (List.mem_of_getElem? hi)) hreduction
  · have hsk : s.id = k := Table.key_of_find? hs
    rcases A.stage_cases hs with hold | hnew
    · obtain ⟨c, hc, hr, hsourced⟩ := C.cursor k s hold
      refine ⟨c, A.cursor_old hc, hr, fun hcard => ?_⟩
      refine (hsourced hcard).keep (fun u hu hstage => ?_) (fun x hx => ?_) fun h => ⟨h, le_rfl⟩
      · rcases A.unit_cases (Table.find?_of_mem hu) with hu | ⟨t, ht, id, source, rfl⟩
        · exact ⟨u, Table.mem_of_find? hu, rfl, hstage, rfl⟩
        · -- a new unit belongs to a stage that did not exist
          have hfresh := A.stage_fresh (initialRows_subset ht)
          have hid : t.id = s.id := hstage
          rw [hid, hsk, hold] at hfresh
          cases hfresh
      · rw [S.sources]
        exact List.mem_append_left _ hx
    · obtain ⟨i, p, hi, hrow⟩ := mem_stageRows_iff.mp hnew
      have hzip : (p, s) ∈ adm.plan.stages.zip (stageRows ids adm) :=
        mem_zip_stageRows.mpr ⟨i, hi, hrow⟩
      obtain ⟨n, hc⟩ := A.cursor_new hzip
      dsimp only at hc
      rw [hsk] at hc
      refine ⟨_, hc, rfl, fun hcard => S.sourced A N hnew hcard fun hinitial => ?_⟩
      obtain ⟨q, hq, hinit⟩ := mem_initialRows hinitial
      obtain ⟨j, hj, hrow'⟩ := mem_zip_stageRows.mp hq
      have hids : ids.stage i = ids.stage j := by
        have hid : (makeStage adm.plan.stages ids adm.revisionId i p).id =
            (makeStage adm.plan.stages ids adm.revisionId j q).id :=
          congrArg Stage.id (hrow.symm.trans hrow')
        exact congrArg Key.id hid
      obtain rfl : i = j := A.position_unique hi hj hids
      obtain rfl : p = q := Option.some.inj (hi.symm.trans hj)
      simp only [initialStage, Bool.and_eq_true] at hinit
      simp [makeCursor, hinit.2]

end

/-! ## Runs -/

theorem Act.coverage {P : Stage → ℕ → Cell → Prop} (h : Act D G db db') (L : Linked P db)
    (N : Counted db) (C : Coverage db) : Coverage db' := by
  cases h with
  | cells frame old new =>
    exact C.keep frame.stages frame.sources frame.cursors
      (cells_from L old fun k hk => (new k hk).1)
  | grant revision allowed blocked granted =>
    refine C.keep granted.stages granted.sources granted.cursors fun k u hu hs => ⟨u, ?_, rfl, hs, rfl⟩
    rw [← granted.units]
    exact hu
  | round m cursor next revision allowed done => exact C.round N next done
  | admitted ids workloadId adm now allowed valid done =>
    obtain ⟨sources, units, S⟩ := insertRevisionRows_seeded done
    exact C.admitted N S (insertRevisionRows_admitted done) valid

theorem Acts.coverage (h : Acts D G db db') (L : Linked (fun _ _ _ => True) db) (N : Counted db)
    (C : Coverage db) : Coverage db' := by
  induction h with
  | refl => exact C
  | tail pre last ih =>
    exact last.coverage (Acts.linked (any_rule G) pre L) (Acts.counted pre L N) ih

end

end Metnos.Durable
