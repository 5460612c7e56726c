import Metnos.Durable.Candidates

/-!
# Durable.Keyed — every unit has the key that describes it

Rounds and admissions insert units with such keys, and no other operation inserts any.
-/

namespace Metnos.Durable

open Transaction

section
variable {D : PlanDigests} {G : Guard} {db db' : Store}

/-! ## Rounds -/

theorem forall₂_of_map_eq {α β γ δ : Type} {R : α → δ → Prop} {f : α → γ} {h : β → γ} {g : β → δ}
    {l : List α} {ps : List β} (heq : l.map f = ps.map h)
    (hR : ∀ p ∈ ps, ∀ a, f a = h p → R a (g p)) : List.Forall₂ R l (ps.map g) := by
  induction ps generalizing l with
  | nil =>
    obtain rfl := List.map_eq_nil_iff.mp heq
    exact .nil
  | cons p ps ih =>
    obtain ⟨a, l', rfl, ha, hl⟩ := List.map_eq_cons_iff.mp heq
    exact .cons (hR p (List.mem_cons_self ..) a ha)
      (ih hl fun q hq => hR q (List.mem_cons_of_mem _ hq))

theorem expectedBindings_map (k : Key) (c : CandidateUnit) :
    (expectedBindings k c).map (fun d => (d.sourceResultId, d.slice, d.role)) =
      c.parents.map (fun p => (p.result.id, c.dependencySlice, p.role)) := by
  unfold expectedBindings
  rw [List.map_map]
  conv_rhs => rw [← List.zipIdx_map_fst 0 c.parents, List.map_map]
  rfl

theorem mem_insertBindings {k : Key} {l rows : List UnitDependency} (hl : ∀ d ∈ l, d.unitId = k)
    {d : UnitDependency} (hd : d ∈ l.foldl insertBinding rows) : d ∈ rows ∨ d.unitId = k := by
  induction l generalizing rows with
  | nil => exact .inl hd
  | cons x l ih =>
    rw [List.foldl_cons] at hd
    rcases ih (fun y hy => hl y (List.mem_cons_of_mem _ hy)) hd with hd | hd
    · unfold insertBinding at hd
      split at hd
      · exact .inl hd
      · rw [List.mem_append, List.mem_singleton] at hd
        refine hd.imp_right ?_
        rintro rfl
        exact hl d (List.mem_cons_self ..)
    · exact .inr hd

theorem Inserted.drawn {m : Round} {c : CandidateUnit} {cursor cursor' : StageCursor}
    (I : Inserted D.toDigests m c cursor db db' cursor') (sound : c.Sound D db m.stage) :
    (db' = db ∧ cursor'.attentionCode ≠ none) ∨
    (cursor'.attentionCode = cursor.attentionCode ∧ db'.results = db.results ∧
      db'.sources = db.sources ∧ ∃ id, db.units.find? id = none ∧
        (∀ k, db'.units.find? k = if k = id then
          some (makeCandidate D.toDigests m.stage m.revision c id m.now) else db.units.find? k) ∧
        (∀ d ∈ db'.unitDependencies, d ∈ db.unitDependencies ∨ d.unitId = id) ∧
        Drawn D db' m.stage (makeCandidate D.toDigests m.stage m.revision c id m.now)
          (candidateSemantic m.stage c)) := by
  cases I with
  | noted code => exact .inl ⟨rfl, by simp⟩
  | inserted id units fresh distinct insert after bound =>
    refine .inr ⟨rfl, by rw [after], by rw [after], id, fresh, fun k => ?_, fun d hd => ?_,
      rfl, rfl, rfl, ?_, ?_⟩
    · rw [after]
      exact find_insert insert k
    · rw [after] at hd
      exact mem_insertBindings expectedBindings_unit hd
    · cases hsource : c.source with
      | none => simp [makeCandidate, SourceOf, candidateSemantic, hsource]
      | some x =>
        obtain ⟨hx, hr⟩ := sound.source x hsource
        simp only [makeCandidate, SourceOf, candidateSemantic, hsource, Option.map_some, after]
        exact ⟨x, hx, hr, rfl, rfl⟩
    · have new : ∀ v ∈ db.units.rows, v.revisionId = m.stage.revisionId → v.stageId = m.stage.id →
          v.unitKey ≠ candidateKey D.toDigests m.stage c := by
        intro v hv h1 h2 h3
        have := distinct v hv
        simp [unitConflict, makeCandidate, h1, h2, h3] at this
      rw [expectedBindings_map] at bound
      refine forall₂_of_map_eq bound fun p hp d hd => ?_
      simp only [Prod.mk.injEq] at hd
      refine ⟨p.result, ?_, hd.2.2, rfl, hd.2.1.trans (sound.slice new p hp)⟩
      rw [hd.1, after]
      exact sound.parents p hp

theorem Keyed.unit_keep {k : Key} {u u' : UnitRow} (K : Keyed D db) (E : Extends db db')
    (hu : db.units.find? k = some u) (hu' : db'.units.find? k = some u') :
    ∃ s σ, db'.stages.find? u'.stageId = some s ∧ s.stageType ≠ .inventory ∧ Drawn D db' s u' σ := by
  obtain ⟨v, hv, hid, -⟩ := E.units k u hu
  obtain rfl : u' = v := Option.some.inj (hu'.symm.trans hv)
  obtain ⟨s, σ, hs, htype, drawn⟩ := K.unit k u hu
  have hfind : db.units.find? u.id = some u := by rw [Table.key_of_find? hu]; exact hu
  refine ⟨s, σ, ?_, htype, drawn.keep E hfind hid⟩
  simp only [UnitRow.lineage, Prod.mk.injEq] at hid
  rw [hid.2.2.1]
  exact E.stages _ _ hs

theorem Extends.isSome {k : Key} (E : Extends db db') (h : (db.units.find? k).isSome = true) :
    (db'.units.find? k).isSome = true := by
  obtain ⟨u, hu⟩ := Option.isSome_iff_exists.mp h
  obtain ⟨u', hu', -⟩ := E.units k u hu
  rw [hu']
  rfl

theorem Keyed.keep (K : Keyed D db) (E : Extends db db')
    (back : ∀ k u', db'.units.find? k = some u' → ∃ u, db.units.find? k = some u)
    (dependencies : db'.unitDependencies = db.unitDependencies) (stages : db'.stages = db.stages)
    (cursors : db'.cursors = db.cursors) : Keyed D db' := by
  refine ⟨fun k u' hu' => ?_, fun d hd => ?_, fun k s c hs hc => ?_, fun k s c hs hc => ?_⟩
  · obtain ⟨u, hu⟩ := back k u' hu'
    exact K.unit_keep E hu hu'
  · rw [dependencies] at hd
    exact E.isSome (K.owned d hd)
  · rw [stages] at hs
    rw [cursors] at hc
    exact (K.entries k s c hs hc).keep E
  · rw [stages] at hs
    rw [cursors] at hc
    exact K.inventory k s c hs hc

theorem RoundSound.cursor {m : Round} {cursor : StageCursor} (R : RoundSound D m cursor db db')
    (hid : cursor.stageId = m.stage.id) (legacy : cursor.legacyReplay = false)
    (E : Extends db db') : ∃ c, db'.cursors.find? m.stage.id = some c ∧ Visited D db' m.stage c := by
  cases R with
  | saved cursor' done keeps visited | rooted root db1 cursor' marked done keeps visited =>
    have self := saveCursor_self done (keeps.legacyReplay.trans legacy)
    rw [keeps.stageId, hid] at self
    exact ⟨cursor', self, visited.keep E⟩
  | inserted c advance done keeps sound visited =>
    unfold insertAndSave at done
    simp only [bind_eq_ok, Prod.exists] at done
    obtain ⟨db1, cursor1, h1, h2⟩ := done
    have I := insertCandidate_inserted legacy h1
    have hlegacy : cursor1.legacyReplay = false := by
      cases I with
      | noted => exact legacy
      | inserted => rfl
    have hstage : cursor1.stageId = m.stage.id := by cases I <;> exact hid
    have self := saveCursor_self h2 ((keeps cursor1).legacyReplay.trans hlegacy)
    rw [(keeps cursor1).stageId, hstage] at self
    obtain ⟨cursors, -, rfl⟩ := saveCursor_ok h2
    refine ⟨_, self, visited _ cursor1 E fun hattention => ?_⟩
    obtain ⟨-, hne⟩ | ⟨-, -, -, id, -, hunits, -⟩ := I.drawn sound
    · exact absurd hattention hne
    · exact ⟨makeCandidate D.toDigests m.stage m.revision c id m.now, (hunits id).trans (if_pos rfl),
        rfl, rfl, rfl⟩

/-- The units after a round are those before it and one with the key of its candidate; new
dependency rows belong to that one. -/
theorem RoundSound.units {m : Round} {cursor : StageCursor} (R : RoundSound D m cursor db db')
    (legacy : cursor.legacyReplay = false) :
    (∀ k u', db'.units.find? k = some u' → (∃ u, db.units.find? k = some u) ∨
      u'.stageId = m.stage.id ∧ ∃ σ, Drawn D db' m.stage u' σ) ∧
    ∀ d ∈ db'.unitDependencies, d ∈ db.unitDependencies ∨
      (db'.units.find? d.unitId).isSome = true := by
  cases R with
  | saved cursor' done keeps visited =>
    obtain ⟨cursors, -, rfl⟩ := saveCursor_ok done
    exact ⟨fun k u' hu' => .inl ⟨u', hu'⟩, fun d hd => .inl hd⟩
  | rooted root db1 cursor' marked done keeps visited =>
    obtain ⟨cursors, -, rfl⟩ := saveCursor_ok done
    unfold markRoot at marked
    simp only [bind_eq_ok] at marked
    obtain ⟨-, -, marked⟩ := marked
    obtain ⟨v, -, -, hdb1⟩ := casUnit_ok marked
    refine ⟨fun k u' hu' => ?_, fun d hd => .inl ?_⟩
    · dsimp only at hu'
      rw [hdb1] at hu'
      dsimp only at hu'
      obtain ⟨w, hw, -⟩ := Table.find?_updateWhere_some hu'
      exact .inl ⟨w, hw⟩
    · dsimp only at hd
      rw [hdb1] at hd
      exact hd
  | inserted c advance done keeps sound visited =>
    unfold insertAndSave at done
    simp only [bind_eq_ok, Prod.exists] at done
    obtain ⟨db1, cursor1, h1, h2⟩ := done
    have I := insertCandidate_inserted legacy h1
    obtain ⟨cursors, -, rfl⟩ := saveCursor_ok h2
    obtain ⟨rfl, -⟩ | ⟨-, -, -, id, -, hunits, hrows, drawn⟩ := I.drawn sound
    · exact ⟨fun k u' hu' => .inl ⟨u', hu'⟩, fun d hd => .inl hd⟩
    refine ⟨fun k u' hu' => ?_, fun d hd => (hrows d hd).imp_right fun hid => ?_⟩
    · have hfind := (hunits k).symm.trans hu'
      split at hfind
      · cases hfind
        exact .inr ⟨rfl, _, drawn.key, drawn.stageKey, drawn.fingerprint, drawn.source, drawn.bound⟩
      · exact .inl ⟨u', hfind⟩
    · dsimp only
      rw [hid, hunits, if_pos rfl]
      rfl

theorem Keyed.round {m : Round} {cursor : StageCursor} (K : Keyed D db) (N : Counted db)
    (C : Canonical D db) (E : Extends db db')
    (next : nextMaterializationStage db m.revision.id = some (m.stage, cursor))
    (h : materializeRound D.toDigests m db cursor = .ok db') : Keyed D db' := by
  obtain ⟨hcursor, hstage, -, -, hid, hopen, -⟩ := nextStage_facts next
  obtain ⟨c, hc, legacy, -⟩ := N.cursor _ _ hstage
  obtain rfl : cursor = c := Option.some.inj (hcursor.symm.trans hc)
  have R := materializeRound_sound K N C next h
  have frame := materializeRound_frame hid legacy h
  have units : m.stage.stageType ≠ .inventory := fun htype => by
    rw [K.inventory _ _ _ hstage hcursor htype] at hopen
    cases hopen
  obtain ⟨hunits, hrows⟩ := R.units legacy
  refine ⟨fun k u' hu' => ?_, fun d hd => ?_, fun k s c hs hc => ?_, fun k s c hs hc htype => ?_⟩
  · rcases hunits k u' hu' with ⟨u, hu⟩ | ⟨hs, σ, drawn⟩
    · exact K.unit_keep E hu hu'
    · rw [hs]
      exact ⟨m.stage, σ, E.stages _ _ hstage, units, drawn⟩
  · exact (hrows d hd).elim (fun hd => E.isSome (K.owned d hd)) id
  · rw [frame.stages] at hs
    by_cases hk : k = m.stage.id
    · subst hk
      obtain rfl : m.stage = s := Option.some.inj (hstage.symm.trans hs)
      obtain ⟨c', hc', visited⟩ := R.cursor hid legacy E
      obtain rfl : c = c' := Option.some.inj (hc.symm.trans hc')
      exact visited
    · rw [frame.cursors k hk] at hc
      exact (K.entries k s c hs hc).keep E
  · rw [frame.stages] at hs
    by_cases hk : k = m.stage.id
    · subst hk
      obtain rfl : m.stage = s := Option.some.inj (hstage.symm.trans hs)
      exact absurd htype units
    · rw [frame.cursors k hk] at hc
      exact K.inventory k s c hs hc htype

/-! ## Admission -/

/-- A unit as admission makes it, over a source of the revision or over none. -/
def Sown (D : PlanDigests) (db : Store) (revision : Key) (l : List Stage) (u : UnitRow) : Prop :=
  ∃ s ∈ l, ∃ id source now, u = makeInitialUnit D.toDigests id s source now ∧
    id.owner = s.id.owner ∧ ∀ x, source = some x → x ∈ db.sources.rows ∧ x.revisionId = revision

/-- The units that were not in the store before are sown. -/
def NewSown (D : PlanDigests) (old : Store) (revision : Key) (l : List Stage) (db : Store) : Prop :=
  ∀ u ∈ db.units.rows, u ∈ old.units.rows ∨ Sown D db revision l u

theorem NewSown.of_units {old : Store} {revision : Key} {l : List Stage}
    (h : NewSown D old revision l db) (units : db'.units = db.units)
    (sources : ∀ x ∈ db.sources.rows, x ∈ db'.sources.rows) : NewSown D old revision l db' := by
  intro u hu
  rw [units] at hu
  refine (h u hu).imp_right ?_
  rintro ⟨s, hs, id, source, now, rfl, owner, hsource⟩
  exact ⟨s, hs, id, source, now, rfl, owner, fun x hx => (hsource x hx).imp_left (sources x)⟩

theorem insertInitialUnits_sown {old : Store} {revision : Key} {l : List Stage} {p : Stage → Bool}
    {ids : FreshIds} {now : ℕ} {source : Option Source}
    (hsource : ∀ x, source = some x → x ∈ db.sources.rows ∧ x.revisionId = revision)
    (h : (l.filter p).foldlM (insertInitialUnit D.toDigests ids now source) db = .ok db')
    (H : NewSown D old revision l db) : NewSown D old revision l db' := by
  have both := foldlM_invariant (I := fun x => x.sources = db.sources ∧ NewSown D old revision l x)
    (fun s hs a b hab hI => ?_) h ⟨rfl, H⟩
  · exact both.2
  obtain ⟨-, units, hins, rfl⟩ := insertUnit_ok hab
  refine ⟨hI.1, fun u hu => ?_⟩
  dsimp only at hu
  rw [(Table.insert?_some hins).2, List.mem_append, List.mem_singleton] at hu
  rcases hu with hu | rfl
  · exact hI.2 u hu
  · refine .inr ⟨s, (List.mem_filter.mp hs).1, _, source, now, rfl, rfl, fun x hx => ?_⟩
    dsimp only
    rw [hI.1]
    exact hsource x hx

theorem insertSource_sown {old : Store} {revision : Key} {l : List Stage} {ids : FreshIds}
    {now : ℕ} {item : SourceItem}
    (h : insertSource D.toDigests ids now revision l db item = .ok db')
    (H : NewSown D old revision l db) : NewSown D old revision l db' := by
  unfold insertSource at h
  simp only [bind_eq_ok, orRaise_ok] at h
  obtain ⟨-, -, sources, hins, h⟩ := h
  have rows := (Table.insert?_some hins).2
  refine insertInitialUnits_sown (fun x hx => ?_) h (H.of_units rfl fun x hx => ?_)
  · obtain rfl := Option.some.inj hx
    exact ⟨by dsimp only; rw [rows]; simp, rfl⟩
  · dsimp only
    rw [rows]
    exact List.mem_append_left _ hx

theorem insertRevisionRows_sown {ids : FreshIds} {k : Key} {adm : Admission} {now : ℕ}
    (h : insertRevisionRows D.toDigests ids db k adm now = .ok db') :
    NewSown D db adm.revisionId (initialRows ids adm) db' := by
  unfold insertRevisionRows at h
  simp only [bind_eq_ok, orRaise_ok] at h
  obtain ⟨revisions, -, usage, -, db1, h1, db2, h2, db3, h3, h4⟩ := h
  obtain ⟨stages, rfl, -⟩ := insertStages_ok h1
  have start : NewSown D db adm.revisionId (initialRows ids adm)
      { db with revisions := revisions, usage := usage, stages := stages } := fun u hu => .inl hu
  have sources : NewSown D db adm.revisionId (initialRows ids adm) db2 :=
    foldlM_invariant (I := NewSown D db adm.revisionId (initialRows ids adm))
      (fun _ _ _ _ hab hI => insertSource_sown hab hI) h2 start
  have units := insertInitialUnits_sown (fun x hx => by cases hx) h3 sources
  obtain ⟨cursors, rfl, -⟩ := insertCursors_ok h4
  exact units.of_units rfl fun x hx => hx

theorem makeInitialUnit_drawn {s : Stage} {id : Key} {source : Option Source} {now : ℕ}
    (hsource : ∀ x, source = some x → x ∈ db.sources.rows ∧ x.revisionId = s.revisionId)
    (free : unitDependenciesOf db id = []) :
    ∃ σ, Drawn D db s (makeInitialUnit D.toDigests id s source now) σ := by
  refine ⟨⟨s.stageKey, s.invalidationDigest, source.map Source.contentDigest,
    source.map Source.sourceId, none, none⟩, rfl, rfl, rfl, ?_, ?_⟩
  · cases source with
    | none => exact ⟨rfl, rfl⟩
    | some x =>
      obtain ⟨hx, hr⟩ := hsource x rfl
      exact ⟨x, Table.find?_of_mem hx, hr, rfl, rfl⟩
  · have hrows : unitDependenciesOf db (makeInitialUnit D.toDigests id s source now).id = [] := free
    rw [hrows]
    exact .nil

theorem unitDependenciesOf_nil {k : Key} (h : ∀ d ∈ db.unitDependencies, d.unitId ≠ k) :
    unitDependenciesOf db k = [] := by
  rw [← List.length_eq_zero_iff]
  unfold unitDependenciesOf
  rw [List.length_insertionSort, List.length_eq_zero_iff, List.filter_eq_nil_iff]
  exact fun d hd => by simpa using h d hd

theorem Keyed.admitted {ids : FreshIds} {k : Key} {adm : Admission} {now : ℕ} (K : Keyed D db)
    (N : Counted db) (E : Extends db db')
    (done : insertRevisionRows D.toDigests ids db k adm now = .ok db') : Keyed D db' := by
  have A := insertRevisionRows_admitted done
  have sown := insertRevisionRows_sown done
  refine ⟨fun j u' hu' => ?_, fun d hd => ?_, fun j s c hs hc => ?_, fun j s c hs hc htype => ?_⟩
  · cases hu : db.units.find? j with
    | some u => exact K.unit_keep E hu hu'
    | none =>
      rcases sown u' (Table.mem_of_find? hu') with hold | ⟨s, hs, id, source, now', rfl, -, hsource⟩
      · rw [← Table.key_of_find? hu', Table.find?_of_mem hold] at hu
        cases hu
      · have hrow := initialRows_subset hs
        obtain rfl : id = j := Table.key_of_find? hu'
        have free : unitDependenciesOf db' id = [] := by
          refine unitDependenciesOf_nil fun d hd hid => ?_
          rw [A.unitDependencies] at hd
          have hsome := K.owned d hd
          rw [hid, hu] at hsome
          cases hsome
        have hrevision := mem_stageRows hrow
        obtain ⟨σ, drawn⟩ : ∃ σ, Drawn D _ s (makeInitialUnit D.toDigests id s source now') σ :=
          makeInitialUnit_drawn (fun x hx => by rw [hrevision]; exact hsource x hx) free
        refine ⟨s, σ, A.stage_new hrow, ?_, drawn⟩
        obtain ⟨p, hp, hinitial⟩ := mem_initialRows hs
        obtain ⟨i, -, rfl⟩ := mem_zip_stageRows.mp hp
        simp only [initialStage, Bool.and_eq_true, Bool.not_eq_true', decide_eq_false_iff_not] at hinitial
        exact hinitial.1
  · rw [A.unitDependencies] at hd
    exact E.isSome (K.owned d hd)
  · rcases A.stage_cases hs with hold | hnew
    · obtain ⟨c', hc', -⟩ := N.cursor j s hold
      obtain rfl : c = c' := Option.some.inj (hc.symm.trans (A.cursor_old hc'))
      exact (K.entries j s c hold hc').keep E
    · obtain ⟨i, p, hi, rfl⟩ := mem_stageRows_iff.mp hnew
      obtain ⟨n, hcursor⟩ := A.cursor_new (mem_zip_stageRows.mpr ⟨i, hi, rfl⟩)
      rw [← Table.key_of_find? hs] at hc
      obtain rfl := Option.some.inj (hc.symm.trans hcursor)
      exact visited_outside (by simp [makeCursor])
  · rcases A.stage_cases hs with hold | hnew
    · obtain ⟨c', hc', -⟩ := N.cursor j s hold
      obtain rfl : c = c' := Option.some.inj (hc.symm.trans (A.cursor_old hc'))
      exact K.inventory j s c hold hc' htype
    · obtain ⟨i, p, hi, rfl⟩ := mem_stageRows_iff.mp hnew
      obtain ⟨n, hcursor⟩ := A.cursor_new (mem_zip_stageRows.mpr ⟨i, hi, rfl⟩)
      rw [← Table.key_of_find? hs] at hc
      obtain rfl := Option.some.inj (hc.symm.trans hcursor)
      have hp : p.stageType = .inventory := htype
      simp [makeCursor, hp]

/-! ## Runs -/

theorem Canonical.of_grow (C : Canonical D db') (R : ResultsGrow G db db') : Canonical D db :=
  fun r hr => C r (R.keep r hr)

theorem Act.keyed {P : Stage → ℕ → Cell → Prop} (h : Act D.toDigests G db db') (L : Linked P db)
    (N : Counted db) (C : Canonical D db) (K : Keyed D db) : Keyed D db' := by
  have E := h.extends L N
  cases h with
  | cells frame old new =>
    refine K.keep E (fun k u' hu' => ?_) frame.unitDependencies frame.stages frame.cursors
    cases hu : db.units.find? k with
    | some u => exact ⟨u, rfl⟩
    | none =>
      rw [(new k hu).1] at hu'
      cases hu'
  | grant revision allowed blocked granted =>
    refine K.keep E (fun k u' hu' => ⟨u', ?_⟩) granted.dependencies granted.stages granted.cursors
    rw [← granted.units]
    exact hu'
  | round m cursor next revision allowed done => exact K.round N C E next done
  | admitted ids workloadId adm now allowed valid done => exact K.admitted N E done

theorem Acts.keyed (h : Acts D.toDigests G db db') (L : Linked (fun _ _ _ => True) db)
    (N : Counted db) (C : Canonical D db') (K : Keyed D db) : Keyed D db' := by
  induction h with
  | refl => exact K
  | tail pre last ih =>
    have L' := Acts.linked (any_rule G) pre L
    have C' := C.of_grow (last.resultsGrow L')
    exact last.keyed L' (Acts.counted pre L N) C' (ih C')

theorem Acts.extends (h : Acts D.toDigests G db db') (L : Linked (fun _ _ _ => True) db)
    (N : Counted db) : Extends db db' := by
  induction h with
  | refl => exact .refl db
  | tail pre last ih =>
    exact ih.trans (last.extends (Acts.linked (any_rule G) pre L) (Acts.counted pre L N))

/-! ## Owners -/

/-- Stages and units belong to the owner of their revision. -/
structure Owned (db : Store) : Prop where
  stage : ∀ k s, db.stages.find? k = some s → s.id.owner = s.revisionId.owner
  unit : ∀ k u, db.units.find? k = some u → u.id.owner = u.revisionId.owner

/-- The units of a store are those of an earlier one, but for new ones of the stage's owner. -/
def UnitsBy (s : Stage) (db db' : Store) : Prop :=
  ∀ k u', db'.units.find? k = some u' → (∃ u, db.units.find? k = some u ∧ u'.lineage = u.lineage) ∨
    u'.id.owner = s.id.owner ∧ u'.revisionId = s.revisionId

theorem UnitsBy.of_same {s : Stage} (h : db'.units = db.units) : UnitsBy s db db' :=
  fun k u' hu' => .inl ⟨u', by rw [← h]; exact hu', rfl⟩

theorem insertCandidate_by {m : Round} {cursor cursor' : StageCursor} {c : CandidateUnit}
    (h : insertCandidate D.toDigests m db cursor c = .ok (db', cursor')) :
    UnitsBy m.stage db db' := by
  unfold insertCandidate at h
  split at h
  · split at h
    · simp only [bind_eq_ok, pure_eq_ok, Prod.mk.injEq] at h
      obtain ⟨-, -, db1, h1, rfl, -⟩ := h
      obtain ⟨rfl, -⟩ := bindDependencies_ok h1
      exact .of_same rfl
    · split at h
      · cases h; exact .of_same rfl
      · cases h
  · split at h
    · cases h; exact .of_same rfl
    · simp only [bind_eq_ok, pure_eq_ok, Prod.mk.injEq] at h
      obtain ⟨db1, h1, db2, h2, rfl, -⟩ := h
      obtain ⟨-, units, hins, rfl⟩ := insertUnit_ok h1
      obtain ⟨rfl, -⟩ := bindDependencies_ok h2
      intro k u' hu'
      dsimp only at hu'
      rw [find_insert hins] at hu'
      split at hu'
      · cases hu'
        exact .inr ⟨rfl, rfl⟩
      · exact .inl ⟨u', hu', rfl⟩

theorem materializeRound_by {m : Round} {cursor : StageCursor}
    (h : materializeRound D.toDigests m db cursor = .ok db') : UnitsBy m.stage db db' := by
  cases materializeRound_write h with
  | saved cursor' done =>
    obtain ⟨cursors, -, rfl⟩ := saveCursor_ok done
    exact .of_same rfl
  | inserted c advance done =>
    unfold insertAndSave at done
    simp only [bind_eq_ok, Prod.exists] at done
    obtain ⟨db1, cursor1, h1, h2⟩ := done
    have units := insertCandidate_by h1
    obtain ⟨cursors, -, rfl⟩ := saveCursor_ok h2
    exact fun k u' hu' => units k u' hu'
  | rooted level root db1 cursor' picked marked done =>
    obtain ⟨cursors, -, rfl⟩ := saveCursor_ok done
    unfold markRoot at marked
    simp only [bind_eq_ok] at marked
    obtain ⟨-, -, marked⟩ := marked
    obtain ⟨v, -, -, hdb1⟩ := casUnit_ok marked
    intro k u' hu'
    dsimp only at hu'
    rw [hdb1] at hu'
    dsimp only at hu'
    obtain ⟨w, hw, rfl⟩ := Table.find?_updateWhere_some hu'
    refine .inl ⟨w, hw, ?_⟩
    split <;> rfl

theorem Owned.of_lineage (O : Owned db) (stages : db'.stages = db.stages)
    (back : ∀ k u', db'.units.find? k = some u' →
      ∃ u, db.units.find? k = some u ∧ u'.lineage = u.lineage) : Owned db' := by
  refine ⟨fun k s hs => O.stage k s (by rw [← stages]; exact hs), fun k u' hu' => ?_⟩
  obtain ⟨u, hu, hid⟩ := back k u' hu'
  simp only [UnitRow.lineage, Prod.mk.injEq] at hid
  rw [hid.1, hid.2.1]
  exact O.unit k u hu

theorem Owned.admitted {ids : FreshIds} {k : Key} {adm : Admission} {now : ℕ} (O : Owned db)
    (done : insertRevisionRows D.toDigests ids db k adm now = .ok db') : Owned db' := by
  have A := insertRevisionRows_admitted done
  have row : ∀ {s}, s ∈ stageRows ids adm → s.id.owner = s.revisionId.owner := by
    intro s hs
    obtain ⟨i, p, -, rfl⟩ := mem_stageRows_iff.mp hs
    rfl
  refine ⟨fun j s hs => ?_, fun j u hu => ?_⟩
  · rcases A.stage_cases hs with hold | hnew
    · exact O.stage j s hold
    · exact row hnew
  · rcases insertRevisionRows_sown done u (Table.mem_of_find? hu) with hold |
      ⟨s, hs, id, source, now', rfl, owner, -⟩
    · exact O.unit u.id u (Table.find?_of_mem hold)
    · exact owner.trans (row (initialRows_subset hs))

theorem Act.owned {P : Stage → ℕ → Cell → Prop} (h : Act D.toDigests G db db') (L : Linked P db)
    (N : Counted db) (O : Owned db) : Owned db' := by
  have E := h.extends L N
  have same : ∀ {k u u'}, db.units.find? k = some u → db'.units.find? k = some u' →
      u'.lineage = u.lineage := by
    intro k u u' hu hu'
    obtain ⟨v, hv, hid, -⟩ := E.units k u hu
    obtain rfl : u' = v := Option.some.inj (hu'.symm.trans hv)
    exact hid
  cases h with
  | cells frame old new =>
    refine O.of_lineage frame.stages fun k u' hu' => ?_
    cases hu : db.units.find? k with
    | some u => exact ⟨u, rfl, same hu hu'⟩
    | none =>
      rw [(new k hu).1] at hu'
      cases hu'
  | grant revision allowed blocked granted =>
    refine O.of_lineage granted.stages fun k u' hu' => ?_
    have hu : db.units.find? k = some u' := by
      rw [← granted.units]
      exact hu'
    exact ⟨u', hu, rfl⟩
  | round m cursor next revision allowed done =>
    obtain ⟨-, hstage, -⟩ := nextStage_facts next
    have cells := materializeRound_cells done
    refine ⟨fun k s hs => O.stage k s (by rw [← cells.stages]; exact hs), fun k u' hu' => ?_⟩
    rcases materializeRound_by done k u' hu' with ⟨u, hu, hid⟩ | ⟨howner, hrevision⟩
    · simp only [UnitRow.lineage, Prod.mk.injEq] at hid
      rw [hid.1, hid.2.1]
      exact O.unit k u hu
    · rw [howner, hrevision]
      exact O.stage _ _ hstage
  | admitted ids workloadId adm now allowed valid done => exact O.admitted done

theorem Acts.owned (h : Acts D.toDigests G db db') (L : Linked (fun _ _ _ => True) db)
    (N : Counted db) (O : Owned db) : Owned db' := by
  induction h with
  | refl => exact O
  | tail pre last ih =>
    exact last.owned (Acts.linked (any_rule G) pre L) (Acts.counted pre L N) ih

end

end Metnos.Durable
