import Mathlib
import Metnos.Durable.Grouping

/-!
# Durable.Roots — a committed reduction root covers every input

The invariant of `Durable.Reduction` over whole runs.  It needs two conditions on the run: a level
of several groups is not closed with the root still in attention, and no retry is granted while a
reduction waits in attention for lack of inputs.
-/

namespace Metnos.Durable

open Transaction

section
variable {D : Digests} {G : Guard} {db db' : Store}

/-! ## What admission gives every stage -/

structure Planned (db : Store) : Prop where
  declared : ∀ k s, db.stages.find? k = some s → ∀ d ∈ s.dependsOn,
    (db.stages.find? d).isSome = true ∧ d ≠ s.id
  fanIn : ∀ k s r, db.stages.find? k = some s → s.reduction = some r →
    1 ≤ r.fanIn ∧ r.fanIn ≤ maxUnitDependencies
  legacy : ∀ k c, db.cursors.find? k = some c → c.legacyReplay = false
  distinct : DistinctUnits db

theorem Planned.of_same (P : Planned db) (stages : db'.stages = db.stages)
    (cursors : db'.cursors = db.cursors) (distinct : DistinctUnits db') : Planned db' :=
  ⟨by rw [stages]; exact P.declared, by rw [stages]; exact P.fanIn, by rw [cursors]; exact P.legacy,
    distinct⟩

theorem Planned.parentStages_eq (P : Planned db) {s : Stage} (hs : db.stages.find? s.id = some s)
    (old : ∀ k t, db.stages.find? k = some t → db'.stages.find? k = some t) :
    parentStages db' s = parentStages db s := by
  unfold parentStages
  congr 1
  refine List.filterMap_congr fun d hd => ?_
  obtain ⟨t, ht⟩ := Option.isSome_iff_exists.mp (P.declared s.id s hs d hd).1
  rw [ht, old d t ht]

theorem Planned.parent (P : Planned db) {s p : Stage} (hs : db.stages.find? s.id = some s)
    (hp : parentStages db s = [p]) : db.stages.find? p.id = some p ∧ p.id ≠ s.id := by
  have hm : p ∈ parentStages db s := hp ▸ List.mem_singleton_self p
  unfold parentStages at hm
  rw [List.mem_filter, List.mem_filterMap] at hm
  obtain ⟨⟨d, hd, hfind⟩, -⟩ := hm
  have hid : p.id = d := Table.key_of_find? hfind
  rw [hid]
  exact ⟨hfind, (P.declared s.id s hs d hd).2⟩

/-! ## The invariant -/

/-- A reduction that has not started, or that has come so far. -/
def Reduced (db : Store) (s p : Stage) (c : StageCursor) : Prop :=
  Unstarted db s c ∨ parentReady db p = true ∧ Progress db s p c

/-- A reduction over the inventory is complete from admission on and marks no root. -/
structure Inert (db : Store) (s : Stage) (c : StageCursor) : Prop where
  completed : c.completed = true
  unmarked : ∀ k u, db.units.find? k = some u → u.stageId = s.id → u.reductionRoot = false

structure Sound (db : Store) : Prop where
  planned : Planned db
  linked : Linked (fun _ _ c => c.Shape) db
  inert : ∀ s c r, db.stages.find? s.id = some s → s.reduction = some r →
    parentStages db s = [] → db.cursors.find? s.id = some c → Inert db s c
  reduced : ∀ s p c r, db.stages.find? s.id = some s → s.reduction = some r →
    parentStages db s = [p] → db.cursors.find? s.id = some c → Reduced db s p c

theorem sound_empty : Sound Store.empty :=
  ⟨⟨fun _ _ h => (by cases h), fun _ _ _ h => (by cases h), fun _ _ h => (by cases h),
    fun _ h => (by cases h)⟩, linked_empty, fun _ _ _ h => (by cases h),
    fun _ _ _ _ h => (by cases h)⟩

theorem parentReady_keep {p : Stage} (E : Evolution p.id db db')
    (cursors : ∀ c, db.cursors.find? p.id = some c → db'.cursors.find? p.id = some c)
    (h : parentReady db p = true) : parentReady db' p = true := by
  unfold parentReady at h ⊢
  rw [Bool.and_eq_true, Bool.not_eq_true', List.any_eq_false] at h ⊢
  obtain ⟨hc, hunits⟩ := h
  refine ⟨?_, fun u' hu' => ?_⟩
  · obtain ⟨c, hfind, hdone⟩ := (Option.any_eq_true _ _).mp hc
    rw [cursors c hfind]
    exact hdone
  · intro hopen
    simp only [openInParent, Bool.and_eq_true, decide_eq_true_eq] at hopen
    obtain ⟨u, hu, hs⟩ := E.new u'.id u' (Table.find?_of_mem hu') hopen.1
    obtain ⟨v, hv, -, hterminal, -⟩ := E.old u'.id u hu hs
    obtain rfl : v = u' := Option.some.inj (hv.symm.trans (Table.find?_of_mem hu'))
    have hclosed := hunits u (Table.mem_of_find? hu)
    simp only [openInParent, hs, decide_true, Bool.true_and] at hclosed
    have hstate : v.state = u.state := by
      refine hterminal ?_
      cases hst : u.state <;> simp_all [UnitState.terminal]
    rw [hstate] at hopen
    exact hclosed hopen.2

theorem Unstarted.progress {s p : Stage} {c : StageCursor} (h : Unstarted db s c) :
    Progress db s p c := by
  have none : ∀ k u, db.units.find? k = some u → u.stageId = s.id → False :=
    fun k u hu hs => h.noUnits k u hu hs
  have done : c.completed ≠ true := by simp [h.completed]
  refine ⟨fun k u hu hs => (none k u hu hs).elim, fun _ k _ u _ hu _ hs => (none k u hu hs).elim,
    fun _ k u hu hs => (none k u hu hs).elim, h.ordinal.ge, fun _ k hk => ?_, fun n hn => ?_,
    fun _ _ => ?_, fun _ _ hw => ?_, fun _ k u hu hs => (none k u hu hs).elim,
    fun hc => absurd hc done⟩
  · rw [h.parentUnitId] at hk
    cases hk
  · rw [h.level] at hn
    omega
  · have hgroups : db.keys (inLevel s c.reductionLevel) = [] := by
      rw [List.eq_nil_iff_forall_not_mem]
      intro k hk
      obtain ⟨u, hu, hin⟩ := mem_keys.mp hk
      exact none k u hu (inLevel_iff.mp hin).2.1
    have hinputs : db.keys (fun u => levelInput s p c.reductionLevel u && consumed db c u) = [] := by
      rw [List.eq_nil_iff_forall_not_mem]
      intro k hk
      obtain ⟨u, -, hq⟩ := mem_keys.mp hk
      simp [consumed, afterCursor, h.parentUnitId] at hq
    refine ⟨fun k hk => ?_, by rw [hgroups, hinputs]; rfl⟩
    rw [hgroups] at hk
    cases hk
  · rw [h.waiting] at hw
    cases hw

theorem Unstarted.keep {s : Stage} {c : StageCursor} (h : Unstarted db s c)
    (E : Evolution s.id db db') : Unstarted db' s c := by
  refine ⟨h.completed, h.waiting, h.parentUnitId, h.level, h.ordinal, fun k u' hu' hs => ?_⟩
  obtain ⟨u, hu, hs⟩ := E.new k u' hu' hs
  exact h.noUnits k u hu hs

theorem Reduced.keep {s p : Stage} {c : StageCursor} (R : Reduced db s p c)
    (Es : Evolution s.id db db') (Ep : Evolution p.id db db') (K : KeepsBindings db db')
    (cursors : ∀ c, db.cursors.find? p.id = some c → db'.cursors.find? p.id = some c) :
    Reduced db' s p c := by
  rcases R with h | ⟨hready, hprogress⟩
  · exact .inl (h.keep Es)
  · exact .inr ⟨parentReady_keep Ep cursors hready, hprogress.keep Es Ep K⟩

theorem Inert.keep {s : Stage} {c : StageCursor} (h : Inert db s c) (E : Evolution s.id db db') :
    Inert db' s c := by
  refine ⟨h.completed, fun k u' hu' hs' => ?_⟩
  obtain ⟨u, hu, hs⟩ := E.new k u' hu' hs'
  obtain ⟨v, hv, hid, -⟩ := E.old k u hu hs
  obtain rfl : v = u' := Option.some.inj (hv.symm.trans hu')
  rw [(identity_fields hid).2.2.2.2.2.2]
  exact h.unmarked k u hu hs

theorem Sound.keep (S : Sound db) (stages : db'.stages = db.stages)
    (cursors : db'.cursors = db.cursors) (linked : Linked (fun _ _ c => c.Shape) db')
    (E : ∀ x, Evolution x db db') (K : KeepsBindings db db') : Sound db' := by
  have distinct : DistinctUnits db' := by
    refine S.planned.distinct.keep fun k u' hu' => ?_
    obtain ⟨u, hu, hs⟩ := (E u'.stageId).new k u' hu' rfl
    obtain ⟨v, hv, hid, -⟩ := (E u'.stageId).old k u hu hs
    obtain rfl : v = u' := Option.some.inj (hv.symm.trans hu')
    obtain ⟨-, h1, h2, h3, -⟩ := identity_fields hid
    exact ⟨u, hu, h1, h2, h3⟩
  refine ⟨S.planned.of_same stages cursors distinct, linked, fun s c r hs hr hp hc => ?_,
    fun s p c r hs hr hp hc => ?_⟩ <;> rw [stages] at hs <;> rw [cursors] at hc <;>
    rw [S.planned.parentStages_eq hs (by rw [stages]; exact fun _ _ h => h)] at hp
  · exact (S.inert s c r hs hr hp hc).keep (E _)
  · exact (S.reduced s p c r hs hr hp hc).keep (E _) (E _) K (by rw [cursors]; exact fun _ h => h)

/-! ## The conditions on a run -/

/-- A level of several groups is not closed while its root waits in attention, and no retry is
granted while a group waits in attention because its inputs do not fit. -/
def Guard.reduction : Guard :=
  { Guard.none with
    grant := fun db revision => ∀ u ∈ db.units.rows, u.revisionId = revision →
      u.reductionLevel.isSome = true → u.state = .needsAttention →
      u.errorClass ≠ some .dependencyInputTooLarge ∧
        u.errorClass ≠ some .reductionNotConverging
    round := fun db s c => s.reduction.isSome = true → c.reductionWaiting = true →
      1 < levelTotal db s c.reductionLevel →
      ∀ root ∈ levelRoot db s c.reductionLevel, root.state ≠ .needsAttention }

theorem grant_free {revision : Key} (allowed : Guard.reduction.grant db revision)
    (blocked : db.units.rows.any (blockedDependencyAttention revision) = false) :
    ∀ u ∈ db.units.rows, u.revisionId = revision → ¬ Blocked db u := by
  intro u hu hrev B
  obtain ⟨h1, h2⟩ := allowed u hu hrev B.level B.state
  have h3 := List.any_eq_false.mp blocked u hu
  simp only [blockedDependencyAttention, hrev, B.state, decide_true, Bool.true_and,
    Bool.or_eq_true, decide_eq_true_eq, not_or] at h3
  have herror := B.error
  cases he : u.errorClass with
  | none =>
    rw [he] at herror
    cases herror
  | some e =>
    rw [he] at herror h1 h2 h3
    simp only [Option.any_some, UnitError.unavailable, Bool.or_eq_true, decide_eq_true_eq] at herror
    rcases herror with (rfl | rfl) | rfl
    · exact h3.2 rfl
    · exact h1 rfl
    · exact h2 rfl

/-! ## Acts -/

theorem Sound.round_self {m : Round} {cursor : StageCursor} {p : Stage} {r : Reduction}
    (S : Sound db) (next : nextMaterializationStage db m.revision.id = some (m.stage, cursor))
    (revision : db.revisions.find? m.revision.id = some m.revision)
    (allowed : Guard.reduction.round db m.stage cursor)
    (done : materializeRound D m db cursor = .ok db') (hr : m.stage.reduction = some r)
    (hp : parentStages db m.stage = [p]) : parentReady db' p = true ∧ Advanced db' m.stage p := by
  obtain ⟨hcursor, hstage, hrev, -, hcid, hcompleted, hattention, hclosed, hparents⟩ :=
    nextStage_facts next
  have legacy := S.planned.legacy _ _ hcursor
  have F := materializeRound_frame hcid legacy done
  obtain ⟨-, hne⟩ := S.planned.parent hstage hp
  have hready : parentReady db p = true := by
    rw [hp] at hparents
    exact List.all_eq_true.mp hparents p (List.mem_singleton_self p)
  refine ⟨parentReady_keep (F.evolution hne) (fun c hc => ?_) hready, ?_⟩
  · rw [F.cursors _ hne]
    exact hc
  · have R : Progress db m.stage p cursor := by
      rcases S.reduced m.stage p cursor r hstage hr hp hcursor with h | h
      · exact h.progress
      · exact h.2
    have I : RoundInput db m p cursor r := by
      refine ⟨hp, hne, S.planned.fanIn _ _ _ hstage hr, ?_, hcid, legacy, hcompleted, hattention,
        fun hw => ?_, allowed (by rw [hr]; rfl)⟩
      · rw [hrev, Store.generation, revision]
        rfl
      · exact hclosed.resolve_left (by simp [hw])
    unfold materializeRound at done
    rw [hr] at done
    exact reduceRound_advanced S.planned.distinct S.linked R I done

theorem Sound.round {m : Round} {cursor : StageCursor} (S : Sound db)
    (next : nextMaterializationStage db m.revision.id = some (m.stage, cursor))
    (revision : db.revisions.find? m.revision.id = some m.revision)
    (allowed : Guard.reduction.round db m.stage cursor)
    (done : materializeRound D m db cursor = .ok db') : Sound db' := by
  obtain ⟨hcursor, hstage, -, -, hcid, hcompleted, -⟩ := nextStage_facts next
  have F := materializeRound_frame hcid (S.planned.legacy _ _ hcursor) done
  have planned : Planned db' := by
    refine ⟨by rw [F.stages]; exact S.planned.declared, by rw [F.stages]; exact S.planned.fanIn,
      fun k c hc => ?_, F.distinct S.planned.distinct⟩
    rcases F.legacy k c hc with h | h
    · exact S.planned.legacy k c h
    · exact h
  refine ⟨planned, (materializeRound_cells done).linked (shape_rule Guard.none) next revision
    S.linked, fun s c r hs hr hp hc => ?_, fun s p c r hs hr hp hc => ?_⟩ <;>
    rw [F.stages] at hs <;>
    rw [S.planned.parentStages_eq hs (by rw [F.stages]; exact fun _ _ h => h)] at hp
  · -- a completed stage gets no round
    have hst : s.id ≠ m.stage.id := by
      intro heq
      have := (S.inert s cursor r hs hr hp (heq ▸ hcursor)).completed
      rw [hcompleted] at this
      cases this
    rw [F.cursors _ hst] at hc
    exact (S.inert s c r hs hr hp hc).keep (F.evolution hst)
  by_cases hst : s.id = m.stage.id
  · obtain rfl : m.stage = s := by
      rw [hst, hstage] at hs
      exact Option.some.inj hs
    obtain ⟨hready, c', hc', -, hprogress⟩ := S.round_self next revision allowed done hr hp
    obtain rfl : c' = c := Option.some.inj (hc'.symm.trans hc)
    exact .inr ⟨hready, hprogress⟩
  · rw [F.cursors _ hst] at hc
    rcases S.reduced s p c r hs hr hp hc with h | ⟨hready, hprogress⟩
    · exact .inl (h.keep (F.evolution hst))
    · -- the dependency is finished, so the round is not on it
      have hpt : p.id ≠ m.stage.id := by
        intro heq
        unfold parentReady at hready
        rw [heq, hcursor, Bool.and_eq_true, Option.any_some, hcompleted] at hready
        cases hready.1
      refine .inr ⟨parentReady_keep (F.evolution hpt) (fun c hc => ?_) hready,
        hprogress.keep (F.evolution hst) (F.evolution hpt) F.keeps⟩
      rw [F.cursors _ hpt]
      exact hc

/-! ### Admission -/

section
variable {ids : FreshIds} {adm : Admission} {now : ℕ}

theorem Planned.admitted (A : Admitted D ids adm now db db') (valid : validatePlan adm.plan = true)
    (P : Planned db) : Planned db' := by
  refine ⟨fun k s hs d hd => ?_, fun k s r hs hr => ?_, fun k c hc => ?_, A.distinct P.distinct⟩
  · rcases A.stage_cases hs with h | h
    · obtain ⟨hsome, hne⟩ := P.declared k s h d hd
      obtain ⟨t, ht⟩ := Option.isSome_iff_exists.mp hsome
      exact ⟨by rw [A.stage_old ht]; rfl, hne⟩
    · obtain ⟨i, p, hi, rfl⟩ := mem_stageRows_iff.mp h
      obtain ⟨key, hkey, rfl⟩ := List.mem_map.mp hd
      obtain ⟨j, q, -, -, hne, hj, hrow⟩ := A.dependency valid hi hkey
      refine ⟨by rw [hrow]; rfl, ?_⟩
      rw [← Table.key_of_find? hrow]
      intro heq
      exact hne (A.position_unique hj hi (congrArg Key.id heq))
  · rcases A.stage_cases hs with h | h
    · exact P.fanIn k s r h hr
    · obtain ⟨i, p, hi, rfl⟩ := mem_stageRows_iff.mp h
      have hvalid := validPlan_reduction valid (List.mem_of_getElem? hi) hr
      exact ⟨by omega, hvalid.2.2⟩
  · rcases A.cursor_cases hc with h | ⟨x, -, n, rfl⟩
    · exact P.legacy k c h
    · rfl

theorem Admitted.cursor_eq (A : Admitted D ids adm now db db') {i : ℕ} {p : PlanStage}
    (hi : adm.plan.stages[i]? = some p) {c : StageCursor}
    (hc : db'.cursors.find? (makeStage adm.plan.stages ids adm.revisionId i p).id = some c) :
    ∃ n, c = makeCursor (p.stageType = .inventory || dependsOnlyOnInventory adm.plan.stages p)
      (makeStage adm.plan.stages ids adm.revisionId i p) n := by
  obtain ⟨n, hn⟩ := A.cursor_new (x := (p, makeStage adm.plan.stages ids adm.revisionId i p))
    (mem_zip_stageRows.mpr ⟨i, hi, rfl⟩)
  exact ⟨n, Option.some.inj (hc.symm.trans hn)⟩

theorem Admitted.unit_new (A : Admitted D ids adm now db db') {P : Stage → ℕ → Cell → Prop}
    (L : Linked P db) {i : ℕ} {p : PlanStage} (hi : adm.plan.stages[i]? = some p) {k : Key}
    {u : UnitRow} (hu : db'.units.find? k = some u)
    (hs : u.stageId = (makeStage adm.plan.stages ids adm.revisionId i p).id) :
    initialStage adm.plan.stages p = true ∧ u.reductionRoot = false := by
  rcases A.unit_cases hu with h | ⟨t, ht, id, source, rfl⟩
  · obtain ⟨s, -, hfind, -⟩ := L.cells h
    rw [hs, A.stage_fresh (mem_stageRows_iff.mpr ⟨i, p, hi, rfl⟩)] at hfind
    cases hfind
  · obtain ⟨q, hq, hinit⟩ := mem_initialRows ht
    obtain ⟨j, hj, rfl⟩ := mem_zip_stageRows.mp hq
    obtain rfl := A.position_unique hj hi (congrArg Key.id hs)
    obtain rfl : q = p := Option.some.inj (hj.symm.trans hi)
    exact ⟨hinit, rfl⟩

theorem Admitted.cursor_keep (A : Admitted D ids adm now db db') {s : Stage} {c : StageCursor}
    (hs : db.stages.find? s.id = some s) (hc : db'.cursors.find? s.id = some c) :
    db.cursors.find? s.id = some c := by
  rcases A.cursor_cases hc with h | ⟨x, hx, n, rfl⟩
  · exact h
  · have hfresh := A.stage_fresh (List.of_mem_zip hx).2
    have hid := Table.key_of_find? hc
    dsimp only [makeCursor] at hid
    rw [hid, hs] at hfresh
    cases hfresh

theorem Sound.admitted (S : Sound db) (A : Admitted D ids adm now db db')
    (valid : validatePlan adm.plan = true) : Sound db' := by
  refine ⟨S.planned.admitted A valid, A.linked (shape_rule Guard.none) S.linked,
    fun s c r hs hr hp hc => ?_, fun s p c r hs hr hp hc => ?_⟩ <;>
    rcases A.stage_cases hs with h | h
  · rw [S.planned.parentStages_eq h fun _ _ => A.stage_old] at hp
    exact (S.inert s c r h hr hp (A.cursor_keep h hc)).keep (A.evolution h)
  · obtain ⟨i, q, hi, rfl⟩ := mem_stageRows_iff.mp h
    obtain ⟨n, rfl⟩ := A.cursor_eq hi hc
    refine ⟨?_, fun k u hu hus => (A.unit_new S.linked hi hu hus).2⟩
    show (_ || _) = true
    rw [(A.parentStages_nil valid hi).mp hp, Bool.or_true]
  · rw [S.planned.parentStages_eq h fun _ _ => A.stage_old] at hp
    obtain ⟨hparent, -⟩ := S.planned.parent h hp
    exact (S.reduced s p c r h hr hp (A.cursor_keep h hc)).keep (A.evolution h)
      (A.evolution hparent) A.keeps fun _ => A.cursor_old
  · obtain ⟨i, q, hi, rfl⟩ := mem_stageRows_iff.mp h
    obtain ⟨n, rfl⟩ := A.cursor_eq hi hc
    have hwaits : dependsOnlyOnInventory adm.plan.stages q = false := by
      rw [Bool.eq_false_iff]
      intro hdep
      rw [(A.parentStages_nil valid hi).mpr hdep] at hp
      cases hp
    have htype : q.stageType = .reduce := (validPlan_reduction valid (List.mem_of_getElem? hi) hr).1
    refine .inl ⟨?_, rfl, rfl, rfl, rfl, fun k u hu hus => ?_⟩
    · show (_ || _) = false
      rw [hwaits, htype]
      rfl
    · have hinit := (A.unit_new S.linked hi hu hus).1
      rw [initialStage, hwaits, Bool.and_false] at hinit
      cases hinit

end

theorem Act.sound (h : Act D Guard.reduction db db') (S : Sound db) : Sound db' := by
  have linked := h.linked (shape_rule Guard.reduction) S.linked
  have grow := h.resultsGrow S.linked
  cases h with
  | cells frame old new =>
    exact S.keep frame.stages frame.cursors linked (cells_evolution S.linked frame old new)
      (frame.keeps grow)
  | grant revision allowed blocked granted =>
    exact S.keep granted.stages granted.cursors linked
      (granted.evolution (grant_free allowed blocked)) granted.keeps
  | round m cursor next revision allowed done => exact S.round next revision allowed done
  | admitted ids workloadId adm now allowed valid done =>
    exact S.admitted (insertRevisionRows_admitted done) valid

theorem Acts.sound (h : Acts D Guard.reduction db db') (S : Sound db) : Sound db' := by
  induction h with
  | refl => exact S
  | tail _ act ih => exact act.sound ih

theorem run_sound {ops : List Op} (meets : RunMeets D Guard.reduction Store.empty ops) :
    Sound (run D Store.empty ops) :=
  run_invariant (fun ho h S => (transact_acts ho h).sound S) meets sound_empty

/-! ## Committed roots -/

/-- Whether a unit is a group of the stage. -/
def inStage (s : Stage) (u : UnitRow) : Bool :=
  decide (u.revisionId = s.revisionId) && decide (u.stageId = s.id)

/-- Through the units of its stage, the root reads every exposed unit of the dependency exactly
once, and every group of the stage is on the way exactly once. -/
structure CompleteRoot (db : Store) (s p : Stage) (c : StageCursor) (root : Key) : Prop where
  inputs : ∀ fuel, c.reductionLevel < fuel → (leaves db s fuel root).Perm (db.keys (exposed p))
  groups : ∀ fuel, c.reductionLevel < fuel → (groups db s fuel root).Perm (db.keys (inStage s))

/-- The committed root of every completed reduction is complete. -/
def CompleteRoots (db : Store) : Prop :=
  ∀ s ∈ db.stages.rows, ∀ p ∈ db.stages.rows, ∀ c ∈ db.cursors.rows, ∀ u ∈ db.units.rows,
    s.reduction.isSome = true → s.dependsOn = [p.id] → c.stageId = s.id → c.completed = true →
    u.stageId = s.id → u.reductionRoot = true → u.state = .committed → CompleteRoot db s p c u.id

theorem Progress.completeRoot {s p : Stage} {c : StageCursor} {u : UnitRow}
    (R : Progress db s p c) (hp : p.id ≠ s.id) (done : c.completed = true)
    (hu : u ∈ db.units.rows) (hs : u.stageId = s.id) (hroot : u.reductionRoot = true)
    (hstate : u.state = .committed) : CompleteRoot db s p c u.id := by
  cases R.rooted done u.id u (Table.find?_of_mem hu) hs hroot with
  | dead state => rcases state with h | h | h <;> rw [hstate] at h <;> cases h
  | blocked blocked =>
    have := blocked.state
    rw [hstate] at this
    cases this
  | sole only covers =>
    have all : ∀ n ≤ c.reductionLevel, Covers db s p n fun _ => true := fun n hn => by
      rcases Nat.lt_or_eq_of_le hn with h | rfl
      · exact R.closed n h
      · exact covers
    constructor
    · intro fuel hfuel
      have hperm := leaves_perm hp all hfuel
      rw [only] at hperm
      simpa using hperm
    · intro fuel hfuel
      have hperm := groups_perm hp all hfuel
      rw [only, List.flatMap_singleton] at hperm
      refine hperm.trans (keys_perm fun k => ?_)
      simp only [mem_keys]
      refine exists_congr fun v => and_congr_right fun hv => ?_
      simp only [inStage, upToLevel, Bool.and_eq_true, decide_eq_true_eq, and_iff_left_iff_imp]
      rintro ⟨-, hvs⟩
      obtain ⟨n, hn, hl⟩ := R.levels k v hv hvs
      rw [hl]
      exact decide_eq_true hn

theorem Sound.completeRoots (S : Sound db) : CompleteRoots db := by
  intro s hs p hp c hc u hu hr hd hcs done hus hroot hstate
  obtain ⟨r, hr⟩ := Option.isSome_iff_exists.mp hr
  have hfind := Table.find?_of_mem hs
  have hcursor : db.cursors.find? s.id = some c := hcs ▸ Table.find?_of_mem hc
  by_cases hparent : parentStages db s = []
  · have := (S.inert s c r hfind hr hparent hcursor).unmarked u.id u (Table.find?_of_mem hu) hus
    rw [hroot] at this
    cases this
  · have hparents : parentStages db s = [p] := by
      unfold parentStages at hparent ⊢
      simp only [hd, List.filterMap_cons, Table.find?_of_mem hp, List.filterMap_nil,
        List.filter_singleton] at hparent ⊢
      cases hcond : (decide (p.revisionId = s.revisionId) && !decide (p.stageType = .inventory)) with
      | true => rfl
      | false => exact absurd (by rw [hcond]; rfl) hparent
    obtain ⟨-, hne⟩ := S.planned.parent hfind hparents
    rcases S.reduced s p c r hfind hr hparents hcursor with h | ⟨-, h⟩
    · rw [h.completed] at done
      cases done
    · exact h.completeRoot hne done hu hus hroot hstate

/-- The condition on one operation, on the store before it. -/
def Op.closesLevels (D : Digests) (db : Store) : Op → Prop
  | .recordAttentionResolution workloadId .retry _ _ _ _ =>
    ∀ w ∈ db.workloads.find? workloadId, ∀ revision ∈ w.activeRevisionId,
      Guard.reduction.grant db revision
  | .materializeReadyUnits ids workloadId limit now =>
    ∀ w ∈ db.workloads.find? workloadId, ∀ id ∈ w.activeRevisionId,
      ∀ revision ∈ db.revisions.find? id, roundsMeet D Guard.reduction ids revision now limit db
  | _ => True

instance decidableRound (s : Stage) (c : StageCursor) : Decidable (Guard.reduction.round db s c) :=
  inferInstanceAs (Decidable (s.reduction.isSome = true → c.reductionWaiting = true →
    1 < levelTotal db s c.reductionLevel →
    ∀ root ∈ levelRoot db s c.reductionLevel, root.state ≠ .needsAttention))

instance decidableRoundsMeet (ids : FreshIds) (revision : Revision) (now : ℕ) :
    ∀ limit db, Decidable (roundsMeet D Guard.reduction ids revision now limit db)
  | 0, _ => inferInstanceAs (Decidable True)
  | limit + 1, db =>
    match next : nextMaterializationStage db revision.id with
    | none => isTrue (by simp [roundsMeet, next])
    | some (stage, cursor) =>
      match done : materializeRound D ⟨stage, revision, ids, now⟩ db cursor with
      | .error _ => decidable_of_iff (Guard.reduction.round db stage cursor)
          (by simp [roundsMeet, next, done])
      | .ok db' =>
        have := decidableRoundsMeet ids revision now limit db'
        decidable_of_iff (Guard.reduction.round db stage cursor ∧
            roundsMeet D Guard.reduction ids revision now limit db')
          (by simp [roundsMeet, next, done])

instance decidableGrant (revision : Key) : Decidable (Guard.reduction.grant db revision) :=
  inferInstanceAs (Decidable (∀ u ∈ db.units.rows, u.revisionId = revision →
    u.reductionLevel.isSome = true → u.state = .needsAttention →
    u.errorClass ≠ some .dependencyInputTooLarge ∧ u.errorClass ≠ some .reductionNotConverging))

instance decidableClosesLevels : ∀ op : Op, Decidable (op.closesLevels D db)
  | .recordAttentionResolution workloadId decision _ _ _ _ =>
    match decision with
    | .retry => (inferInstance : Decidable (∀ w ∈ db.workloads.find? workloadId,
        ∀ revision ∈ w.activeRevisionId, Guard.reduction.grant db revision))
    | .cancel => isTrue trivial
  | .materializeReadyUnits ids workloadId limit now =>
    (inferInstance : Decidable (∀ w ∈ db.workloads.find? workloadId, ∀ id ∈ w.activeRevisionId,
      ∀ revision ∈ db.revisions.find? id, roundsMeet D Guard.reduction ids revision now limit db))
  | .createDraft .. | .admitRevision .. | .transitionWorkload .. | .control ..
  | .settleWorkload .. | .evaluateCompletion .. | .refreshUsageComplete .. | .recordArtifacts ..
  | .adoptReusableResult .. | .claimNext .. | .markRunning .. | .heartbeat ..
  | .executionInputs .. | .recordExecutionFacts .. | .recordAttemptUsage .. | .commitResult ..
  | .failAttempt .. | .abandonAttempt .. | .reconcileExpired .. => isTrue trivial

theorem Op.closesLevels.meets {op : Op} (h : op.closesLevels D db) :
    op.meets D Guard.reduction db := by
  unfold Op.meets
  split
  · exact fun _ _ => ⟨fun _ => trivial, fun _ _ _ => trivial⟩
  · exact fun _ _ _ _ _ _ _ _ => trivial
  · exact fun w revision hw hrevision => h w hw revision hrevision
  · exact fun w revision hw hid hrevision => h w hw revision.id hid revision hrevision
  · trivial
  · trivial

/-- In every run whose levels are closed and whose retries are granted under the condition, every
committed root is complete. -/
theorem committed_root_complete (D : Digests) (ops : List Op)
    (closes : Meets (transact D) (fun db op => op.closesLevels D db) Store.empty ops) :
    CompleteRoots (run D Store.empty ops) :=
  (run_sound (closes.imp fun _ _ h => h.meets)).completeRoots

end

/-! ### Three sources, reduced by twos -/

def sampleReduce : PlanStage :=
  sampleStage "reduce" .reduce ["map"] .singleton "combine" (some ⟨2, "entries", 1024⟩)

def samplePayload : Payload := ⟨10, some (2, [])⟩

/-- The `i`-th source is extracted at `now`. -/
def extractSource (i now : ℕ) : List Op :=
  let lease := sampleLease 1 1 sampleMap (100 + i) (i + 1) (1000 + i) 1 now false
  [sampleClaim (1000 + i) now, .markRunning lease (now + 1),
    .commitResult lease ⟨"result/1", samplePayload, i⟩ [] ⟨1, 2000 + i⟩ (now + 2)]

/-- The lease of the group at a place of the reduction. -/
def groupLease (unit level ordinal attempt fence now : ℕ) (manualRetry : Bool) : Lease :=
  sampleLease 1 2 sampleReduce unit (100 + 10 * level + ordinal) attempt fence now manualRetry

def materialize (now : ℕ) : Op := .materializeReadyUnits (sampleIds 100) ⟨1, 1⟩ 10 now

/-- Three sources are extracted and grouped; both groups run. -/
def groupsRun : List Op :=
  sampleStart 1 1 [sampleInventory, sampleMap, sampleReduce] 1000 [1, 2, 3] ++
  extractSource 0 10 ++ extractSource 1 20 ++ extractSource 2 30 ++
  [materialize 40, sampleClaim 1003 50, sampleClaim 1004 51,
    .markRunning (groupLease 103 0 0 1003 1 50 false) 52,
    .markRunning (groupLease 104 0 1 1004 1 51 false) 53,
    .commitResult (groupLease 104 0 1 1004 1 51 false) ⟨"result/1", samplePayload, 9⟩ [⟨1, 2002⟩]
      ⟨1, 2004⟩ 55]

/-- Both groups are committed, and so is the root over them. -/
def rootRun : List Op :=
  groupsRun ++
  [.commitResult (groupLease 103 0 0 1003 1 50 false) ⟨"result/1", samplePayload, 8⟩
      [⟨1, 2000⟩, ⟨1, 2001⟩] ⟨1, 2003⟩ 56,
    materialize 57, sampleClaim 1005 58, .markRunning (groupLease 105 1 0 1005 1 58 false) 59,
    .commitResult (groupLease 105 1 0 1005 1 58 false) ⟨"result/1", samplePayload, 10⟩
      [⟨1, 2003⟩, ⟨1, 2004⟩] ⟨1, 2005⟩ 60, materialize 61]

/-- The root at level 1 is committed and reads all three sources. -/
theorem root_over_three_sources :
    ((run sampleDigests Store.empty rootRun).units.find? ⟨1, 105⟩).map
      (fun u => (u.state, u.reductionRoot, u.reductionLevel)) = some (.committed, true, some 1) ∧
    CompleteRoots (run sampleDigests Store.empty rootRun) :=
  ⟨by decide +kernel, committed_root_complete sampleDigests rootRun (by decide +kernel)⟩

/-- The first group is lost by its executor and waits for attention; the owner grants a retry, but
before it is claimed the level is closed, with this group as the root. -/
def lostRun : List Op :=
  groupsRun ++
  [.failAttempt (groupLease 103 0 0 1003 1 50 false) .executorUnknown .needsAttention false 56,
    .recordAttentionResolution ⟨1, 1⟩ .retry none 77 5 57, materialize 58, sampleClaim 1005 59,
    .markRunning (groupLease 103 0 0 1005 2 59 true) 60,
    .commitResult (groupLease 103 0 0 1005 2 59 true) ⟨"result/1", samplePayload, 10⟩
      [⟨1, 2000⟩, ⟨1, 2001⟩] ⟨1, 2005⟩ 61]

/-- The committed root then reads two of the three sources. -/
theorem retried_group_drops_source : ¬ CompleteRoots (run sampleDigests Store.empty lostRun) := by
  generalize hdb : run sampleDigests Store.empty lostRun = db
  have lost : ∃ s ∈ db.stages.rows, ∃ p ∈ db.stages.rows, ∃ c ∈ db.cursors.rows,
      ∃ u ∈ db.units.rows, s.reduction.isSome = true ∧ s.dependsOn = [p.id] ∧ c.stageId = s.id ∧
        c.completed = true ∧ u.stageId = s.id ∧ u.reductionRoot = true ∧ u.state = .committed ∧
        leaves db s (c.reductionLevel + 1) u.id = [⟨1, 100⟩, ⟨1, 101⟩] ∧
        db.keys (exposed p) = [⟨1, 100⟩, ⟨1, 101⟩, ⟨1, 102⟩] := by
    subst hdb
    decide +kernel
  obtain ⟨s, hs, p, hp, c, hc, u, hu, h1, h2, h3, h4, h5, h6, h7, hleaves, hexposed⟩ := lost
  intro complete
  have hperm := (complete s hs p hp c hc u hu h1 h2 h3 h4 h5 h6 h7).inputs _ (Nat.lt_succ_self _)
  rw [hleaves, hexposed] at hperm
  exact absurd hperm.length_eq (by decide)

end Metnos.Durable
