import Metnos.Durable.Refine.Admit
import Metnos.Durable.Refine.Transact

/-!
# Durable.Shape — the invariant rule for cells

A property of a unit, its attempts and its results that holds of a fresh unit, survives every
`CellStep` and survives a grant holds of every unit in every reachable store.
-/

namespace Metnos.Durable

open Transaction

/-- Every cell satisfies `P` at its stage and its revision's generation, and attempts and results
belong to units. -/
structure Linked (P : Stage → ℕ → Cell → Prop) (db : Store) : Prop where
  cells : ∀ {k u}, db.units.find? k = some u → ∃ s g, db.stages.find? u.stageId = some s ∧
    db.generation u.revisionId = some g ∧ P s g (db.cell u)
  orphans : ∀ {k}, db.units.find? k = none → db.attemptsOf k = [] ∧ db.resultsOf k = []

/-- What makes a property of cells an invariant of the runs that meet `G`. -/
structure CellRule (G : Guard) (P : Stage → ℕ → Cell → Prop) : Prop where
  fresh : ∀ {s g u}, u.Fresh g → P s g ⟨u, [], []⟩
  root : ∀ {s g c} (now : ℕ), P s g c → P s g { c with unit := c.unit.markRoot now }
  step : ∀ {db : Store} {s g c c'}, db.generation c.unit.revisionId = some g →
    CellStep s g (G.aside db) G.result c c' → P s g c → P s g c'
  grant : ∀ {db : Store} {s g c}, G.grant db c.unit.revisionId → P s g c → P s (g + 1) c

theorem stageId_of_identity {u u' : UnitRow} (h : u'.identity = u.identity) :
    u'.stageId = u.stageId := congrArg (fun t => t.2.2.1) h

theorem revisionId_of_identity {u u' : UnitRow} (h : u'.identity = u.identity) :
    u'.revisionId = u.revisionId := congrArg (fun t => t.2.1) h

section
variable {D : Digests} {G : Guard} {P : Stage → ℕ → Cell → Prop} {db db' : Store}

theorem linked_empty : Linked P Store.empty :=
  ⟨fun h => (by cases h), fun _ => ⟨rfl, rfl⟩⟩

theorem nextStage_facts {revision : Key} {s : Stage} {c : StageCursor}
    (h : nextMaterializationStage db revision = some (s, c)) :
    db.cursors.find? s.id = some c ∧ db.stages.find? s.id = some s ∧ s.revisionId = revision ∧
    c.revisionId = revision ∧ c.stageId = s.id ∧ c.completed = false ∧ c.attentionCode = none ∧
    (c.reductionWaiting = false ∨ db.units.rows.any (openInLevel s c.reductionLevel) = false) ∧
    (parentStages db s).all (parentReady db) = true := by
  have hm := List.mem_of_head? h
  rw [List.mem_insertionSort, List.mem_filterMap] at hm
  obtain ⟨c', hc, hm⟩ := hm
  unfold materializable at hm
  simp only [Option.bind_eq_bind, Option.bind_eq_some_iff, Option.filter_eq_some_iff,
    decide_eq_true_eq] at hm
  obtain ⟨s', ⟨hs, hsr⟩, hm⟩ := hm
  split at hm
  · rename_i hcond
    simp only [Option.some.injEq, Prod.mk.injEq] at hm
    obtain ⟨rfl, rfl⟩ := hm
    obtain ⟨h1, h2, h3, h4, h5⟩ := hcond
    have hid : s'.id = c'.stageId := Table.key_of_find? hs
    refine ⟨?_, by rw [hid]; exact hs, hsr.trans h1, h1, hid.symm, h2, h3, h4, h5⟩
    rw [hid]
    exact Table.find?_of_mem hc
  · cases hm

theorem RoundCells.linked {m : Round} {cursor : StageCursor} (R : RoundCells m db db')
    (rule : CellRule G P) (next : nextMaterializationStage db m.revision.id = some (m.stage, cursor))
    (revision : db.revisions.find? m.revision.id = some m.revision) (L : Linked P db) :
    Linked P db' := by
  obtain ⟨-, hstage, hrev, -⟩ := nextStage_facts next
  have attemptsOf : ∀ k, db'.attemptsOf k = db.attemptsOf k := fun k => by
    unfold Store.attemptsOf
    rw [R.attempts]
  have resultsOf : ∀ k, db'.resultsOf k = db.resultsOf k := fun k => by
    unfold Store.resultsOf
    rw [R.results]
  have generation : ∀ r, db'.generation r = db.generation r := fun r => by
    unfold Store.generation
    rw [R.revisions]
  constructor
  · intro k u' hu'
    cases hu : db.units.find? k with
    | none =>
      obtain ⟨fresh, hs, hr⟩ := R.new k u' hu hu'
      have hk : u'.id = k := Table.key_of_find? hu'
      refine ⟨m.stage, m.revision.manualRetryGeneration, ?_, ?_, ?_⟩
      · rw [R.stages, hs]
        exact hstage
      · rw [generation, hr, hrev, Store.generation, revision]
        rfl
      · unfold Store.cell
        rw [hk, attemptsOf, resultsOf, (L.orphans hu).1, (L.orphans hu).2]
        exact rule.fresh fresh
    | some u =>
      obtain ⟨u'', hu'', hcase⟩ := R.old k u hu
      rw [hu'] at hu''
      cases hu''
      obtain ⟨s, g, hs, hg, hP⟩ := L.cells hu
      have cell : ∀ v : UnitRow, db'.cell v = db.cell v := fun v => by
        unfold Store.cell
        rw [attemptsOf, resultsOf]
      rcases hcase with rfl | rfl
      · exact ⟨s, g, by rw [R.stages]; exact hs, (generation _).trans hg, by rw [cell]; exact hP⟩
      · refine ⟨s, g, by rw [R.stages]; exact hs, (generation _).trans hg, ?_⟩
        rw [cell]
        exact rule.root m.now hP
  · intro k hk
    cases hu : db.units.find? k with
    | none =>
      rw [attemptsOf, resultsOf]
      exact L.orphans hu
    | some u =>
      obtain ⟨u'', hu'', -⟩ := R.old k u hu
      rw [hk] at hu''
      cases hu''

theorem Admitted.linked {ids : FreshIds} {adm : Admission} {now : ℕ}
    (A : Admitted D ids adm now db db') (rule : CellRule G P) (L : Linked P db) : Linked P db' := by
  have cell : ∀ v : UnitRow, db'.cell v = db.cell v := fun v => by
    unfold Store.cell Store.attemptsOf Store.resultsOf
    rw [A.attempts, A.results]
  constructor
  · intro k u hu
    cases hold : db.units.find? k with
    | some v =>
      obtain rfl : v = u := Option.some.inj ((A.unit_old hold).symm.trans hu)
      obtain ⟨s, g, hs, hg, hP⟩ := L.cells hold
      refine ⟨s, g, A.stage_old hs, ?_, by rw [cell]; exact hP⟩
      rw [A.generation, if_neg, hg]
      rintro heq
      rw [heq, Store.generation, A.revision] at hg
      cases hg
    | none =>
      rcases A.unit_cases hu with h | ⟨s, hs, id, source, rfl⟩
      · rw [hold] at h
        cases h
      · have hrow := initialRows_subset hs
        refine ⟨s, 0, A.stage_new hrow, ?_, ?_⟩
        · rw [A.generation]
          exact if_pos (mem_stageRows hrow)
        · have hk := Table.key_of_find? hu
          rw [cell]
          unfold Store.cell
          rw [hk, (L.orphans hold).1, (L.orphans hold).2]
          exact rule.fresh (makeInitialUnit_fresh ..)
  · intro k hk
    unfold Store.attemptsOf Store.resultsOf
    rw [A.attempts, A.results]
    cases hold : db.units.find? k with
    | some v =>
      rw [A.unit_old hold] at hk
      cases hk
    | none => exact L.orphans hold

theorem Act.linked (rule : CellRule G P) (h : Act D G db db') (L : Linked P db) : Linked P db' := by
  cases h with
  | cells frame old new =>
    constructor
    · intro k u' hu'
      cases hu : db.units.find? k with
      | none =>
        rw [(new k hu).1] at hu'
        cases hu'
      | some u =>
        obtain ⟨u'', hu'', change⟩ := old k u hu
        rw [hu'] at hu''
        cases hu''
        obtain ⟨s, g, hs, hg, hP⟩ := L.cells hu
        rcases change with hcell | hstep
        · have huu : u' = u := congrArg Cell.unit hcell
          subst huu
          exact ⟨s, g, by rw [frame.stages]; exact hs, (frame.generation _).trans hg,
            by rw [hcell]; exact hP⟩
        · have step := hstep s g hs hg
          have hid : u'.identity = u.identity := step.identity_eq
          refine ⟨s, g, ?_, ?_, rule.step hg step hP⟩
          · rw [frame.stages, stageId_of_identity hid]
            exact hs
          · rw [frame.generation, revisionId_of_identity hid]
            exact hg
    · intro k hk
      cases hu : db.units.find? k with
      | none =>
        rw [(new k hu).2.1, (new k hu).2.2]
        exact L.orphans hu
      | some u =>
        obtain ⟨u'', hu'', -⟩ := old k u hu
        rw [hk] at hu''
        cases hu''
  | grant revision allowed blocked granted =>
    have cell : ∀ v : UnitRow, db'.cell v = db.cell v := fun v => by
      unfold Store.cell Store.attemptsOf Store.resultsOf
      rw [granted.attempts, granted.results]
    constructor
    · intro k u hu
      rw [granted.units] at hu
      obtain ⟨s, g, hs, hg, hP⟩ := L.cells hu
      refine ⟨s, if u.revisionId = revision then g + 1 else g, by rw [granted.stages]; exact hs,
        ?_, ?_⟩
      · rw [granted.generation, hg]
        rfl
      · rw [cell]
        split
        · rename_i heq
          exact rule.grant (heq ▸ allowed) hP
        · exact hP
    · intro k hk
      unfold Store.attemptsOf Store.resultsOf
      rw [granted.units] at hk
      rw [granted.attempts, granted.results]
      exact L.orphans hk
  | round m cursor next revision allowed done =>
    exact (materializeRound_cells done).linked rule next revision L
  | admitted ids workloadId adm now allowed valid done =>
    exact (insertRevisionRows_admitted done).linked rule L

theorem Act.unit_cases (h : Act D G db db') (L : Linked P db) {k : Key} {u : UnitRow}
    (hu : db.units.find? k = some u) :
    ∃ u' s g, db'.units.find? k = some u' ∧ db.stages.find? u.stageId = some s ∧
      db.generation u.revisionId = some g ∧
      (db'.generation u.revisionId = some g ∧ (db'.cell u' = db.cell u ∨
          (∃ now, db'.cell u' = { db.cell u with unit := u.markRoot now }) ∨
          CellStep s g (G.aside db) G.result (db.cell u) (db'.cell u')) ∨
        db'.generation u.revisionId = some (g + 1) ∧ db'.cell u' = db.cell u ∧
          G.grant db u.revisionId) := by
  obtain ⟨s, g, hs, hg, -⟩ := L.cells hu
  have cell : db'.attempts = db.attempts → db'.results = db.results →
      ∀ v : UnitRow, db'.cell v = db.cell v := fun h1 h2 v => by
    unfold Store.cell Store.attemptsOf Store.resultsOf
    rw [h1, h2]
  cases h with
  | cells frame old new =>
    obtain ⟨u', hu', change⟩ := old k u hu
    refine ⟨u', s, g, hu', hs, hg, .inl ⟨(frame.generation _).trans hg, ?_⟩⟩
    exact change.imp_right fun step => .inr (step s g hs hg)
  | grant revision allowed blocked granted =>
    refine ⟨u, s, g, by rw [granted.units]; exact hu, hs, hg, ?_⟩
    have hcell := cell granted.attempts granted.results u
    have hgen := granted.generation u.revisionId
    rw [hg, Option.map_some] at hgen
    by_cases heq : u.revisionId = revision
    · rw [if_pos heq] at hgen
      exact .inr ⟨hgen, hcell, heq ▸ allowed⟩
    · rw [if_neg heq] at hgen
      exact .inl ⟨hgen, .inl hcell⟩
  | round m cursor next revision allowed done =>
    have R := materializeRound_cells done
    obtain ⟨u', hu', hcase⟩ := R.old k u hu
    have hgen : db'.generation u.revisionId = some g := by
      rw [Store.generation, R.revisions]
      exact hg
    refine ⟨u', s, g, hu', hs, hg, .inl ⟨hgen, ?_⟩⟩
    rw [cell R.attempts R.results]
    rcases hcase with rfl | rfl
    · exact .inl rfl
    · exact .inr (.inl ⟨m.now, rfl⟩)
  | admitted ids workloadId adm now allowed valid done =>
    have A := insertRevisionRows_admitted done
    refine ⟨u, s, g, A.unit_old hu, hs, hg, .inl ⟨?_, .inl (cell A.attempts A.results u)⟩⟩
    rw [A.generation, if_neg, hg]
    rintro heq
    rw [heq, Store.generation, A.revision] at hg
    cases hg

theorem Acts.linked (rule : CellRule G P) (h : Acts D G db db') (L : Linked P db) :
    Linked P db' := by
  induction h with
  | refl => exact L
  | tail _ act ih => exact act.linked rule ih

theorem run_linked (rule : CellRule G P) {ops : List Op} (L : Linked P db)
    (meets : RunMeets D G db ops) : Linked P (run D db ops) :=
  run_invariant (fun ho h hL => (transact_acts ho h).linked rule hL) meets L

theorem run_linked_rel {R : Store → Store → Prop} (refl : ∀ a, R a a)
    (trans : ∀ {a b c}, R a b → R b c → R a c) (rule : CellRule G P)
    (act : ∀ {a b}, Linked P a → Act D G a b → R a b) {ops : List Op} (L : Linked P db)
    (meets : RunMeets D G db ops) : R db (run D db ops) := by
  have acts : ∀ {a b}, Linked P a → Acts D G a b → R a b := fun La h => by
    induction h with
    | refl => exact refl _
    | tail pre last ih => exact trans ih (act (Acts.linked rule pre La) last)
  have both := run_invariant (I := fun x => Linked P x ∧ R db x) (fun ho h hI =>
    have hacts := transact_acts ho h
    ⟨hacts.linked rule hI.1, trans hI.2 (acts hI.1 hacts)⟩) meets ⟨L, refl db⟩
  exact both.2

end

theorem any_rule (G : Guard) : CellRule G (fun _ _ _ => True) :=
  ⟨fun _ => trivial, fun _ _ => trivial, fun _ _ _ => trivial, fun _ _ => trivial⟩

theorem run_any (D : Digests) (ops : List Op) :
    Linked (fun _ _ _ => True) (run D Store.empty ops) :=
  run_linked (any_rule Guard.none) linked_empty (meets_of_forall (Op.meets_none D) _ _)

end Metnos.Durable

/-!
## The lease shape of a unit

Attempts are numbered and fenced 1, 2, .. in the order they were made; a unit is leased or running
exactly while one attempt is open, and that attempt carries the unit's fence; a unit is committed
exactly when it has a result, which carries the fence and an attempt of the unit.
-/

namespace Metnos.Durable

open Transaction

/-! ## Updating one attempt -/

theorem mem_updateAttempt {id : Key} {f : Attempt → Attempt} {l : List Attempt} {b : Attempt} :
    b ∈ updateAttempt id f l ↔ ∃ a ∈ l, (if a.id = id then f a else a) = b := List.mem_map

theorem map_updateAttempt {β : Type} {id : Key} {f : Attempt → Attempt} {g : Attempt → β}
    (h : ∀ a, g (f a) = g a) (l : List Attempt) : (updateAttempt id f l).map g = l.map g := by
  unfold updateAttempt
  rw [List.map_map]
  refine List.map_congr_left fun a _ => ?_
  by_cases ha : a.id = id <;> simp [Function.comp, ha, h]

theorem eq_of_id {l : List Attempt} (h : (l.map Attempt.id).Nodup) {a b : Attempt} (ha : a ∈ l)
    (hb : b ∈ l) (hab : a.id = b.id) : a = b := List.inj_on_of_nodup_map h ha hb hab

theorem countP_updateAttempt {p : Attempt → Bool} {f : Attempt → Attempt} {l : List Attempt}
    {a : Attempt} (h : (l.map Attempt.id).Nodup) (ha : a ∈ l) :
    (updateAttempt a.id f l).countP p + (if p a then 1 else 0) =
      l.countP p + (if p (f a) then 1 else 0) := by
  induction l with
  | nil => cases ha
  | cons b l ih =>
    rw [List.map_cons, List.nodup_cons] at h
    have hcons : updateAttempt a.id f (b :: l) =
        (if b.id = a.id then f b else b) :: updateAttempt a.id f l := rfl
    rw [hcons, List.countP_cons, List.countP_cons]
    rcases List.mem_cons.mp ha with rfl | hal
    · rw [updateAttempt_of_not_mem fun x hx hid => h.1 (List.mem_map.mpr ⟨x, hx, hid⟩), if_pos rfl]
      omega
    · have hne : b.id ≠ a.id := fun hid => h.1 (List.mem_map.mpr ⟨a, hal, hid.symm⟩)
      have := ih h.2 hal
      rw [if_neg hne]
      omega

/-! ## Numbers and fences -/

/-- The attempts of a unit are its attempts 1, 2, .., each with its number as fence. -/
structure Cell.Numbered (c : Cell) : Prop where
  fence : c.unit.fence = c.unit.attemptCount
  numbers : c.attempts.map Attempt.number = List.range' 1 c.unit.attemptCount
  fences : c.attempts.map Attempt.fence = List.range' 1 c.unit.attemptCount
  ids : (c.attempts.map Attempt.id).Nodup

section
variable {s : Stage} {g : ℕ} {aside : UnitRow → Prop} {result : UnitRow → ResultRow → Prop}
  {c c' : Cell}

theorem Cell.Numbered.update (N : c.Numbered) {id : Key} {f : Attempt → Attempt} {u : UnitRow}
    {results : List ResultRow} (hn : ∀ a, (f a).number = a.number)
    (hf : ∀ a, (f a).fence = a.fence) (hi : ∀ a, (f a).id = a.id) (fence : u.fence = c.unit.fence)
    (count : u.attemptCount = c.unit.attemptCount) :
    Cell.Numbered ⟨u, updateAttempt id f c.attempts, results⟩ := by
  refine ⟨fence.trans (N.fence.trans count.symm), ?_, ?_, ?_⟩ <;> dsimp only
  · rw [map_updateAttempt hn, count]
    exact N.numbers
  · rw [map_updateAttempt hf, count]
    exact N.fences
  · rw [map_updateAttempt hi]
    exact N.ids

theorem Cell.Numbered.append (N : c.Numbered) {a : Attempt} {u : UnitRow}
    {results : List ResultRow} (fresh : ∀ b ∈ c.attempts, b.id ≠ a.id)
    (hn : a.number = c.unit.attemptCount + 1) (hf : a.fence = c.unit.fence + 1)
    (fence : u.fence = c.unit.fence + 1) (count : u.attemptCount = c.unit.attemptCount + 1) :
    Cell.Numbered ⟨u, c.attempts ++ [a], results⟩ := by
  have hrange : List.range' 1 (c.unit.attemptCount + 1) =
      List.range' 1 c.unit.attemptCount ++ [c.unit.attemptCount + 1] := by
    rw [List.range'_concat]
    simp [Nat.add_comm]
  refine ⟨by rw [fence, count, N.fence], ?_, ?_, ?_⟩ <;> dsimp only
  · rw [List.map_append, count, hrange, N.numbers, List.map_singleton, hn]
  · rw [List.map_append, count, hrange, N.fences, List.map_singleton, hf, N.fence]
  · rw [List.map_append, List.nodup_append]
    refine ⟨N.ids, by simp, ?_⟩
    intro x hx y hy
    obtain ⟨b, hb, rfl⟩ := List.mem_map.mp hx
    simp only [List.map_singleton, List.mem_singleton] at hy
    rw [hy]
    exact fresh b hb

theorem Cell.Numbered.step (h : CellStep s g aside result c c') (N : c.Numbered) : c'.Numbered := by
  cases h with
  | lease attempt worker expiry now ready fresh => exact N.append fresh rfl rfl rfl rfl
  | start a expiry now => exact N.update (fun _ => rfl) (fun _ => rfl) (fun _ => rfl) rfl rfl
  | amend a f holds keeps =>
    exact N.update (fun x => congrArg (fun t => t.2.2.1) (keeps x))
      (fun x => congrArg (fun t => t.2.2.2.1) (keeps x)) (fun x => congrArg Prod.fst (keeps x))
      rfl rfl
  | commit a r now => exact N.update (fun _ => rfl) (fun _ => rfl) (fun _ => rfl) rfl rfl
  | release a state cause target next error tokens now =>
    exact N.update (fun _ => rfl) (fun _ => rfl) (fun _ => rfl) rfl rfl
  | adopt attempt r now unit count active pure fresh =>
    exact N.append fresh rfl rfl rfl rfl
  | extend | promote | exhaust | cancel | setAside =>
    exact ⟨N.fence, N.numbers, N.fences, N.ids⟩

theorem Cell.Numbered.of_fresh {u : UnitRow} (h : u.Fresh g) : Cell.Numbered ⟨u, [], []⟩ :=
  ⟨h.fence.trans h.attemptCount.symm, by simp [h.attemptCount], by simp [h.attemptCount],
    List.nodup_nil⟩

/-! ## Leases -/

/-- An attempt under which the unit is held, before or after its execution started. -/
def Attempt.HeldBy (a : Attempt) (u : UnitRow) : Prop :=
  a.fence = u.fence ∧ a.endedAt = none ∧
  (u.state = .leased ∧ a.state = .leased ∧ a.metrics.executionStarted = false ∨
    u.state = .running ∧ a.state = .running ∧ a.metrics.executionStarted = true)

/-- A unit is leased or running exactly while it has an open attempt. -/
structure Cell.Leased (c : Cell) : Prop where
  held : ∀ id, c.unit.activeAttemptId = some id → ∃ a ∈ c.attempts, a.id = id ∧ a.HeldBy c.unit
  free : c.unit.activeAttemptId = none → c.unit.state ≠ .leased ∧ c.unit.state ≠ .running
  closed : ∀ a ∈ c.attempts, c.unit.activeAttemptId ≠ some a.id →
    a.endedAt ≠ none ∧ a.state ≠ .leased ∧ a.state ≠ .running

theorem Cell.Leased.active_none (L : c.Leased) (h1 : c.unit.state ≠ .leased)
    (h2 : c.unit.state ≠ .running) : c.unit.activeAttemptId = none := by
  cases ha : c.unit.activeAttemptId with
  | none => rfl
  | some id =>
    obtain ⟨a, -, -, -, -, h | h⟩ := L.held id ha
    · exact absurd h.1 h1
    · exact absurd h.1 h2

theorem Cell.Leased.heldBy (L : c.Leased) (N : c.Numbered) {a : Attempt} (h : c.Holds a) :
    a.HeldBy c.unit := by
  obtain ⟨b, hb, hid, hheld⟩ := L.held a.id h.active
  rw [eq_of_id N.ids h.mem hb hid.symm]
  exact hheld

theorem Cell.Leased.finish (L : c.Leased) {a : Attempt} (h : c.Holds a) {state : AttemptState}
    {error : Option ErrorClass} {now : ℕ} {u : UnitRow} {results : List ResultRow}
    (active : u.activeAttemptId = none) (hu : u.state ≠ .leased ∧ u.state ≠ .running)
    (hs : state ≠ .leased ∧ state ≠ .running) :
    Cell.Leased ⟨u, updateAttempt a.id (Attempt.finish state error now) c.attempts, results⟩ := by
  refine ⟨fun id hid => ?_, fun _ => hu, fun b hb _ => ?_⟩
  · rw [active] at hid
    cases hid
  · obtain ⟨x, hx, rfl⟩ := mem_updateAttempt.mp hb
    split
    · exact ⟨by simp [Attempt.finish], hs.1, hs.2⟩
    · rename_i hne
      refine L.closed x hx ?_
      rw [h.active]
      exact fun heq => hne (Option.some.inj heq).symm

theorem Cell.Leased.free_step (L : c.Leased) {u : UnitRow} (h1 : c.unit.state ≠ .leased)
    (h2 : c.unit.state ≠ .running) (active : u.activeAttemptId = c.unit.activeAttemptId)
    (hu : u.state ≠ .leased ∧ u.state ≠ .running) {results : List ResultRow} :
    Cell.Leased ⟨u, c.attempts, results⟩ := by
  have hnone := L.active_none h1 h2
  refine ⟨fun id hid => ?_, fun _ => hu, fun a ha _ => L.closed a ha (by rw [hnone]; simp)⟩
  rw [active, hnone] at hid
  cases hid

theorem Cell.Leased.step (h : CellStep s g aside result c c') (L : c.Leased) : c'.Leased := by
  cases h with
  | lease attempt worker expiry now ready fresh =>
    have hfree : c.unit.state ≠ .leased ∧ c.unit.state ≠ .running := by
      rcases ready with ⟨h, -⟩ | ⟨h, -⟩ <;> simp [h]
    have hnone := L.active_none hfree.1 hfree.2
    refine ⟨fun id hid => ?_, fun hn => ?_, fun a ha hne => ?_⟩
    · obtain rfl : attempt = id := Option.some.inj hid
      exact ⟨newAttempt c.unit attempt worker now, by simp, rfl, rfl, rfl, .inl ⟨rfl, rfl, rfl⟩⟩
    · cases hn
    · rcases List.mem_append.mp ha with ha | ha
      · exact L.closed a ha (by rw [hnone]; simp)
      · rw [List.mem_singleton] at ha
        subst ha
        exact absurd rfl hne
  | start a expiry now holds unit attempt =>
    refine ⟨fun id hid => ?_, fun hn => ?_, fun b hb hne => ?_⟩
    · obtain rfl : a.id = id := Option.some.inj (holds.active.symm.trans hid)
      refine ⟨a.start now, mem_updateAttempt.mpr ⟨a, holds.mem, by simp⟩, rfl, ?_⟩
      exact ⟨holds.fence, holds.ended, .inr ⟨rfl, rfl, rfl⟩⟩
    · exact absurd (holds.active.symm.trans hn) (by simp)
    · obtain ⟨x, hx, rfl⟩ := mem_updateAttempt.mp hb
      split
      · rename_i hid
        rw [if_pos hid] at hne
        exact absurd (holds.active.trans (congrArg some hid.symm)) hne
      · rename_i hid
        rw [if_neg hid] at hne
        exact L.closed x hx hne
  | extend expiry now unit =>
    refine ⟨fun id hid => ?_, fun hn => L.free hn, fun b hb hne => L.closed b hb hne⟩
    obtain ⟨b, hb, hbid, hheld⟩ := L.held id hid
    exact ⟨b, hb, hbid, hheld⟩
  | amend a f holds keeps =>
    have hid : ∀ x, (f x).id = x.id := fun x => congrArg Prod.fst (keeps x)
    have hfence : ∀ x, (f x).fence = x.fence := fun x => congrArg (fun t => t.2.2.2.1) (keeps x)
    have hstate : ∀ x, (f x).state = x.state :=
      fun x => congrArg (fun t => t.2.2.2.2.2.1) (keeps x)
    have hended : ∀ x, (f x).endedAt = x.endedAt :=
      fun x => congrArg (fun t => t.2.2.2.2.2.2.1) (keeps x)
    have hstarted : ∀ x, (f x).metrics.executionStarted = x.metrics.executionStarted :=
      fun x => congrArg (fun t => t.2.2.2.2.2.2.2.1) (keeps x)
    refine ⟨fun id hact => ?_, L.free, fun b hb hne => ?_⟩
    · obtain ⟨b, hb, rfl, hheld⟩ := L.held id hact
      refine ⟨if b.id = a.id then f b else b, mem_updateAttempt.mpr ⟨b, hb, rfl⟩, ?_, ?_⟩
      · split
        · exact hid b
        · rfl
      · split
        · unfold Attempt.HeldBy
          rw [hfence, hstate, hended, hstarted]
          exact hheld
        · exact hheld
    · obtain ⟨x, hx, rfl⟩ := mem_updateAttempt.mp hb
      split
      · rename_i heq
        rw [if_pos heq, hid] at hne
        rw [hended, hstate]
        exact L.closed x hx hne
      · rename_i heq
        rw [if_neg heq] at hne
        exact L.closed x hx hne
  | commit a r now holds =>
    exact L.finish holds rfl ⟨by simp [UnitRow.commit], by simp [UnitRow.commit]⟩ ⟨by simp, by simp⟩
  | release a state cause target next error tokens now holds unit closed released =>
    refine L.finish holds rfl ?_ ?_
    · rcases released.targets with h | h | h | h <;> simp [UnitRow.release, h]
    · rcases closed with h | h | h <;> simp [h]
  | promote now unit =>
    exact L.free_step (u := c.unit.promote now) (by simp [unit]) (by simp [unit]) rfl
      ⟨by simp [UnitRow.promote], by simp [UnitRow.promote]⟩
  | exhaust now unit =>
    exact L.free_step (u := c.unit.exhaust g now) (by simp [unit]) (by simp [unit]) rfl
      ⟨by simp [UnitRow.exhaust], by simp [UnitRow.exhaust]⟩
  | cancel now unit =>
    refine L.free_step (u := c.unit.cancel now) ?_ ?_ rfl
      ⟨by simp [UnitRow.cancel], by simp [UnitRow.cancel]⟩
    · rcases unit with h | h | h <;> simp [h]
    · rcases unit with h | h | h <;> simp [h]
  | adopt attempt r now unit count active =>
    refine ⟨fun id hid => ?_, fun _ => ?_, fun a ha _ => ?_⟩
    · exact absurd (active.symm.trans hid) (by simp)
    · exact ⟨by simp [UnitRow.adopt], by simp [UnitRow.adopt]⟩
    · rcases List.mem_append.mp ha with ha | ha
      · exact L.closed a ha (by rw [active]; simp)
      · rw [List.mem_singleton] at ha
        subst ha
        exact ⟨by simp [reuseAttempt], by simp [reuseAttempt], by simp [reuseAttempt]⟩
  | setAside reason now unit =>
    exact L.free_step (u := c.unit.setAside reason now) (by simp [unit]) (by simp [unit]) rfl
      ⟨by simp [UnitRow.setAside], by simp [UnitRow.setAside]⟩

theorem Cell.Leased.of_fresh {u : UnitRow} (h : u.Fresh g) : Cell.Leased ⟨u, [], []⟩ := by
  refine ⟨fun id hid => ?_, fun _ => ?_, fun a ha => by cases ha⟩
  · exact absurd (h.active.symm.trans hid) (by simp)
  · rcases h.state with h | h | h <;> simp [h]

/-! ## Results -/

/-- A unit has a result exactly when it is committed, and the result is its own. -/
structure Cell.Committed (c : Cell) : Prop where
  result : c.unit.state = .committed → ∃ r, c.results = [r] ∧ c.unit.committedResultId = some r.id ∧
    r.unitId = c.unit.id ∧ r.revisionId = c.unit.revisionId ∧ r.fence = c.unit.fence ∧
    ∃ a ∈ c.attempts, a.id = r.attemptId ∧ a.fence = c.unit.fence ∧ a.state = .succeeded
  none : c.unit.state ≠ .committed → c.results = [] ∧ c.unit.committedResultId = .none

theorem Cell.Committed.keep (C : c.Committed) (hc : c.unit.state ≠ .committed) {u : UnitRow}
    {attempts : List Attempt} (hu : u.state ≠ .committed)
    (href : u.committedResultId = c.unit.committedResultId) :
    Cell.Committed ⟨u, attempts, c.results⟩ :=
  ⟨fun h => absurd h hu, fun _ => ⟨(C.none hc).1, href.trans (C.none hc).2⟩⟩

theorem Cell.Committed.step (h : CellStep s g aside result c c') (N : c.Numbered) (L : c.Leased)
    (C : c.Committed) : c'.Committed := by
  cases h with
  | lease attempt worker expiry now ready =>
    refine C.keep ?_ (by simp [UnitRow.lease]) rfl
    rcases ready with ⟨h, -⟩ | ⟨h, -⟩ <;> simp [h]
  | start a expiry now holds unit =>
    exact C.keep (u := c.unit.start expiry now) (by simp [unit]) (by simp [UnitRow.start]) rfl
  | extend expiry now unit =>
    have hc : c.unit.state ≠ .committed := by rcases unit with h | h <;> simp [h]
    exact C.keep hc (by simpa [UnitRow.extend] using hc) rfl
  | amend a f holds keeps =>
    have hc : c.unit.state ≠ .committed := by
      obtain ⟨-, -, h | h⟩ := L.heldBy N holds <;> simp [h.1]
    exact C.keep hc hc rfl
  | commit a r now holds unit attempt first owner revision attemptId fence =>
    refine ⟨fun _ => ⟨r, rfl, rfl, owner, revision, fence, ?_⟩, fun h => absurd rfl h⟩
    exact ⟨a.finish .succeeded Option.none now, mem_updateAttempt.mpr ⟨a, holds.mem, by simp⟩,
      attemptId.symm, holds.fence, rfl⟩
  | release a state cause target next error tokens now holds unit closed released =>
    refine C.keep ?_ ?_ rfl
    · rcases unit with h | h <;> simp [h]
    · rcases released.targets with h | h | h | h <;> simp [UnitRow.release, h]
  | promote now unit =>
    exact C.keep (u := c.unit.promote now) (by simp [unit]) (by simp [UnitRow.promote]) rfl
  | exhaust now unit =>
    exact C.keep (u := c.unit.exhaust g now) (by simp [unit]) (by simp [UnitRow.exhaust]) rfl
  | cancel now unit =>
    refine C.keep (u := c.unit.cancel now) ?_ (by simp [UnitRow.cancel]) rfl
    rcases unit with h | h | h <;> simp [h]
  | adopt attempt r now unit count active pure fresh first owner revision attemptId fence =>
    refine ⟨fun _ => ⟨r, rfl, rfl, owner, revision, fence, ?_⟩, fun h => absurd rfl h⟩
    exact ⟨reuseAttempt c.unit attempt now, by simp, attemptId.symm, rfl, rfl⟩
  | setAside reason now unit =>
    exact C.keep (u := c.unit.setAside reason now) (by simp [unit]) (by simp [UnitRow.setAside]) rfl

theorem Cell.Committed.of_fresh {u : UnitRow} (h : u.Fresh g) : Cell.Committed ⟨u, [], []⟩ := by
  refine ⟨fun hc => ?_, fun _ => ⟨rfl, h.committed⟩⟩
  rcases h.state with h | h | h <;> exact absurd (h.symm.trans hc) (by simp)

/-! ## The shape of every unit -/

structure Cell.Shape (c : Cell) : Prop where
  numbered : c.Numbered
  leased : c.Leased
  committed : c.Committed

theorem Cell.Shape.step (h : CellStep s g aside result c c') (S : c.Shape) : c'.Shape :=
  ⟨.step h S.numbered, .step h S.leased, .step h S.numbered S.leased S.committed⟩

theorem Cell.Shape.root (now : ℕ) (S : c.Shape) :
    Cell.Shape { c with unit := c.unit.markRoot now } :=
  ⟨⟨S.numbered.fence, S.numbered.numbers, S.numbered.fences, S.numbered.ids⟩,
    ⟨S.leased.held, S.leased.free, S.leased.closed⟩, ⟨S.committed.result, S.committed.none⟩⟩

theorem Cell.Shape.of_fresh {u : UnitRow} (h : u.Fresh g) : Cell.Shape ⟨u, [], []⟩ :=
  ⟨.of_fresh h, .of_fresh h, .of_fresh h⟩

end

theorem shape_rule (G : Guard) : CellRule G (fun _ _ c => c.Shape) :=
  ⟨fun h => .of_fresh h, fun now S => S.root now, fun _ h S => .step h S, fun _ S => S⟩

theorem run_shape (D : Digests) (ops : List Op) :
    Linked (fun _ _ c => c.Shape) (run D Store.empty ops) :=
  run_linked (shape_rule Guard.none) linked_empty (meets_of_forall (Op.meets_none D) _ _)

end Metnos.Durable
