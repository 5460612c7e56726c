import Metnos.Durable.Compile
import Metnos.Durable.Keyed

/-!
# Durable.Archive — the plans and inventories behind the rows

Every stage row was written from a stage of the archived plan of its revision, every source row
from a source of the archived inventory, and results are the ones their digests stand for.
-/

namespace Metnos.Durable

open Transaction

section
variable {D : PlanDigests} {db db' : Store}

/-! ## Results -/

/-- The guard of operations that record no result. -/
def Guard.still : Guard :=
  { aside := fun _ _ => True
    result := fun _ _ => False
    grant := fun _ _ => True
    round := fun _ _ _ => True }

theorem Acts.still_results (h : Acts D.toDigests Guard.still db db')
    (L : Linked (fun _ _ _ => True) db) : ∀ r ∈ db'.results.rows, r ∈ db.results.rows := by
  have grow := h.resultsGrow (any_rule _) L
  intro r hr
  by_contra hn
  obtain ⟨u, hu⟩ := grow.new r hr hn
  exact hu

theorem Op.meets_still {op : Op} (db : Store) (commit : ∀ lease v ids id now,
      op ≠ .commitResult lease v ids id now)
    (adopt : ∀ a b now, op ≠ .adoptReusableResult a b now) :
    op.meets D.toDigests Guard.still db := by
  unfold Op.meets
  split
  · exact absurd rfl (adopt _ _ _)
  · exact absurd rfl (commit _ _ _ _ _)
  · exact fun _ _ _ _ => trivial
  · exact fun _ _ _ _ _ => roundsMeet_of_forall (fun _ _ _ => trivial) _ _ _ _ _
  · trivial
  · trivial

theorem Canonical.recorded {db1 : Store} {r : ResultRow} {k : Key} {n now limit : ℕ}
    (C : Canonical D db) (inserted : db.results.insert? r = some db1.results)
    (canonical : r.payload = D.payload r.digest ∧ r.schemaVersion = D.schemaVersion r.digest)
    (L : Linked (fun _ _ _ => True) db1)
    (h : settle db1 k now false limit = .ok (n, db')) : Canonical D db' := by
  have acts : Acts D.toDigests Guard.still db1 db' := settle_acts h
  intro x hx
  have hx := acts.still_results L x hx
  rw [(Table.insert?_some inserted).2, List.mem_append, List.mem_singleton] at hx
  rcases hx with hx | rfl
  · exact C x hx
  · exact canonical

theorem priorResult_facts {u prior : UnitRow} {s : Stage} {r : ResultRow}
    (h : priorResult? db u s prior = some r) :
    ∃ t source, db.stages.find? prior.stageId = some t ∧ t.revisionId = prior.revisionId ∧
      prior.committedResultId = some source ∧ db.results.find? source = some r ∧
      prior.id.owner = u.id.owner ∧ prior.unitKey = u.unitKey ∧
      prior.revisionId ≠ u.revisionId ∧ prior.state = .committed ∧ sameContract s t = true := by
  unfold priorResult? at h
  simp only [Option.bind_eq_bind, Option.bind_eq_some_iff, Option.filter_eq_some_iff,
    decide_eq_true_eq] at h
  obtain ⟨t, ⟨ht, htr⟩, source, hsource, x, ⟨hx, hxr⟩, h⟩ := h
  split at h
  · rename_i hcond
    obtain rfl := Option.some.inj h
    obtain ⟨h1, h2, h3, h4, h5⟩ := hcond
    exact ⟨t, source, ht, htr, hsource, hx, h1, h2, h3, h4, h5⟩
  · cases h

theorem reuseCandidate_prior {c : ReuseCandidate} (h : reuseCandidate? db = some c) :
    (∃ prior ∈ db.units.rows, priorResult? db c.unit c.stage prior = some c.prior) ∧
    c.stage.revisionId = c.unit.revisionId ∧ reusable db c.stage c.unit = true := by
  have hc := List.mem_of_head? h
  rw [List.mem_insertionSort, List.mem_flatMap] at hc
  obtain ⟨u, hu, hc⟩ := hc
  unfold reuseCandidates at hc
  split at hc
  · cases hc
  rename_i revision workload usage stage heq
  rw [List.mem_map] at hc
  obtain ⟨r, hr, rfl⟩ := hc
  simp only [Option.bind_eq_bind, Option.bind_eq_some_iff, Option.filter_eq_some_iff] at heq
  obtain ⟨revision', -, workload', -, usage', -, stage', ⟨-, hrevision⟩, heq⟩ := heq
  split at heq
  · rename_i hcond
    simp only [Option.some.injEq, Prod.mk.injEq] at heq
    obtain ⟨rfl, rfl, rfl, rfl⟩ := heq
    exact ⟨List.mem_filterMap.mp hr, of_decide_eq_true hrevision, hcond.2⟩
  · cases heq

theorem transact_canonical {op : Op} (hop : op.canonical D) (C : Canonical D db)
    (L : Linked (fun _ _ _ => True) db) (h : transact D.toDigests db op = .ok db') :
    Canonical D db' := by
  by_cases still : op.meets D.toDigests Guard.still db
  · have acts := transact_acts still h
    exact fun r hr => C r (acts.still_results L r hr)
  -- only commits and adoptions record results
  cases op with
  | commitResult lease validated ids id now =>
    simp only [transact, stored, bind_eq_ok, pure_eq_ok, Prod.exists] at h
    obtain ⟨b, db2, h, rfl⟩ := h
    obtain rfl | ⟨r, db1, n, inserted, hdigest, hschema, hpayload, acts, h⟩ :=
      commitResult_parts (D := D.toDigests) (G := Guard.none) (fun _ _ _ _ _ _ _ _ => trivial) h
    · exact C
    · refine C.recorded inserted ?_ (acts.linked (any_rule _) L) h
      rw [hdigest, hschema, hpayload]
      exact hop
  | adoptReusableResult attemptId resultId now =>
    simp only [transact] at h
    unfold adoptReusableResult at h
    split at h
    · cases h
      exact C
    rename_i c hc
    have F := reuseCandidate_facts hc
    split at h
    · simp only [bind_eq_ok, pure_eq_ok, Prod.exists] at h
      obtain ⟨n, db1, h, -, -, rfl⟩ := h
      have acts : Acts D.toDigests Guard.still db db1 := settle_acts h
      exact fun r hr => C r (acts.still_results L r hr)
    split at h
    · have acts : Acts D.toDigests Guard.still db db' := requireAttention_acts F trivial h
      exact fun r hr => C r (acts.still_results L r hr)
    · obtain ⟨db1, n, inserted, -, acts, h⟩ :=
        adoptResult_parts (D := D.toDigests) (G := Guard.none) F (fun _ _ _ => trivial) h
      refine C.recorded inserted ?_ (acts.linked (any_rule _) L) h
      obtain ⟨⟨prior, -, hprior⟩, -, -⟩ := reuseCandidate_prior hc
      obtain ⟨t, source, -, -, -, hfind, -⟩ := priorResult_facts hprior
      exact C c.prior (Table.mem_of_find? hfind)
  | _ =>
    refine absurd (Op.meets_still db ?_ ?_) still
    · rintro _ _ _ _ _ ⟨⟩
    · rintro _ _ _ ⟨⟩

/-! ## Admissions -/

/-- The guard of operations that take no revision. -/
def Guard.closed : Guard :=
  { aside := fun _ _ => True
    result := fun _ _ => True
    grant := fun _ _ => True
    round := fun _ _ _ => True
    admission := fun _ => False }

/-- Stages and sources are the same, and so are the identifiers of the revisions. -/
structure SameArchive (db db' : Store) : Prop where
  stages : db'.stages = db.stages
  sources : db'.sources = db.sources
  revisions : ∀ r, (db'.generation r).isSome = (db.generation r).isSome

theorem SameArchive.refl (db : Store) : SameArchive db db := ⟨rfl, rfl, fun _ => rfl⟩

theorem SameArchive.trans {a b c : Store} (h : SameArchive a b) (h' : SameArchive b c) :
    SameArchive a c :=
  ⟨h'.stages.trans h.stages, h'.sources.trans h.sources,
    fun r => (h'.revisions r).trans (h.revisions r)⟩

theorem SameFrame.sameArchive (F : SameFrame db db') : SameArchive db db' :=
  ⟨F.stages, F.sources, fun r => by rw [F.generation]⟩

theorem Acts.sameArchive (h : Acts D.toDigests Guard.closed db db') : SameArchive db db' := by
  induction h with
  | refl => exact .refl db
  | tail _ act ih =>
    refine ih.trans ?_
    cases act with
    | cells frame old new => exact frame.sameArchive
    | grant revision allowed blocked granted =>
      refine ⟨granted.stages, granted.sources, fun r => ?_⟩
      rw [granted.generation, Option.isSome_map]
    | round m cursor next revision allowed done =>
      have cells := materializeRound_cells done
      refine ⟨cells.stages, (materializeRound_ledger done).facts.sources, fun r => ?_⟩
      rw [Store.generation, cells.revisions, Store.generation]
    | admitted ids workloadId adm now allowed valid done => exact allowed.elim

theorem Op.meets_closed {op : Op} (db : Store) (stays : op.admits = false) :
    op.meets D.toDigests Guard.closed db := by
  unfold Op.meets
  split
  · exact fun _ _ => ⟨fun _ => trivial, fun _ _ _ => trivial⟩
  · exact fun _ _ _ _ _ _ _ _ => trivial
  · exact fun _ _ _ _ => trivial
  · exact fun _ _ _ _ _ => roundsMeet_of_forall (fun _ _ _ => trivial) _ _ _ _ _
  · cases stays
  · trivial

theorem admitRevision_parts {ids : FreshIds} {k : Key} {adm : Admission} {v now : ℕ}
    (h : admitRevision D.toDigests ids db k adm v now = .ok db') :
    db' = db ∨ (adm.revisionId.owner = k.owner ∧ ∃ db1,
      insertRevisionRows D.toDigests ids db k adm now = .ok db1 ∧ SameCore db1 db') := by
  unfold admitRevision at h
  simp only [bind_eq_ok, require_ok] at h
  obtain ⟨-, -, -, -, -, -, w, -, h⟩ := h
  split at h
  · simp only [bind_eq_ok, pure_eq_ok] at h
    obtain ⟨-, -, rfl⟩ := h
    exact .inl rfl
  · simp only [bind_eq_ok, require_ok, decide_eq_true_eq] at h
    obtain ⟨-, -, -, -, -, owner, db1, h1, db2, h2, h3⟩ := h
    exact .inr ⟨owner, db1, h1, (casWorkload_core h2).trans (appendEvent_core h3)⟩

/-! ## The archive -/

/-- The row was written from the stage of the plan at its position. -/
def StageOf (compiled : CompiledRevision D) (s : Stage) : Prop :=
  ∃ p, compiled.plan.stages[s.position]? = some p ∧ s.stageType = p.stageType ∧
    s.effectProfile = p.effectProfile ∧ s.reduction = p.reduction ∧
    ∃ c, c.stage = p ∧ Fingerprinted D compiled.inventory.digest c ∧
      s.invalidationDigest = c.invalidationDigest

structure Archived (S : ArchivedStore D) : Prop where
  stage : ∀ k s, S.store.stages.find? k = some s →
    ∃ compiled, S.archive s.revisionId = some compiled ∧ StageOf compiled s
  source : ∀ k x, S.store.sources.find? k = some x →
    ∃ compiled, S.archive x.revisionId = some compiled ∧
      ∃ y ∈ compiled.inventory.sources, y.item = x.item
  known : ∀ r compiled, S.archive r = some compiled → (S.store.generation r).isSome = true
  shared : ∀ r r' a b, S.archive r = some a → S.archive r' = some b → r ≠ r' →
    r.owner = r'.owner → ∀ s ∈ a.plan.stages, s ∈ b.plan.stages →
      Shareable s a.inventory b.inventory

theorem makeStage_of {compiled : CompiledRevision D} {ids : FreshIds} {revision : Key} {i : ℕ}
    {p : PlanStage} {stages : List PlanStage}
    (hi : (compiled.plan.plan D compiled.graph).stages[i]? = some p) :
    StageOf compiled (makeStage stages ids revision i p) := by
  have accepted := compilePlan_accepted compiled.accepted
  simp only [PlanSpec.plan, List.getElem?_map, Option.map_eq_some_iff] at hi
  obtain ⟨q, hq, rfl⟩ := hi
  obtain ⟨c, hc, hstage, F⟩ := accepted.stages q (List.mem_of_getElem? hq)
  refine ⟨q, hq, rfl, rfl, rfl, c, hstage, F, ?_⟩
  simp [makeStage, StageSpec.planStage, hc]

theorem Archived.call {S : ArchivedStore D} (A : Archived S) {db' : Store}
    (same : SameArchive S.store db') : Archived (⟨db', S.archive⟩ : ArchivedStore D) := by
  refine ⟨fun k s hs => ?_, fun k x hx => ?_, fun r c hr => ?_, A.shared⟩
  · exact A.stage k s (by rw [← same.stages]; exact hs)
  · exact A.source k x (by rw [← same.sources]; exact hx)
  · exact (same.revisions r).trans (A.known r c hr)

theorem Archived.admitRevision {S : ArchivedStore D} (A : Archived S) {ids : FreshIds}
    {k revision : Key}
    {compiled : CompiledRevision D} {snapshot now : ℕ} {truncated partialOutput usage : Bool}
    {db1 db' : Store} (owner : revision.owner = k.owner)
    (done : insertRevisionRows D.toDigests ids S.store k
      (compiled.admission snapshot truncated partialOutput usage revision) now = .ok db1)
    (core : SameCore db1 db')
    (faithful : ∀ r earlier, S.archive r = some earlier → r.owner = k.owner →
      ∀ s ∈ compiled.plan.stages, s ∈ earlier.plan.stages →
        Shareable s compiled.inventory earlier.inventory) :
    Archived (⟨db', Function.update S.archive revision (some compiled)⟩ : ArchivedStore D) := by
  have inserted := insertRevisionRows_admitted done
  obtain ⟨sources, units, seeded⟩ := insertRevisionRows_seeded done
  have free : S.archive revision = none := by
    rw [Option.eq_none_iff_forall_ne_some]
    intro c hc
    have hknown := A.known revision c hc
    have hfresh : S.store.revisions.find? revision = none := inserted.revision
    rw [Store.generation, hfresh] at hknown
    cases hknown
  have old : ∀ {r c}, S.archive r = some c →
      Function.update S.archive revision (some compiled) r = some c := by
    intro r c hr
    have hne : r ≠ revision := by
      rintro rfl
      rw [free] at hr
      cases hr
    rw [Function.update_of_ne hne]
    exact hr
  have new : Function.update S.archive revision (some compiled) revision = some compiled :=
    Function.update_self ..
  refine ⟨fun j s hs => ?_, fun j x hx => ?_, fun r c hr => ?_, fun r r' a b hr hr' hne ho s ha hb => ?_⟩
  · have hs : db1.stages.find? j = some s := by rw [← core.frame.stages]; exact hs
    rcases inserted.stage_cases hs with hold | hrow
    · obtain ⟨c, hc, hstage⟩ := A.stage j s hold
      exact ⟨c, old hc, hstage⟩
    · obtain ⟨i, p, hi, rfl⟩ := mem_stageRows_iff.mp hrow
      exact ⟨compiled, new, makeStage_of hi⟩
  · have hx : db1.sources.find? j = some x := by rw [← core.frame.sources]; exact hx
    have hmem := Table.mem_of_find? hx
    rw [seeded.sources, List.mem_append] at hmem
    rcases hmem with hold | hnew
    · obtain ⟨c, hc, y, hy, hitem⟩ := A.source x.id x (Table.find?_of_mem hold)
      exact ⟨c, old hc, y, hy, hitem⟩
    · have hitem : x.item ∈ compiled.inventory.sources.map SealedSource.item := by
        have hitems := seeded.items
        have hx := List.mem_map_of_mem (f := Source.item) hnew
        rw [hitems] at hx
        exact hx
      obtain ⟨y, hy, heq⟩ := List.mem_map.mp hitem
      refine ⟨compiled, ?_, y, hy, heq⟩
      rw [seeded.owned x hnew]
      exact new
  · have hgen : db'.generation r = db1.generation r := core.frame.generation r
    show (db'.generation r).isSome = true
    rw [hgen, inserted.generation]
    show (if r = revision then some 0 else S.store.generation r).isSome = true
    by_cases hrev : r = revision
    · rw [if_pos hrev]
      rfl
    · rw [if_neg hrev]
      dsimp only at hr
      rw [Function.update_of_ne hrev] at hr
      exact A.known r c hr
  · dsimp only at hr hr'
    by_cases h1 : r = revision
    · subst h1
      have h2 : r' ≠ r := fun h => hne h.symm
      rw [Function.update_of_ne h2] at hr'
      obtain rfl := Option.some.inj (hr.symm.trans new)
      exact faithful r' b hr' (ho.symm.trans owner) s ha hb
    · rw [Function.update_of_ne h1] at hr
      by_cases h2 : r' = revision
      · subst h2
        obtain rfl := Option.some.inj (hr'.symm.trans new)
        exact (faithful r a hr (ho.trans owner) s hb ha).symm
      · rw [Function.update_of_ne h2] at hr'
        exact A.shared r r' a b hr hr' hne ho s ha hb

theorem submit_transact {S S' : ArchivedStore D} {req : Request D} (h : S.submit req = .ok S') :
    ∃ op : Op, op.canonical D ∧ transact D.toDigests S.store op = .ok S'.store := by
  cases req with
  | submitRevision ids workloadId compiled snapshot truncated partialOutput usage revision v now =>
    simp only [ArchivedStore.submit, bind_eq_ok, pure_eq_ok] at h
    obtain ⟨db', h, rfl⟩ := h
    exact ⟨.admitRevision ids workloadId _ v now, trivial, h⟩
  | call call =>
    simp only [ArchivedStore.submit, bind_eq_ok, pure_eq_ok] at h
    obtain ⟨db', h, rfl⟩ := h
    exact ⟨call.op, call.canonical, h⟩

theorem Archived.submit {S S' : ArchivedStore D} {req : Request D} (A : Archived S)
    (faithful : req.faithful S) (h : S.submit req = .ok S') : Archived S' := by
  cases req with
  | submitRevision ids workloadId compiled snapshot truncated partialOutput usage revision v now =>
    simp only [ArchivedStore.submit, bind_eq_ok, pure_eq_ok] at h
    obtain ⟨db', h, rfl⟩ := h
    obtain rfl | ⟨owner, db1, done, core⟩ := admitRevision_parts h
    · -- the revision was there, so nothing is archived
      have hwritten : ((S.store.revisions.find? revision).isNone &&
          (S.store.revisions.find? revision).isSome) = false := by
        cases S.store.revisions.find? revision <;> rfl
      rw [if_neg (by rw [hwritten]; simp)]
      exact A
    · have inserted := insertRevisionRows_admitted done
      have hfresh : S.store.revisions.find? revision = none := inserted.revision
      have hgen : db'.generation revision = some 0 := by
        rw [core.frame.generation, inserted.generation]
        exact if_pos rfl
      have hthere : (db'.revisions.find? revision).isSome = true := by
        rw [Store.generation, Option.map_eq_some_iff] at hgen
        obtain ⟨r, hr, -⟩ := hgen
        rw [hr]
        rfl
      rw [if_pos (by rw [hfresh, hthere]; rfl)]
      exact A.admitRevision owner done core faithful
  | call call =>
    simp only [ArchivedStore.submit, bind_eq_ok, pure_eq_ok] at h
    obtain ⟨db', h, rfl⟩ := h
    exact A.call (transact_acts (Op.meets_closed S.store call.stays) h).sameArchive

/-! ## Runs -/

/-- What holds of an archived store after every run of faithful requests. -/
structure Held (S : ArchivedStore D) : Prop where
  linked : Linked (fun _ _ _ => True) S.store
  counted : Counted S.store
  canonical : Canonical D S.store
  keyed : Keyed D S.store
  owned : Owned S.store
  archived : Archived S

theorem Held.submit {S S' : ArchivedStore D} {req : Request D} (H : Held S)
    (faithful : req.faithful S) (h : S.submit req = .ok S') : Held S' := by
  obtain ⟨op, hop, ht⟩ := submit_transact h
  have acts : Acts D.toDigests Guard.none S.store S'.store :=
    transact_acts (Op.meets_none D.toDigests S.store op) ht
  have canonical := transact_canonical hop H.canonical H.linked ht
  exact ⟨acts.linked (any_rule _) H.linked, acts.counted H.linked H.counted, canonical,
    acts.keyed H.linked H.counted canonical H.keyed, acts.owned H.linked H.counted H.owned,
    H.archived.submit faithful h⟩

theorem held_empty : Held (ArchivedStore.empty D) := by
  refine ⟨linked_empty, ⟨fun _ _ h => ?_, fun _ _ h => ?_⟩, fun r h => ?_,
    ⟨fun _ _ h => ?_, fun d h => ?_, fun _ _ _ h => ?_, fun _ _ _ h => ?_⟩,
    ⟨fun _ _ h => ?_, fun _ _ h => ?_⟩,
    ⟨fun _ _ h => ?_, fun _ _ h => ?_, fun _ _ h => ?_, fun _ _ _ _ h => ?_⟩⟩
  all_goals cases h

theorem serve_held {requests : List (Request D)}
    (faithful : Meets ArchivedStore.submit Request.faithful (.empty D) requests) :
    Held (serve D requests) :=
  run_invariant (fun ho h H => H.submit ho h) faithful held_empty

end

end Metnos.Durable
