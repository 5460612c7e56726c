import Mathlib
import Metnos.Durable.Archive

/-!
# Durable.Meaning — what a reused result was computed from

`adopt_reusable_results` hands a unit the result of another revision's unit with the same key.
The key names the stage's fingerprint, the source's identity and content and the digests of the
dependencies; it names neither the inventory nor the other facts of a source.  So the inputs of
the two units agree in every run that admits no stage again over an inventory that means something
else to it, and an inventory that grew between two revisions makes them differ.
-/

namespace Metnos.Durable

open Transaction

section
variable {D : PlanDigests} {G : Guard} {db db' : Store}

/-! ## What an adoption commits -/

theorem CellStep.uncommitted {s : Stage} {g : ℕ} {aside : UnitRow → Prop}
    {result : UnitRow → ResultRow → Prop} {c c' : Cell} (h : CellStep s g aside result c c')
    (hs : c.unit.state ≠ .committed) (no : ∀ r, ¬ result c.unit r) :
    c'.unit.state ≠ .committed := by
  cases h with
  | amend => exact hs
  | extend expiry now unit => exact hs
  | commit a r now holds unit attempt first owner revision attemptId fence allowed =>
    exact absurd allowed (no r)
  | adopt attempt r now unit count active pure fresh first owner revision attemptId fence allowed =>
    exact absurd allowed (no r)
  | release a state cause target next error tokens now holds unit closed released =>
    intro hc
    obtain rfl : target = .committed := hc
    have targets := released.targets
    simp at targets
  | lease | start | promote | exhaust | cancel | setAside =>
    intro hc
    cases hc

theorem Acts.uncommitted (h : Acts D.toDigests G db db') (L : Linked (fun _ _ _ => True) db)
    {k : Key} {u : UnitRow} (hu : db.units.find? k = some u) (hs : u.state ≠ .committed)
    (no : ∀ v r, v.id = k → ¬ G.result v r) :
    ∃ u', db'.units.find? k = some u' ∧ u'.state ≠ .committed := by
  induction h with
  | refl => exact ⟨u, hu, hs⟩
  | tail pre last ih =>
    obtain ⟨v, hv, hvs⟩ := ih
    obtain ⟨w, s, g, hw, -, -, hcases⟩ := last.unit_cases (Acts.linked (any_rule G) pre L) hv
    refine ⟨w, hw, ?_⟩
    rcases hcases with ⟨-, hcell | ⟨now, hcell⟩ | step⟩ | ⟨-, hcell, -⟩
    · obtain rfl : w = v := congrArg Cell.unit hcell
      exact hvs
    · obtain rfl : w = v.markRoot now := congrArg Cell.unit hcell
      exact hvs
    · exact step.uncommitted hvs fun r => no v r (Table.key_of_find? hv)
    · obtain rfl : w = v := congrArg Cell.unit hcell
      exact hvs

/-- The guard that lets only the unit `k` be committed. -/
def Guard.only (k : Key) : Guard :=
  { aside := fun _ _ => True
    result := fun u _ => u.id = k
    grant := fun _ _ => True
    round := fun _ _ _ => True }

theorem adopt_committed {attemptId resultId now : ℕ} (L : Linked (fun _ _ _ => True) db)
    (N : Counted db) (h : adoptReusableResult D.toDigests db attemptId resultId now = .ok db')
    {k : Key} {u u' : UnitRow} (hu : db.units.find? k = some u) (hs : u.state ≠ .committed)
    (hu' : db'.units.find? k = some u') (hs' : u'.state = .committed) :
    ∃ c attempt result, reuseCandidate? db = some c ∧ u = c.unit ∧
      u'.committedResultId = some result ∧
      db'.results.find? result = some (reuseResult c attempt result now) := by
  have unchanged : ∀ {d : Store}, Acts D.toDigests Guard.still d db' →
      Linked (fun _ _ _ => True) d → d.units.find? k = some u → False := by
    intro d acts Ld hd
    obtain ⟨v, hv, hne⟩ := acts.uncommitted Ld hd hs fun _ _ _ hr => hr
    obtain rfl : u' = v := Option.some.inj (hu'.symm.trans hv)
    exact hne hs'
  unfold adoptReusableResult at h
  split at h
  · cases h
    exact (unchanged .refl L hu).elim
  rename_i c hc
  have F := reuseCandidate_facts hc
  split at h
  · simp only [bind_eq_ok, pure_eq_ok, Prod.exists] at h
    obtain ⟨n, db1, h, -, -, rfl⟩ := h
    exact (unchanged (settle_acts h) L hu).elim
  split at h
  · exact (unchanged (requireAttention_acts F trivial h) L hu).elim
  obtain ⟨db1, n, inserted, hunit, acts, h⟩ :=
    adoptResult_parts (D := D.toDigests) (G := Guard.only c.unit.id) F (fun _ _ _ => rfl) h
  have settled : Acts D.toDigests Guard.still db1 db' := settle_acts h
  -- no other unit is committed by it
  have hk : k = c.unit.id := by
    by_contra hne
    obtain ⟨v, hv, hvs⟩ := acts.uncommitted L hu hs fun v r hv hr => hne (hv.symm.trans hr)
    obtain ⟨w, hw, hws⟩ := settled.uncommitted (acts.linked (any_rule _) L) hv hvs
      fun _ _ _ hr => hr
    obtain rfl : u' = w := Option.some.inj (hu'.symm.trans hw)
    exact hws hs'
  subst hk
  obtain rfl : u = c.unit := Option.some.inj (hu.symm.trans F.unit)
  have E := settled.extends (acts.linked (any_rule _) L) (acts.counted L N)
  obtain ⟨v, hv, -, hstate⟩ := E.units _ _ hunit
  obtain rfl : u' = v := Option.some.inj (hu'.symm.trans hv)
  refine ⟨c, ⟨c.unit.id.owner, attemptId⟩, ⟨c.unit.id.owner, resultId⟩, hc, rfl, (hstate rfl).2, ?_⟩
  exact E.results _ _ (Table.find?_insert?_self inserted)

/-! ## Inputs as a function of the key -/

theorem filterMap_map_of_forall₂ {α β γ δ : Type} {R : α → β → Prop} {f : α → Option γ} {g : γ → δ}
    {h : β → δ} {l : List α} {ys : List β} (H : List.Forall₂ R l ys)
    (hR : ∀ a b, R a b → ∃ z, f a = some z ∧ g z = h b) : (l.filterMap f).map g = ys.map h := by
  induction H with
  | nil => rfl
  | cons hab _ ih =>
    obtain ⟨z, hz, hg⟩ := hR _ _ hab
    rw [List.filterMap_cons_some hz, List.map_cons, List.map_cons, hg, ih]

/-- The dependencies a semantic stands for. -/
def UnitSemantic.inputs (D : PlanDigests) (reduction : Option Reduction) (σ : UnitSemantic) :
    List DependencyInput :=
  (σ.dependencies.getD []).map (fun x =>
    dependencyInput D reduction x.1 (σ.slice D x.2.2) x.2.2 (D.schemaVersion x.2.2))

theorem Drawn.dependencyInputs_eq {S : ArchivedStore D} (H : Held S) {s : Stage} {u : UnitRow}
    {σ : UnitSemantic} (drawn : Drawn D S.store s u σ)
    (few : (unitDependenciesOf S.store u.id).length ≤ maxUnitDependencies) :
    dependencyInputs S s u = σ.inputs D s.reduction := by
  have bound := drawn.bound
  rw [List.take_of_length_le (by omega)] at bound
  unfold dependencyInputs plannedDependencies UnitSemantic.inputs
  refine filterMap_map_of_forall₂ bound fun d x hd => ?_
  obtain ⟨r, hr, hrole, hdigest, hslice⟩ := hd
  -- the unit that produced the result is there, because results belong to units
  cases hv : S.store.units.find? r.unitId with
  | none =>
    have hnone := (H.linked.orphans hv).2
    have hmem : r ∈ S.store.resultsOf r.unitId :=
      List.mem_filter.mpr ⟨Table.mem_of_find? hr, by simp⟩
    rw [hnone] at hmem
    cases hmem
  | some v =>
    refine ⟨(d, r, v), by simp [hr, hv], ?_⟩
    have hschema := (H.canonical r (Table.mem_of_find? hr)).2
    dsimp only
    rw [hrole, hslice, hdigest, hschema, hdigest]

theorem Drawn.few {s t : Stage} {u v : UnitRow} {σ : UnitSemantic} (drawn : Drawn D db s u σ)
    (drawn' : Drawn D db t v σ)
    (few : (unitDependenciesOf db u.id).length ≤ maxUnitDependencies) :
    (unitDependenciesOf db v.id).length ≤ maxUnitDependencies := by
  have h1 := drawn.bound.length_eq
  have h2 := drawn'.bound.length_eq
  rw [List.length_take] at h1 h2
  omega

theorem sourceFacts_eq {S : ArchivedStore D} (A : Archived S) {compiled : CompiledRevision D}
    {u : UnitRow} {σ : UnitSemantic} (hc : S.archive u.revisionId = some compiled)
    (h : SourceOf S.store u.revisionId u.sourceRowId σ) :
    (σ.sourceId = none ∧ sourceFacts S u = none) ∨
    ∃ y ∈ compiled.inventory.sources, σ.sourceId = some y.sourceId ∧
      σ.sourceDigest = some y.contentDigest ∧ sourceFacts S u = some y.facts := by
  cases hrow : u.sourceRowId with
  | none =>
    rw [hrow] at h
    exact .inl ⟨h.1, by simp [sourceFacts, hrow]⟩
  | some k =>
    rw [hrow] at h
    obtain ⟨x, hx, hr, hid, hdigest⟩ := h
    obtain ⟨compiled', hc', y, hy, hitem⟩ := A.source k x hx
    rw [hr, hc] at hc'
    obtain rfl := Option.some.inj hc'
    simp only [SealedSource.item, Source.item, SourceItem.mk.injEq] at hitem
    refine .inr ⟨y, hy, hid.trans (congrArg some hitem.1.symm),
      hdigest.trans (congrArg some hitem.2.2.1.symm), ?_⟩
    have unique : compiled.inventory.sources.find? (fun z => decide (z.sourceId = x.sourceId)) =
        some y := by
      have nodup := (compilePlan_accepted compiled.accepted).sourceIds
      cases hfind : compiled.inventory.sources.find? (fun z => decide (z.sourceId = x.sourceId)) with
      | none =>
        have hno := List.find?_eq_none.mp hfind y hy
        simp [hitem.1] at hno
      | some z =>
        have hz : z.sourceId = x.sourceId := by simpa using List.find?_some hfind
        rw [List.inj_on_of_nodup_map nodup (List.mem_of_find?_eq_some hfind) hy
          (hz.trans hitem.1.symm)]
    simp [sourceFacts, hrow, hx, hc, unique]

theorem sameReading_of_fingerprint (hD : CollisionFree D) {a b : CompiledRevision D}
    {x y : CompiledStage} (hx : Fingerprinted D a.inventory.digest x)
    (hy : Fingerprinted D b.inventory.digest y)
    (hdigest : x.invalidationDigest = y.invalidationDigest)
    (pure : x.stage.effectProfile = .pure) (units : x.stage.stageType ≠ .inventory)
    (shareable : Shareable x.stage a.inventory b.inventory) :
    SameReading x.stage a.inventory b.inventory := by
  rw [hx.digest, hy.digest] at hdigest
  have hprint := hD.stage _ _ hdigest
  simp only [stageFingerprint, StageFingerprint.mk.injEq] at hprint
  obtain ⟨-, -, -, hfacts, -⟩ := hprint
  rcases shareable pure units with hlisted | reading
  · -- the fingerprint names the inventory
    have hentry := hx.listed hlisted
    rw [hfacts] at hentry
    have hname := hy.named _ hentry
    have hsame : a.inventory.sources = b.inventory.sources := by
      have ha := (compilePlan_accepted a.accepted).sealing
      have hb := (compilePlan_accepted b.accepted).sealing
      rw [FactValue.digest.injEq, ha, hb] at hname
      exact hD.inventory _ _ hname
    refine ⟨fun _ => hsame, fun _ z hz w hw hid _ => ?_⟩
    have nodup := (compilePlan_accepted b.accepted).sourceIds
    rw [hsame] at hz
    rw [List.inj_on_of_nodup_map nodup hz hw hid]
  · exact reading

theorem inputValue_congr {S : ArchivedStore D} (A : Archived S) {s t : Stage} {u v : UnitRow}
    {a b : CompiledRevision D} {σ : UnitSemantic} {p : StageSpec}
    (ha : S.archive u.revisionId = some a) (hb : S.archive v.revisionId = some b)
    (hu : SourceOf S.store u.revisionId u.sourceRowId σ)
    (hv : SourceOf S.store v.revisionId v.sourceRowId σ)
    (reading : SameReading p a.inventory b.inventory)
    (dependencies : dependencyInputs S s u = dependencyInputs S t v)
    {binding : String × InputRef} (hbinding : binding ∈ p.inputBindings) :
    inputValue S s u binding.2 = inputValue S t v binding.2 := by
  have facts : p.bindsSource = true → sourceFacts S u = sourceFacts S v := by
    intro binds
    rcases sourceFacts_eq A ha hu with ⟨hnone, hfacts⟩ | ⟨x, hx, hid, hdigest, hfacts⟩
    · rcases sourceFacts_eq A hb hv with ⟨-, hfacts'⟩ | ⟨y, -, hid', -, -⟩
      · rw [hfacts, hfacts']
      · rw [hnone] at hid'
        cases hid'
    · rcases sourceFacts_eq A hb hv with ⟨hnone, -⟩ | ⟨y, hy, hid', hdigest', hfacts'⟩
      · rw [hnone] at hid
        cases hid
      · rw [hfacts, hfacts', reading.2 binds x hx y hy (Option.some.inj (hid.symm.trans hid'))
          (Option.some.inj (hdigest.symm.trans hdigest'))]
  obtain ⟨name, ref⟩ := binding
  cases ref with
  | literal value => rfl
  | revisionInventory =>
    have binds : p.bindsInventory = true := List.any_eq_true.mpr ⟨_, hbinding, by simp⟩
    simp [inputValue, ha, hb, reading.1 binds]
  | sourcePath =>
    have binds : p.bindsSource = true := List.any_eq_true.mpr ⟨_, hbinding, by simp⟩
    simp [inputValue, facts binds]
  | sourceRecord =>
    have binds : p.bindsSource = true := List.any_eq_true.mpr ⟨_, hbinding, by simp⟩
    simp [inputValue, facts binds]
  | dependencyResult stage field => simp [inputValue, dependencies]
  | dependencyEntries stage field => simp [inputValue, dependencies]

theorem inputsOf_eq {S : ArchivedStore D} {u : UnitRow} {s : Stage} {p : StageSpec}
    {compiled : CompiledRevision D} (hs : S.store.stages.find? u.stageId = some s)
    (hc : S.archive s.revisionId = some compiled)
    (hp : compiled.plan.stages[s.position]? = some p) :
    inputsOf S u = some (p.inputBindings.map (fun b => (b.1, inputValue S s u b.2))) := by
  have hspec : stageSpec S s = some p := by simp [stageSpec, hc, hp]
  simp [inputsOf, hs, hspec]

theorem Held.same_inputs {S : ArchivedStore D} (H : Held S) (hD : CollisionFree D) {u v : UnitRow}
    {s t : Stage} (hu : S.store.units.find? u.id = some u) (hv : S.store.units.find? v.id = some v)
    (hs : S.store.stages.find? u.stageId = some s) (ht : S.store.stages.find? v.stageId = some t)
    (pure : s.effectProfile = .pure) (key : v.unitKey = u.unitKey)
    (owner : v.id.owner = u.id.owner) (revision : v.revisionId ≠ u.revisionId)
    (few : (unitDependenciesOf S.store u.id).length ≤ maxUnitDependencies) :
    ∃ inputs, inputsOf S u = some inputs ∧ inputsOf S v = some inputs := by
  obtain ⟨s', σ, hs', htype, drawn⟩ := H.keyed.unit _ _ hu
  obtain rfl : s = s' := Option.some.inj (hs.symm.trans hs')
  obtain ⟨t', τ, ht', -, drawn'⟩ := H.keyed.unit _ _ hv
  obtain rfl : t = t' := Option.some.inj (ht.symm.trans ht')
  obtain rfl : σ = τ := hD.unitKey σ τ (drawn.key.symm.trans (key.symm.trans drawn'.key))
  obtain ⟨a, ha, p, hp, hptype, hpeffect, hpreduction, x, rfl, hx, hxdigest⟩ :=
    H.archived.stage _ _ hs
  obtain ⟨b, hb, q, hq, -, -, hqreduction, y, rfl, hy, hydigest⟩ := H.archived.stage _ _ ht
  -- one fingerprint, so one specification of the stage
  have hdigest : x.invalidationDigest = y.invalidationDigest :=
    hxdigest.symm.trans (drawn.fingerprint.symm.trans (drawn'.fingerprint.trans hydigest))
  have hspec : x.stage = y.stage := by
    have hprint := hdigest
    rw [hx.digest, hy.digest] at hprint
    exact congrArg StageFingerprint.stage (hD.stage _ _ hprint)
  obtain ⟨s'', hs'', hsr⟩ := H.counted.stage _ _ hu
  obtain rfl : s = s'' := Option.some.inj (hs.symm.trans hs'')
  obtain ⟨t'', ht'', htr⟩ := H.counted.stage _ _ hv
  obtain rfl : t = t'' := Option.some.inj (ht.symm.trans ht'')
  have shareable : Shareable x.stage a.inventory b.inventory := by
    refine H.archived.shared _ _ a b ha hb ?_ ?_ _ (List.mem_of_getElem? hp) ?_
    · rw [← hsr, ← htr]
      exact revision.symm
    · rw [← hsr, ← htr, ← H.owned.unit _ _ hu, ← H.owned.unit _ _ hv]
      exact owner.symm
    · rw [hspec]
      exact List.mem_of_getElem? hq
  have reading := sameReading_of_fingerprint hD hx hy hdigest (hpeffect.symm.trans pure)
    (by rw [← hptype]; exact htype) shareable
  have dependencies : dependencyInputs S s u = dependencyInputs S t v := by
    rw [drawn.dependencyInputs_eq H few, drawn'.dependencyInputs_eq H (drawn.few drawn' few),
      hpreduction, hqreduction, hspec]
  refine ⟨_, inputsOf_eq hs ha hp, ?_⟩
  rw [inputsOf_eq ht hb hq, ← hspec]
  congr 1
  refine List.map_congr_left fun binding hbinding => ?_
  rw [inputValue_congr H.archived (hsr ▸ ha) (htr ▸ hb) drawn.source drawn'.source reading
    dependencies hbinding]

/-! ## Reuse -/

/-- A unit that a round of reuse commits would have been handed the inputs of the unit whose result
it takes over. -/
def ReuseKeepsInputs (S : ArchivedStore D) : Prop :=
  ∀ (attemptId resultId now : ℕ) (db' : Store),
    adoptReusableResult D.toDigests S.store attemptId resultId now = .ok db' →
    ∀ k u u', S.store.units.find? k = some u → u.state ≠ .committed →
      db'.units.find? k = some u' → u'.state = .committed →
      ∃ prior, Adopted S.store db' u prior ∧
        ∃ inputs, inputsOf S u = some inputs ∧ inputsOf S prior = some inputs

/-- **Reuse preserves the meaning** in every run that admits no stage of an owner again over an
inventory that means something else to it. -/
theorem reuse_preserves_inputs (hD : CollisionFree D) (requests : List (Request D))
    (faithful : Meets ArchivedStore.submit Request.faithful (.empty D) requests) :
    ReuseKeepsInputs (serve D requests) := by
  intro attemptId resultId now db' h k u u' hu waiting hu' committed
  have H := serve_held faithful
  obtain ⟨c, attempt, result, hc, rfl, hresult, hnew⟩ :=
    adopt_committed H.linked H.counted h hu waiting hu' committed
  have F := reuseCandidate_facts hc
  obtain ⟨⟨prior, hmem, hprior⟩, -, reusable⟩ := reuseCandidate_prior hc
  obtain ⟨t, source, ht, -, hsource, hfind, owner, key, revision, hcommitted, -⟩ :=
    priorResult_facts hprior
  obtain rfl : c.unit.id = k := Table.key_of_find? hu
  have hp := Table.find?_of_mem hmem
  have few : (unitDependenciesOf (serve D requests).store c.unit.id).length ≤
      maxUnitDependencies := by
    simp only [Durable.reusable, Bool.and_eq_true, decide_eq_true_eq] at reusable
    obtain ⟨⟨-, hcount⟩, hrows⟩ := reusable
    rw [unitDependenciesOf, List.length_insertionSort, ← List.countP_eq_length_filter]
    omega
  exact ⟨prior, ⟨F.unit, hp, hcommitted, owner, revision, source, c.prior, u', result, _, hsource,
      hfind, hu', hresult, hnew, rfl, rfl, rfl⟩,
    H.same_inputs hD F.unit hp F.stage ht F.pure key owner revision few⟩

theorem faithful_of_inventory {I : SealedInventory} {S : ArchivedStore D}
    {requests : List (Request D)} (archived : ∀ r c, S.archive r = some c → c.inventory = I)
    (same : ∀ req ∈ requests, ∀ ids k c n a b u r v t, req = .submitRevision ids k c n a b u r v t →
      c.inventory = I) :
    Meets ArchivedStore.submit Request.faithful S requests := by
  induction requests generalizing S with
  | nil => trivial
  | cons req requests ih =>
    have rest := fun r hr => same r (List.mem_cons_of_mem _ hr)
    refine ⟨?_, ih (fun r c hc => ?_) rest⟩
    · cases req with
      | call call => trivial
      | submitRevision ids k c n a b u r v t =>
        intro r' earlier he _ s _ _ _ _
        rw [archived r' earlier he, same _ (List.mem_cons_self ..) _ _ c _ _ _ _ _ _ _ rfl]
        exact .inr ⟨fun _ => rfl, fun _ x hx y hy hid _ => by
          have nodup := (compilePlan_accepted c.accepted).sourceIds
          rw [same _ (List.mem_cons_self ..) _ _ c _ _ _ _ _ _ _ rfl] at nodup
          rw [List.inj_on_of_nodup_map nodup hx hy hid]⟩
    · unfold commit at hc
      split at hc
      · rename_i S' h
        cases req with
        | call call =>
          simp only [ArchivedStore.submit, bind_eq_ok, pure_eq_ok] at h
          obtain ⟨db', -, rfl⟩ := h
          exact archived r c hc
        | submitRevision ids k c' n a b u r' v t =>
          simp only [ArchivedStore.submit, bind_eq_ok, pure_eq_ok] at h
          obtain ⟨db', -, rfl⟩ := h
          dsimp only at hc
          split at hc
          · by_cases hr : r = r'
            · subst hr
              rw [Function.update_self, Option.some.injEq] at hc
              subst hc
              exact same _ (List.mem_cons_self ..) _ _ c' _ _ _ _ _ _ _ rfl
            · rw [Function.update_of_ne hr] at hc
              exact archived r c hc
          · exact archived r c hc
      · exact archived r c hc

end

/-! ## A run without collisions

Digests that number the values of the run and encode every other value beyond them. -/

instance encodableChar : Encodable Char :=
  Encodable.ofLeftInjection Char.toNat (fun n => some (Char.ofNat n)) (fun c => by simp)

instance encodableString : Encodable String :=
  Encodable.ofLeftInjection String.toList (fun l => some (String.ofList l)) (fun s => by simp)

deriving instance Encodable for StageType
deriving instance Encodable for RunnerKind
deriving instance Encodable for DurableEffect
deriving instance Encodable for Cardinality
deriving instance Encodable for SourceState
deriving instance Encodable for ErrorClass
deriving instance Encodable for UnitError
deriving instance Encodable for ShardKey
deriving instance Encodable for UnitSemantic
deriving instance Encodable for Reduction
deriving instance Encodable for InputRef
deriving instance Encodable for RetryPolicy
deriving instance Encodable for InvalidationKey
deriving instance Encodable for Resources
deriving instance Encodable for StageSpec
deriving instance Encodable for FactValue
deriving instance Encodable for StageFingerprint
deriving instance Encodable for SealedSource

/-- The place of a value in the list, or a number beyond the list. -/
def numbered {α : Type} [DecidableEq α] [Encodable α] (values : List α) (a : α) : ℕ :=
  if a ∈ values then values.idxOf a else values.length + Encodable.encode a

theorem numbered_injective {α : Type} [DecidableEq α] [Encodable α] (values : List α) {a b : α}
    (h : numbered values a = numbered values b) : a = b := by
  unfold numbered at h
  split at h <;> split at h
  · rename_i ha hb
    exact (List.idxOf_inj ha).mp h
  · rename_i ha hb
    have := List.idxOf_lt_length_of_mem ha
    omega
  · rename_i ha hb
    have := List.idxOf_lt_length_of_mem hb
    omega
  · exact Encodable.encode_injective (by omega)

def surveyInventory : StageSpec :=
  { key := "inventory"
    stageType := .inventory
    dependsOn := []
    runnerKind := .internal
    runnerName := "sealed_inventory"
    effectProfile := .pure
    cardinality := .singleton
    maxUnits := 1
    entryIdentityField := none
    reduction := none
    inputBindings := [("inventory", .revisionInventory)]
    outputSchema := "inventory/1"
    retry := ⟨1, 0, 0, [.executorTransient]⟩
    timeoutS := 60
    invalidationKeys := [.runnerContractDigest]
    resources := ⟨1, 0, 0, 0, 0, 0⟩
    requiredFlag := true
    placement := none }

/-- One pure unit that reads the whole inventory. -/
def survey : StageSpec :=
  { surveyInventory with
    key := "survey"
    stageType := .validate
    dependsOn := ["inventory"]
    runnerKind := .executor
    runnerName := "survey"
    outputSchema := "survey/1" }

def surveyPlan : PlanSpec :=
  { stages := [surveyInventory, survey]
    budgets := ⟨1000, 1000, 1000, 1000, 1000, 1000, 4⟩
    maxUnits := 100
    maxAttemptsPerUnit := 4
    maxSources := 10
    maxTotalBytes := 1000
    failureDeclared := false
    toleratedErrorClasses := []
    requiredArtifacts := [] }

def surveyContract : RunnerContract :=
  { kind := .executor
    name := "survey"
    contractDigest := 7
    allowedEffects := [.pure]
    inputNames := ["inventory"]
    requiredInputNames := ["inventory"]
    inputTypes := [("inventory", "object")]
    outputSchemaNames := ["survey/1"]
    modelBindingDigest := none
    promptDigest := none
    modelMaxCalls := none
    modelMaxInputTokens := none
    modelMaxOutputTokens := none
    modelCostPolicyZero := false
    supportsHierarchicalReduction := false }

def surveySchema : OutputSchema := ⟨3, [], []⟩

def surveySource (id : ℕ) : SealedSource := ⟨id, id, "d", "a.txt", "file", 10, 0, 50 + id, .ready, true⟩

/-- What a run with the digests hashes: two stages, one unit, and the inventories of `n` sources. -/
def surveyDigests : PlanDigests :=
  { unitKey := numbered [⟨"survey", 1, none, none, none, none⟩]
    retryJitter := fun _ _ => 0
    digestBound := fun _ _ _ => true
    stage := numbered [
      ⟨surveyInventory, 0, 3, [(.runnerContractDigest, .digest 0)], none⟩,
      ⟨survey, 7, 3, [(.runnerContractDigest, .digest 7)], none⟩]
    inventory := numbered [[surveySource 0], [surveySource 0, surveySource 1]]
    bindings := fun _ => 0
    dependencies := fun _ => 0
    plan := fun _ => 0
    internalRunner := fun _ => 0
    payloadJson := fun _ => "\x7b\x7d"
    payload := fun _ => ⟨2, none⟩
    schemaVersion := fun _ => "survey/1"
    entriesObject := fun text => text }

theorem surveyDigests_collisionFree : CollisionFree surveyDigests :=
  ⟨fun _ _ => numbered_injective _, fun _ _ => numbered_injective _, fun _ _ => numbered_injective _⟩

def surveyRunners (kind : RunnerKind) (name : String) : Option RunnerContract :=
  if kind = .executor ∧ name = "survey" then some surveyContract else none

def surveySealed (sources : List SealedSource) : SealedInventory :=
  ⟨sources, surveyDigests.inventory sources, true⟩

def surveyGraph (sources : List SealedSource) : Option (List CompiledStage) :=
  compilePlan surveyDigests surveyRunners (fun _ => some surveySchema) surveyPlan
    (surveySealed sources)

def surveyRevision (sources : List SealedSource) (h : (surveyGraph sources).isSome = true) :
    CompiledRevision surveyDigests :=
  ⟨surveyRunners, fun _ => some surveySchema, surveyPlan, surveySealed sources,
    (surveyGraph sources).get h, (Option.some_get h).symm⟩

/-- Draft, admission and start of workload `id` over the inventory. -/
def surveyStart (id now : ℕ) (revision : CompiledRevision surveyDigests) :
    List (Request surveyDigests) :=
  [.call ⟨.createDraft ⟨1, id⟩ id 0 .normal now, rfl, trivial⟩,
    .submitRevision (sampleIds (100 * id)) ⟨1, id⟩ revision 0 false false true ⟨1, id⟩ 1 now,
    .call ⟨.transitionWorkload ⟨1, id⟩ .queued 2 now, rfl, trivial⟩]

/-- The lease of the first workload's unit. -/
def surveyLease : Lease :=
  { workloadId := ⟨1, 1⟩
    revisionId := ⟨1, 1⟩
    stageId := ⟨1, 101⟩
    stageKey := "survey"
    unitId := ⟨1, 100⟩
    unitKey := 0
    attemptId := ⟨1, 1000⟩
    attemptNumber := 1
    fence := 1
    workerId := 1
    leaseExpiresAt := 1000004
    runnerKind := .executor
    runnerName := "survey"
    effectProfile := .pure
    outputSchemaVersion := "survey/1"
    resourceClaims := survey.resources
    retryPolicy := survey.retry
    timeoutS := 60
    manualRetry := false }

/-- One workload is surveyed; a second one starts with the same plan. -/
def surveyRun (first second : CompiledRevision surveyDigests) : List (Request surveyDigests) :=
  surveyStart 1 1 first ++
  [.call ⟨.claimNext 1 4 1000000 ⟨[(.executor, "survey")], ⟨9, 9, 9, 9, 9, 9⟩, [.pure]⟩ 1000, rfl,
      trivial⟩,
    .call ⟨.markRunning surveyLease 5, rfl, trivial⟩,
    .call ⟨.commitResult surveyLease ⟨"survey/1", ⟨2, none⟩, 3⟩ [] ⟨1, 2000⟩ 6, rfl, rfl, rfl⟩] ++
  surveyStart 2 7 second

def oneSource : CompiledRevision surveyDigests :=
  surveyRevision [surveySource 0] (by decide +kernel)

def twoSources : CompiledRevision surveyDigests :=
  surveyRevision [surveySource 0, surveySource 1] (by decide +kernel)

/-- The unit of the second workload, after a round of reuse. -/
def surveyReused (S : ArchivedStore surveyDigests) : Option UnitState :=
  (adoptReusableResult surveyDigests.toDigests S.store 3000 3001 20).toOption.bind
    (fun db => (db.units.find? ⟨1, 201⟩).map UnitRow.state)

theorem surveyReused_some {S : ArchivedStore surveyDigests} (h : surveyReused S = some .committed) :
    ∃ db' u', adoptReusableResult surveyDigests.toDigests S.store 3000 3001 20 = .ok db' ∧
      db'.units.find? ⟨1, 201⟩ = some u' ∧ u'.state = .committed := by
  unfold surveyReused at h
  cases hadopt : adoptReusableResult surveyDigests.toDigests S.store 3000 3001 20 with
  | error e =>
    rw [hadopt] at h
    cases h
  | ok db' =>
    rw [hadopt] at h
    obtain ⟨u', hu', hs⟩ := Option.map_eq_some_iff.mp h
    exact ⟨db', u', rfl, hu', hs⟩

/-- The first workload surveyed one source and the second one is to survey two: it takes over the
survey of one. -/
theorem reuse_changes_inputs : ¬ ∀ (D : PlanDigests) (requests : List (Request D)),
    CollisionFree D → ReuseKeepsInputs (serve D requests) := by
  intro keeps
  have keeps := keeps surveyDigests (surveyRun oneSource twoSources) surveyDigests_collisionFree
  have hreused : surveyReused (serve surveyDigests (surveyRun oneSource twoSources)) =
      some .committed := by decide +kernel
  obtain ⟨db', u', hadopt, hu', hcommitted⟩ := surveyReused_some hreused
  have differ : ((serve surveyDigests (surveyRun oneSource twoSources)).store.units.find?
      ⟨1, 201⟩).any (fun u => decide (u.state ≠ .committed) &&
        (serve surveyDigests (surveyRun oneSource twoSources)).store.units.rows.all (fun p =>
          decide (p.revisionId = u.revisionId) ||
          decide (inputsOf (serve surveyDigests (surveyRun oneSource twoSources)) p ≠
            inputsOf (serve surveyDigests (surveyRun oneSource twoSources)) u))) = true := by
    decide +kernel
  obtain ⟨u, hu, hall⟩ := (Option.any_eq_true _ _).mp differ
  simp only [Bool.and_eq_true, decide_eq_true_eq, List.all_eq_true, Bool.or_eq_true] at hall
  obtain ⟨prior, adopted, inputs, h1, h2⟩ :=
    keeps 3000 3001 20 db' hadopt _ u u' hu hall.1 hu' hcommitted
  rcases hall.2 prior (Table.mem_of_find? adopted.found) with h | h
  · exact adopted.revision h
  · exact h (h2.trans h1.symm)

/-- Over the same source the survey is taken over, and it read the same. -/
theorem reuse_preserves_inputs_sample :
    surveyReused (serve surveyDigests (surveyRun oneSource oneSource)) = some .committed ∧
    ReuseKeepsInputs (serve surveyDigests (surveyRun oneSource oneSource)) := by
  refine ⟨by decide +kernel, reuse_preserves_inputs surveyDigests_collisionFree _ ?_⟩
  refine faithful_of_inventory (I := oneSource.inventory) (fun r c hc => ?_) ?_
  · cases hc
  · intro req hreq ids k c n a b u r v t heq
    subst heq
    simp only [surveyRun, surveyStart, List.mem_append, List.mem_cons, List.not_mem_nil, or_false,
      reduceCtorEq, false_or, or_self, Request.submitRevision.injEq] at hreq
    rcases hreq with ⟨-, -, rfl, -⟩ | ⟨-, -, rfl, -⟩ <;> rfl

end Metnos.Durable
