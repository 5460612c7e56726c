import Mathlib.Logic.Function.Basic
import Metnos.Durable.Compile
import Metnos.Durable.Completed
import Metnos.Durable.System

/-!
# Durable.Provenance — what a runner is handed

The store keeps, next to the rows of `Durable.Models`, the plan and the inventory of every admitted
revision; here they stay together in an archive.  `inputsOf` is the part of `execution_inputs` that
a runner works with: for every argument of the stage, the value its binding stands for.
-/

namespace Metnos.Durable

/-! ## The archived store -/

/-- The store with `plan_json`, `inventory_json` and the full source rows of its revisions. -/
structure ArchivedStore (D : PlanDigests) where
  store : Store
  archive : Key → Option (CompiledRevision D)

def ArchivedStore.empty (D : PlanDigests) : ArchivedStore D := ⟨.empty, fun _ => none⟩

def Op.admits : Op → Bool
  | .admitRevision .. => true
  | _ => false

/-- What the constructor of `ValidatedResult` enforces: the payload is the one the digest stands
for. -/
def Op.canonical (D : PlanDigests) : Op → Prop
  | .commitResult _ validated _ _ _ => validated.payload = D.payload validated.digest ∧
      validated.schemaVersion = D.schemaVersion validated.digest
  | _ => True

/-- A call that admits nothing. -/
structure StoreCall (D : PlanDigests) where
  op : Op
  stays : op.admits = false
  canonical : op.canonical D

inductive Request (D : PlanDigests)
  | submitRevision (ids : FreshIds) (workloadId : Key) (compiled : CompiledRevision D)
      (snapshotDigest : ℕ) (capsTruncated partialOutputAccepted usageComplete : Bool)
      (revisionId : Key) (expectedVersion now : ℕ)
  | call (call : StoreCall D)

/-- One transaction; the columns of a revision are written with its row. -/
def ArchivedStore.submit {D : PlanDigests} (S : ArchivedStore D) :
    Request D → Tx (ArchivedStore D)
  | .submitRevision ids workloadId compiled snapshotDigest capsTruncated partialOutputAccepted
      usageComplete revisionId expectedVersion now => do
    let db ← admitRevision D.toDigests ids S.store workloadId (compiled.admission snapshotDigest
      capsTruncated partialOutputAccepted usageComplete revisionId) expectedVersion now
    let written := (S.store.revisions.find? revisionId).isNone &&
      (db.revisions.find? revisionId).isSome
    return ⟨db, if written then Function.update S.archive revisionId (some compiled)
      else S.archive⟩
  | .call call => do
    let db ← transact D.toDigests S.store call.op
    return ⟨db, S.archive⟩

/-- The store after a run of requests. -/
abbrev serve (D : PlanDigests) (requests : List (Request D)) : ArchivedStore D :=
  Transaction.run ArchivedStore.submit (.empty D) requests

/-! ## Inputs -/

/-- The `source` of `execution_inputs`. -/
structure SourceFacts where
  sourceId : ℕ
  ordinal : ℕ
  deviceId : String
  locatorRedacted : String
  kind : String
  sizeBytes : ℕ
  mtimeNs : ℕ
  contentDigest : ℕ
deriving DecidableEq

def SealedSource.facts (x : SealedSource) : SourceFacts :=
  ⟨x.sourceId, x.ordinal, x.deviceId, x.locatorRedacted, x.kind, x.sizeBytes, x.mtimeNs,
    x.contentDigest⟩

/-- The facts a resolved path is attested by. -/
structure AttestedFacts where
  sourceId : ℕ
  deviceId : String
  contentDigest : ℕ
  sizeBytes : ℕ
  mtimeNs : ℕ
deriving DecidableEq

def SourceFacts.attested (x : SourceFacts) : AttestedFacts :=
  ⟨x.sourceId, x.deviceId, x.contentDigest, x.sizeBytes, x.mtimeNs⟩

/-- One element of `dependencies`, without the identifiers of its rows. -/
structure DependencyInput where
  stageKey : String
  digest : ℕ
  schemaVersion : String
  payload : String
  entrySelected : Bool
deriving DecidableEq

/-- The value a binding stands for. -/
inductive InputValue
  | literal (value : String)
  | inventory (sources : Option (List SealedSource))
  | path (source : Option AttestedFacts)
  | record (source : Option SourceFacts)
  | result (field : Option String) (dependencies : List DependencyInput)
  | entries (field : Option String) (dependencies : List DependencyInput)
deriving DecidableEq

/-- `substr(text, offset + 1, length)`. -/
def substring (text : String) (offset length : ℕ) : String :=
  String.ofList ((text.toList.drop offset).take length)

/-- The part of a result that a dependency selects. -/
def selectPayload (D : PlanDigests) (reduction : Option Reduction) (slice : Option (ℕ × ℕ))
    (digest : ℕ) : String :=
  match reduction, slice with
  | some _, _ => D.entriesObject (D.payloadJson digest)
  | none, none => D.payloadJson digest
  | none, some (offset, length) => substring (D.payloadJson digest) offset length

def dependencyInput (D : PlanDigests) (reduction : Option Reduction) (role : String)
    (slice : Option (ℕ × ℕ)) (digest : ℕ) (schemaVersion : String) : DependencyInput :=
  ⟨role, digest, schemaVersion, selectPayload D reduction slice digest, slice.isSome⟩

section
variable {D : PlanDigests} (S : ArchivedStore D)

/-- The dependencies of a unit, `ORDER BY planned.ordinal`. -/
def dependencyInputs (s : Stage) (u : UnitRow) : List DependencyInput :=
  (plannedDependencies S.store u.id).map (fun d =>
    dependencyInput D s.reduction d.1.role d.1.slice d.2.1.digest d.2.1.schemaVersion)

/-- The source row of a unit with all its columns. -/
def sourceFacts (u : UnitRow) : Option SourceFacts := do
  let row ← u.sourceRowId.bind S.store.sources.find?
  let compiled ← S.archive u.revisionId
  (compiled.inventory.sources.find? (fun x => x.sourceId = row.sourceId)).map SealedSource.facts

/-- The entry of `plan.stages` that a stage row was written from. -/
def stageSpec (s : Stage) : Option StageSpec := do
  let compiled ← S.archive s.revisionId
  compiled.plan.stages[s.position]?

def inputValue (s : Stage) (u : UnitRow) : InputRef → InputValue
  | .literal value => .literal value
  | .revisionInventory => .inventory ((S.archive u.revisionId).map (fun c => c.inventory.sources))
  | .sourcePath => .path ((sourceFacts S u).map SourceFacts.attested)
  | .sourceRecord => .record (sourceFacts S u)
  | .dependencyResult stage field =>
    .result field ((dependencyInputs S s u).filter (fun d => d.stageKey = stage))
  | .dependencyEntries stage field =>
    .entries field ((dependencyInputs S s u).filter (fun d => d.stageKey = stage))

/-- The arguments `execution_inputs` hands to the runner of a unit. -/
def inputsOf (u : UnitRow) : Option (List (String × InputValue)) := do
  let stage ← S.store.stages.find? u.stageId
  let spec ← stageSpec S stage
  return spec.inputBindings.map (fun b => (b.1, inputValue S stage u b.2))

end

/-! ## Stages that read more than their key says -/

def StageSpec.bindsInventory (s : StageSpec) : Bool :=
  s.inputBindings.any (fun b => b.2 = .revisionInventory)

def StageSpec.bindsSource (s : StageSpec) : Bool :=
  s.inputBindings.any (fun b => b.2 = .sourcePath || b.2 = .sourceRecord)

/-- Two inventories that mean the same to a stage: equal, if it reads the inventory, and with equal
records for a source of equal identity and content, if it reads the source. -/
def SameReading (s : StageSpec) (a b : SealedInventory) : Prop :=
  (s.bindsInventory = true → a.sources = b.sources) ∧
  (s.bindsSource = true → ∀ x ∈ a.sources, ∀ y ∈ b.sources, x.sourceId = y.sourceId →
    x.contentDigest = y.contentDigest → x.facts = y.facts)

/-- A stage that can be admitted over both inventories: its results are not reused, its fingerprint
names the inventory, or the inventories mean the same to it. -/
def Shareable (s : StageSpec) (a b : SealedInventory) : Prop :=
  s.effectProfile = .pure → s.stageType ≠ .inventory →
    .sourceDigest ∈ s.invalidationKeys ∨ SameReading s a b

/-- An admission repeats only shareable stages of the owner's earlier revisions. -/
def Request.faithful {D : PlanDigests} (S : ArchivedStore D) : Request D → Prop
  | .submitRevision _ workloadId compiled _ _ _ _ _ _ _ => ∀ r earlier, S.archive r = some earlier →
      r.owner = workloadId.owner → ∀ s ∈ compiled.plan.stages, s ∈ earlier.plan.stages →
      Shareable s compiled.inventory earlier.inventory
  | .call _ => True

/-- No two texts with one digest. -/
structure CollisionFree (D : PlanDigests) : Prop where
  unitKey : ∀ a b, D.unitKey a = D.unitKey b → a = b
  stage : ∀ a b, D.stage a = D.stage b → a = b
  inventory : ∀ a b, D.inventory a = D.inventory b → a = b

theorem SameReading.symm {s : StageSpec} {a b : SealedInventory} (h : SameReading s a b) :
    SameReading s b a :=
  ⟨fun hs => (h.1 hs).symm, fun hs x hx y hy hid hdigest =>
    (h.2 hs y hy x hx hid.symm hdigest.symm).symm⟩

theorem Shareable.symm {s : StageSpec} {a b : SealedInventory} (h : Shareable s a b) :
    Shareable s b a := fun pure units => (h pure units).imp_right SameReading.symm

/-- A step gave the unit `u` the result of `prior`, a committed unit of another revision. -/
structure Adopted (db db' : Store) (u prior : UnitRow) : Prop where
  unit : db.units.find? u.id = some u
  found : db.units.find? prior.id = some prior
  committed : prior.state = .committed
  owner : prior.id.owner = u.id.owner
  revision : prior.revisionId ≠ u.revisionId
  taken : ∃ source old u' result new, prior.committedResultId = some source ∧
    db.results.find? source = some old ∧ db'.units.find? u.id = some u' ∧
    u'.committedResultId = some result ∧ db'.results.find? result = some new ∧
    new.digest = old.digest ∧ new.schemaVersion = old.schemaVersion ∧ new.payload = old.payload

end Metnos.Durable

/-!
## What the key of a unit says about it

Every unit key is the digest of a semantic that describes the unit: its stage, its source and, in
order, its dependencies.  What the semantic says stays true in every later store, because rows
stay and no operation changes what a key was made from.
-/

namespace Metnos.Durable

open Transaction

/-! ## Semantics -/

/-- The place of the first entry whose field has the value. -/
def firstEntry (field : String) (value : ℕ) (p : Payload) : Option (ℕ × ℕ) :=
  (((p.entries.map Prod.snd).getD []).find? (fun item =>
    item.fields.any (fun fields => fields.lookup field = some value))).map
    (fun item => (item.start, item.length))

/-- The part of its dependency that a unit with the semantic is bound to. -/
def UnitSemantic.slice (D : PlanDigests) (σ : UnitSemantic) (digest : ℕ) : Option (ℕ × ℕ) :=
  match σ.shardKey with
  | some (.entry field value) => firstEntry field value (D.payload digest)
  | _ => none

/-- The semantic names the source in the row `k`, which the revision sealed. -/
def SourceOf (db : Store) (revision : Key) (k : Option Key) (σ : UnitSemantic) : Prop :=
  match k with
  | none => σ.sourceId = none ∧ σ.sourceDigest = none
  | some k => ∃ x, db.sources.find? k = some x ∧ x.revisionId = revision ∧
      σ.sourceId = some x.sourceId ∧ σ.sourceDigest = some x.contentDigest

/-- A dependency row and what the semantic says of it. -/
def Binds (D : PlanDigests) (db : Store) (σ : UnitSemantic) (d : UnitDependency)
    (x : String × ℕ × ℕ) : Prop :=
  ∃ r, db.results.find? d.sourceResultId = some r ∧ d.role = x.1 ∧ r.digest = x.2.2 ∧
    d.slice = σ.slice D r.digest

/-- The unit `u` of the stage `s` has the key of `σ`, and `σ` describes it. -/
structure Drawn (D : PlanDigests) (db : Store) (s : Stage) (u : UnitRow) (σ : UnitSemantic) :
    Prop where
  key : u.unitKey = D.unitKey σ
  stageKey : σ.stageKey = s.stageKey
  fingerprint : σ.stageInvalidationDigest = s.invalidationDigest
  source : SourceOf db u.revisionId u.sourceRowId σ
  bound : List.Forall₂ (Binds D db σ) ((unitDependenciesOf db u.id).take (maxUnitDependencies + 1))
    (σ.dependencies.getD [])

/-- The stage has a unit for the entry with the value in the field, of the result `r` of the unit
`u`. -/
def EntrySeen (D : PlanDigests) (db : Store) (s p : Stage) (u : UnitRow) (r : ResultRow)
    (field : String) (value : ℕ) : Prop :=
  ∃ v σ, db.units.find? v.id = some v ∧ v.stageId = s.id ∧ v.revisionId = s.revisionId ∧
    v.unitKey = D.unitKey σ ∧ σ.stageKey = s.stageKey ∧
    σ.stageInvalidationDigest = s.invalidationDigest ∧ SourceOf db s.revisionId u.sourceRowId σ ∧
    σ.dependencies = some [(p.stageKey, u.unitKey, r.digest)] ∧
    σ.shardKey = some (.entry field value)

/-- The first `n` entries of a committed dependency have units. -/
def Reached (D : PlanDigests) (db : Store) (s : Stage) (field : String) (parent : Key) (n : ℕ) :
    Prop :=
  ∃ p u r bytes items, db.units.find? parent = some u ∧ u.state = .committed ∧
    db.stages.find? u.stageId = some p ∧ committedResult db u = some r ∧
    r.payload.entries = some (bytes, items) ∧ ∀ j < n, ∀ item, items[j]? = some item →
      ∃ fields value, item.fields = some fields ∧ fields.lookup field = some value ∧
        EntrySeen D db s p u r field value

/-- A cursor inside the entries of a dependency has passed only entries with units. -/
def Visited (D : PlanDigests) (db : Store) (s : Stage) (c : StageCursor) : Prop :=
  ∀ field, s.reduction = none → s.cardinality = .perDependency →
    s.entryIdentityField = some field → c.attentionCode = none → 0 ≤ c.entryOffset →
    ∃ parent, c.parentUnitId = some parent ∧ Reached D db s field parent c.entryOffset.toNat

/-- Results are the ones their digests stand for. -/
def Canonical (D : PlanDigests) (db : Store) : Prop :=
  ∀ r ∈ db.results.rows, r.payload = D.payload r.digest ∧ r.schemaVersion = D.schemaVersion r.digest

structure Keyed (D : PlanDigests) (db : Store) : Prop where
  unit : ∀ k u, db.units.find? k = some u → ∃ s σ, db.stages.find? u.stageId = some s ∧
    s.stageType ≠ .inventory ∧ Drawn D db s u σ
  owned : ∀ d ∈ db.unitDependencies, (db.units.find? d.unitId).isSome = true
  entries : ∀ k s c, db.stages.find? k = some s → db.cursors.find? k = some c → Visited D db s c
  inventory : ∀ k s c, db.stages.find? k = some s → db.cursors.find? k = some c →
    s.stageType = .inventory → c.completed = true

/-! ## Growing stores -/

/-- What no operation changes of a unit after its insertion. -/
def UnitRow.lineage (u : UnitRow) : Key × Key × Key × ℕ × Option Key × ℕ :=
  (u.id, u.revisionId, u.stageId, u.unitKey, u.sourceRowId, u.expectedDependencyCount)

/-- Rows stay, with what their keys were made from. -/
structure Extends (db db' : Store) : Prop where
  stages : ∀ k s, db.stages.find? k = some s → db'.stages.find? k = some s
  sources : ∀ k x, db.sources.find? k = some x → db'.sources.find? k = some x
  results : ∀ k r, db.results.find? k = some r → db'.results.find? k = some r
  units : ∀ k u, db.units.find? k = some u → ∃ u', db'.units.find? k = some u' ∧
    u'.lineage = u.lineage ∧
    (u.state = .committed → u'.state = .committed ∧ u'.committedResultId = u.committedResultId)
  dependencies : ∀ k u, db.units.find? k = some u → unitDependenciesOf db' k = unitDependenciesOf db k

section
variable {D : PlanDigests} {G : Guard} {db db' : Store}

theorem lineage_of_identity {u u' : UnitRow} (h : u'.identity = u.identity) :
    u'.lineage = u.lineage := by
  simp only [UnitRow.identity, Prod.mk.injEq] at h
  simp only [UnitRow.lineage, Prod.mk.injEq]
  exact ⟨h.1, h.2.1, h.2.2.1, h.2.2.2.1, h.2.2.2.2.1, h.2.2.2.2.2.1⟩

theorem Act.extends {P : Stage → ℕ → Cell → Prop} (h : Act D.toDigests G db db') (L : Linked P db)
    (N : Counted db) : Extends db db' := by
  have grow := h.resultsGrow L
  cases h with
  | cells frame old new =>
    refine ⟨fun k s hs => by rw [frame.stages]; exact hs, fun k x hx => by rw [frame.sources]; exact hx,
      fun k r hr => grow.find hr, fun k u hu => ?_, fun k u hu => ?_⟩
    · obtain ⟨u', hu', change⟩ := old k u hu
      refine ⟨u', hu', ?_⟩
      rcases change with hcell | step
      · obtain rfl : u' = u := congrArg Cell.unit hcell
        exact ⟨rfl, fun h => ⟨h, rfl⟩⟩
      · obtain ⟨s, g, hs, hg, -⟩ := L.cells hu
        have step := step s g hs hg
        refine ⟨lineage_of_identity step.identity_eq, fun hc => ?_⟩
        obtain rfl : u' = u := step.committed_unit hc
        exact ⟨hc, rfl⟩
    · unfold unitDependenciesOf
      rw [frame.unitDependencies]
  | grant revision allowed blocked granted =>
    refine ⟨fun k s hs => by rw [granted.stages]; exact hs,
      fun k x hx => by rw [granted.sources]; exact hx, fun k r hr => grow.find hr,
      fun k u hu => ⟨u, by rw [granted.units]; exact hu, rfl, fun h => ⟨h, rfl⟩⟩,
      granted.keeps.dependencies⟩
  | round m cursor next revision allowed done =>
    have cells := materializeRound_cells done
    obtain ⟨hcursor, hstage, -, -, hid, -⟩ := nextStage_facts next
    obtain ⟨c, hc, legacy, -⟩ := N.cursor _ _ hstage
    obtain rfl : cursor = c := Option.some.inj (hcursor.symm.trans hc)
    refine ⟨fun k s hs => by rw [cells.stages]; exact hs, fun k x hx => ?_,
      fun k r hr => grow.find hr, fun k u hu => ?_,
      (materializeRound_frame hid legacy done).dependencies⟩
    · rw [(materializeRound_ledger done).facts.sources]
      exact hx
    · obtain ⟨u', hu', rfl | rfl⟩ := cells.old k u hu
      · exact ⟨_, hu', rfl, fun h => ⟨h, rfl⟩⟩
      · exact ⟨_, hu', rfl, fun h => ⟨h, rfl⟩⟩
  | admitted ids workloadId adm now allowed valid done =>
    have A := insertRevisionRows_admitted done
    obtain ⟨sources, units, S⟩ := insertRevisionRows_seeded done
    refine ⟨fun k s hs => A.stage_old hs, fun k x hx => ?_, fun k r hr => grow.find hr,
      fun k u hu => ⟨u, A.unit_old hu, rfl, fun h => ⟨h, rfl⟩⟩, A.keeps.dependencies⟩
    obtain rfl : x.id = k := Table.key_of_find? hx
    refine Table.find?_of_mem ?_
    rw [S.sources]
    exact List.mem_append_left _ (Table.mem_of_find? hx)

theorem Extends.refl (db : Store) : Extends db db :=
  ⟨fun _ _ h => h, fun _ _ h => h, fun _ _ h => h, fun _ u h => ⟨u, h, rfl, fun hc => ⟨hc, rfl⟩⟩,
    fun _ _ _ => rfl⟩

theorem Extends.trans {a b c : Store} (h : Extends a b) (h' : Extends b c) : Extends a c := by
  refine ⟨fun k s hs => h'.stages k s (h.stages k s hs), fun k x hx => h'.sources k x (h.sources k x hx),
    fun k r hr => h'.results k r (h.results k r hr), fun k u hu => ?_, fun k u hu => ?_⟩
  · obtain ⟨v, hv, hid, hstate⟩ := h.units k u hu
    obtain ⟨w, hw, hid', hstate'⟩ := h'.units k v hv
    refine ⟨w, hw, hid'.trans hid, fun hc => ?_⟩
    obtain ⟨hcv, hresult⟩ := hstate hc
    obtain ⟨hcw, hresult'⟩ := hstate' hcv
    exact ⟨hcw, hresult'.trans hresult⟩
  · obtain ⟨v, hv, -⟩ := h.units k u hu
    exact (h'.dependencies k v hv).trans (h.dependencies k u hu)

/-! ### What growth keeps -/

theorem SourceOf.keep {revision : Key} {k : Option Key} {σ : UnitSemantic} (E : Extends db db')
    (h : SourceOf db revision k σ) : SourceOf db' revision k σ := by
  cases k with
  | none => exact h
  | some k =>
    obtain ⟨x, hx, h⟩ := h
    exact ⟨x, E.sources k x hx, h⟩

theorem Drawn.keep {s : Stage} {u u' : UnitRow} {σ : UnitSemantic} (E : Extends db db')
    (h : Drawn D db s u σ) (hu : db.units.find? u.id = some u) (hid : u'.lineage = u.lineage) :
    Drawn D db' s u' σ := by
  simp only [UnitRow.lineage, Prod.mk.injEq] at hid
  obtain ⟨hid, hrevision, -, hkey, hrow, -⟩ := hid
  refine ⟨hkey.trans h.key, h.stageKey, h.fingerprint, ?_, ?_⟩
  · rw [hrevision, hrow]
    exact h.source.keep E
  · rw [hid, E.dependencies _ _ hu]
    refine h.bound.imp fun d x ⟨r, hr, hrest⟩ => ⟨r, E.results _ _ hr, hrest⟩

theorem EntrySeen.keep {s p : Stage} {u : UnitRow} {r : ResultRow} {field : String} {value : ℕ}
    (E : Extends db db') (h : EntrySeen D db s p u r field value) :
    EntrySeen D db' s p u r field value := by
  obtain ⟨v, σ, hv, hstage, hrevision, hkey, h1, h2, hsource, hrest⟩ := h
  obtain ⟨v', hv', hvid, -⟩ := E.units _ _ hv
  simp only [UnitRow.lineage, Prod.mk.injEq] at hvid
  exact ⟨v', σ, by rw [hvid.1]; exact hv', hvid.2.2.1.trans hstage, hvid.2.1.trans hrevision,
    hvid.2.2.2.1.trans hkey, h1, h2, hsource.keep E, hrest⟩

theorem EntrySeen.of_lineage {s p : Stage} {u u' : UnitRow} {r : ResultRow} {field : String}
    {value : ℕ} (h : EntrySeen D db s p u r field value) (hid : u'.lineage = u.lineage) :
    EntrySeen D db s p u' r field value := by
  simp only [UnitRow.lineage, Prod.mk.injEq] at hid
  unfold EntrySeen
  rw [hid.2.2.2.1, hid.2.2.2.2.1]
  exact h

theorem reached_of {s p : Stage} {u : UnitRow} {r : ResultRow} {field : String} {parent : Key}
    {n bytes : ℕ} {items : List EntryItem} (E : Extends db db') (hu : db.units.find? parent = some u)
    (hc : u.state = .committed) (hp : db.stages.find? u.stageId = some p)
    (hr : committedResult db u = some r) (hitems : r.payload.entries = some (bytes, items))
    (seen : ∀ j < n, ∀ item, items[j]? = some item → ∃ fields value, item.fields = some fields ∧
      fields.lookup field = some value ∧ EntrySeen D db' s p u r field value) :
    Reached D db' s field parent n := by
  obtain ⟨u', hu', hid, hstate⟩ := E.units _ _ hu
  obtain ⟨hc', hresult⟩ := hstate hc
  have hplace := hid
  simp only [UnitRow.lineage, Prod.mk.injEq] at hplace
  refine ⟨p, u', r, bytes, items, hu', hc', ?_, ?_, hitems, fun j hj item hitem => ?_⟩
  · rw [hplace.2.2.1]
    exact E.stages _ _ hp
  · unfold committedResult at hr ⊢
    simp only [Option.bind_eq_bind, Option.bind_eq_some_iff, Option.filter_eq_some_iff] at hr ⊢
    obtain ⟨id, hid', hfind, hrev⟩ := hr
    refine ⟨id, hresult.trans hid', E.results _ _ hfind, ?_⟩
    rw [hplace.2.1]
    exact hrev
  · obtain ⟨fields, value, hf, hv, h⟩ := seen j hj item hitem
    exact ⟨fields, value, hf, hv, h.of_lineage hid⟩

theorem Reached.keep {s : Stage} {field : String} {parent : Key} {n : ℕ} (E : Extends db db')
    (h : Reached D db s field parent n) : Reached D db' s field parent n := by
  obtain ⟨p, u, r, bytes, items, hu, hc, hp, hr, hitems, hseen⟩ := h
  refine reached_of E hu hc hp hr hitems fun j hj item hitem => ?_
  obtain ⟨fields, value, hf, hv, seen⟩ := hseen j hj item hitem
  exact ⟨fields, value, hf, hv, seen.keep E⟩

theorem Visited.keep {s : Stage} {c : StageCursor} (E : Extends db db') (h : Visited D db s c) :
    Visited D db' s c := by
  intro field hreduction hcard hfield hattention hoffset
  obtain ⟨parent, hparent, R⟩ := h field hreduction hcard hfield hattention hoffset
  exact ⟨parent, hparent, R.keep E⟩

end

end Metnos.Durable
