import Metnos.Durable.Grouping
import Metnos.Durable.Provenance

/-!
# Durable.Candidates — the units that rounds insert

A candidate is made of rows of the store.  An entry unit is bound to the first entry with the
identity in its key, because the cursor of its stage meets the entries in order and never inserts
an identity twice.
-/

namespace Metnos.Durable

open Transaction

section
variable {D : PlanDigests} {db db' : Store}

/-! ## Candidates -/

/-- What the key of a candidate is the digest of. -/
def candidateSemantic (s : Stage) (c : CandidateUnit) : UnitSemantic :=
  { stageKey := s.stageKey
    stageInvalidationDigest := s.invalidationDigest
    sourceDigest := c.source.map Source.contentDigest
    sourceId := c.source.map Source.sourceId
    dependencies := some (c.parents.map (fun p => (p.role, p.unit.unitKey, p.result.digest)))
    shardKey := c.shardKey }

theorem candidateKey_eq (D : PlanDigests) (s : Stage) (c : CandidateUnit) :
    candidateKey D.toDigests s c = D.unitKey (candidateSemantic s c) := rfl

/-- A candidate made of rows of the store; its slice is the one its key says, unless the stage
already has a unit with that key. -/
structure CandidateUnit.Sound (D : PlanDigests) (db : Store) (s : Stage) (c : CandidateUnit) :
    Prop where
  source : ∀ x, c.source = some x → db.sources.find? x.id = some x ∧ x.revisionId = s.revisionId
  parents : ∀ p ∈ c.parents, db.results.find? p.result.id = some p.result
  slice : (∀ v ∈ db.units.rows, v.revisionId = s.revisionId → v.stageId = s.id →
      v.unitKey ≠ candidateKey D.toDigests s c) →
    ∀ p ∈ c.parents, c.dependencySlice = (candidateSemantic s c).slice D p.result.digest

theorem CandidateUnit.Sound.whole {s : Stage} {c : CandidateUnit}
    (source : ∀ x, c.source = some x → db.sources.find? x.id = some x ∧ x.revisionId = s.revisionId)
    (parents : ∀ p ∈ c.parents, db.results.find? p.result.id = some p.result)
    (slice : c.dependencySlice = none) (shard : ∀ field value, c.shardKey ≠ some (.entry field value)) :
    c.Sound D db s := by
  refine ⟨source, parents, fun _ p _ => slice.trans ?_⟩
  unfold UnitSemantic.slice
  split
  · rename_i field value heq
    exact absurd heq (shard field value)
  · rfl

theorem committedResult_find {u : UnitRow} {r : ResultRow} (h : committedResult db u = some r) :
    db.results.find? r.id = some r := by
  unfold committedResult at h
  simp only [Option.bind_eq_bind, Option.bind_eq_some_iff, Option.filter_eq_some_iff] at h
  obtain ⟨id, -, hfind, -⟩ := h
  rw [Table.key_of_find? hfind]
  exact hfind

theorem committed?_parentRow {role : String} {u : UnitRow} {p : Parent}
    (h : (parentRow db role u).committed? = some p) : p.role = role ∧ p.unit = u ∧
      u.state = .committed ∧ committedResult db u = some p.result := by
  unfold ParentRow.committed? parentRow at h
  simp only [Option.bind_eq_bind, Option.bind_eq_some_iff] at h
  obtain ⟨r, hr, h⟩ := h
  split at h
  · rename_i hc
    cases h
    exact ⟨rfl, rfl, hc, hr⟩
  · cases h

theorem committed?_find {role : String} {u : UnitRow} {p : Parent}
    (h : (parentRow db role u).committed? = some p) :
    db.results.find? p.result.id = some p.result :=
  committedResult_find (committed?_parentRow h).2.2.2

theorem reducible?_committed {row : ParentRow} {p : Parent} (h : row.reducible? = some p) :
    row.committed? = some p := by
  unfold ParentRow.reducible? at h
  simp only [Option.bind_eq_bind, Option.bind_eq_some_iff] at h
  obtain ⟨q, hq, h⟩ := h
  split at h
  · cases h
    exact hq
  · cases h

def FromStore (db : Store) (rows : List ParentRow) : Prop :=
  ∀ row ∈ rows, ∃ role u, row = parentRow db role u

theorem FromStore.parents {rows : List ParentRow} (F : FromStore db rows) :
    ∀ p ∈ rows.filterMap ParentRow.committed?, db.results.find? p.result.id = some p.result := by
  intro p hp
  obtain ⟨row, hrow, hc⟩ := List.mem_filterMap.mp hp
  obtain ⟨role, u, rfl⟩ := F row hrow
  exact committed?_find hc

theorem fromStore_map (role : String) (l : List UnitRow) :
    FromStore db (l.map (parentRow db role)) := by
  intro row hrow
  obtain ⟨u, -, rfl⟩ := List.mem_map.mp hrow
  exact ⟨role, u, rfl⟩

theorem collectSourceRows_fromStore (source : Source) (stages : List Stage) {rows : List ParentRow}
    (missing : Bool) (F : FromStore db rows) :
    FromStore db (collectSourceRows db source stages rows missing).1 := by
  induction stages generalizing rows missing with
  | nil => exact F
  | cons p rest ih =>
    have F' : FromStore db (rows ++ sourceRows db source (maxUnitDependencies + 1 - rows.length) p) := by
      intro row hrow
      rcases List.mem_append.mp hrow with h | h
      · exact F row h
      · exact fromStore_map _ _ row h
    unfold collectSourceRows
    dsimp only
    split
    · exact F'
    · exact ih _ F'

theorem candidateOver_sound {s : Stage} {rows : List ParentRow}
    (unavailable : Option (UnitError × Bool)) {source : Option Source} {shard : ShardKey}
    (F : FromStore db rows) (entry : ∀ field value, shard ≠ .entry field value)
    (hsource : ∀ x, source = some x → db.sources.find? x.id = some x ∧ x.revisionId = s.revisionId) :
    (candidateOver rows unavailable source shard).Sound D db s := by
  unfold candidateOver
  split
  · exact .whole hsource F.parents rfl fun _ _ h => by cases h
  · refine .whole hsource (fun p hp => by cases hp) rfl fun field value h => ?_
    exact entry field value (Option.some.inj h)

theorem unavailableRoot_sound {s : Stage} {level ordinal : ℕ} {shard : ShardKey} {reason : UnitError}
    (entry : ∀ field value, shard ≠ .entry field value) :
    (unavailableRoot level ordinal shard reason).Sound D db s :=
  .whole (fun x h => by cases h) (fun p hp => by cases hp) rfl fun field value h =>
    entry field value (Option.some.inj h)

/-- The stage has a unit with the key of the candidate. -/
def HasUnit (D : PlanDigests) (db : Store) (s : Stage) (c : CandidateUnit) : Prop :=
  ∃ v, db.units.find? v.id = some v ∧ v.stageId = s.id ∧ v.revisionId = s.revisionId ∧
    v.unitKey = candidateKey D.toDigests s c

/-- The three ends of a round, with a sound candidate and a cursor that has passed only entries
with units. -/
inductive RoundSound (D : PlanDigests) (m : Round) (cursor : StageCursor) (db db' : Store) : Prop
  | saved (cursor' : StageCursor) (done : saveCursor db cursor' = .ok db')
      (keeps : cursor.Keeps cursor')
      (visited : Visited D db m.stage cursor')
  | inserted (c : CandidateUnit) (advance : StageCursor → StageCursor)
      (done : insertAndSave D.toDigests m db cursor c advance = .ok db')
      (keeps : ∀ x : StageCursor, x.Keeps (advance x)) (sound : c.Sound D db m.stage)
      (visited : ∀ db1 x, Extends db db1 → (x.attentionCode = none → HasUnit D db1 m.stage c) →
        Visited D db1 m.stage (advance x))
  | rooted (root : UnitRow) (db1 : Store) (cursor' : StageCursor)
      (marked : markRoot db root m.now = .ok db1) (done : saveCursor db1 cursor' = .ok db')
      (keeps : cursor.Keeps cursor')
      (visited : Visited D db m.stage cursor')

theorem closeLevel_sound {m : Round} {cursor : StageCursor}
    (idle : ∀ db x, Visited D db m.stage x) (h : closeLevel D.toDigests m db cursor = .ok db') :
    RoundSound D m cursor db db' := by
  unfold closeLevel at h
  dsimp only at h
  split at h
  · exact .inserted _ _ h (fun _ => ⟨rfl, rfl, rfl, rfl⟩)
      (unavailableRoot_sound fun _ _ h => by cases h) fun _ _ _ _ => idle _ _
  split at h
  · exact .saved _ h ⟨rfl, rfl, rfl, rfl⟩ (idle _ _)
  · simp only [bind_eq_ok] at h
    obtain ⟨root, -, db1, h1, h2⟩ := h
    exact .rooted root db1 _ h1 h2 ⟨rfl, rfl, rfl, rfl⟩ (idle _ _)

theorem selectGroup_mem {limit : ℕ} {inputs out sel : List Parent} {content nonempty : ℕ}
    (h : selectGroup limit content nonempty sel inputs = .ok out) :
    ∀ p ∈ out, p ∈ sel ∨ p ∈ inputs := by
  obtain ⟨rest, hrest⟩ := ( selectGroup_prefix h).1
  intro p hp
  rw [← List.mem_append, hrest]
  exact List.mem_append_left _ hp

theorem reduceGroup_sound {m : Round} {cursor : StageCursor} {r : Reduction} {parent : Stage}
    (idle : ∀ db x, Visited D db m.stage x)
    (h : reduceGroup D.toDigests m db cursor r parent = .ok db') : RoundSound D m cursor db db' := by
  unfold reduceGroup at h
  dsimp only at h
  split at h
  · exact .inserted _ _ h (fun _ => ⟨rfl, rfl, rfl, rfl⟩)
      (unavailableRoot_sound fun _ _ h => by cases h) fun _ _ _ _ => idle _ _
  split at h
  · exact .inserted _ _ h (fun _ => ⟨rfl, rfl, rfl, rfl⟩)
      (unavailableRoot_sound fun _ _ h => by cases h) fun _ _ _ _ => idle _ _
  rename_i inputs hinputs
  split at h
  · exact .inserted _ _ h (fun _ => ⟨rfl, rfl, rfl, rfl⟩)
      (unavailableRoot_sound fun _ _ h => by cases h) fun _ _ _ _ => idle _ _
  rename_i selected hselected
  split at h
  · exact .saved _ h ⟨rfl, rfl, rfl, rfl⟩ (idle _ _)
  · refine .inserted _ _ h (fun _ => ⟨rfl, rfl, rfl, rfl⟩)
      (.whole (fun x h => by cases h) (fun p hp => ?_) rfl
      fun field value h => by cases h) fun _ _ _ _ => idle _ _
    have hp := (selectGroup_mem hselected p hp).resolve_left (by simp)
    obtain ⟨row, hrow, hp⟩ := (mapM_mem hinputs).1 p hp
    obtain ⟨u, -, rfl⟩ := List.mem_map.mp (List.mem_of_mem_take hrow)
    exact committed?_find (reducible?_committed hp)

theorem singletonRound_sound {m : Round} {cursor : StageCursor}
    (idle : ∀ db x, Visited D db m.stage x)
    (h : singletonRound D.toDigests m db cursor = .ok db') : RoundSound D m cursor db db' := by
  unfold singletonRound at h
  refine .inserted _ _ h (fun _ => ⟨rfl, rfl, rfl, rfl⟩)
    (candidateOver_sound _ (fun row hrow => ?_) (fun _ _ h => by cases h)
    fun x h => by cases h) fun _ _ _ _ => idle _ _
  obtain ⟨p, -, hrow⟩ := List.mem_flatMap.mp (List.mem_of_mem_take hrow)
  exact fromStore_map _ _ row hrow

theorem perSourceRound_sound {m : Round} {cursor : StageCursor}
    (idle : ∀ db x, Visited D db m.stage x) (revision : cursor.revisionId = m.stage.revisionId)
    (h : perSourceRound D.toDigests m db cursor = .ok db') : RoundSound D m cursor db db' := by
  unfold perSourceRound at h
  split at h
  · exact .saved _ h ⟨rfl, rfl, rfl, rfl⟩ (idle _ _)
  · rename_i x hx
    obtain ⟨hmem, hrevision, -⟩ := nextSource_facts hx
    have rows : FromStore db (collectSourceRows db x (parentStages db m.stage) [] false).1 :=
      collectSourceRows_fromStore x _ false fun row hrow => by cases hrow
    refine .inserted _ _ h (fun _ => ⟨rfl, rfl, rfl, rfl⟩)
      (candidateOver_sound _ rows (fun _ _ h => by cases h) fun y hy => ?_)
      fun _ _ _ _ => idle _ _
    obtain rfl : x = y := Option.some.inj hy
    exact ⟨Table.find?_of_mem hmem, hrevision.trans revision⟩

/-! ### Entries -/

theorem mem_parentStages {s p : Stage} (h : p ∈ parentStages db s) :
    db.stages.find? p.id = some p ∧ p.revisionId = s.revisionId := by
  unfold parentStages at h
  simp only [List.mem_filter, List.mem_filterMap, Bool.and_eq_true, decide_eq_true_eq] at h
  obtain ⟨⟨k, -, hfind⟩, hr, -⟩ := h
  rw [Table.key_of_find? hfind]
  exact ⟨hfind, hr⟩

theorem exposed_stage {p : Stage} {u : UnitRow} (h : exposed p u = true) : u.stageId = p.id := by
  simp only [exposed, Bool.and_eq_true, decide_eq_true_eq] at h
  exact h.1.2

theorem nextParentUnit_facts {s p : Stage} {u : UnitRow} {cursor : StageCursor}
    (h : nextParentUnit db s cursor = some (p, u)) : p ∈ parentStages db s ∧
      db.units.find? u.id = some u ∧ u.stageId = p.id ∧
      (0 ≤ cursor.entryOffset → ∀ id, cursor.parentUnitId = some id → u.id = id) := by
  have next : ∀ {q : Stage} {cond : UnitRow → Bool} {y : Stage × UnitRow},
      ((db.units.select (fun u => exposed q u && cond u) unitKeyOrder 1).head?).map
        (fun u => (q, u)) = some y →
      y.1 = q ∧ db.units.find? y.2.id = some y.2 ∧ y.2.stageId = q.id := by
    intro q cond y hy
    obtain ⟨v, hv, rfl⟩ := Option.map_eq_some_iff.mp hy
    have hm := Table.mem_select (List.mem_of_head? hv)
    rw [Bool.and_eq_true] at hm
    exact ⟨rfl, Table.find?_of_mem hm.1, exposed_stage hm.2.1⟩
  unfold nextParentUnit at h
  dsimp only at h
  split at h
  · rename_i id hid
    split at h
    · obtain ⟨q, hq, hu⟩ := List.exists_of_findSome?_eq_some h
      rw [List.mem_filter, List.mem_insertionSort] at hq
      simp only [Option.map_eq_some_iff, Option.filter_eq_some_iff, decide_eq_true_eq,
        Prod.mk.injEq] at hu
      obtain ⟨v, ⟨hv, hstage⟩, rfl, rfl⟩ := hu
      have hk : v.id = id := Table.key_of_find? hv
      refine ⟨hq.1, by rw [hk]; exact hv, hstage, fun _ id' hid' => ?_⟩
      rw [hid, Option.some.injEq] at hid'
      exact hk.trans hid'
    · rename_i hoffset
      obtain ⟨q, hq, hu⟩ := List.exists_of_findSome?_eq_some h
      obtain ⟨rfl, hfind, hstage⟩ := next hu
      exact ⟨(List.mem_insertionSort _).mp hq, hfind, hstage, fun h => absurd h hoffset⟩
  · rename_i hid
    obtain ⟨q, hq, hu⟩ := List.exists_of_findSome?_eq_some h
    obtain ⟨rfl, hfind, hstage⟩ := next hu
    refine ⟨(List.mem_insertionSort _).mp hq, hfind, hstage, fun _ id' hid' => ?_⟩
    rw [hid] at hid'
    cases hid'

theorem visited_outside {s : Stage} {c : StageCursor} (h : c.entryOffset < 0) :
    Visited D db s c := fun _ _ _ _ _ hoffset => absurd hoffset (by omega)

theorem visited_blocked {s : Stage} {c : StageCursor} (h : c.attentionCode ≠ none) :
    Visited D db s c := fun _ _ _ _ hattention _ => absurd hattention h

/-- The dependency whose entries are visited. -/
structure EntryParent (db : Store) (s p : Stage) (parent : Parent) : Prop where
  unit : db.units.find? parent.unit.id = some parent.unit
  committed : parent.unit.state = .committed
  stage : db.stages.find? parent.unit.stageId = some p
  result : committedResult db parent.unit = some parent.result
  role : parent.role = p.stageKey

def entryCandidate (source : Option Source) (parent : Parent) (field : String) (value : ℕ)
    (item : EntryItem) : CandidateUnit :=
  { source := source
    parents := [parent]
    shardKey := some (.entry field value)
    duplicateIdentity := true
    dependencySlice := some (item.start, item.length) }

/-- The source row of a unit, of the revision of the stage. -/
def SourceRow (db : Store) (revision : Key) (k : Option Key) (source : Option Source) : Prop :=
  source = k.bind db.sources.find? ∧ ∀ k', k = some k' → ∃ x, db.sources.find? k' = some x ∧
    x.revisionId = revision

theorem SourceRow.find {revision : Key} {k : Option Key} {source : Option Source} {x : Source}
    (h : SourceRow db revision k source) (hx : source = some x) :
    db.sources.find? x.id = some x ∧ x.revisionId = revision := by
  obtain ⟨k', rfl, hfind⟩ := Option.bind_eq_some_iff.mp (h.1.symm.trans hx)
  obtain ⟨y, hy, hr⟩ := h.2 k' rfl
  obtain rfl : x = y := Option.some.inj (hfind.symm.trans hy)
  rw [Table.key_of_find? hfind]
  exact ⟨hfind, hr⟩

theorem SourceRow.sourceOf {s : Stage} {k : Option Key} {c : CandidateUnit}
    (h : SourceRow db s.revisionId k c.source) :
    SourceOf db s.revisionId k (candidateSemantic s c) := by
  cases k with
  | none =>
    have hc : c.source = none := h.1
    simp [SourceOf, candidateSemantic, hc]
  | some k =>
    obtain ⟨x, hx, hr⟩ := h.2 k rfl
    have hc : c.source = some x := h.1.trans hx
    exact ⟨x, hx, hr, by simp [candidateSemantic, hc], by simp [candidateSemantic, hc]⟩

theorem SourceOf.same {revision : Key} {k : Option Key} {σ τ : UnitSemantic}
    (h : SourceOf db revision k σ) (h' : SourceOf db revision k τ) :
    σ.sourceId = τ.sourceId ∧ σ.sourceDigest = τ.sourceDigest := by
  cases k with
  | none => exact ⟨h.1.trans h'.1.symm, h.2.trans h'.2.symm⟩
  | some k =>
    obtain ⟨x, hx, -, h1, h2⟩ := h
    obtain ⟨y, hy, -, h3, h4⟩ := h'
    obtain rfl : x = y := Option.some.inj (hx.symm.trans hy)
    exact ⟨h1.trans h3.symm, h2.trans h4.symm⟩

theorem firstEntry_of_new {field : String} {value n : ℕ} {items rest : List EntryItem}
    {item : EntryItem} {fields : List (String × ℕ)} (hdrop : items.drop n = item :: rest)
    (hf : item.fields = some fields) (hv : fields.lookup field = some value)
    (before : ∀ j < n, ∀ x, items[j]? = some x → ∃ fields v, x.fields = some fields ∧
      fields.lookup field = some v ∧ v ≠ value) :
    items.find? (fun item => item.fields.any (fun fields => fields.lookup field = some value)) =
      some item := by
  have hn : items[n]? = some item := by
    rw [← List.head?_drop, hdrop]
    rfl
  obtain ⟨hlt, heq⟩ := List.getElem?_eq_some_iff.mp hn
  refine List.find?_eq_some_iff_getElem.mpr ⟨by simp [hf, hv], n, hlt, heq, fun j hj => ?_⟩
  obtain ⟨fields', v, hf', hv', hne⟩ := before j hj _ (List.getElem?_eq_getElem (hj.trans hlt))
  simp [hf', hv', hne]

theorem entryCandidate_sound {s p : Stage} {parent : Parent} {source : Option Source}
    {field : String} {value n bytes : ℕ} {items rest : List EntryItem} {item : EntryItem}
    {fields : List (String × ℕ)} (C : Canonical D db) (P : EntryParent db s p parent)
    (row : SourceRow db s.revisionId parent.unit.sourceRowId source)
    (hitems : parent.result.payload.entries = some (bytes, items))
    (hdrop : items.drop n = item :: rest) (hf : item.fields = some fields)
    (hv : fields.lookup field = some value)
    (seen : ∀ j < n, ∀ x, items[j]? = some x → ∃ fields v, x.fields = some fields ∧
      fields.lookup field = some v ∧ EntrySeen D db s p parent.unit parent.result field v) :
    (entryCandidate source parent field value item).Sound D db s := by
  have find := committedResult_find P.result
  refine ⟨fun x hx => row.find hx, fun q hq => ?_, fun new q hq => ?_⟩
  · obtain rfl : q = parent := List.mem_singleton.mp hq
    exact find
  · obtain rfl : q = parent := List.mem_singleton.mp hq
    -- an earlier entry with the same value has a unit with the same key
    have before : ∀ j < n, ∀ x, items[j]? = some x → ∃ fields v, x.fields = some fields ∧
        fields.lookup field = some v ∧ v ≠ value := by
      intro j hj x hx
      obtain ⟨fields', v, hf', hv', w, σ, hw, hstage, hrevision, hkey, h1, h2, hsource, hdeps,
        hshard⟩ := seen j hj x hx
      refine ⟨fields', v, hf', hv', ?_⟩
      rintro rfl
      refine new w (Table.mem_of_find? hw) hrevision hstage (hkey.trans ?_)
      rw [candidateKey_eq]
      congr 1
      have hsame := hsource.same (SourceRow.sourceOf (c := entryCandidate source q field v item) row)
      cases σ
      simp only [candidateSemantic, entryCandidate, List.map_cons, List.map_nil, P.role,
        UnitSemantic.mk.injEq] at hsame h1 h2 hdeps hshard ⊢
      exact ⟨h1, h2, hsame.2, hsame.1, hdeps, hshard⟩
    have hfirst := firstEntry_of_new hdrop hf hv before
    have hpayload := (C _ (Table.mem_of_find? find)).1
    unfold UnitSemantic.slice firstEntry
    simp only [candidateSemantic, entryCandidate, ← hpayload, hitems, Option.map_some,
      Option.getD_some, hfirst]

theorem entryRound_sound {m : Round} {cursor : StageCursor} {p : Stage} {field : String}
    {parent : Parent} {source : Option Source} {position : ℕ} (C : Canonical D db)
    (hfield : m.stage.entryIdentityField = some field) (P : EntryParent db m.stage p parent)
    (row : SourceRow db m.stage.revisionId parent.unit.sourceRowId source)
    (seen : ∀ bytes items, parent.result.payload.entries = some (bytes, items) →
      ∀ j < cursor.entryOffset.toNat, ∀ x, items[j]? = some x → ∃ fields v,
        x.fields = some fields ∧ fields.lookup field = some v ∧
        EntrySeen D db m.stage p parent.unit parent.result field v)
    (h : entryRound D.toDigests m db cursor field parent source position = .ok db') :
    RoundSound D m cursor db db' := by
  unfold entryRound at h
  dsimp only at h
  have blocked : ∀ code, Visited D db m.stage { cursor with attentionCode := some code } :=
    fun code => visited_blocked (by simp)
  split at h
  · exact .saved _ h ⟨rfl, rfl, rfl, rfl⟩ (blocked _)
  rename_i bytes items hitems
  split at h
  · exact .saved _ h ⟨rfl, rfl, rfl, rfl⟩ (visited_outside (by decide : (-1 : ℤ) < 0))
  rename_i item rest hdrop
  split at h
  · exact .saved _ h ⟨rfl, rfl, rfl, rfl⟩ (blocked _)
  rename_i fields hf
  split at h
  · exact .saved _ h ⟨rfl, rfl, rfl, rfl⟩ (blocked _)
  rename_i value hv
  have seen := seen bytes items hitems
  refine .inserted (entryCandidate source parent field value item) _ h
    (fun _ => ⟨rfl, rfl, rfl, rfl⟩) (entryCandidate_sound C P row hitems hdrop hf hv seen)
    fun db1 x E unit => ?_
  intro field' _ _ hfield' hattention hoffset
  obtain rfl : field' = field := Option.some.inj (hfield'.symm.trans hfield)
  refine ⟨parent.unit.id, rfl, ?_⟩
  dsimp only at hattention hoffset ⊢
  split at hoffset
  · exact absurd hoffset (by decide)
  rename_i hrest
  rw [if_neg hrest]
  refine reached_of E P.unit P.committed P.stage P.result hitems fun j hj y hy => ?_
  rw [Int.toNat_natCast] at hj
  rcases Nat.lt_succ_iff_lt_or_eq.mp hj with hj | rfl
  · obtain ⟨fields', v, hf', hv', hseen⟩ := seen j hj y hy
    exact ⟨fields', v, hf', hv', hseen.keep E⟩
  · -- the entry this round inserted
    rw [← List.head?_drop, hdrop, List.head?_cons, Option.some.injEq] at hy
    subst hy
    obtain ⟨v, hfind, hstage, hrevision, hkey⟩ := unit hattention
    refine ⟨fields, value, hf, hv, v, _, hfind, hstage, hrevision, hkey, rfl, rfl,
      (SourceRow.sourceOf (c := entryCandidate source parent field' value item) row).keep E, ?_, rfl⟩
    simp only [entryCandidate, List.map_cons, List.map_nil, P.role]

theorem perDependencyRound_sound {m : Round} {cursor : StageCursor} (K : Keyed D db)
    (N : Counted db) (C : Canonical D db) (hreduction : m.stage.reduction = none)
    (hcard : m.stage.cardinality = .perDependency) (hattention : cursor.attentionCode = none)
    (visited : Visited D db m.stage cursor)
    (h : perDependencyRound D.toDigests m db cursor = .ok db') : RoundSound D m cursor db db' := by
  have outside : ∀ db {x : StageCursor}, x.entryOffset = -1 → Visited D db m.stage x :=
    fun db x hx => visited_outside (by omega)
  unfold perDependencyRound at h
  split at h
  · exact .saved _ h ⟨rfl, rfl, rfl, rfl⟩ (outside db rfl)
  rename_i p u hnext
  obtain ⟨hp, hu, hstage, hsame⟩ := nextParentUnit_facts hnext
  obtain ⟨hfind, hrevision⟩ := mem_parentStages hp
  rw [← hstage] at hfind
  obtain ⟨t, ht, hunit⟩ := N.stage _ _ hu
  obtain rfl : t = p := Option.some.inj (ht.symm.trans hfind)
  have row : SourceRow db m.stage.revisionId u.sourceRowId (u.sourceRowId.bind db.sources.find?) := by
    obtain ⟨s, σ, -, -, drawn⟩ := K.unit _ _ hu
    refine ⟨rfl, fun k hk => ?_⟩
    have hsource := drawn.source
    rw [hk] at hsource
    obtain ⟨x, hx, hr, -⟩ := hsource
    exact ⟨x, hx, hr.trans (hunit.trans hrevision)⟩
  have unavailable : ∀ (reason : UnitError) (force : Bool),
      ({ source := u.sourceRowId.bind db.sources.find?
         shardKey := some (.unavailableUnit u.unitKey)
         unavailableReason := some reason
         forceAttention := force } : CandidateUnit).Sound D db m.stage := fun reason force =>
    .whole (fun x hx => row.find hx) (fun q hq => by cases hq) rfl fun _ _ h => by cases h
  dsimp only at h
  split at h
  · exact .inserted _ _ h (fun _ => ⟨rfl, rfl, rfl, rfl⟩) (unavailable _ _)
      fun db1 _ _ _ => outside db1 rfl
  rename_i hcommitted
  split at h
  · exact .inserted _ _ h (fun _ => ⟨rfl, rfl, rfl, rfl⟩) (unavailable _ _)
      fun db1 _ _ _ => outside db1 rfl
  rename_i parent hparent
  obtain ⟨hrole, rfl, hc, hresult⟩ := committed?_parentRow hparent
  split at h
  · refine .inserted _ _ h (fun _ => ⟨rfl, rfl, rfl, rfl⟩)
      (.whole (fun x hx => row.find hx) (fun q hq => ?_) rfl
      fun _ _ h => by cases h) fun db1 _ _ _ => outside db1 rfl
    obtain rfl : q = parent := List.mem_singleton.mp hq
    exact committedResult_find hresult
  · rename_i field hfield
    refine entryRound_sound C hfield ⟨hu, hc, hfind, hresult, hrole⟩ row (fun bytes items hitems j hj
      x hx => ?_) h
    have hoffset : 0 ≤ cursor.entryOffset := by omega
    obtain ⟨k, hk, p', u', r, bytes', items', hu', -, hp', hr, hitems', hseen⟩ :=
      visited field hreduction hcard hfield hattention hoffset
    obtain rfl : parent.unit.id = k := hsame hoffset k hk
    obtain rfl : u' = parent.unit := Option.some.inj (hu'.symm.trans hu)
    obtain rfl : p' = t := Option.some.inj (hp'.symm.trans hfind)
    obtain rfl : r = parent.result := Option.some.inj (hr.symm.trans hresult)
    rw [hitems, Option.some.injEq, Prod.mk.injEq] at hitems'
    obtain ⟨-, rfl⟩ := hitems'
    exact hseen j hj x hx

theorem materializeRound_sound {m : Round} {cursor : StageCursor} (K : Keyed D db)
    (N : Counted db) (C : Canonical D db)
    (next : nextMaterializationStage db m.revision.id = some (m.stage, cursor))
    (h : materializeRound D.toDigests m db cursor = .ok db') : RoundSound D m cursor db db' := by
  obtain ⟨hcursor, hstage, hrevision, hr, -, -, hattention, -⟩ := nextStage_facts next
  unfold materializeRound at h
  split at h
  · rename_i reduction hreduction
    have idle : ∀ db x, Visited D db m.stage x := fun _ _ _ hnone => by
      rw [hreduction] at hnone
      cases hnone
    unfold reduceRound at h
    split at h
    · exact closeLevel_sound idle h
    · split at h
      · exact reduceGroup_sound idle h
      · cases h
  rename_i hreduction
  have idle : m.stage.cardinality ≠ .perDependency → ∀ db x, Visited D db m.stage x :=
    fun hne _ _ _ _ hcard => absurd hcard hne
  split at h
  · rename_i hcard
    exact singletonRound_sound (idle (by rw [hcard]; decide)) h
  · rename_i hcard
    exact perSourceRound_sound (idle (by rw [hcard]; decide)) (hr.trans hrevision.symm) h
  · rename_i hcard
    exact perDependencyRound_sound K N C hreduction hcard hattention
      (K.entries _ _ _ hstage hcursor) h

end

end Metnos.Durable
