import Metnos.Durable.Reduction

/-!
# Durable.Grouping — one round of a hierarchical reduction

A round on a reduction stage adds one group to the current level, closes a finished level, or ends
the reduction with a root.  Each keeps `Progress`.
-/

namespace Metnos.Durable

open Transaction

section
variable {D : Digests} {db db' : Store} {s p : Stage} {level : ℕ}

/-! ## A new unit -/

/-- `db'` has the unit `u` more than `db`, bound to its dependencies. -/
structure NewUnit (db db' : Store) (u : UnitRow) : Prop where
  fresh : db.units.find? u.id = none
  rows : db'.units.rows = db.units.rows ++ [u]
  revisions : db'.revisions = db.revisions
  keeps : KeepsBindings db db'

theorem NewUnit.find (N : NewUnit db db' u) {k : Key} {v : UnitRow}
    (h : db.units.find? k = some v) : db'.units.find? k = some v := by
  rw [Table.find?_eq_some] at h ⊢
  rw [N.rows]
  exact ⟨List.mem_append_left _ h.1, h.2⟩

theorem NewUnit.cases {u : UnitRow} (N : NewUnit db db' u) {k : Key} {v : UnitRow}
    (h : db'.units.find? k = some v) : db.units.find? k = some v ∨ v = u := by
  rw [Table.find?_eq_some, N.rows, List.mem_append, List.mem_singleton] at h
  obtain ⟨h | h, hk⟩ := h
  · exact .inl (Table.find?_eq_some.mpr ⟨h, hk⟩)
  · exact .inr h

theorem NewUnit.keys {u : UnitRow} (N : NewUnit db db' u) (q : UnitRow → Bool) :
    db'.keys q = db.keys q ++ if q u then [u.id] else [] := by
  unfold Store.keys
  rw [N.rows, List.filter_append, List.map_append]
  congr 1
  by_cases hq : q u = true <;> simp [hq]

theorem NewUnit.blocked {u v : UnitRow} (N : NewUnit db db' u) (B : Blocked db v) :
    Blocked db' v := by
  refine ⟨B.level, B.state, B.error, ?_⟩
  rw [Store.generation, N.revisions]
  exact B.generation

theorem NewUnit.covers {u : UnitRow} {q : UnitRow → Bool} (N : NewUnit db db' u)
    (C : Covers db s p level q) (h1 : inLevel s level u = false)
    (h2 : levelInput s p level u = false) : Covers db' s p level q := by
  have hgroups : db'.keys (inLevel s level) = db.keys (inLevel s level) := by
    rw [N.keys, h1]
    simp
  have hinputs : db'.keys (fun v => levelInput s p level v && q v) =
      db.keys (fun v => levelInput s p level v && q v) := by
    rw [N.keys, h2]
    simp
  exact C.of_keys (fun k => by rw [hgroups]) (fun k => by rw [hinputs]) N.keeps

theorem new_below {u : UnitRow} {n : ℕ} (hp : p.id ≠ s.id) (hs : u.stageId = s.id)
    (hl : u.reductionLevel = some n) (hlevel : level < n) :
    inLevel s level u = false ∧ levelInput s p level u = false := by
  have hne : ∀ k, k ≠ n → inLevel s k u = false := fun k hk => by
    rw [← Bool.not_eq_true, inLevel_iff, hl]
    rintro ⟨-, -, h⟩
    exact hk (Option.some.inj h).symm
  refine ⟨hne level (by omega), ?_⟩
  cases level with
  | zero => simp [levelInput, exposed, hs, Ne.symm hp]
  | succ k => exact hne k (by omega)

theorem new_input {u : UnitRow} (hp : p.id ≠ s.id) (hs : u.stageId = s.id)
    (hl : u.reductionLevel = some level) : levelInput s p level u = false := by
  cases level with
  | zero => simp [levelInput, exposed, hs, Ne.symm hp]
  | succ k =>
    rw [levelInput, ← Bool.not_eq_true, inLevel_iff, hl]
    rintro ⟨-, -, h⟩
    have := Option.some.inj h
    omega

theorem Inserted.new {m : Round} {c : CandidateUnit} {cursor cursor' : StageCursor}
    (I : Inserted D m c cursor db db' cursor') :
    (∃ code, db' = db ∧ cursor' = { cursor with attentionCode := some code }) ∨
    ∃ id, NewUnit db db' (makeCandidate D m.stage m.revision c id m.now) ∧
      (∀ v ∈ db.units.rows,
        unitConflict (makeCandidate D m.stage m.revision c id m.now) v = false) ∧
      ((unitDependenciesOf db' id).take (maxUnitDependencies + 1)).map
          (fun d => (d.sourceResultId, d.slice, d.role)) =
        (expectedBindings id c).map (fun d => (d.sourceResultId, d.slice, d.role)) ∧
      cursor' = { cursor with unitCount := cursor.unitCount + 1, legacyReplay := false } := by
  have keeps := I.frame.keeps
  cases I with
  | noted code => exact .inl ⟨code, rfl, rfl⟩
  | inserted id units fresh distinct insert after bound =>
    subst after
    exact .inr ⟨id, ⟨fresh, (Table.insert?_some insert).2, rfl, keeps⟩, distinct, bound, rfl⟩

/-! ## Ending with a root -/

theorem Progress.complete {c c' : StageCursor} (R : Progress db s p c)
    (level : c'.reductionLevel = c.reductionLevel)
    (ordinal : c'.reductionOrdinal = c.reductionOrdinal) (done : c'.completed = true)
    (rooted : ∀ k u, db.units.find? k = some u → u.stageId = s.id → u.reductionRoot = true →
      Rooted db s p c.reductionLevel u) : Progress db s p c' := by
  have undone : c'.completed ≠ false := by simp [done]
  exact ⟨level ▸ R.levels, fun h => absurd h undone, fun h => absurd h undone, ordinal ▸ R.floor,
    fun h => absurd h undone, level ▸ R.closed, fun h => absurd h undone, fun h => absurd h undone,
    fun h => absurd h undone, fun _ => level ▸ rooted⟩

theorem Progress.insert_closed {c : StageCursor} {u : UnitRow} (R : Progress db s p c)
    (N : NewUnit db db' u) (hp : p.id ≠ s.id) (hs : u.stageId = s.id)
    (hl : u.reductionLevel = some c.reductionLevel) :
    ∀ n < c.reductionLevel, Covers db' s p n fun _ => true := by
  intro n hn
  obtain ⟨h1, h2⟩ := new_below hp hs hl hn
  exact N.covers (R.closed n hn) h1 h2

theorem Progress.unavailable {m : Round} {c c' : StageCursor} {ordinal : ℕ} {shard : ShardKey}
    {reason : UnitError} (hm : m.stage = s) (hp : p.id ≠ s.id)
    (generation : db.generation s.revisionId = some m.revision.manualRetryGeneration)
    (hreason : reason.unavailable = true) (R : Progress db s p c) (hc : c.completed = false)
    (I : Inserted D m (unavailableRoot c.reductionLevel ordinal shard reason) c db db' c') :
    ∀ c'', c''.completed = true → c''.reductionLevel = c'.reductionLevel →
      c''.reductionOrdinal = c'.reductionOrdinal → Progress db' s p c'' := by
  subst hm
  intro c'' done level ord
  rcases I.new with ⟨code, rfl, rfl⟩ | ⟨id, N, -, -, rfl⟩
  · refine R.complete level ord done fun k u hu hs hroot => ?_
    rw [R.unmarked hc k u hu hs] at hroot
    cases hroot
  · generalize hu : makeCandidate D m.stage m.revision
      (unavailableRoot c.reductionLevel ordinal shard reason) id m.now = u at N
    have hs : u.stageId = m.stage.id := by rw [← hu]; rfl
    have hl : u.reductionLevel = some c.reductionLevel := by rw [← hu]; rfl
    have hblocked : Blocked db' u := by
      refine ⟨by rw [hl]; rfl, by rw [← hu]; rfl,
        by rw [← hu]; simp [makeCandidate, unavailableRoot, hreason], ?_⟩
      rw [Store.generation, N.revisions, ← hu]
      exact generation
    have undone : c''.completed ≠ false := by simp [done]
    have hclosed := R.insert_closed N hp hs hl
    refine ⟨fun k v hv hvs => ?_, fun h => absurd h undone, fun h => absurd h undone, ?_,
      fun h => absurd h undone, ?_, fun h => absurd h undone, fun h => absurd h undone,
      fun h => absurd h undone, ?_⟩
    · rw [level]
      rcases N.cases hv with hv | rfl
      · exact R.levels k v hv hvs
      · exact ⟨_, Nat.le_refl _, hl⟩
    · rw [ord]
      exact R.floor
    · rw [level]
      exact hclosed
    · intro _ k v hv hvs hroot
      rcases N.cases hv with hv | rfl
      · rw [R.unmarked hc k v hv hvs] at hroot
        cases hroot
      · exact .blocked hblocked

/-! ## Closing a level -/

theorem Progress.advance {c : StageCursor} (R : Progress db s p c) (c' : StageCursor) (hc : c.completed = false)
    (ha : c.attentionCode = none) (hw : c.reductionWaiting = true)
    (completed : c'.completed = false) (parent : c'.parentUnitId = none)
    (level : c'.reductionLevel = c.reductionLevel + 1) (ordinal : c'.reductionOrdinal = -1)
    (waiting : c'.reductionWaiting = false) : Progress db s p c' := by
  have above : ∀ k u, db.units.find? k = some u → u.stageId = s.id →
      u.reductionLevel ≠ some (c.reductionLevel + 1) := fun k u hu hs h => by
    obtain ⟨n, hn, hl⟩ := R.levels k u hu hs
    have := Option.some.inj (hl.symm.trans h)
    omega
  have hgroups : db.keys (inLevel s (c.reductionLevel + 1)) = [] := by
    rw [List.eq_nil_iff_forall_not_mem]
    intro k hk
    obtain ⟨u, hu, hin⟩ := mem_keys.mp hk
    obtain ⟨-, hs, hl⟩ := inLevel_iff.mp hin
    exact above k u hu hs hl
  refine ⟨fun k u hu hs => ?_, fun _ => R.ordinals hc, fun _ k u hu hs hl => ?_, by omega,
    fun _ k hk => ?_, fun n hn => ?_, fun _ _ => ?_, fun _ _ hw' => ?_, fun _ => R.unmarked hc,
    fun h => ?_⟩
  · obtain ⟨n, hn, hl⟩ := R.levels k u hu hs
    exact ⟨n, by omega, hl⟩
  · rw [level] at hl
    exact absurd hl (above k u hu hs)
  · rw [parent] at hk
    cases hk
  · rw [level] at hn
    rcases Nat.lt_succ_iff_lt_or_eq.mp hn with hn | rfl
    · exact R.closed n hn
    · exact R.waiting hc ha hw
  · rw [level]
    have hnone : db.keys (fun u => levelInput s p (c.reductionLevel + 1) u && consumed db c' u) =
        [] := by
      rw [List.eq_nil_iff_forall_not_mem]
      intro k hk
      obtain ⟨u, -, hq⟩ := mem_keys.mp hk
      simp [consumed, afterCursor, parent] at hq
    refine ⟨fun k hk => ?_, by rw [hgroups, hnone]; rfl⟩
    rw [hgroups] at hk
    cases hk
  · rw [waiting] at hw'
    cases hw'
  · rw [completed] at h
    cases h

theorem levelRoot_uncommitted {root u : UnitRow} (h : levelRoot db s level = some root)
    (hu : u ∈ db.units.rows) (hin : inLevel s level u = true) (hstate : u.state ≠ .committed) :
    root.state ≠ .committed := by
  have hfirst : rootOrder root u = true :=
    Table.select_first (fun a b => Table.orderBy_total (rootKey a) (rootKey b))
      (fun _ _ _ => Table.orderBy_trans) h hu hin
  have hflag := Table.orderBy_head hfirst
  intro hroot
  simp [hroot, hstate] at hflag

theorem levelRoot_state {root : UnitRow} (h : levelRoot db s level = some root)
    (closed : db.units.rows.any (openInLevel s level) = false)
    (uncommitted : levelCommitted db s level ≠ levelTotal db s level) :
    root.state = .failedPermanent ∨ root.state = .cancelled ∨ root.state = .skipped ∨
      root.state = .needsAttention := by
  obtain ⟨hfind, hin⟩ := levelRoot_facts h
  obtain ⟨-, hs, hl⟩ := inLevel_iff.mp hin
  obtain ⟨u, hu, huin, hstate⟩ : ∃ u ∈ db.units.rows, inLevel s level u = true ∧
      u.state ≠ .committed := by
    by_contra hall
    push Not at hall
    refine uncommitted ?_
    unfold levelCommitted levelTotal Table.count
    refine List.countP_congr fun u hu => ?_
    constructor
    · exact fun h => (Bool.and_eq_true_iff.mp h).1
    · intro h
      simp [h, hall u hu h]
  have hcommitted := levelRoot_uncommitted h hu huin hstate
  have hopen := List.any_eq_false.mp closed root (Table.mem_of_find? hfind)
  simp only [openInLevel, hs, hl, decide_true, Bool.true_and, Bool.or_eq_true, decide_eq_true_eq,
    not_or] at hopen
  obtain ⟨⟨⟨h1, h2⟩, h3⟩, h4⟩ := hopen
  cases hst : root.state <;> simp_all

theorem markRoot_keys {root : UnitRow} {now : ℕ} (h : markRoot db root now = .ok db')
    {q : UnitRow → Bool} (hq : ∀ u, q (UnitRow.markRoot now u) = q u) : db'.keys q = db.keys q := by
  unfold markRoot at h
  simp only [bind_eq_ok] at h
  obtain ⟨-, -, h⟩ := h
  obtain ⟨v, -, -, rfl⟩ := casUnit_ok h
  unfold Store.keys
  dsimp only
  rw [Table.filter_updateWhere _ hq, List.map_map]
  refine List.map_congr_left fun u _ => ?_
  by_cases hu : u.id = root.id <;> simp [Function.comp, hu, UnitRow.markRoot_id]

theorem markRoot_find {root : UnitRow} {now : ℕ} (h : markRoot db root now = .ok db') {k : Key}
    {u' : UnitRow} (hu' : db'.units.find? k = some u') : ∃ u, db.units.find? k = some u ∧
      (u' = u ∧ k ≠ root.id ∨ u' = u.markRoot now ∧ k = root.id) := by
  unfold markRoot at h
  simp only [bind_eq_ok] at h
  obtain ⟨-, -, h⟩ := h
  obtain ⟨v, -, -, rfl⟩ := casUnit_ok h
  dsimp only at hu'
  obtain ⟨u, hu, hcase⟩ := Table.find?_updateWhere_some hu'
  have hk : u.id = k := Table.key_of_find? hu
  refine ⟨u, hu, ?_⟩
  by_cases hroot : u.id = root.id
  · exact .inr ⟨by simpa [hroot] using hcase.symm, hk.symm.trans hroot⟩
  · exact .inl ⟨by simpa [hroot] using hcase.symm, hk ▸ hroot⟩

theorem Covers.markRoot {root : UnitRow} {now : ℕ} (C : Covers db s p level fun _ => true)
    (h : markRoot db root now = .ok db') (Ep : Evolution p.id db db') (K : KeepsBindings db db') :
    Covers db' s p level fun _ => true := by
  have groups : ∀ n, db'.keys (inLevel s n) = db.keys (inLevel s n) := fun n =>
    markRoot_keys h fun _ => rfl
  refine C.of_keys (fun k => by rw [groups]) (fun k => ?_) K
  cases level with
  | zero =>
    refine Ep.mem_keys (fun u h => ?_) (fun u h => ?_) (fun u u' h => ?_) k
    · simp only [levelInput, exposed, Bool.and_eq_true, decide_eq_true_eq] at h
      exact h.1.1.2
    · simp only [levelInput, exposed, Bool.and_eq_true, decide_eq_true_eq] at h
      exact h.1.1.2
    · rw [levelInput_identity h]
  | succ n =>
    have hsame : ∀ db : Store, db.keys (fun u => levelInput s p (n + 1) u && true) =
        db.keys (inLevel s n) := fun db => by simp [levelInput]
    rw [hsame, hsame, groups]

theorem Progress.root {m : Round} {c : StageCursor} {root : UnitRow} (c' : StageCursor) (hm : m.stage = s)
    (hp : p.id ≠ s.id) (R : Progress db s p c) (hc : c.completed = false)
    (ha : c.attentionCode = none) (hw : c.reductionWaiting = true)
    (closed : db.units.rows.any (openInLevel s c.reductionLevel) = false)
    (total : levelTotal db s c.reductionLevel ≠ 0)
    (uncommitted : ¬ (levelCommitted db s c.reductionLevel = levelTotal db s c.reductionLevel ∧
      1 < levelTotal db s c.reductionLevel))
    (hroot : levelRoot db s c.reductionLevel = some root)
    (attention : 1 < levelTotal db s c.reductionLevel → root.state ≠ .needsAttention)
    (h : Durable.markRoot db root m.now = .ok db') (level : c'.reductionLevel = c.reductionLevel)
    (ordinal : c'.reductionOrdinal = c.reductionOrdinal) (done : c'.completed = true) :
    Progress db' s p c' := by
  subst hm
  obtain ⟨hfind, hin⟩ := levelRoot_facts hroot
  have F := markRoot_frame hfind (inLevel_iff.mp hin).2.1 h
  have Ep := F.evolution hp
  have undone : c'.completed ≠ false := by simp [done]
  refine ⟨fun k u' hu' hs' => ?_, fun h => absurd h undone, fun h => absurd h undone, ?_,
    fun h => absurd h undone, ?_, fun h => absurd h undone, fun h => absurd h undone,
    fun h => absurd h undone, ?_⟩
  · obtain ⟨u, hu, hcase⟩ := markRoot_find h hu'
    rw [level]
    rcases hcase with ⟨rfl, -⟩ | ⟨rfl, -⟩
    · exact R.levels k u' hu hs'
    · exact R.levels k u hu hs'
  · rw [ordinal]
    exact R.floor
  · rw [level]
    exact fun n hn => (R.closed n hn).markRoot h Ep F.keeps
  · rw [level]
    intro _ k u' hu' hs' hmarked
    obtain ⟨u, hu, ⟨rfl, -⟩ | ⟨rfl, rfl⟩⟩ := markRoot_find h hu'
    · rw [R.unmarked hc k u' hu hs'] at hmarked
      cases hmarked
    · obtain rfl : u = root := Option.some.inj (hu.symm.trans hfind)
      by_cases hone : 1 < levelTotal db m.stage c.reductionLevel
      · rcases levelRoot_state hroot closed fun heq => uncommitted ⟨heq, hone⟩ with h | h | h | h
        · exact .dead (.inl h)
        · exact .dead (.inr (.inl h))
        · exact .dead (.inr (.inr h))
        · exact absurd h (attention hone)
      · refine .sole ?_ ((R.waiting hc ha hw).markRoot h Ep F.keeps)
        rw [markRoot_keys h fun _ => rfl]
        have hlen : (db.keys (inLevel m.stage c.reductionLevel)).length = 1 := by
          unfold levelTotal Table.count at total hone
          unfold Store.keys
          rw [List.length_map, ← List.countP_eq_length_filter]
          omega
        obtain ⟨k, hk⟩ := List.length_eq_one_iff.mp hlen
        have hmem : u.id ∈ db.keys (inLevel m.stage c.reductionLevel) := mem_keys.mpr ⟨u, hu, hin⟩
        rw [hk, List.mem_singleton] at hmem
        rw [hk, ← hmem]
        rfl

/-! ## The next group -/

theorem selectGroup_cons_ok {limit : ℕ} {x : Parent} {inputs out sel : List Parent}
    {content nonempty : ℕ} (h : selectGroup limit content nonempty sel (x :: inputs) = .ok out) :
    (2 ≤ sel.length ∧ out = sel) ∨
    (2 + (content + (x.entries.1 - 2)) + (nonempty + (if 0 < x.entries.2 then 1 else 0) - 1) ≤ limit ∧
      selectGroup limit (content + (x.entries.1 - 2))
        (nonempty + if 0 < x.entries.2 then 1 else 0) (sel ++ [x]) inputs = .ok out) := by
  unfold selectGroup at h
  dsimp only at h
  generalize content + (x.entries.1 - 2) = content' at h
  generalize (nonempty + if 0 < x.entries.2 then 1 else 0) = nonempty' at h
  split at h
  · left
    split at h
    · cases h
    · cases h
    · rename_i hnil hone
      simp only [Except.ok.injEq] at h
      refine ⟨?_, h.symm⟩
      by_contra hless
      obtain hzero | hlen : sel.length = 0 ∨ sel.length = 1 := by omega
      · exact hnil (List.eq_nil_of_length_eq_zero hzero)
      · obtain ⟨y, hy⟩ := List.length_eq_one_iff.mp hlen
        exact hone y hy
  · rename_i hfits
    exact .inr ⟨by omega, h⟩

theorem selectGroup_prefix {limit : ℕ} {inputs out sel : List Parent} {content nonempty : ℕ}
    (h : selectGroup limit content nonempty sel inputs = .ok out) :
    (∃ rest, sel ++ inputs = out ++ rest) ∧ (out = [] → sel = [] ∧ inputs = []) := by
  induction inputs generalizing sel content nonempty with
  | nil =>
    simp only [selectGroup, Except.ok.injEq] at h
    exact ⟨⟨[], by rw [h]⟩, fun hout => ⟨h.trans hout, rfl⟩⟩
  | cons x inputs ih =>
    rcases selectGroup_cons_ok h with ⟨two, rfl⟩ | ⟨-, h⟩
    · refine ⟨⟨x :: inputs, rfl⟩, fun hout => ?_⟩
      rw [hout] at two
      cases two
    · obtain ⟨⟨rest, hrest⟩, hnil⟩ := ih h
      refine ⟨⟨rest, by rw [← hrest]; simp⟩, fun hout => ?_⟩
      have := (hnil hout).1
      simp at this

/-- A usable input: a committed unit with its own result. -/
structure Parent.Reads (db : Store) (x : Parent) : Prop where
  unit : db.units.find? x.unit.id = some x.unit
  result : db.results.find? x.result.id = some x.result
  owner : x.result.unitId = x.unit.id

theorem reducible_reads (L : Linked (fun _ _ c => c.Shape) db) {u : UnitRow} {role : String}
    {x : Parent} (hu : db.units.find? u.id = some u)
    (h : (parentRow db role u).reducible? = some x) : x.unit = u ∧ x.Reads db := by
  unfold ParentRow.reducible? ParentRow.committed? parentRow at h
  simp only [Option.bind_eq_bind, Option.bind_eq_some_iff, Option.ite_none_right_eq_some] at h
  obtain ⟨y, ⟨r, hr, hcommitted, hy⟩, -, h⟩ := h
  cases h
  cases hy
  unfold committedResult at hr
  simp only [Option.bind_eq_bind, Option.bind_eq_some_iff, Option.filter_eq_some_iff] at hr
  obtain ⟨id, hid, hfind, -⟩ := hr
  obtain ⟨s, g, -, -, S⟩ := L.cells hu
  obtain ⟨r', hresults, hid', howner, -⟩ := S.committed.result hcommitted
  have hrid : r.id = id := Table.key_of_find? hfind
  have hmem : r' ∈ db.results.rows := by
    have hin : r' ∈ (db.cell u).results := hresults ▸ List.mem_singleton_self r'
    exact (mem_resultsOf.mp hin).1
  have hsame : r' = r := by
    have hfind' := Table.find?_of_mem hmem
    have : r'.id = id := (Option.some.inj (hid'.symm.trans hid))
    rw [this, hfind] at hfind'
    exact (Option.some.inj hfind').symm
  subst hsame
  exact ⟨rfl, hu, by rw [hrid]; exact hfind, howner⟩

theorem reducible_mapM (L : Linked (fun _ _ c => c.Shape) db) {role : String} :
    ∀ {units : List UnitRow} {out : List Parent}, (∀ u ∈ units, db.units.find? u.id = some u) →
      (units.map (parentRow db role)).mapM ParentRow.reducible? = some out →
      out.map Parent.unit = units ∧ ∀ x ∈ out, x.Reads db
  | [], out, _, h => by
    simp only [List.map_nil, List.mapM_nil] at h
    cases h
    exact ⟨rfl, fun x hx => by cases hx⟩
  | u :: units, out, hunits, h => by
    simp only [List.map_cons, List.mapM_cons, Option.bind_eq_bind, Option.bind_eq_some_iff] at h
    obtain ⟨x, hx, rest, hrest, h⟩ := h
    cases h
    obtain ⟨hxu, hreads⟩ := reducible_reads L (hunits u (List.mem_cons_self ..)) hx
    obtain ⟨hmap, hall⟩ := reducible_mapM L (fun v hv => hunits v (List.mem_cons_of_mem _ hv)) hrest
    refine ⟨by rw [List.map_cons, hxu, hmap], fun y hy => ?_⟩
    rcases List.mem_cons.mp hy with rfl | hy
    · exact hreads
    · exact hall y hy

theorem bound_producers {k : Key} {cand : CandidateUnit}
    (bound : ((unitDependenciesOf db k).take (maxUnitDependencies + 1)).map
        (fun d => (d.sourceResultId, d.slice, d.role)) =
      (expectedBindings k cand).map (fun d => (d.sourceResultId, d.slice, d.role)))
    (few : cand.parents.length ≤ maxUnitDependencies)
    (reads : ∀ x ∈ cand.parents, db.results.find? x.result.id = some x.result ∧
      x.result.unitId = x.unit.id) :
    Bound db k ∧ db.producers k = cand.parents.map (fun x => x.unit.id) := by
  have hlen : (unitDependenciesOf db k).length ≤ maxUnitDependencies + 1 := by
    have := congrArg List.length bound
    simp only [List.length_map, List.length_take, expectedBindings, List.length_zipIdx] at this
    omega
  rw [List.take_of_length_le hlen] at bound
  have hsources : (unitDependenciesOf db k).map UnitDependency.sourceResultId =
      cand.parents.map (fun x => x.result.id) := by
    have := congrArg (List.map Prod.fst) bound
    simp only [List.map_map] at this
    rw [show (unitDependenciesOf db k).map UnitDependency.sourceResultId = _ from this]
    have hfst := congrArg (List.map (fun x : Parent => x.result.id))
      (List.zipIdx_map_fst 0 cand.parents)
    rw [List.map_map] at hfst
    rw [expectedBindings, List.map_map]
    exact hfst
  have hproducer : ∀ d, db.producer d =
      (fun id => (db.results.find? id).map ResultRow.unitId) d.sourceResultId := fun _ => rfl
  constructor
  · intro d hd
    have hm : d.sourceResultId ∈ cand.parents.map (fun x => x.result.id) :=
      hsources ▸ List.mem_map_of_mem hd
    obtain ⟨x, hx, hid⟩ := List.mem_map.mp hm
    rw [hproducer, ← hid]
    dsimp only
    rw [(reads x hx).1]
    rfl
  · unfold Store.producers
    rw [show db.producer = (fun id => (db.results.find? id).map ResultRow.unitId) ∘
      UnitDependency.sourceResultId from rfl, ← List.filterMap_map, hsources, List.filterMap_map]
    rw [← List.filterMap_eq_map]
    refine List.filterMap_congr fun x hx => ?_
    simp [(reads x hx).1, (reads x hx).2]

/-- The inputs after the cursor, in order. -/
def cursorInputs (db : Store) (s p : Stage) (c : StageCursor) : List UnitRow :=
  (db.units.rows.filter (fun u => levelInput s p c.reductionLevel u &&
    afterCursor db c.reductionLevel c.parentUnitId u)).insertionSort
      (fun a b => inputOrder c.reductionLevel a b = true)

theorem mem_cursorInputs {c : StageCursor} {u : UnitRow} : u ∈ cursorInputs db s p c ↔
    u ∈ db.units.rows ∧ levelInput s p c.reductionLevel u = true ∧ consumed db c u = false := by
  unfold cursorInputs consumed
  rw [List.mem_insertionSort, List.mem_filter, Bool.and_eq_true, Bool.not_eq_false']

theorem Progress.rank_inj {c : StageCursor} (R : Progress db s p c) (hc : c.completed = false)
    (U : DistinctUnits db) {a b : UnitRow} (ha : a ∈ db.units.rows) (hb : b ∈ db.units.rows)
    (hla : levelInput s p c.reductionLevel a = true) (hlb : levelInput s p c.reductionLevel b = true)
    (h : inputRank c.reductionLevel a = inputRank c.reductionLevel b) : a = b := by
  cases hl : c.reductionLevel with
  | zero =>
    rw [hl] at hla hlb h
    simp only [levelInput, exposed, Bool.and_eq_true, decide_eq_true_eq] at hla hlb
    exact U a ha b hb (hla.1.1.trans hlb.1.1.symm) (hla.1.2.trans hlb.1.2.symm) h
  | succ n =>
    rw [hl] at hla hlb h
    obtain ⟨-, hsa, hna⟩ := inLevel_iff.mp hla
    obtain ⟨-, hsb, hnb⟩ := inLevel_iff.mp hlb
    have hid := R.ordinals hc a.id b.id a b (Table.find?_of_mem ha) (Table.find?_of_mem hb) hsa hsb
      (hna.trans hnb.symm) h
    have hfind := Table.find?_of_mem ha
    rw [hid, Table.find?_of_mem hb] at hfind
    exact (Option.some.inj hfind).symm

theorem Progress.inputs_sorted {c : StageCursor} (R : Progress db s p c) (hc : c.completed = false)
    (U : DistinctUnits db) : (cursorInputs db s p c).Pairwise
      (fun a b => inputRank c.reductionLevel a < inputRank c.reductionLevel b) :=
  Table.pairwise_sorted
    (fun _ _ => Table.orderBy_total _ _) (fun _ _ _ => Table.orderBy_trans)
    (fun _ _ h => Table.orderBy_head h)
    (fun _ ha _ hb hpa hpb h => R.rank_inj hc U ha hb (Bool.and_eq_true_iff.mp hpa).1
      (Bool.and_eq_true_iff.mp hpb).1 h)

theorem consumed_prefix {c : StageCursor} {pre rest : List UnitRow} {last : UnitRow}
    (sorted : (cursorInputs db s p c).Pairwise
      (fun a b => inputRank c.reductionLevel a < inputRank c.reductionLevel b))
    (split : cursorInputs db s p c = pre ++ rest) (hlast : pre.getLast? = some last)
    {u : UnitRow} (hu : u ∈ db.units.rows) (hin : levelInput s p c.reductionLevel u = true) :
    inputRank c.reductionLevel u ≤ inputRank c.reductionLevel last ↔
      consumed db c u = true ∨ u ∈ pre := by
  cases hcons : consumed db c u with
  | false =>
    have hmem : u ∈ pre ++ rest := split ▸ mem_cursorInputs.mpr ⟨hu, hin, hcons⟩
    rw [split] at sorted
    rw [← Table.mem_prefix_iff sorted hlast hmem]
    simp
  | true =>
    have hafter : consumed db c last = false := by
      have hm : last ∈ cursorInputs db s p c :=
        split ▸ List.mem_append_left _ (List.mem_of_getLast? hlast)
      exact (mem_cursorInputs.mp hm).2.2
    simp only [true_or, iff_true]
    unfold consumed afterCursor at hcons hafter
    cases hc : c.parentUnitId.bind db.units.find? with
    | none =>
      rw [hc] at hcons
      cases hcons
    | some v =>
      rw [hc] at hcons hafter
      simp only [Bool.not_eq_true', decide_eq_false_iff_not, Bool.not_eq_false',
        decide_eq_true_eq] at hcons hafter
      omega

theorem Covers.extend {u : UnitRow} {q q' : UnitRow → Bool} {pre : List UnitRow}
    (C : Covers db s p level q) (N : NewUnit db db' u) (hin : inLevel s level u = true)
    (hnot : levelInput s p level u = false) (bound : Bound db' u.id)
    (producers : db'.producers u.id = pre.map UnitRow.id) (hnodup : (pre.map UnitRow.id).Nodup)
    (hpre : ∀ v ∈ pre, v ∈ db.units.rows ∧ levelInput s p level v = true ∧ q v = false)
    (hq : ∀ v ∈ db.units.rows, levelInput s p level v = true →
      (q' v = true ↔ q v = true ∨ v ∈ pre)) : Covers db' s p level q' := by
  have hgroups : db'.keys (inLevel s level) = db.keys (inLevel s level) ++ [u.id] := by
    rw [N.keys, hin]
    rfl
  have same : ∀ k ∈ db.keys (inLevel s level), Bound db' k ∧ db'.producers k = db.producers k := by
    intro k hk
    obtain ⟨v, hv, -⟩ := mem_keys.mp hk
    exact N.keeps.bound hv (C.bound k hk)
  constructor
  · intro k hk
    rw [hgroups, List.mem_append, List.mem_singleton] at hk
    rcases hk with hk | rfl
    · exact (same k hk).1
    · exact bound
  · have hinputs : db'.keys (fun v => levelInput s p level v && q' v) =
        db.keys (fun v => levelInput s p level v && q' v) := by
      rw [N.keys, hnot]
      simp
    rw [hgroups, hinputs, List.flatMap_append, List.flatMap_congr fun k hk => (same k hk).2]
    simp only [List.flatMap_cons, List.flatMap_nil, List.append_nil, producers]
    refine (C.perm.append_right _).trans ?_
    refine (List.perm_ext_iff_of_nodup ?_ (keys_nodup _)).mpr fun k => ?_
    · refine (keys_nodup _).append hnodup fun k hk hk' => ?_
      obtain ⟨v, hv, hqv⟩ := mem_keys.mp hk
      obtain ⟨w, hw, rfl⟩ := List.mem_map.mp hk'
      obtain rfl : w = v := Option.some.inj ((Table.find?_of_mem (hpre w hw).1).symm.trans hv)
      rw [Bool.and_eq_true, (hpre w hw).2.2] at hqv
      cases hqv.2
    · rw [List.mem_append, mem_keys, mem_keys]
      constructor
      · rintro (⟨v, hv, hqv⟩ | hk)
        · obtain ⟨hvin, hvq⟩ := Bool.and_eq_true_iff.mp hqv
          refine ⟨v, hv, Bool.and_eq_true_iff.mpr ⟨hvin, ?_⟩⟩
          exact (hq v (Table.mem_of_find? hv) hvin).mpr (.inl hvq)
        · obtain ⟨w, hw, rfl⟩ := List.mem_map.mp hk
          obtain ⟨hrow, hwin, -⟩ := hpre w hw
          refine ⟨w, Table.find?_of_mem hrow, Bool.and_eq_true_iff.mpr ⟨hwin, ?_⟩⟩
          exact (hq w hrow hwin).mpr (.inr hw)
      · rintro ⟨v, hv, hqv⟩
        obtain ⟨hvin, hvq⟩ := Bool.and_eq_true_iff.mp hqv
        rcases (hq v (Table.mem_of_find? hv) hvin).mp hvq with h | h
        · exact .inl ⟨v, hv, Bool.and_eq_true_iff.mpr ⟨hvin, h⟩⟩
        · exact .inr (List.mem_map.mpr ⟨v, h, Table.key_of_find? hv⟩)

theorem Covers.all {c : StageCursor} (C : Covers db s p c.reductionLevel (consumed db c))
    (none : cursorInputs db s p c = []) : Covers db s p c.reductionLevel fun _ => true := by
  refine C.of_keys (fun _ => Iff.rfl) (fun k => ?_) ⟨fun _ _ _ => rfl, fun _ _ h => h⟩
  rw [mem_keys, mem_keys]
  refine exists_congr fun u => and_congr_right fun hu => ?_
  rw [Bool.and_true, Bool.and_eq_true, iff_self_and]
  intro hin
  cases hcons : consumed db c u with
  | true => rfl
  | false =>
    have hm : u ∈ cursorInputs db s p c := mem_cursorInputs.mpr ⟨Table.mem_of_find? hu, hin, hcons⟩
    rw [none] at hm
    cases hm

def groupCandidate (c : StageCursor) (selected : List Parent) : CandidateUnit :=
  { parents := selected
    shardKey := some (.reduction c.reductionLevel (c.reductionOrdinal + 1).toNat)
    reductionLevel := some c.reductionLevel
    reductionOrdinal := some (c.reductionOrdinal + 1).toNat }

theorem Progress.group {m : Round} {c c' c'' : StageCursor} {selected : List Parent}
    {rest : List UnitRow} {last : Parent} (hm : m.stage = s) (hp : p.id ≠ s.id)
    (U : DistinctUnits db) (R : Progress db s p c) (hc : c.completed = false)
    (ha : c.attentionCode = none) (few : selected.length ≤ maxUnitDependencies)
    (reads : ∀ x ∈ selected, x.Reads db)
    (split : cursorInputs db s p c = selected.map Parent.unit ++ rest)
    (hlast : selected.getLast? = some last)
    (I : Inserted D m (groupCandidate c selected) c db db' c') (completed : c''.completed = false)
    (hlevel : c''.reductionLevel = c.reductionLevel)
    (parent : c''.parentUnitId = some last.unit.id)
    (ordinal : c''.reductionOrdinal = (c.reductionOrdinal + 1).toNat)
    (waiting : c''.reductionWaiting = true → rest = [])
    (attention : c''.attentionCode = c'.attentionCode) : Progress db' s p c'' := by
  subst hm
  have floor := R.floor
  have hfloor : -1 ≤ c''.reductionOrdinal := by rw [ordinal]; omega
  have hlast' : (selected.map Parent.unit).getLast? = some last.unit := by
    rw [List.getLast?_map, hlast]
    rfl
  have hlastmem : last.unit ∈ cursorInputs db m.stage p c :=
    split ▸ List.mem_append_left _ (List.mem_of_getLast? hlast')
  obtain ⟨hlastrow, hlastin, -⟩ := mem_cursorInputs.mp hlastmem
  have done : c''.completed ≠ true := by simp [completed]
  rcases I.new with ⟨code, rfl, rfl⟩ | ⟨id, N, -, bound, rfl⟩
  · have noted : c''.attentionCode ≠ none := by simp [attention]
    refine ⟨hlevel ▸ R.levels, fun _ => R.ordinals hc, fun _ k u hu hs hl => ?_, hfloor,
      fun _ k hk => ?_, hlevel ▸ R.closed, fun _ h => absurd h noted, fun _ h => absurd h noted,
      fun _ => R.unmarked hc, fun h => absurd h done⟩
    · have := R.top hc k u hu hs (hlevel ▸ hl)
      rw [ordinal]
      omega
    · obtain rfl : last.unit.id = k := Option.some.inj (parent.symm.trans hk)
      rw [hlevel]
      exact ⟨last.unit, Table.find?_of_mem hlastrow, hlastin⟩
  · generalize hu : makeCandidate D m.stage m.revision (groupCandidate c selected) id m.now = u at N
    have hid : u.id = id := by rw [← hu]; rfl
    have hs : u.stageId = m.stage.id := by rw [← hu]; rfl
    have hl : u.reductionLevel = some c.reductionLevel := by rw [← hu]; rfl
    have ho : u.reductionOrdinal = some (c.reductionOrdinal + 1).toNat := by rw [← hu]; rfl
    have hr : u.reductionRoot = false := by rw [← hu]; rfl
    have hin : inLevel m.stage c.reductionLevel u = true :=
      inLevel_iff.mpr ⟨by rw [← hu]; rfl, hs, hl⟩
    have sorted := R.inputs_sorted hc U
    have hrow : ∀ v ∈ selected.map Parent.unit, v ∈ db.units.rows ∧
        levelInput m.stage p c.reductionLevel v = true ∧ consumed db c v = false := fun v hv =>
      mem_cursorInputs.mp (split ▸ List.mem_append_left _ hv)
    -- the cursor's unit is the same row in both stores
    have hconsumed : ∀ v, consumed db' c'' v = true ↔
        inputRank c.reductionLevel v ≤ inputRank c.reductionLevel last.unit := fun v => by
      unfold consumed afterCursor
      rw [parent, Option.bind_some, N.find (Table.find?_of_mem hlastrow), hlevel]
      simp
    obtain ⟨hbound, hproducers⟩ := bound_producers bound few fun x hx =>
      ⟨N.keeps.results _ _ (reads x hx).result, (reads x hx).owner⟩
    have hnodup : ((selected.map Parent.unit).map UnitRow.id).Nodup := by
      have hall : ((cursorInputs db m.stage p c).map UnitRow.id).Nodup := by
        refine (((List.perm_insertionSort _ _).map UnitRow.id).nodup_iff).mpr ?_
        exact keys_nodup _
      rw [split, List.map_append] at hall
      exact hall.of_append_left
    have hcurrent : Covers db' m.stage p c.reductionLevel (consumed db' c'') := by
      refine (R.current hc ha).extend N hin (new_input hp hs hl) (hid ▸ hbound) ?_ hnodup hrow
        fun v hv hvin => ?_
      · rw [hid, hproducers, List.map_map]
        rfl
      · rw [hconsumed v, consumed_prefix sorted split hlast' hv hvin]
    refine ⟨fun k v hv hvs => ?_, fun _ k k' v v' hv hv' hvs hvs' hll hoo => ?_,
      fun _ k v hv hvs hvl => ?_, hfloor, fun _ k hk => ?_, ?_, fun _ _ => ?_, fun _ _ hw => ?_,
      fun _ k v hv hvs => ?_, fun h => absurd h done⟩
    · rw [hlevel]
      rcases N.cases hv with hv | rfl
      · exact R.levels k v hv hvs
      · exact ⟨_, Nat.le_refl _, hl⟩
    · have above : ∀ j w, db.units.find? j = some w → w.stageId = m.stage.id →
          w.reductionLevel = u.reductionLevel →
          w.reductionOrdinal.getD 0 ≠ u.reductionOrdinal.getD 0 := fun j w hw hws hwl heq => by
        have := R.top hc j w hw hws (hwl.trans hl)
        rw [ho, Option.getD_some] at heq
        omega
      rcases N.cases hv with hv₀ | rfl <;> rcases N.cases hv' with hv₀' | rfl
      · exact R.ordinals hc k k' v v' hv₀ hv₀' hvs hvs' hll hoo
      · exact absurd hoo (above k v hv₀ hvs hll)
      · exact absurd hoo.symm (above k' v' hv₀' hvs' hll.symm)
      · exact (Table.key_of_find? hv).symm.trans (Table.key_of_find? hv')
    · rw [ordinal]
      rcases N.cases hv with hv | rfl
      · have := R.top hc k v hv hvs (hlevel ▸ hvl)
        omega
      · rw [ho]
        simp
    · obtain rfl : last.unit.id = k := Option.some.inj (parent.symm.trans hk)
      rw [hlevel]
      exact ⟨last.unit, N.find (Table.find?_of_mem hlastrow), hlastin⟩
    · rw [hlevel]
      exact R.insert_closed N hp hs hl
    · rw [hlevel]
      exact hcurrent
    · rw [hlevel]
      have hnone := waiting hw
      subst hnone
      rw [List.append_nil] at split
      rw [← hlevel]
      refine Covers.all (by rw [hlevel]; exact hcurrent) ?_
      rw [List.eq_nil_iff_forall_not_mem]
      intro v hv
      obtain ⟨hvrow, hvin, hvcons⟩ := mem_cursorInputs.mp hv
      rw [hlevel] at hvin
      have hvold : v ∈ db.units.rows := by
        rw [N.rows, List.mem_append, List.mem_singleton] at hvrow
        rcases hvrow with h | rfl
        · exact h
        · rw [new_input hp hs hl] at hvin
          cases hvin
      rw [← Bool.not_eq_true, hconsumed v,
        consumed_prefix sorted (split.trans (List.append_nil _).symm) hlast' hvold hvin] at hvcons
      refine hvcons ?_
      cases hold : consumed db c v with
      | true => exact .inl rfl
      | false => exact .inr (split ▸ mem_cursorInputs.mpr ⟨hvold, hvin, hold⟩)
    · rcases N.cases hv with hv | rfl
      · exact R.unmarked hc k v hv hvs
      · exact hr

/-! ## The round -/

theorem saveCursor_evolution {cursor : StageCursor} (h : saveCursor db cursor = .ok db') (x : Key) :
    Evolution x db db' ∧ KeepsBindings db db' := by
  obtain ⟨cursors, -, rfl⟩ := saveCursor_ok h
  refine ⟨⟨fun k u hu _ => ⟨u, hu, rfl, fun _ => rfl,
      fun B => .inl ⟨B.level, B.state, B.error, B.generation⟩⟩,
    fun k u' hu' hs => ⟨u', hu', hs⟩⟩, fun _ _ _ => rfl, fun _ _ h => h⟩

/-- The stage's cursor after a round, and how far the reduction has come. -/
def Advanced (db : Store) (s p : Stage) : Prop :=
  ∃ c, db.cursors.find? s.id = some c ∧ c.legacyReplay = false ∧ Progress db s p c

theorem Progress.save {c : StageCursor} (R : Progress db s p c) (h : saveCursor db c = .ok db')
    (hid : c.stageId = s.id) (legacy : c.legacyReplay = false) : Advanced db' s p := by
  refine ⟨c, ?_, legacy, ?_⟩
  · rw [← hid]
    exact saveCursor_self h legacy
  · obtain ⟨Es, K⟩ := saveCursor_evolution h s.id
    exact R.keep Es (saveCursor_evolution h p.id).1 K

theorem insertAndSave_ok {m : Round} {cursor : StageCursor} {c : CandidateUnit}
    {advance : StageCursor → StageCursor} (legacy : cursor.legacyReplay = false)
    (h : insertAndSave D m db cursor c advance = .ok db') :
    ∃ db1 cursor1, Inserted D m c cursor db db1 cursor1 ∧ cursor1.legacyReplay = false ∧
      cursor1.stageId = cursor.stageId ∧ cursor1.reductionLevel = cursor.reductionLevel ∧
      cursor1.reductionOrdinal = cursor.reductionOrdinal ∧ cursor1.completed = cursor.completed ∧
      saveCursor db1 (advance cursor1) = .ok db' := by
  unfold insertAndSave at h
  simp only [bind_eq_ok, Prod.exists] at h
  obtain ⟨db1, cursor1, h1, h2⟩ := h
  have I := insertCandidate_inserted legacy h1
  refine ⟨db1, cursor1, I, ?_⟩
  rcases I.new with ⟨code, -, rfl⟩ | ⟨id, -, -, -, rfl⟩
  · exact ⟨legacy, rfl, rfl, rfl, rfl, h2⟩
  · exact ⟨rfl, rfl, rfl, rfl, rfl, h2⟩

theorem Progress.end_unavailable {m : Round} {c : StageCursor} {ordinal : ℕ} {shard : ShardKey}
    {reason : UnitError} {advance : StageCursor → StageCursor} (hm : m.stage = s)
    (hp : p.id ≠ s.id)
    (generation : db.generation s.revisionId = some m.revision.manualRetryGeneration)
    (hreason : reason.unavailable = true) (R : Progress db s p c) (hc : c.completed = false)
    (hid : c.stageId = s.id) (legacy : c.legacyReplay = false)
    (h : insertAndSave D m db c (unavailableRoot c.reductionLevel ordinal shard reason) advance =
      .ok db')
    (done : ∀ x, (advance x).completed = true ∧ (advance x).reductionLevel = x.reductionLevel ∧
      (advance x).reductionOrdinal = x.reductionOrdinal ∧ (advance x).stageId = x.stageId ∧
      (advance x).legacyReplay = x.legacyReplay) : Advanced db' s p := by
  obtain ⟨db1, cursor1, I, hlegacy, hstage, -, -, -, hsave⟩ := insertAndSave_ok legacy h
  obtain ⟨hdone, hlevel, hord, hs, hl⟩ := done cursor1
  have R1 := R.unavailable hm hp generation hreason hc I (advance cursor1) hdone hlevel hord
  exact R1.save hsave (hs.trans (hstage.trans hid)) (hl.trans hlegacy)

theorem selectGroup_error {limit : ℕ} {inputs sel : List Parent} {content nonempty : ℕ}
    {reason : UnitError} (h : selectGroup limit content nonempty sel inputs = .error reason) :
    reason.unavailable = true := by
  induction inputs generalizing sel content nonempty with
  | nil => cases h
  | cons x inputs ih =>
    unfold selectGroup at h
    dsimp only at h
    generalize content + (x.entries.1 - 2) = content' at h
    generalize (nonempty + if 0 < x.entries.2 then 1 else 0) = nonempty' at h
    split at h
    · split at h
      · cases h; rfl
      · cases h; rfl
      · cases h
    · exact ih h

/-- What a round on the stage is given. -/
structure RoundInput (db : Store) (m : Round) (p : Stage) (c : StageCursor) (r : Reduction) :
    Prop where
  parents : parentStages db m.stage = [p]
  other : p.id ≠ m.stage.id
  fanIn : 1 ≤ r.fanIn ∧ r.fanIn ≤ maxUnitDependencies
  generation : db.generation m.stage.revisionId = some m.revision.manualRetryGeneration
  cursor : c.stageId = m.stage.id
  legacy : c.legacyReplay = false
  completed : c.completed = false
  attention : c.attentionCode = none
  closed : c.reductionWaiting = true →
    db.units.rows.any (openInLevel m.stage c.reductionLevel) = false
  root : c.reductionWaiting = true → 1 < levelTotal db m.stage c.reductionLevel →
    ∀ root, levelRoot db m.stage c.reductionLevel = some root → root.state ≠ .needsAttention

theorem closeLevel_advanced {m : Round} {c : StageCursor} {r : Reduction}
    (R : Progress db m.stage p c) (I : RoundInput db m p c r) (hw : c.reductionWaiting = true)
    (h : closeLevel D m db c = .ok db') : Advanced db' m.stage p := by
  unfold closeLevel at h
  dsimp only at h
  split at h
  · exact R.end_unavailable rfl I.other I.generation rfl I.completed I.cursor I.legacy h
      (fun _ => ⟨rfl, rfl, rfl, rfl, rfl⟩)
  rename_i htotal
  split at h
  · have R1 := R.advance { c with
      parentUnitId := none
      entryOffset := -1
      reductionLevel := c.reductionLevel + 1
      reductionOrdinal := -1
      reductionWaiting := false
      reductionInputCount := -1 } I.completed I.attention hw I.completed rfl rfl rfl rfl
    exact R1.save h I.cursor I.legacy
  · rename_i huncommitted
    simp only [bind_eq_ok, orRaise_ok] at h
    obtain ⟨root, hroot, db1, h1, h2⟩ := h
    have R1 := R.root { c with completed := true, reductionWaiting := false } rfl I.other
      I.completed I.attention hw (I.closed hw) htotal huncommitted hroot
      (fun hone => I.root hw hone root hroot) h1 rfl rfl rfl
    exact R1.save h2 I.cursor I.legacy

theorem reduceGroup_advanced {m : Round} {c : StageCursor} {r : Reduction} (U : DistinctUnits db)
    (L : Linked (fun _ _ c => c.Shape) db) (R : Progress db m.stage p c)
    (I : RoundInput db m p c r) (h : reduceGroup D m db c r p = .ok db') :
    Advanced db' m.stage p := by
  have hsel : ∀ u ∈ (cursorInputs db m.stage p c).take r.fanIn, db.units.find? u.id = some u :=
    fun u hu => Table.find?_of_mem (mem_cursorInputs.mp (List.mem_of_mem_take hu)).1
  have hcandidates : reductionCandidates db m.stage p c r.fanIn =
      ((cursorInputs db m.stage p c).take (r.fanIn + 1)).map (parentRow db p.stageKey) := rfl
  unfold reduceGroup at h
  dsimp only at h
  split at h
  · exact R.end_unavailable rfl I.other I.generation rfl I.completed I.cursor I.legacy h
      (fun _ => ⟨rfl, rfl, rfl, rfl, rfl⟩)
  split at h
  · exact R.end_unavailable rfl I.other I.generation rfl I.completed I.cursor I.legacy h
      (fun _ => ⟨rfl, rfl, rfl, rfl, rfl⟩)
  rename_i inputs hinputs
  rw [hcandidates, ← List.map_take, List.take_take, Nat.min_eq_left (by omega)] at hinputs
  obtain ⟨hunits, hreads⟩ := reducible_mapM L hsel hinputs
  split at h
  · rename_i reason hreason
    exact R.end_unavailable rfl I.other I.generation (selectGroup_error hreason) I.completed
      I.cursor I.legacy h (fun _ => ⟨rfl, rfl, rfl, rfl, rfl⟩)
  rename_i selected hselected
  obtain ⟨⟨skipped, hskipped⟩, hempty⟩ := selectGroup_prefix hselected
  rw [List.nil_append] at hskipped
  have hfan := I.fanIn
  have hlen : inputs.length = min r.fanIn (cursorInputs db m.stage p c).length := by
    have := congrArg List.length hunits
    rwa [List.length_map, List.length_take] at this
  split at h
  · -- no input is left
    rename_i hlast
    have hnil := (hempty (List.getLast?_eq_none_iff.mp hlast)).2
    have hnone : cursorInputs db m.stage p c = [] := by
      rw [hnil, List.length_nil] at hlen
      exact List.eq_nil_of_length_eq_zero (by omega)
    have R1 : Progress db m.stage p { c with
        reductionWaiting := true
        reductionInputCount := inputCount db m.stage p c } :=
      ⟨R.levels, R.ordinals, R.top, R.floor, R.passed, R.closed, R.current,
        fun hc ha _ => (R.current hc ha).all hnone, R.unmarked, R.rooted⟩
    exact R1.save h I.cursor I.legacy
  · rename_i last hlast
    obtain ⟨db1, c1, hI, hlegacy, hstage, hlevel, hord, hdone, hsave⟩ :=
      insertAndSave_ok I.legacy h
    have hsplit : cursorInputs db m.stage p c = selected.map Parent.unit ++
        (skipped.map Parent.unit ++ (cursorInputs db m.stage p c).drop r.fanIn) := by
      rw [← List.append_assoc, ← List.map_append, ← hskipped, hunits, List.take_append_drop]
    have hselen : selected.length + skipped.length = inputs.length := by
      rw [hskipped, List.length_append]
    refine Progress.save ?_ hsave (hstage.trans I.cursor) hlegacy
    refine R.group rfl I.other U I.completed I.attention ?_ ?_ hsplit hlast hI
      (hdone.trans I.completed) hlevel rfl rfl ?_ rfl
    · omega
    · exact fun x hx => hreads x (hskipped ▸ List.mem_append_left _ hx)
    · -- waiting: the group took all that was left
      intro hwait
      simp only [Bool.not_eq_true', decide_eq_false_iff_not, not_lt, hcandidates, List.length_map,
        List.length_take] at hwait
      have hskip : skipped = [] := List.eq_nil_of_length_eq_zero (by omega)
      have hdrop : (cursorInputs db m.stage p c).drop r.fanIn = [] :=
        List.drop_eq_nil_of_le (by omega)
      rw [hskip, hdrop]
      rfl

theorem reduceRound_advanced {m : Round} {c : StageCursor} {r : Reduction} (U : DistinctUnits db)
    (L : Linked (fun _ _ c => c.Shape) db) (R : Progress db m.stage p c)
    (I : RoundInput db m p c r) (h : reduceRound D m db c r = .ok db') :
    Advanced db' m.stage p := by
  unfold reduceRound at h
  split at h
  · rename_i hw
    exact closeLevel_advanced R I hw h
  · rw [I.parents] at h
    exact reduceGroup_advanced U L R I h

end

end Metnos.Durable
