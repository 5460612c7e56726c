import Metnos.Epochs.Changes

/-!
# Epochs.Cache — cached payloads, and the versions that they belong to

A payload is cached for a contract, a generation and a lifecycle.  What moves an epoch drops its
payloads in the same transaction, but lifting a restriction does not.
-/

namespace Metnos.Epochs

open Transaction

namespace Store

variable (s : Store)

/-- `put_cache`. -/
def putCache (k : EpochCacheKey) (payload : List UInt8) (createdAt : String) :
    Except EpochStoreError (Unit × Store) := do
  generation k.generationId
  text createdAt "created_at"
  match s.epochs.find? k.key with
  | none => throw ⟨"cache_key_stale", ""⟩
  | some row =>
    check (row.lifecycle = k.lifecycle) ⟨"cache_key_stale", ""⟩
    pure ((), { s with cache := s.cache.upsert ⟨k.key, k.lifecycle, payload, createdAt⟩ })

/-- `get_cache`. -/
def getCache (k : EpochCacheKey) : Except EpochStoreError (Option (List UInt8)) := do
  generation k.generationId
  pure ((s.cache.find? (k.key, k.lifecycle)).map CacheEntry.payload)

/-- The version of an epoch, and what it was changed for. -/
def standing (k : Key) : Option (ℕ × EpochState × BirthLifecycle × Option BirthLifecycle) :=
  (s.epochs.find? k).map fun e => (e.stateVersion, e.state, e.lifecycle, e.lifecycleOverride)

/-- The call of `clear_restriction` that lifts one. -/
def Lifts (cid gid : String) (version : ℕ) (reason observedAt : String) : Prop :=
  isDigest gid = true ∧ 1 ≤ version ∧ text reason "reason" = .ok () ∧
    text observedAt "observed_at" = .ok () ∧
    ∃ e ∈ s.exact (cid, gid) version, e.lifecycleOverride ≠ none

end Store

/-- The writing calls and `put_cache`. -/
inductive Op
  | call (c : Call)
  | put (k : EpochCacheKey) (payload : List UInt8) (createdAt : String)

namespace Audited

def step (s : Audited) : Op → Except EpochStoreError Audited
  | .call c => s.transition c
  | .put k payload createdAt =>
    (s.store.putCache k payload createdAt).map fun (_, store) => { s with store := store }

def after (ops : List Op) : Audited := Transaction.run step empty ops

/-- Every payload that can be read was put for the same contract, generation and lifecycle, and
the epoch stands as it stood then. -/
def Fresh (ops : List Op) : Prop :=
  ∀ k payload, (after ops).store.getCache k = .ok (some payload) →
    ∃ createdAt, Undisturbed step (fun s => s.store.standing k.key) empty ops
      (.put k payload createdAt)

/-- No restriction is lifted of an epoch that has a cached payload. -/
def Careful (s : Audited) : Op → Prop
  | .call (.clear cid gid version reason observedAt) =>
    s.store.Lifts cid gid version reason observedAt →
      ∀ c ∈ s.store.cache.rows, c.key ≠ (cid, gid)
  | _ => True

end Audited

/-! ## What a call leaves of the cache -/

namespace Store

/-- What is still cached was cached before, and its epoch was not moved. -/
structure Keeps (s s' : Store) : Prop where
  row : ∀ {i c}, s'.cache.find? i = some c → s.cache.find? i = some c
  standing : ∀ {i c}, s'.cache.find? i = some c → s.standing i.1 ≠ none →
    s'.standing i.1 = s.standing i.1

variable {s s' s₁ s₂ : Store}

theorem Keeps.refl (s : Store) : Keeps s s := ⟨fun h => h, fun _ _ => rfl⟩

theorem Keeps.trans (h : Keeps s s₁) (h' : Keeps s₁ s₂) : Keeps s s₂ where
  row hc := h.row (h'.row hc)
  standing hc known := by
    have first := h.standing (h'.row hc) known
    rw [← first] at known
    exact (h'.standing hc known).trans first

theorem insertEvent_same {ev : Event} (h : s.insertEvent ev = .ok s') :
    s'.epochs = s.epochs ∧ s'.cache = s.cache := by
  simp only [Store.insertEvent, bind_eq_ok, check_eq_ok, pure_eq_ok] at h
  obtain ⟨-, -, rfl⟩ := h
  exact ⟨rfl, rfl⟩

theorem insertEpoch_cache {e : Epoch} (h : s.insertEpoch e = .ok s') : s'.cache = s.cache := by
  simp only [Store.insertEpoch, bind_eq_ok] at h
  obtain ⟨-, -, -, -, h⟩ := h
  split at h <;> cases h
  rfl

theorem standing_update {k j : Key} {e : Epoch}
    (h : s'.epochs.find? = Function.update s.epochs.find? k (some e)) (hj : j ≠ k) :
    s'.standing j = s.standing j := by
  rw [Store.standing, h, Function.update_of_ne hj]
  rfl

theorem Keeps.of_move {k : Key} {p : Epoch → Bool} {f : Epoch → Epoch}
    {hf : ∀ e, (f e).key = e.key} {detail ts kind : String} {version : ℕ} {d : Detail}
    (h₁ : s.updateEpoch k p f hf detail = .ok s₁)
    (h₂ : (s₁.dropCache k).appendEvent k ts kind version d = .ok s') : Keeps s s' := by
  obtain ⟨e, -, -, hafter, -, hcache₁⟩ := updateEpoch_ok h₁
  obtain ⟨hepochs, hcache⟩ := insertEvent_same h₂
  have left : ∀ {i c}, s'.cache.find? i = some c → s.cache.find? i = some c ∧ i.1 ≠ k := by
    intro i c hc
    rw [hcache] at hc
    have hkept : ((s₁.cache.keep (fun c => c.key ≠ k)).find? i) = some c := hc
    rw [Table.find?_keep, Option.filter_eq_some_iff, hcache₁] at hkept
    obtain ⟨hfind, hne⟩ := hkept
    obtain rfl := Table.key_of_find? hfind
    exact ⟨hfind, of_decide_eq_true hne⟩
  refine ⟨fun hc => (left hc).1, fun {i c} hc _ => ?_⟩
  refine standing_update (k := k) (e := f e) ?_ (left hc).2
  rw [hepochs]
  exact hafter

theorem Keeps.of_count {k : Key} {p : Epoch → Bool} {f : Epoch → Epoch}
    {hf : ∀ e, (f e).key = e.key} {detail : String}
    (h : s.updateEpoch k p f hf detail = .ok s')
    (same : ∀ e, ((f e).stateVersion, (f e).state, (f e).lifecycle, (f e).lifecycleOverride) =
      (e.stateVersion, e.state, e.lifecycle, e.lifecycleOverride)) : Keeps s s' := by
  obtain ⟨e, hfind, -, hafter, -, hcache⟩ := updateEpoch_ok h
  refine ⟨fun hc => hcache ▸ hc, fun {i c} _ _ => ?_⟩
  by_cases hi : i.1 = k
  · rw [Store.standing, Store.standing, hafter, hi, Function.update_self, hfind]
    exact congrArg some (same e)
  · exact standing_update hafter hi

theorem Keeps.of_insert {e : Epoch} {ev : Event} (h₁ : s.insertEpoch e = .ok s₁)
    (h₂ : s₁.insertEvent ev = .ok s') : Keeps s s' := by
  obtain ⟨hnone, hafter, -⟩ := insertEpoch_ok h₁
  obtain ⟨hepochs, hcache⟩ := insertEvent_same h₂
  rw [insertEpoch_cache h₁] at hcache
  refine ⟨fun hc => hcache ▸ hc, fun {i c} _ known => ?_⟩
  have hi : i.1 ≠ e.key := by
    intro hi
    refine known ?_
    rw [Store.standing, hi, hnone]
    rfl
  refine standing_update (k := e.key) (e := e) ?_ hi
  rw [hepochs]
  exact hafter

/-! ### The calls -/

theorem openEpoch_keeps {cid gid name source ts : String} {lifecycle : BirthLifecycle}
    {historic : Option String} {r : EpochRecord}
    (h : s.openEpoch cid gid name source lifecycle ts historic = .ok (r, s')) : Keeps s s' := by
  simp only [Store.openEpoch, bind_eq_ok, pure_eq_ok, Prod.mk.injEq] at h
  obtain ⟨-, -, -, -, -, -, -, -, -, -, s₁, hinsert, s₂, hevent, -, rfl⟩ := h
  exact .of_insert hinsert hevent

theorem replace_keeps {a : Replacement} {r : EpochReplacement}
    (h : s.replaceCurrentEpoch a = .ok (r, s')) : Keeps s s' := by
  obtain ⟨-, ⟨-, -, -, -, -, rfl⟩ | ⟨e, s₁, s₂, s₃, -, -, -, h₁, h₂, h₃, h₄, -⟩⟩ := replace_cases h
  · exact .refl s'
  · exact (Keeps.of_move h₁ h₂).trans (.of_insert h₃ h₄)

theorem transition_keeps {k : EpochCacheKey} {version n : ℕ} {newState : EpochState}
    {newLifecycle : BirthLifecycle} {kind ts : String}
    (h : s.transitionEpoch k version newState newLifecycle kind ts = .ok (n, s')) :
    Keeps s s' := by
  unfold Store.transitionEpoch at h
  simp only [bind_eq_ok] at h
  obtain ⟨-, -, -, -, -, -, -, -, h⟩ := h
  split at h
  · cases h
  simp only [bind_eq_ok, check_eq_ok, pure_eq_ok, Prod.mk.injEq] at h
  obtain ⟨-, -, -, -, -, -, s₁, h₁, s₂, h₂, -, rfl⟩ := h
  exact .of_move h₁ h₂

theorem execution_keeps {k : EpochCacheKey} {version : ℕ} {successful : Bool} {ts : String}
    {u : Unit} (h : s.recordExecution k version successful ts = .ok (u, s')) : Keeps s s' := by
  simp only [Store.recordExecution, bind_eq_ok, pure_eq_ok, Prod.mk.injEq] at h
  obtain ⟨-, -, -, -, -, -, s₁, h₁, -, rfl⟩ := h
  exact .of_count h₁ fun _ => rfl

theorem feedback_keeps {k : EpochCacheKey} {version n : ℕ} {good : Bool} {ts : String}
    (h : s.recordFeedback k version good ts = .ok (n, s')) : Keeps s s' := by
  simp only [Store.recordFeedback, bind_eq_ok, pure_eq_ok, Prod.mk.injEq] at h
  obtain ⟨-, -, -, -, -, -, s₁, h₁, -, rfl⟩ := h
  exact .of_count h₁ fun _ => rfl

theorem credit_keeps {cid gid : String} {version uses n : ℕ} {ts : String}
    (h : s.creditUses cid gid version uses ts = .ok (n, s')) : Keeps s s' := by
  simp only [Store.creditUses, bind_eq_ok, pure_eq_ok, Prod.mk.injEq] at h
  obtain ⟨-, -, -, -, -, -, -, -, s₁, h₁, -, rfl⟩ := h
  exact .of_count h₁ fun _ => rfl

theorem restrict_keeps {cid gid reason ts : String} {version n : ℕ} {override : BirthLifecycle}
    (h : s.restrictGeneration cid gid version override reason ts = .ok (n, s')) :
    Keeps s s' := by
  unfold Store.restrictGeneration at h
  simp only [bind_eq_ok] at h
  obtain ⟨-, -, -, -, -, -, -, -, -, -, h⟩ := h
  split at h
  · cases h
  split at h
  · cases h
    exact .refl s
  · simp only [bind_eq_ok, pure_eq_ok, Prod.mk.injEq] at h
    obtain ⟨s₁, h₁, s₂, h₂, -, rfl⟩ := h
    exact .of_move h₁ h₂

theorem quarantine_keeps {cid gid ts : String} {q : QuarantineCAS}
    (h : s.quarantineForFeedback cid gid ts = .ok (q, s')) : Keeps s s' := by
  unfold Store.quarantineForFeedback at h
  simp only [bind_eq_ok] at h
  obtain ⟨-, -, -, -, h⟩ := h
  split at h
  · cases h
    exact .refl s
  split at h
  · cases h
    exact .refl s
  split at h
  · cases h
    exact .refl s
  · simp only [bind_eq_ok, pure_eq_ok, Prod.mk.injEq] at h
    obtain ⟨-, -, s₁, h₁, s₂, h₂, -, rfl⟩ := h
    exact .of_move h₁ h₂

/-! ### The restriction that is lifted -/

/-- The version of an epoch is the next one, and nothing was dropped. -/
structure Lifted (k : Key) (s s' : Store) : Prop where
  cache : s'.cache = s.cache
  other : ∀ {j}, j ≠ k → s'.standing j = s.standing j
  moved : s'.standing k ≠ s.standing k

theorem Lifted.of_ok {k : Key} {p : Epoch → Bool} {f : Epoch → Epoch}
    {hf : ∀ e, (f e).key = e.key} {detail ts kind : String} {version : ℕ} {d : Detail}
    (h₁ : s.updateEpoch k p f hf detail = .ok s₁)
    (h₂ : s₁.appendEvent k ts kind version d = .ok s')
    (next : ∀ e, (f e).stateVersion = e.stateVersion + 1) : Lifted k s s' := by
  obtain ⟨e, he, -, hafter, -, hcache₁⟩ := updateEpoch_ok h₁
  obtain ⟨hepochs, hcache⟩ := insertEvent_same h₂
  rw [← hepochs] at hafter
  refine ⟨hcache.trans hcache₁, fun hj => standing_update hafter hj, fun same => ?_⟩
  rw [Store.standing, Store.standing, hafter, Function.update_self, he] at same
  have hnumber : (f e).stateVersion = e.stateVersion :=
    congrArg Prod.fst (Option.some.inj same)
  have hnext := next e
  omega

theorem clear_cases {cid gid reason ts : String} {version n : ℕ}
    (h : s.clearRestriction cid gid version reason ts = .ok (n, s')) :
    s' = s ∨ s.Lifts cid gid version reason ts ∧ Lifted (cid, gid) s s' := by
  unfold Store.clearRestriction at h
  simp only [bind_eq_ok] at h
  obtain ⟨⟨⟩, hgid, ⟨⟩, hversion, ⟨⟩, hreason, ⟨⟩, hts, h⟩ := h
  split at h
  · cases h
  rename_i e he
  split at h
  · cases h
    exact .inl rfl
  · rename_i hoverride
    simp only [bind_eq_ok, pure_eq_ok, Prod.mk.injEq] at h
    obtain ⟨s₁, h₁, s₂, h₂, -, rfl⟩ := h
    exact .inr ⟨⟨check_eq_ok.mp hgid, check_eq_ok.mp hversion, hreason, hts, e, he, hoverride⟩,
      .of_ok h₁ h₂ fun _ => rfl⟩

theorem le_foldl_max {l : List ℕ} {n : ℕ} : n ≤ l.foldl max n ∧ ∀ x ∈ l, x ≤ l.foldl max n := by
  induction l generalizing n with
  | nil => exact ⟨le_refl n, fun x hx => by cases hx⟩
  | cons y l ih =>
    obtain ⟨first, rest⟩ := ih (n := max n y)
    refine ⟨(le_max_left n y).trans first, fun x hx => ?_⟩
    rcases List.mem_cons.mp hx with rfl | hx
    · exact (le_max_right n x).trans first
    · exact rest x hx

theorem appendEvent_succeeds (s : Store) (k : Key) (ts kind : String) (version : ℕ) (d : Detail) :
    ∃ s', s.appendEvent k ts kind version d = .ok s' := by
  refine ⟨_, bind_eq_ok.mpr ⟨(), check_eq_ok.mpr fun x hx same => ?_, rfl⟩⟩
  have hle : x.eventSeq ≤ s.lastSeq k := le_foldl_max.2 _ (List.mem_map_of_mem hx)
  dsimp only at same
  omega

theorem lift_ok {k : Key} {p : Epoch → Bool} {f : Epoch → Epoch} {hf : ∀ e, (f e).key = e.key}
    {detail ts kind : String} {version n : ℕ} {d : Detail} {e : Epoch}
    (h : s.epochs.find? k = some e) (hp : p e = true)
    (next : ∀ e, (f e).stateVersion = e.stateVersion + 1) :
    ∃ x, (do
      let s ← s.updateEpoch k p f hf detail
      let s ← s.appendEvent k ts kind version d
      pure (n, s)) = Except.ok x ∧ Lifted k s x.2 := by
  have h₁ : s.updateEpoch k p f hf detail =
      .ok { s with epochs := s.epochs.updateWhere (fun x => x.key = k) f hf } := by
    rw [Store.updateEpoch, Table.cas, h]
    dsimp only
    rw [if_pos hp]
  obtain ⟨s', h₂⟩ := appendEvent_succeeds
    { s with epochs := s.epochs.updateWhere (fun x => x.key = k) f hf } k ts kind version d
  exact ⟨(n, s'), bind_eq_ok.mpr ⟨_, h₁, bind_eq_ok.mpr ⟨s', h₂, rfl⟩⟩, .of_ok h₁ h₂ next⟩

theorem lifts_ok {cid gid reason ts : String} {version : ℕ}
    (h : s.Lifts cid gid version reason ts) :
    ∃ x, s.clearRestriction cid gid version reason ts = .ok x ∧ Lifted (cid, gid) s x.2 := by
  obtain ⟨hgid, hversion, hreason, hts, e, he, hoverride⟩ := h
  obtain ⟨hfind, hexact⟩ := exact_some he
  have hgeneration : generation gid = .ok () := check_eq_ok.mpr hgid
  have hpositive : positive version "expected_version" = .ok () := check_eq_ok.mpr hversion
  unfold Store.clearRestriction
  rw [hgeneration, hpositive, hreason, hts, he]
  show ∃ x, (if e.lifecycleOverride = none then _ else _) = _ ∧ _
  rw [if_neg hoverride]
  exact lift_ok hfind (decide_eq_true hexact) fun _ => rfl

end Store

/-! ## Runs -/

namespace Audited

variable {s s' : Audited} {ops : List Op}

theorem call_keeps {c : Call} (careful : s.Careful (.call c)) (h : s.step (.call c) = .ok s') :
    s.store.Keeps s'.store := by
  have kept : ∀ {α : Type} {f : α → Answer} {r : Except EpochStoreError (α × Store)},
      (s.keep f r).map Prod.snd = .ok s' → ∃ x, r = .ok (x, s'.store) := by
    intro α f r h
    cases r with
    | error e => cases h
    | ok x =>
      cases h
      exact ⟨x.1, rfl⟩
  cases c with
  | open_ =>
    obtain ⟨r, hr⟩ := kept h
    exact Store.openEpoch_keeps hr
  | replace =>
    obtain ⟨r, hr⟩ := kept h
    exact Store.replace_keeps hr
  | transition =>
    obtain ⟨r, hr⟩ := kept h
    exact Store.transition_keeps hr
  | execution k version successful ts =>
    obtain ⟨r, hr⟩ := @kept Unit (fun _ => .counted)
      (s.store.recordExecution k version successful ts) h
    exact Store.execution_keeps hr
  | feedback =>
    obtain ⟨r, hr⟩ := kept h
    exact Store.feedback_keeps hr
  | restrict =>
    obtain ⟨r, hr⟩ := kept h
    exact Store.restrict_keeps hr
  | clear cid gid version reason ts =>
    obtain ⟨n, hr⟩ := kept h
    rcases Store.clear_cases hr with hsame | ⟨lifts, lifted⟩
    · rw [hsame]
      exact .refl s.store
    · refine ⟨fun hc => lifted.cache ▸ hc, fun hc _ => lifted.other ?_⟩
      rw [lifted.cache] at hc
      rw [← Table.key_of_find? hc]
      exact careful lifts _ (Table.mem_of_find? hc)
  | credit cid gid version uses ts =>
    change (Except.map _ (Except.map _ (s.store.creditUses cid gid version uses ts))) = _ at h
    cases hr : s.store.creditUses cid gid version uses ts with
    | error e =>
      rw [hr] at h
      cases h
    | ok x =>
      rw [hr] at h
      cases h
      exact Store.credit_keeps hr
  | quarantine =>
    obtain ⟨q, hr⟩ := kept h
    exact Store.quarantine_keeps hr

theorem put_ok {k : EpochCacheKey} {payload : List UInt8} {ts : String}
    (h : s.step (.put k payload ts) = .ok s') : s.store.standing k.key ≠ none ∧
      s'.store.epochs = s.store.epochs ∧
      s'.store.cache = s.store.cache.upsert ⟨k.key, k.lifecycle, payload, ts⟩ := by
  cases hput : s.store.putCache k payload ts with
  | error e =>
    rw [Audited.step, hput] at h
    cases h
  | ok x =>
    rw [Audited.step, hput] at h
    cases h
    unfold Store.putCache at hput
    simp only [bind_eq_ok] at hput
    obtain ⟨-, -, -, -, hput⟩ := hput
    split at hput
    · cases hput
    rename_i row hrow
    simp only [bind_eq_ok, pure_eq_ok] at hput
    obtain ⟨-, -, rfl⟩ := hput
    refine ⟨?_, rfl, rfl⟩
    rw [Store.standing, hrow]
    exact Option.some_ne_none _

/-- A payload belongs to an epoch, and was put since the epoch was last moved. -/
def Sourced (ops : List Op) : Prop :=
  ∀ i c, (after ops).store.cache.find? i = some c → (after ops).store.standing i.1 ≠ none ∧
    Undisturbed step (fun s => s.store.standing i.1) empty ops
      (.put ⟨i.1.1, i.1.2, i.2⟩ c.payload c.createdAt)

theorem after_ok {o : Op} (h : (after ops).step o = .ok s') : after (ops ++ [o]) = s' :=
  (run_append_one empty ops o).trans (commit_of_ok h)

theorem after_error {o : Op} {e : EpochStoreError} (h : (after ops).step o = .error e) :
    after (ops ++ [o]) = after ops := by
  refine (run_append_one empty ops o).trans ?_
  unfold commit
  rw [show step (Transaction.run step empty ops) o = .error e from h]
  rfl

theorem Sourced.snoc {o : Op} (inv : Sourced ops) (careful : (after ops).Careful o) :
    Sourced (ops ++ [o]) := by
  intro i c hc
  cases hstep : (after ops).step o with
  | error e =>
    rw [after_error hstep] at hc ⊢
    obtain ⟨known, put⟩ := inv i c hc
    refine ⟨known, put.snoc ?_⟩
    show (after (ops ++ [o])).store.standing i.1 = (after ops).store.standing i.1
    rw [after_error hstep]
  | ok s' =>
    rw [after_ok hstep] at hc ⊢
    cases o with
    | call call =>
      have keeps := call_keeps careful hstep
      obtain ⟨known, put⟩ := inv i c (keeps.row hc)
      have same := keeps.standing hc known
      refine ⟨same ▸ known, put.snoc ?_⟩
      show (after (ops ++ [.call call])).store.standing i.1 = (after ops).store.standing i.1
      rw [after_ok hstep, same]
    | put k payload ts =>
      obtain ⟨known, hepochs, hcache⟩ := put_ok hstep
      have same : s'.store.standing = (after ops).store.standing := by
        funext j
        rw [Store.standing, hepochs]
        rfl
      rw [hcache, Table.find?_upsert] at hc
      rw [same]
      split at hc
      · -- the payload that was just put
        rename_i hi
        obtain rfl := Option.some.inj hc
        subst hi
        exact ⟨known, undisturbed_last hstep⟩
      · obtain ⟨known, put⟩ := inv i c hc
        refine ⟨known, put.snoc ?_⟩
        show (after (ops ++ [.put k payload ts])).store.standing i.1 =
          (after ops).store.standing i.1
        rw [after_ok hstep, same]

theorem sourced_of_careful (h : Meets step Careful empty ops) : Sourced ops := by
  induction ops using List.reverseRecOn with
  | nil =>
    intro i c hc
    cases hc
  | append_singleton ops o ih =>
    obtain ⟨before, last, -⟩ := meets_append.mp h
    exact (ih before).snoc last

theorem Sourced.fresh (inv : Sourced ops) : Fresh ops := by
  intro k payload hget
  simp only [Store.getCache, bind_eq_ok, pure_eq_ok, Option.map_eq_some_iff] at hget
  obtain ⟨-, -, c, hc, rfl⟩ := hget
  exact ⟨c.createdAt, (inv _ c hc).2⟩

theorem not_fresh_of_lifts {cid gid reason ts : String} {version : ℕ} {c : CacheEntry}
    (lifts : (after ops).store.Lifts cid gid version reason ts)
    (hc : c ∈ (after ops).store.cache.rows) (key : c.key = (cid, gid)) :
    ¬ Fresh (ops ++ [.call (.clear cid gid version reason ts)]) := by
  obtain ⟨⟨n, store⟩, hclear, lifted⟩ := Store.lifts_ok lifts
  have hstep : (after ops).step (.call (.clear cid gid version reason ts)) =
      .ok ⟨store, (after ops).credited⟩ := by
    show ((after ops).keep .number ((after ops).store.clearRestriction ..)).map _ = _
    rw [hclear]
    rfl
  intro fresh
  have hget : store.getCache ⟨cid, gid, c.lifecycle⟩ = .ok (some c.payload) := by
    refine bind_eq_ok.mpr ⟨(), check_eq_ok.mpr lifts.1, ?_⟩
    have hfind : store.cache.find? (c.key, c.lifecycle) = some c := by
      rw [lifted.cache]
      exact Table.find?_of_mem hc
    rw [key] at hfind
    show Except.ok ((store.cache.find? ((cid, gid), c.lifecycle)).map _) = _
    rw [hfind]
    rfl
  obtain ⟨createdAt, put⟩ := fresh ⟨cid, gid, c.lifecycle⟩ c.payload (by
    rw [after_ok hstep]
    exact hget)
  have same : (after ops).store.standing (cid, gid) =
      (after (ops ++ [.call (.clear cid gid version reason ts)])).store.standing (cid, gid) :=
    put.before nofun
  rw [after_ok hstep] at same
  exact lifted.moved same.symm

/-- **Cached payloads are fresh** after every operation of a run, exactly when no operation lifts
a restriction of an epoch that has one. -/
theorem cache_fresh_iff (ops : List Op) :
    (∀ xs, xs <+: ops → Fresh xs) ↔ Meets step Careful empty ops := by
  constructor
  · intro fresh
    induction ops using List.reverseRecOn with
    | nil => trivial
    | append_singleton ops o ih =>
      refine meets_append.mpr
        ⟨ih fun xs hxs => fresh xs (hxs.trans (List.prefix_append ..)), ?_, trivial⟩
      cases o with
      | put => trivial
      | call c =>
        cases c with
        | clear cid gid version reason ts =>
          intro lifts c hc key
          exact not_fresh_of_lifts lifts hc key (fresh _ (List.prefix_refl _))
        | _ => trivial
  · rintro careful xs ⟨ys, rfl⟩
    exact (sourced_of_careful (meets_append.mp careful).1).fresh

/-- A payload that was put under a restriction is read after the restriction was lifted. -/
theorem payload_outlives_restriction :
    let gid := "sha256:0123456789abcdef0123456789abcdef0123456789abcdef0123456789abcdef"
    let ops : List Op :=
      [.call (.open_ "find_files" gid "find" "builtin" .active "2026-01-01T00:00:00Z" none),
        .call (.restrict "find_files" gid 1 .deprecated "idle" "2026-02-01T00:00:00Z"),
        .put ⟨"find_files", gid, .active⟩ [7] "2026-02-02T00:00:00Z"]
    let lift := Op.call (.clear "find_files" gid 2 "used" "2026-03-01T00:00:00Z")
    (after (ops ++ [lift])).store.getCache ⟨"find_files", gid, .active⟩ = .ok (some [7]) ∧
      ¬ Fresh (ops ++ [lift]) := by
  intro gid ops lift
  have lifts :
      (after ops).store.Lifts "find_files" gid 2 "used" "2026-03-01T00:00:00Z" := by
    unfold Store.Lifts
    decide +kernel
  have rows : (after ops).store.cache.rows =
      [⟨("find_files", gid), .active, [7], "2026-02-02T00:00:00Z"⟩] := by
    decide +kernel
  exact ⟨by decide +kernel, not_fresh_of_lifts lifts (rows ▸ List.mem_singleton_self _) rfl⟩

end Audited

end Metnos.Epochs
