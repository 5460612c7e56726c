import Mathlib.Data.List.Range
import Mathlib.Logic.Relation
import Metnos.Epochs.Store

/-!
# Epochs.Changes — the calls, and the changes that they are made of

An accepted call counts on a row, moves a row to its next version, opens a row, or closes one and
opens its successor.  `Change` is one of the first three, with everything that it keeps.
-/

namespace Metnos.Epochs

open Transaction Store

/-- The writing calls. -/
inductive Call
  | open_ (cid gid name source : String) (lifecycle : BirthLifecycle) (observedAt : String)
      (historic : Option String)
  | replace (a : Replacement)
  | transition (k : EpochCacheKey) (version : ℕ) (newState : EpochState)
      (newLifecycle : BirthLifecycle) (eventKind occurredAt : String)
  | execution (k : EpochCacheKey) (version : ℕ) (successful : Bool) (occurredAt : String)
  | feedback (k : EpochCacheKey) (version : ℕ) (good : Bool) (occurredAt : String)
  | restrict (cid gid : String) (version : ℕ) (override : BirthLifecycle)
      (reason observedAt : String)
  | clear (cid gid : String) (version : ℕ) (reason observedAt : String)
  | credit (cid gid : String) (version uses : ℕ) (occurredAt : String)
  | quarantine (cid gid occurredAt : String)

inductive Answer
  | opened (r : EpochRecord)
  | replaced (r : EpochReplacement)
  | number (n : ℕ)
  | counted
  | quarantined (q : QuarantineCAS)

/-- The store, and the uses that were credited to each epoch so far. -/
structure Audited where
  store : Store
  credited : Key → ℕ

namespace Audited

variable (s : Audited)

def empty : Audited := ⟨.empty, fun _ => 0⟩

/-- What a transaction on the store returns. -/
def keep {α : Type} (f : α → Answer) (r : Except EpochStoreError (α × Store)) :
    Except EpochStoreError (Answer × Audited) :=
  r.map fun (a, store) => (f a, { s with store := store })

def perform : Call → Except EpochStoreError (Answer × Audited)
  | .open_ cid gid name source lifecycle observedAt historic =>
    s.keep .opened (s.store.openEpoch cid gid name source lifecycle observedAt historic)
  | .replace a => s.keep .replaced (s.store.replaceCurrentEpoch a)
  | .transition k version newState newLifecycle eventKind occurredAt =>
    s.keep .number
      (s.store.transitionEpoch k version newState newLifecycle eventKind occurredAt)
  | .execution k version successful occurredAt =>
    s.keep (fun _ => .counted) (s.store.recordExecution k version successful occurredAt)
  | .feedback k version good occurredAt =>
    s.keep .number (s.store.recordFeedback k version good occurredAt)
  | .restrict cid gid version override reason observedAt =>
    s.keep .number (s.store.restrictGeneration cid gid version override reason observedAt)
  | .clear cid gid version reason observedAt =>
    s.keep .number (s.store.clearRestriction cid gid version reason observedAt)
  | .credit cid gid version uses occurredAt =>
    (s.store.creditUses cid gid version uses occurredAt).map fun (n, store) =>
      (.number n, ⟨store, Function.update s.credited (cid, gid) (s.credited (cid, gid) + n)⟩)
  | .quarantine cid gid occurredAt =>
    s.keep .quarantined (s.store.quarantineForFeedback cid gid occurredAt)

def transition (s : Audited) (c : Call) : Except EpochStoreError Audited :=
  (s.perform c).map Prod.snd

def run (calls : List Call) : Audited := Transaction.run transition s calls

def epoch (k : Key) : Option Epoch := s.store.epochs.find? k

end Audited

/-! ## Changes -/

/-- What an event says of the versions: its number, the version before and the one after. -/
def Event.number (ev : Event) : ℕ × Option ℕ × ℕ :=
  (ev.eventSeq, ev.priorStateVersion, ev.newStateVersion)

/-- An epoch that no execution may use again. -/
def Epoch.Revoked (e : Epoch) : Prop := e.state ≠ .current ∨ e.lifecycle = .quarantined

/-- The fields that never change. -/
structure Epoch.Identity (e e' : Epoch) : Prop where
  key : e'.key = e.key
  name : e'.name = e.name
  source : e'.source = e.source
  historic : e'.historicEpochRef = e.historicEpochRef

/-- What moving an epoch to its next version keeps. -/
structure Epoch.Bump (e e' : Epoch) : Prop where
  identity : e.Identity e'
  state : e'.state = .current → e.state = .current
  revoked : e.Revoked → e'.Revoked
  version : e'.stateVersion = e.stateVersion + 1
  total : e'.totalCalls = e.totalCalls
  successful : e'.successfulCalls = e.successfulCalls
  failed : e'.failedCalls = e.failedCalls

inductive Change (s s' : Audited) : Prop
  /-- A call or a verdict is counted, or uses are credited. -/
  | counted (k : Key) (e e' : Epoch) : s.epoch k = some e →
      s'.epoch = Function.update s.epoch k (some e') → e.Identity e' → e'.state = e.state →
      e'.lifecycle = e.lifecycle → e'.stateVersion = e.stateVersion →
      s'.store.history = s.store.history →
      (∀ j, j ≠ k → s'.credited j = s.credited j) →
      (e.totalCalls = e.successfulCalls + e.failedCalls + s.credited k →
        e'.totalCalls = e'.successfulCalls + e'.failedCalls + s'.credited k) → Change s s'
  /-- An epoch goes to its next version. -/
  | moved (k : Key) (e e' : Epoch) (ev : Event) : s.epoch k = some e →
      s'.epoch = Function.update s.epoch k (some e') → e.Bump e' →
      s'.credited = s.credited → s'.store.history = s.store.history ++ [ev] → ev.key = k →
      ev.number = (s.store.lastSeq k + 1, some e.stateVersion, e.stateVersion + 1) → Change s s'
  /-- A new epoch becomes the current one. -/
  | opened (k : Key) (e : Epoch) (ev : Event) : s.epoch k = none →
      s'.epoch = Function.update s.epoch k (some e) →
      (∀ j x, s.epoch j = some x → j.1 = k.1 → x.state ≠ .current) →
      e.stateVersion = 1 → e.totalCalls = 0 → e.successfulCalls = 0 → e.failedCalls = 0 →
      s'.credited = s.credited → s'.store.history = s.store.history ++ [ev] → ev.key = k →
      ev.number = (1, none, 1) → Change s s'

/-! ### The statements -/

section
variable {s s' : Store}

theorem updateEpoch_ok {k : Key} {p : Epoch → Bool} {f : Epoch → Epoch}
    {hf : ∀ e, (f e).key = e.key} {detail : String}
    (h : s.updateEpoch k p f hf detail = .ok s') : ∃ e, s.epochs.find? k = some e ∧ p e = true ∧
      s'.epochs.find? = Function.update s.epochs.find? k (some (f e)) ∧
      s'.history = s.history ∧ s'.cache = s.cache := by
  unfold Store.updateEpoch at h
  split at h
  · rename_i epochs hcas
    obtain ⟨e, hfind, hp, rfl⟩ := Table.cas_some hcas
    cases h
    refine ⟨e, hfind, hp, ?_, rfl, rfl⟩
    funext j
    by_cases hj : j = k
    · subst hj
      rw [Function.update_self]
      exact Table.find?_update_self hf hfind
    · rw [Function.update_of_ne hj]
      exact Table.find?_update_ne hf hj
  · cases h

theorem insertEpoch_ok {e : Epoch} (h : s.insertEpoch e = .ok s') :
    s.epochs.find? e.key = none ∧
      s'.epochs.find? = Function.update s.epochs.find? e.key (some e) ∧
      (e.state = .current → ∀ j x, s.epochs.find? j = some x → j.1 = e.contractId →
        x.state ≠ .current) ∧
      s'.history = s.history := by
  simp only [Store.insertEpoch, bind_eq_ok, check_eq_ok] at h
  obtain ⟨-, -, -, single, h⟩ := h
  split at h
  · rename_i epochs hinsert
    cases h
    obtain ⟨hnone, -⟩ := Table.insert?_some hinsert
    refine ⟨hnone, ?_, fun hcurrent j x hx hj hstate => ?_, rfl⟩
    · funext j
      by_cases hj : j = e.key
      · subst hj
        rw [Function.update_self]
        exact Table.find?_insert?_self hinsert
      · rw [Function.update_of_ne hj]
        exact Table.find?_insert?_ne hinsert hj
    · refine single x (Table.mem_of_find? hx) ⟨?_, hstate, hcurrent⟩
      rw [← hj, ← Table.key_of_find? hx]
      rfl
  · cases h

theorem insertEvent_ok {ev : Event} (h : s.insertEvent ev = .ok s') :
    (∀ x ∈ s.events ev.key, x.eventSeq ≠ ev.eventSeq) ∧ s'.epochs = s.epochs ∧
      s'.history = s.history ++ [ev] := by
  simp only [Store.insertEvent, bind_eq_ok, check_eq_ok, pure_eq_ok] at h
  obtain ⟨-, fresh, rfl⟩ := h
  exact ⟨fresh, rfl, rfl⟩

theorem current_some {cid : String} {e : Epoch} (h : s.current cid = some e) :
    s.epochs.find? (cid, e.generationId) = some e ∧ e.state = .current := by
  have hmem := List.mem_of_find?_eq_some h
  have hp := List.find?_some h
  simp only [decide_eq_true_eq] at hp
  refine ⟨?_, hp.2⟩
  rw [← hp.1]
  exact Table.find?_of_mem hmem

theorem current_none {cid : String} (h : s.current cid = none) {k : Key} {e : Epoch}
    (he : s.epochs.find? k = some e) (hk : k.1 = cid) : e.state ≠ .current := by
  intro hstate
  have hmem := Table.mem_of_find? he
  refine List.find?_eq_none.mp h e hmem ?_
  rw [← Table.key_of_find? he] at hk
  simpa using ⟨hk, hstate⟩

theorem exact_some {k : Key} {version : ℕ} {e : Epoch} (h : s.exact k version = some e) :
    s.epochs.find? k = some e ∧ e.state = .current ∧ e.stateVersion = version := by
  unfold Store.exact at h
  rw [Option.filter_eq_some_iff] at h
  exact ⟨h.1, by simpa using h.2⟩

theorem Change.of_update {k : Key} {p : Epoch → Bool} {f : Epoch → Epoch}
    {hf : ∀ e, (f e).key = e.key} {detail ts kind : String} {version : ℕ} {d : Detail}
    {s₁ s₂ : Store} (c : Key → ℕ) (h₁ : s.updateEpoch k p f hf detail = .ok s₁)
    (h₂ : s₂.appendEvent k ts kind version d = .ok s') (epochs : s₂.epochs = s₁.epochs)
    (history : s₂.history = s₁.history)
    (bump : ∀ e, s.epochs.find? k = some e → p e = true →
      e.stateVersion = version ∧ e.Bump (f e)) :
    Change ⟨s, c⟩ ⟨s', c⟩ := by
  obtain ⟨e, hfind, hp, hafter, hhistory, -⟩ := updateEpoch_ok h₁
  obtain ⟨-, hepochs, hevent⟩ := insertEvent_ok h₂
  obtain ⟨hversion, hbump⟩ := bump e hfind hp
  have hsame : s₂.history = s.history := history.trans hhistory
  refine .moved k e (f e) _ hfind ?_ hbump rfl (hevent.trans (by rw [hsame])) rfl ?_
  · show s'.epochs.find? = _
    rw [hepochs, epochs]
    exact hafter
  · show (s₂.lastSeq k + 1, some version, version + 1) = _
    rw [Store.lastSeq, Store.events, hsame, hversion]
    rfl

theorem Change.of_insert {e : Epoch} {ev : Event} {s₁ : Store} (c : Key → ℕ)
    (h₁ : s.insertEpoch e = .ok s₁) (h₂ : s₁.insertEvent ev = .ok s') (key : ev.key = e.key)
    (number : ev.number = (1, none, 1)) (state : e.state = .current) (version : e.stateVersion = 1)
    (counters : e.totalCalls = 0 ∧ e.successfulCalls = 0 ∧ e.failedCalls = 0) :
    Change ⟨s, c⟩ ⟨s', c⟩ := by
  obtain ⟨hnone, hafter, single, hhistory⟩ := insertEpoch_ok h₁
  obtain ⟨-, hepochs, hevent⟩ := insertEvent_ok h₂
  refine .opened e.key e ev hnone ?_ (fun j x hx hj => single state j x hx hj) version counters.1
    counters.2.1 counters.2.2 rfl (hevent.trans (by rw [hhistory])) key number
  show s'.epochs.find? = _
  rw [hepochs]
  exact hafter

theorem Change.of_count {k : Key} {p : Epoch → Bool} {f : Epoch → Epoch}
    {hf : ∀ e, (f e).key = e.key} {detail : String} {c c' : Key → ℕ}
    (h : s.updateEpoch k p f hf detail = .ok s') (identity : ∀ e : Epoch, e.Identity (f e))
    (state : ∀ e, (f e).state = e.state) (lifecycle : ∀ e, (f e).lifecycle = e.lifecycle)
    (version : ∀ e, (f e).stateVersion = e.stateVersion) (other : ∀ j, j ≠ k → c' j = c j)
    (total : ∀ e, e.totalCalls = e.successfulCalls + e.failedCalls + c k →
      (f e).totalCalls = (f e).successfulCalls + (f e).failedCalls + c' k) :
    Change ⟨s, c⟩ ⟨s', c'⟩ := by
  obtain ⟨e, hfind, -, hafter, hhistory, -⟩ := updateEpoch_ok h
  exact .counted k e (f e) hfind hafter (identity e) (state e) (lifecycle e) (version e) hhistory
    other (total e)

end

/-! ### The calls -/

section
variable {s s' : Store} (c : Key → ℕ)

theorem openEpoch_change {cid gid name source ts : String} {lifecycle : BirthLifecycle}
    {historic : Option String} {r : EpochRecord}
    (h : s.openEpoch cid gid name source lifecycle ts historic = .ok (r, s')) :
    Change ⟨s, c⟩ ⟨s', c⟩ := by
  simp only [Store.openEpoch, bind_eq_ok, pure_eq_ok, Prod.mk.injEq] at h
  obtain ⟨-, -, -, -, -, -, -, -, -, -, s₁, hinsert, s₂, hevent, -, rfl⟩ := h
  exact .of_insert c hinsert hevent rfl rfl rfl rfl ⟨rfl, rfl, rfl⟩

theorem replace_cases {a : Replacement} {r : EpochReplacement}
    (h : s.replaceCurrentEpoch a = .ok (r, s')) : a.valid = .ok () ∧
    ((∃ e, s.current a.contractId = some e ∧ e.generationId = a.generationId ∧ a.Replay s e ∧
        r = ⟨a.expectedGenerationId, a.expectedStateVersion + 1, a.record e.stateVersion, true⟩ ∧
        s' = s) ∨
      ∃ e s₁ s₂ s₃, s.current a.contractId = some e ∧ e.key = a.oldKey ∧
        e.stateVersion = a.expectedStateVersion ∧
        s.updateEpoch a.oldKey
          (fun e => e.state = .current ∧ e.stateVersion = a.expectedStateVersion)
          (fun e => { e with
            state := .deprecated
            lifecycle := .deprecated
            stateVersion := e.stateVersion + 1
            updatedAt := a.observedAt })
          (fun _ => rfl) "stale predecessor" = .ok s₁ ∧
        (s₁.dropCache a.oldKey).appendEvent a.oldKey a.observedAt
          (a.eventKind ++ "_predecessor_closed") a.expectedStateVersion
          [("state", some "deprecated"), ("successor_generation_id", some a.generationId)] =
            .ok s₂ ∧
        s₂.insertEpoch (fresh a.contractId a.generationId a.name a.source a.lifecycle
          a.observedAt a.historicEpochRef) = .ok s₃ ∧
        s₃.insertEvent ⟨a.contractId, a.generationId, 1, a.observedAt, a.eventKind,
          some a.source, none, 1, a.openingDetail⟩ = .ok s' ∧
        r = ⟨a.expectedGenerationId, a.expectedStateVersion + 1, a.record 1, false⟩) := by
  unfold Store.replaceCurrentEpoch at h
  rw [bind_eq_ok] at h
  obtain ⟨⟨⟩, hvalid, h⟩ := h
  refine ⟨hvalid, ?_⟩
  split at h
  · cases h
  rename_i e hcurrent
  split at h
  · rename_i hgid
    simp only [bind_eq_ok, check_eq_ok, pure_eq_ok, Prod.mk.injEq] at h
    obtain ⟨-, hreplay, rfl, rfl⟩ := h
    exact .inl ⟨e, hcurrent, hgid, hreplay, rfl, rfl⟩
  · simp only [bind_eq_ok, check_eq_ok, pure_eq_ok, Prod.mk.injEq] at h
    obtain ⟨-, ⟨hgid, hversion⟩, s₁, h₁, s₂, h₂, s₃, h₃, s₄, h₄, rfl, rfl⟩ := h
    have hkey : e.key = a.oldKey := by
      have := Table.key_of_find? (current_some hcurrent).1
      rw [this, hgid]
      rfl
    exact .inr ⟨e, s₁, s₂, s₃, hcurrent, hkey, hversion, h₁, h₂, h₃, h₄, rfl⟩

theorem replace_change {a : Replacement} {r : EpochReplacement}
    (h : s.replaceCurrentEpoch a = .ok (r, s')) :
    Relation.ReflTransGen Change ⟨s, c⟩ ⟨s', c⟩ := by
  obtain ⟨-, ⟨-, -, -, -, -, rfl⟩ | ⟨e, s₁, s₂, s₃, -, -, -, h₁, h₂, h₃, h₄, -⟩⟩ := replace_cases h
  · exact .refl
  · have closed : Change ⟨s, c⟩ ⟨s₂, c⟩ := by
      refine .of_update c h₁ h₂ rfl rfl fun e _ hp => ?_
      simp only [decide_eq_true_eq] at hp
      exact ⟨hp.2, ⟨⟨rfl, rfl, rfl, rfl⟩, fun _ => hp.1, fun _ => .inl (by simp), rfl, rfl, rfl,
        rfl⟩⟩
    exact .tail (.single closed) (.of_insert c h₃ h₄ rfl rfl rfl rfl ⟨rfl, rfl, rfl⟩)

theorem transition_change {k : EpochCacheKey} {version n : ℕ} {newState : EpochState}
    {newLifecycle : BirthLifecycle} {kind ts : String}
    (h : s.transitionEpoch k version newState newLifecycle kind ts = .ok (n, s')) :
    Change ⟨s, c⟩ ⟨s', c⟩ := by
  unfold Store.transitionEpoch at h
  simp only [bind_eq_ok] at h
  obtain ⟨-, -, -, -, -, -, -, -, h⟩ := h
  split at h
  · cases h
  rename_i current hfind
  simp only [bind_eq_ok, check_eq_ok, pure_eq_ok, Prod.mk.injEq] at h
  obtain ⟨-, -, -, -, -, ⟨hstate, hlifecycle⟩, s₁, h₁, s₂, h₂, -, rfl⟩ := h
  refine .of_update c h₁ h₂ rfl rfl fun e he hp => ?_
  -- the row that is updated is the one whose transitions were looked up
  obtain rfl : current = e := Option.some.inj (hfind.symm.trans he)
  simp only [decide_eq_true_eq] at hp
  have closed : newState = .current → current.state = .current := by
    intro hcurrent
    rw [hcurrent] at hstate
    cases hs : current.state with
    | current => rfl
    | deprecated => simp [hs, stateTransitions] at hstate
    | archived => simp [hs, stateTransitions] at hstate
  refine ⟨hp.1, ⟨⟨rfl, rfl, rfl, rfl⟩, closed, fun hrevoked => ?_, rfl, rfl, rfl, rfl⟩⟩
  rcases hrevoked with hclosed | hquarantined
  · exact .inl fun hcurrent => hclosed (closed hcurrent)
  · rw [hquarantined] at hlifecycle
    cases hlifecycle

theorem execution_change {k : EpochCacheKey} {version : ℕ} {successful : Bool} {ts : String}
    {u : Unit} (h : s.recordExecution k version successful ts = .ok (u, s')) :
    Change ⟨s, c⟩ ⟨s', c⟩ := by
  simp only [Store.recordExecution, bind_eq_ok, pure_eq_ok, Prod.mk.injEq] at h
  obtain ⟨-, -, -, -, -, -, s₁, h₁, -, rfl⟩ := h
  refine .of_count h₁ (fun _ => ⟨rfl, rfl, rfl, rfl⟩) (fun _ => rfl) (fun _ => rfl) (fun _ => rfl)
    (fun _ _ => rfl) fun e total => ?_
  dsimp only
  cases successful <;> simp only [Bool.false_eq_true, if_true, if_false] <;> omega

theorem feedback_change {k : EpochCacheKey} {version n : ℕ} {good : Bool} {ts : String}
    (h : s.recordFeedback k version good ts = .ok (n, s')) : Change ⟨s, c⟩ ⟨s', c⟩ := by
  simp only [Store.recordFeedback, bind_eq_ok, pure_eq_ok, Prod.mk.injEq] at h
  obtain ⟨-, -, -, -, -, -, s₁, h₁, -, rfl⟩ := h
  exact .of_count h₁ (fun _ => ⟨rfl, rfl, rfl, rfl⟩) (fun _ => rfl) (fun _ => rfl) (fun _ => rfl)
    (fun _ _ => rfl) fun e total => total

theorem credit_change {cid gid : String} {version uses n : ℕ} {ts : String}
    (h : s.creditUses cid gid version uses ts = .ok (n, s')) :
    Change ⟨s, c⟩ ⟨s', Function.update c (cid, gid) (c (cid, gid) + n)⟩ := by
  simp only [Store.creditUses, bind_eq_ok, pure_eq_ok, Prod.mk.injEq] at h
  obtain ⟨-, -, -, -, -, -, -, -, s₁, h₁, rfl, rfl⟩ := h
  refine .of_count h₁ (fun _ => ⟨rfl, rfl, rfl, rfl⟩) (fun _ => rfl) (fun _ => rfl) (fun _ => rfl)
    (fun j hj => Function.update_of_ne hj ..) fun e total => ?_
  rw [Function.update_self]
  dsimp only
  omega

theorem bump_of_override {e e' : Epoch} (identity : e.Identity e') (state : e'.state = e.state)
    (lifecycle : e'.lifecycle = e.lifecycle) (version : e'.stateVersion = e.stateVersion + 1)
    (total : e'.totalCalls = e.totalCalls) (successful : e'.successfulCalls = e.successfulCalls)
    (failed : e'.failedCalls = e.failedCalls) : e.Bump e' where
  identity := identity
  state h := state ▸ h
  revoked h := by
    unfold Epoch.Revoked at *
    rw [state, lifecycle]
    exact h
  version := version
  total := total
  successful := successful
  failed := failed

theorem restrict_change {cid gid reason ts : String} {version n : ℕ} {override : BirthLifecycle}
    (h : s.restrictGeneration cid gid version override reason ts = .ok (n, s')) :
    Relation.ReflTransGen Change ⟨s, c⟩ ⟨s', c⟩ := by
  unfold Store.restrictGeneration at h
  simp only [bind_eq_ok] at h
  obtain ⟨-, -, -, -, -, -, -, -, -, -, h⟩ := h
  split at h
  · cases h
  split at h
  · cases h
    exact .refl
  · simp only [bind_eq_ok, pure_eq_ok, Prod.mk.injEq] at h
    obtain ⟨s₁, h₁, s₂, h₂, -, rfl⟩ := h
    refine .single (.of_update c h₁ h₂ rfl rfl fun e _ hp => ?_)
    simp only [decide_eq_true_eq] at hp
    exact ⟨hp.2, bump_of_override ⟨rfl, rfl, rfl, rfl⟩ rfl rfl rfl rfl rfl rfl⟩

theorem clear_change {cid gid reason ts : String} {version n : ℕ}
    (h : s.clearRestriction cid gid version reason ts = .ok (n, s')) :
    Relation.ReflTransGen Change ⟨s, c⟩ ⟨s', c⟩ := by
  unfold Store.clearRestriction at h
  simp only [bind_eq_ok] at h
  obtain ⟨-, -, -, -, -, -, -, -, h⟩ := h
  split at h
  · cases h
  split at h
  · cases h
    exact .refl
  · simp only [bind_eq_ok, pure_eq_ok, Prod.mk.injEq] at h
    obtain ⟨s₁, h₁, s₂, h₂, -, rfl⟩ := h
    refine .single (.of_update c h₁ h₂ rfl rfl fun e _ hp => ?_)
    simp only [decide_eq_true_eq] at hp
    exact ⟨hp.2, bump_of_override ⟨rfl, rfl, rfl, rfl⟩ rfl rfl rfl rfl rfl rfl⟩

theorem quarantine_change {cid gid ts : String} {q : QuarantineCAS}
    (h : s.quarantineForFeedback cid gid ts = .ok (q, s')) :
    Relation.ReflTransGen Change ⟨s, c⟩ ⟨s', c⟩ := by
  unfold Store.quarantineForFeedback at h
  simp only [bind_eq_ok] at h
  obtain ⟨-, -, -, -, h⟩ := h
  split at h
  · cases h
    exact .refl
  split at h
  · cases h
    exact .refl
  split at h
  · cases h
    exact .refl
  · simp only [bind_eq_ok, pure_eq_ok, Prod.mk.injEq] at h
    obtain ⟨-, -, s₁, h₁, s₂, h₂, -, rfl⟩ := h
    refine .single (.of_update c h₁ h₂ rfl rfl fun e _ hp => ?_)
    simp only [decide_eq_true_eq] at hp
    exact ⟨hp.2.2, ⟨⟨rfl, rfl, rfl, rfl⟩, fun _ => hp.1, fun _ => .inr rfl, rfl, rfl, rfl, rfl⟩⟩

end

theorem Audited.perform_changes {s s' : Audited} {c : Call} {a : Answer}
    (h : s.perform c = .ok (a, s')) : Relation.ReflTransGen Change s s' := by
  have keep : ∀ {α : Type} {f : α → Answer} {r : Except EpochStoreError (α × Store)},
      s.keep f r = .ok (a, s') → ∃ x, r = .ok (x, s'.store) ∧ s' = ⟨s'.store, s.credited⟩ := by
    intro α f r h
    cases r with
    | error e => cases h
    | ok x =>
      cases h
      exact ⟨x.1, rfl, rfl⟩
  cases c with
  | credit cid gid version uses ts =>
    simp only [Audited.perform] at h
    cases hr : s.store.creditUses cid gid version uses ts with
    | error e => rw [hr] at h; cases h
    | ok x =>
      rw [hr] at h
      cases h
      exact .single (credit_change s.credited hr)
  | open_ =>
    obtain ⟨x, hr, heq⟩ := keep h
    rw [heq]
    exact .single (openEpoch_change s.credited hr)
  | replace a =>
    obtain ⟨x, hr, heq⟩ := keep h
    rw [heq]
    exact replace_change s.credited hr
  | transition =>
    obtain ⟨x, hr, heq⟩ := keep h
    rw [heq]
    exact .single (transition_change s.credited hr)
  | execution k version successful occurredAt =>
    obtain ⟨x, hr, heq⟩ := keep (f := fun _ : Unit => .counted)
      (r := s.store.recordExecution k version successful occurredAt) h
    rw [heq]
    exact .single (execution_change s.credited hr)
  | feedback =>
    obtain ⟨x, hr, heq⟩ := keep h
    rw [heq]
    exact .single (feedback_change s.credited hr)
  | restrict =>
    obtain ⟨x, hr, heq⟩ := keep h
    rw [heq]
    exact restrict_change s.credited hr
  | clear =>
    obtain ⟨x, hr, heq⟩ := keep h
    rw [heq]
    exact clear_change s.credited hr
  | quarantine =>
    obtain ⟨x, hr, heq⟩ := keep h
    rw [heq]
    exact quarantine_change s.credited hr

end Metnos.Epochs
