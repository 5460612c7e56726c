import Metnos.Epochs.Changes

/-!
# Epochs.Machine — what holds of the epochs after any sequence of calls

`Sound` is kept by every change, and `Since` relates the epochs before a change to those after it;
both then hold along runs of accepted and refused calls.
-/

namespace Metnos.Epochs

open Transaction Store

/-! ## The invariant -/

/-- The numbers of the events of an epoch at its version `n`. -/
def numbers (n : ℕ) : List (ℕ × Option ℕ × ℕ) :=
  (List.range n).map fun i => (i + 1, if i = 0 then none else some i, i + 1)

theorem numbers_succ (n : ℕ) :
    numbers (n + 1) = numbers n ++ [(n + 1, if n = 0 then none else some n, n + 1)] := by
  simp [numbers, List.range_succ]

theorem foldl_max_numbers (n : ℕ) : ((numbers n).map Prod.fst).foldl max 0 = n := by
  induction n with
  | zero => rfl
  | succ n ih =>
    rw [numbers_succ, List.map_append, List.foldl_append, ih]
    show max n (n + 1) = n + 1
    omega

namespace Audited

/-- The version of an epoch; 0 when there is none. -/
def version (s : Audited) (k : Key) : ℕ := ((s.epoch k).map Epoch.stateVersion).getD 0

structure Sound (s : Audited) : Prop where
  single : ∀ {j k e e'}, s.epoch j = some e → s.epoch k = some e' → j.1 = k.1 →
    e.state = .current → e'.state = .current → j = k
  numbered : ∀ k, (s.store.events k).map Event.number = numbers (s.version k)
  positive : ∀ {k e}, s.epoch k = some e → 1 ≤ e.stateVersion
  totals : ∀ {k e}, s.epoch k = some e →
    e.totalCalls = e.successfulCalls + e.failedCalls + s.credited k
  uncredited : ∀ {k}, s.epoch k = none → s.credited k = 0

theorem sound_empty : empty.Sound where
  single h := by cases h
  numbered k := rfl
  positive h := by cases h
  totals h := by cases h
  uncredited _ := rfl

variable {s s' : Audited}

theorem version_of_some {k : Key} {e : Epoch} (h : s.epoch k = some e) :
    s.version k = e.stateVersion := by
  rw [version, h]
  rfl

theorem version_of_none {k : Key} (h : s.epoch k = none) : s.version k = 0 := by
  rw [version, h]
  rfl

theorem version_update {k j : Key} {e : Epoch} (h : s'.epoch = Function.update s.epoch k (some e)) :
    s'.version j = if j = k then e.stateVersion else s.version j := by
  rw [version, version, h, Function.update_apply]
  split <;> rfl

theorem Sound.lastSeq (inv : s.Sound) {k : Key} {e : Epoch} (h : s.epoch k = some e) :
    s.store.lastSeq k = e.stateVersion := by
  have hseq : (s.store.events k).map Event.eventSeq =
      ((s.store.events k).map Event.number).map Prod.fst := by
    rw [List.map_map]
    rfl
  rw [Store.lastSeq, hseq, inv.numbered, foldl_max_numbers, version_of_some h]

theorem events_append {ev : Event} (h : s'.store.history = s.store.history ++ [ev]) (j : Key) :
    s'.store.events j = s.store.events j ++ if ev.key = j then [ev] else [] := by
  rw [Store.events, h, List.filter_append, Store.events]
  by_cases hj : ev.key = j <;> simp [hj]

theorem epoch_update {k j : Key} {e x : Epoch}
    (h : s'.epoch = Function.update s.epoch k (some e)) (hx : s'.epoch j = some x) :
    j = k ∧ x = e ∨ j ≠ k ∧ s.epoch j = some x := by
  rw [h, Function.update_apply] at hx
  split at hx
  · rename_i hj
    exact .inl ⟨hj, (Option.some.inj hx).symm⟩
  · rename_i hj
    exact .inr ⟨hj, hx⟩

theorem Sound.single_update (inv : s.Sound) {k : Key} {e e' : Epoch} (he : s.epoch k = some e)
    (h : s'.epoch = Function.update s.epoch k (some e'))
    (state : e'.state = .current → e.state = .current) {i j : Key} {x y : Epoch}
    (hi : s'.epoch i = some x) (hj : s'.epoch j = some y) (same : i.1 = j.1)
    (hx : x.state = .current) (hy : y.state = .current) : i = j := by
  rcases epoch_update h hi with ⟨rfl, rfl⟩ | ⟨-, hi⟩ <;>
    rcases epoch_update h hj with ⟨rfl, rfl⟩ | ⟨-, hj⟩
  · rfl
  · exact inv.single he hj same (state hx) hy
  · exact inv.single hi he same hx (state hy)
  · exact inv.single hi hj same hx hy

theorem Sound.change (inv : s.Sound) (h : Change s s') : s'.Sound := by
  cases h with
  | counted k e e' he hepoch identity state lifecycle version history other total =>
    have none_of : ∀ {j}, s'.epoch j = none → j ≠ k ∧ s.epoch j = none := by
      intro j hj
      rw [hepoch, Function.update_apply] at hj
      split at hj
      · cases hj
      · rename_i hne
        exact ⟨hne, hj⟩
    refine ⟨inv.single_update he hepoch fun h => state ▸ h, fun j => ?_, fun hx => ?_,
      fun hx => ?_, fun hj => ?_⟩
    · rw [Store.events, history, version_update hepoch]
      show (s.store.events j).map Event.number = _
      rw [inv.numbered]
      split
      · rename_i hj
        rw [hj, version_of_some he, version]
      · rfl
    · rcases epoch_update hepoch hx with ⟨rfl, rfl⟩ | ⟨-, hx⟩
      · rw [version]
        exact inv.positive he
      · exact inv.positive hx
    · rcases epoch_update hepoch hx with ⟨rfl, rfl⟩ | ⟨hne, hx⟩
      · exact total (inv.totals he)
      · rw [other _ hne]
        exact inv.totals hx
    · obtain ⟨hne, hj⟩ := none_of hj
      rw [other _ hne]
      exact inv.uncredited hj
  | moved k e e' ev he hepoch bump credited history key number =>
    refine ⟨inv.single_update he hepoch bump.state, fun j => ?_, fun hx => ?_, fun hx => ?_,
      fun hj => ?_⟩
    · rw [events_append history, List.map_append, inv.numbered, version_update hepoch]
      by_cases hj : j = k
      · have hne : e.stateVersion ≠ 0 := Nat.one_le_iff_ne_zero.mp (inv.positive he)
        rw [if_pos hj, if_pos (key.trans hj.symm), hj, version_of_some he, bump.version,
          numbers_succ, if_neg hne]
        simp [number, inv.lastSeq he]
      · rw [if_neg hj, if_neg (fun h => hj (h.symm.trans key))]
        simp
    · rcases epoch_update hepoch hx with ⟨rfl, rfl⟩ | ⟨-, hx⟩
      · rw [bump.version]
        omega
      · exact inv.positive hx
    · rw [credited]
      rcases epoch_update hepoch hx with ⟨rfl, rfl⟩ | ⟨-, hx⟩
      · rw [bump.total, bump.successful, bump.failed]
        exact inv.totals he
      · exact inv.totals hx
    · rw [credited]
      rw [hepoch, Function.update_apply] at hj
      split at hj
      · cases hj
      · exact inv.uncredited hj
  | opened k e ev hnone hepoch closed version total successful failed credited history key number =>
    refine ⟨fun hi hj same hx hy => ?_, fun j => ?_, fun hx => ?_, fun hx => ?_, fun hj => ?_⟩
    · rcases epoch_update hepoch hi with ⟨rfl, rfl⟩ | ⟨-, hi⟩ <;>
        rcases epoch_update hepoch hj with ⟨rfl, rfl⟩ | ⟨-, hj⟩
      · rfl
      · exact absurd hy (closed _ _ hj same.symm)
      · exact absurd hx (closed _ _ hi same)
      · exact inv.single hi hj same hx hy
    · rw [events_append history, List.map_append, inv.numbered, version_update hepoch]
      by_cases hj : j = k
      · rw [if_pos hj, if_pos (key.trans hj.symm), hj, version_of_none hnone, version]
        simp [number, numbers]
      · rw [if_neg hj, if_neg (fun h => hj (h.symm.trans key))]
        simp
    · rcases epoch_update hepoch hx with ⟨rfl, rfl⟩ | ⟨-, hx⟩
      · exact version.ge
      · exact inv.positive hx
    · rw [credited]
      rcases epoch_update hepoch hx with ⟨rfl, rfl⟩ | ⟨-, hx⟩
      · rw [total, successful, failed, inv.uncredited hnone]
      · exact inv.totals hx
    · rw [credited]
      rw [hepoch, Function.update_apply] at hj
      split at hj
      · cases hj
      · exact inv.uncredited hj

end Audited

/-! ## What calls never take back -/

/-- What an epoch may become. -/
structure Epoch.Onward (e e' : Epoch) : Prop where
  identity : e.Identity e'
  version : e.stateVersion ≤ e'.stateVersion
  state : e'.stateVersion = e.stateVersion → e'.state = e.state
  lifecycle : e'.stateVersion = e.stateVersion → e'.lifecycle = e.lifecycle
  revoked : e.Revoked → e'.Revoked

theorem Epoch.Onward.refl (e : Epoch) : e.Onward e where
  identity := ⟨rfl, rfl, rfl, rfl⟩
  version := le_refl _
  state _ := rfl
  lifecycle _ := rfl
  revoked h := h

theorem Epoch.Onward.trans {a b c : Epoch} (h : a.Onward b) (h' : b.Onward c) : a.Onward c where
  identity :=
    { key := h'.identity.key.trans h.identity.key
      name := h'.identity.name.trans h.identity.name
      source := h'.identity.source.trans h.identity.source
      historic := h'.identity.historic.trans h.identity.historic }
  version := le_trans h.version h'.version
  state same := by
    have hb := h.version
    have hc := h'.version
    rw [h'.state (by omega), h.state (by omega)]
  lifecycle same := by
    have hb := h.version
    have hc := h'.version
    rw [h'.lifecycle (by omega), h.lifecycle (by omega)]
  revoked hr := h'.revoked (h.revoked hr)

/-- Only a quarantine answers that it was stale, and only a replacement that it was repeated. -/
def Answer.IsStale : Answer → Prop
  | .quarantined q => q = .stale
  | .replaced r => r.repeated = true
  | _ => False

namespace Audited

/-- `s'` comes after `s`. -/
structure Since (s s' : Audited) : Prop where
  history : s.store.history <+: s'.store.history
  epoch : ∀ {k e}, s.epoch k = some e → ∃ e', s'.epoch k = some e' ∧ e.Onward e'

variable {s s' s'' : Audited}

theorem Since.refl (s : Audited) : Since s s where
  history := List.prefix_refl _
  epoch h := ⟨_, h, .refl _⟩

theorem Since.trans (h : Since s s') (h' : Since s' s'') : Since s s'' where
  history := h.history.trans h'.history
  epoch he := by
    obtain ⟨e', he', on⟩ := h.epoch he
    obtain ⟨e'', he'', on'⟩ := h'.epoch he'
    exact ⟨e'', he'', on.trans on'⟩

theorem onward_update {k : Key} {e e' : Epoch} (he : s.epoch k = some e)
    (h : s'.epoch = Function.update s.epoch k (some e')) (on : e.Onward e') {j : Key} {x : Epoch}
    (hx : s.epoch j = some x) : ∃ x', s'.epoch j = some x' ∧ x.Onward x' := by
  rw [h]
  by_cases hj : j = k
  · subst hj
    rw [Function.update_self]
    obtain rfl : e = x := Option.some.inj (he.symm.trans hx)
    exact ⟨e', rfl, on⟩
  · rw [Function.update_of_ne hj]
    exact ⟨x, hx, .refl x⟩

theorem Since.change (h : Change s s') : Since s s' := by
  cases h with
  | counted k e e' he hepoch identity state lifecycle version history =>
    refine ⟨history ▸ List.prefix_refl _, fun hx => onward_update he hepoch ?_ hx⟩
    exact
      { identity := identity
        version := version.ge
        state := fun _ => state
        lifecycle := fun _ => lifecycle
        revoked := fun hr => by
          unfold Epoch.Revoked at *
          rw [state, lifecycle]
          exact hr }
  | moved k e e' ev he hepoch bump credited history =>
    refine ⟨history ▸ List.prefix_append .., fun hx => onward_update he hepoch ?_ hx⟩
    have hne : e'.stateVersion ≠ e.stateVersion := by
      rw [bump.version]
      omega
    exact
      { identity := bump.identity
        version := by rw [bump.version]; omega
        state := fun same => absurd same hne
        lifecycle := fun same => absurd same hne
        revoked := bump.revoked }
  | opened k e ev hnone hepoch closed version total successful failed credited history =>
    refine ⟨history ▸ List.prefix_append .., fun {j x} hx => ⟨x, ?_, .refl x⟩⟩
    rw [hepoch]
    by_cases hj : j = k
    · rw [hj, hnone] at hx
      cases hx
    · rw [Function.update_of_ne hj]
      exact hx

/-! ## Runs -/

theorem Sound.changes (inv : s.Sound) (h : Relation.ReflTransGen Change s s') : s'.Sound := by
  induction h with
  | refl => exact inv
  | tail _ h ih => exact ih.change h

theorem Since.changes (h : Relation.ReflTransGen Change s s') : Since s s' := by
  induction h with
  | refl => exact .refl s
  | tail _ h ih => exact ih.trans (.change h)

theorem transition_changes {c : Call} (h : s.transition c = .ok s') :
    Relation.ReflTransGen Change s s' := by
  unfold Audited.transition at h
  cases hc : s.perform c with
  | error e => rw [hc] at h; cases h
  | ok x =>
    rw [hc] at h
    cases h
    exact perform_changes hc

theorem Sound.run (inv : s.Sound) (calls : List Call) : (s.run calls).Sound :=
  Transaction.run_preserves (fun h inv => inv.changes (transition_changes h)) inv

theorem Since.run (s : Audited) (calls : List Call) : Since s (s.run calls) :=
  Transaction.run_preserves (fun h ih => ih.trans (.changes (transition_changes h))) (.refl s)

/-! ## Executions -/

theorem attest_ok {cid gid name : String} {a : ExecutionEpochAttestation}
    (h : s.store.attestExecutionEpoch cid gid name = .ok a) :
    ∃ e, s.epoch (cid, gid) = some e ∧ ¬ e.Revoked := by
  unfold Store.attestExecutionEpoch at h
  simp only [bind_eq_ok] at h
  obtain ⟨-, -, -, -, h⟩ := h
  split at h
  · cases h
  rename_i e he
  simp only [bind_eq_ok, check_eq_ok, pure_eq_ok] at h
  obtain ⟨-, -, -, hquarantined, -, ⟨-, -, hcurrent⟩, -⟩ := h
  refine ⟨e, he, ?_⟩
  rintro (hclosed | hlifecycle)
  · exact hclosed hcurrent
  · exact hquarantined hlifecycle

/-! ## Stale calls -/

/-- The epoch is the current one at this version. -/
def At (s : Audited) (k : Key) (version : ℕ) : Prop :=
  ∃ e, s.epoch k = some e ∧ e.state = .current ∧ e.stateVersion = version

/-- The call names a generation that is not the current one, or a version that its epoch does not
have.  A transition also moves epochs that were closed, so its generation is stale only in its
version or lifecycle. -/
def Stale (s : Audited) : Call → Prop
  | .open_ .. => False
  | .replace a => ¬ s.At a.oldKey a.expectedStateVersion
  | .transition k version .. =>
    ¬ ∃ e, s.epoch k.key = some e ∧ e.lifecycle = k.lifecycle ∧ e.stateVersion = version
  | .execution k version .. | .feedback k version .. => ¬ s.At k.key version
  | .restrict cid gid version .. | .clear cid gid version .. | .credit cid gid version .. =>
    ¬ s.At (cid, gid) version
  | .quarantine cid gid _ => ¬ ∃ e, s.epoch (cid, gid) = some e ∧ e.state = .current

theorem not_at_update {k : Key} {p : Epoch → Bool} {f : Epoch → Epoch}
    {hf : ∀ e, (f e).key = e.key} {detail : String} {store : Store} {version : ℕ}
    (h : s.store.updateEpoch k p f hf detail = .ok store)
    (exact : ∀ e, p e = true → e.state = .current ∧ e.stateVersion = version) : s.At k version := by
  obtain ⟨e, he, hp, -⟩ := updateEpoch_ok h
  exact ⟨e, he, exact e hp⟩

theorem keep_ok {α : Type} {f : α → Answer} {r : Except EpochStoreError (α × Store)} {a : Answer}
    (h : s.keep f r = .ok (a, s')) :
    ∃ x, r = .ok (x, s'.store) ∧ a = f x ∧ s' = ⟨s'.store, s.credited⟩ := by
  cases r with
  | error e => cases h
  | ok x =>
    cases h
    exact ⟨x.1, rfl, rfl, rfl⟩

theorem stale_perform {c : Call} {a : Answer} (stale : s.Stale c) (h : s.perform c = .ok (a, s')) :
    a.IsStale ∧ s' = s := by
  cases c with
  | open_ => exact stale.elim
  | replace args =>
    obtain ⟨r, hr, ha, heq⟩ := keep_ok h
    obtain ⟨-, ⟨e, -, -, -, hrepeated, hsame⟩ | ⟨e, _, _, _, hcurrent, hkey, hversion, -⟩⟩ :=
      replace_cases hr
    · rw [heq, ha, hrepeated, hsame]
      exact ⟨rfl, rfl⟩
    · obtain ⟨hfind, hstate⟩ := current_some hcurrent
      refine absurd ⟨e, ?_, hstate, hversion⟩ stale
      rw [← hkey, ← Table.key_of_find? hfind] at *
      exact hfind
  | transition k version newState newLifecycle kind ts =>
    obtain ⟨n, hr, -, -⟩ := keep_ok h
    unfold Store.transitionEpoch at hr
    simp only [bind_eq_ok] at hr
    obtain ⟨-, -, -, -, -, -, -, -, hr⟩ := hr
    split at hr
    · cases hr
    rename_i e he
    simp only [bind_eq_ok, check_eq_ok] at hr
    obtain ⟨-, hversion, -, hlifecycle, -⟩ := hr
    exact absurd ⟨e, he, hlifecycle, hversion⟩ stale
  | execution k version successful ts =>
    obtain ⟨n, hr, -, -⟩ := keep_ok (f := fun _ : Unit => .counted)
      (r := s.store.recordExecution k version successful ts) h
    simp only [Store.recordExecution, bind_eq_ok] at hr
    obtain ⟨-, -, -, -, -, -, s₁, h₁, -⟩ := hr
    exact absurd (not_at_update h₁ fun e hp => (of_decide_eq_true hp).2) stale
  | feedback k version good ts =>
    obtain ⟨n, hr, -, -⟩ := keep_ok h
    simp only [Store.recordFeedback, bind_eq_ok] at hr
    obtain ⟨-, -, -, -, -, -, s₁, h₁, -⟩ := hr
    exact absurd (not_at_update h₁ fun e hp => (of_decide_eq_true hp).2) stale
  | restrict cid gid version override reason ts =>
    obtain ⟨n, hr, -, -⟩ := keep_ok h
    unfold Store.restrictGeneration at hr
    simp only [bind_eq_ok] at hr
    obtain ⟨-, -, -, -, -, -, -, -, -, -, hr⟩ := hr
    split at hr
    · cases hr
    rename_i e he
    exact absurd ⟨e, exact_some he⟩ stale
  | clear cid gid version reason ts =>
    obtain ⟨n, hr, -, -⟩ := keep_ok h
    unfold Store.clearRestriction at hr
    simp only [bind_eq_ok] at hr
    obtain ⟨-, -, -, -, -, -, -, -, hr⟩ := hr
    split at hr
    · cases hr
    rename_i e he
    exact absurd ⟨e, exact_some he⟩ stale
  | credit cid gid version uses ts =>
    simp only [Audited.perform] at h
    cases hr : s.store.creditUses cid gid version uses ts with
    | error e => rw [hr] at h; cases h
    | ok x =>
      simp only [Store.creditUses, bind_eq_ok] at hr
      obtain ⟨-, -, -, -, -, -, -, -, s₁, h₁, -⟩ := hr
      exact absurd (not_at_update h₁ fun e hp => of_decide_eq_true hp) stale
  | quarantine cid gid ts =>
    obtain ⟨q, hr, ha, heq⟩ := keep_ok h
    unfold Store.quarantineForFeedback at hr
    simp only [bind_eq_ok] at hr
    obtain ⟨-, -, -, -, hr⟩ := hr
    have unchanged : ∀ {q'}, pure (q', s.store) = Except.ok (ε := EpochStoreError) (q, s'.store) →
        q' = .stale → a.IsStale ∧ s' = s := by
      intro q' h hq'
      simp only [pure_eq_ok, Prod.mk.injEq] at h
      rw [heq, ha, ← h.1, ← h.2, hq']
      exact ⟨rfl, rfl⟩
    split at hr
    · exact unchanged hr rfl
    rename_i e he
    split at hr
    · exact unchanged hr rfl
    · rename_i hgid
      obtain ⟨hfind, hstate⟩ := current_some he
      rw [not_not.mp hgid] at hfind
      exact absurd ⟨e, hfind, hstate⟩ stale

/-! ## Repeated replacements -/

/-- What an accepted replacement leaves for its repetition. -/
structure Replaced (s : Audited) (args : Replacement) : Prop where
  valid : args.valid = .ok ()
  old : ∃ e, s.epoch args.oldKey = some e ∧ e.state = .deprecated ∧ e.lifecycle = .deprecated ∧
    e.stateVersion = args.expectedStateVersion + 1
  new : ∃ e, s.epoch args.newKey = some e ∧ e.state = .current ∧ args.Replay s.store e

theorem Replacement.key_ne {args : Replacement} (valid : args.valid = .ok ()) :
    args.oldKey ≠ args.newKey := by
  simp only [Replacement.valid, bind_eq_ok, check_eq_ok] at valid
  obtain ⟨-, -, -, -, -, hne, -⟩ := valid
  intro h
  exact hne (congrArg Prod.snd h)

theorem opening_append {args : Replacement} {store store' : Store} {ev : Event}
    (h : store.insertEvent ev = .ok store') (key : ev.key = args.newKey) (seq : ev.eventSeq = 1) :
    Replacement.opening store' args = some ev := by
  obtain ⟨fresh, -, history⟩ := insertEvent_ok h
  rw [Replacement.opening, Store.events, history, List.filter_append, List.find?_append]
  have hnone : (store.history.filter (fun x => x.key = args.newKey)).find?
      (fun x => x.eventSeq = 1) = none := by
    rw [List.find?_eq_none]
    intro x hx hseq
    refine fresh x (by rw [key]; exact hx) ?_
    rw [seq]
    exact of_decide_eq_true hseq
  rw [hnone]
  simp [key, seq]

theorem replaced_of_ok {args : Replacement} {r : EpochReplacement} {store : Store} (c : Key → ℕ)
    (h : s.store.replaceCurrentEpoch args = .ok (r, store)) : Replaced ⟨store, c⟩ args ∧
      ∃ b, r = ⟨args.expectedGenerationId, args.expectedStateVersion + 1,
        args.record (version ⟨store, c⟩ args.newKey), b⟩ := by
  obtain ⟨valid, ⟨e, hcurrent, hgid, replay, hr, rfl⟩ |
    ⟨e, s₁, s₂, s₃, hcurrent, hkey, hversion, h₁, h₂, h₃, h₄, hr⟩⟩ := replace_cases h
  · obtain ⟨hfind, hstate⟩ := current_some hcurrent
    rw [hgid] at hfind
    refine ⟨⟨valid, replay.prior, e, hfind, hstate, replay⟩, true, ?_⟩
    have hversion : version ⟨s.store, c⟩ args.newKey = e.stateVersion := version_of_some hfind
    rw [hr, hversion]
  · have hne := Replacement.key_ne valid
    obtain ⟨x, hx, hp, hafter, -, -⟩ := updateEpoch_ok h₁
    obtain ⟨-, hepochs₂, -⟩ := insertEvent_ok h₂
    obtain ⟨-, hafter₃, -, -⟩ := insertEpoch_ok h₃
    obtain ⟨-, hepochs₄, -⟩ := insertEvent_ok h₄
    have hsecond : s₂.epochs.find? = s₁.epochs.find? := by
      rw [hepochs₂]
      rfl
    have old : (⟨store, c⟩ : Audited).epoch args.oldKey = some { x with
        state := .deprecated
        lifecycle := .deprecated
        stateVersion := x.stateVersion + 1
        updatedAt := args.observedAt } := by
      show store.epochs.find? args.oldKey = _
      rw [hepochs₄, hafter₃]
      refine (Function.update_of_ne hne ..).trans ?_
      rw [hsecond, hafter, Function.update_self]
    have new : store.epochs.find? args.newKey = some (fresh args.contractId args.generationId
        args.name args.source args.lifecycle args.observedAt args.historicEpochRef) := by
      rw [hepochs₄, hafter₃]
      exact Function.update_self ..
    simp only [decide_eq_true_eq] at hp
    refine ⟨⟨valid, ⟨_, old, rfl, rfl, congrArg (· + 1) hp.2⟩, _, new, rfl, ?_⟩, false, ?_⟩
    swap
    · have hversion : version ⟨store, c⟩ args.newKey = 1 := version_of_some (s := ⟨store, c⟩) new
      rw [hr, hversion]
    exact
      { prior := ⟨_, old, rfl, rfl, congrArg (· + 1) hp.2⟩
        name := rfl
        source := rfl
        lifecycle := rfl
        historic := rfl
        opening := ⟨_, opening_append h₄ rfl rfl, rfl, rfl, rfl⟩ }

/-- The versions of the two epochs are the same in both states. -/
def Unmoved (s s' : Audited) (args : Replacement) : Prop :=
  s'.version args.oldKey = s.version args.oldKey ∧ s'.version args.newKey = s.version args.newKey

theorem Since.same (since : Since s s') {k : Key} {e : Epoch} (he : s.epoch k = some e)
    (same : s'.version k = s.version k) : ∃ e', s'.epoch k = some e' ∧ e.Identity e' ∧
      e'.state = e.state ∧ e'.lifecycle = e.lifecycle ∧ e'.stateVersion = e.stateVersion := by
  obtain ⟨e', he', on⟩ := since.epoch he
  rw [version_of_some he, version_of_some he'] at same
  exact ⟨e', he', on.identity, on.state same, on.lifecycle same, same⟩

theorem Replaced.since {args : Replacement} (h : Replaced s args) (since : Since s s')
    (unmoved : Unmoved s s' args) : Replaced s' args := by
  obtain ⟨e, he, hstate, hlifecycle, hversion⟩ := h.old
  obtain ⟨e', he', -, hstate', hlifecycle', hversion'⟩ := since.same he unmoved.1
  obtain ⟨x, hx, hcurrent, replay⟩ := h.new
  obtain ⟨x', hx', identity, hcurrent', hnew, -⟩ := since.same hx unmoved.2
  obtain ⟨ev, hopening, hev⟩ := replay.opening
  have old : ∃ e, s'.epoch args.oldKey = some e ∧ e.state = .deprecated ∧
      e.lifecycle = .deprecated ∧ e.stateVersion = args.expectedStateVersion + 1 :=
    ⟨e', he', hstate'.trans hstate, hlifecycle'.trans hlifecycle, hversion'.trans hversion⟩
  refine ⟨h.valid, old, x', hx', hcurrent'.trans hcurrent, ?_⟩
  exact
    { prior := old
      name := identity.name.trans replay.name
      source := identity.source.trans replay.source
      lifecycle := hnew.trans replay.lifecycle
      historic := identity.historic.trans replay.historic
      opening := by
        obtain ⟨more, hmore⟩ := since.history
        refine ⟨ev, ?_, hev⟩
        rw [Replacement.opening, Store.events, ← hmore, List.filter_append, List.find?_append]
        rw [Replacement.opening, Store.events] at hopening
        rw [hopening]
        rfl }

theorem Replaced.perform {args : Replacement} (h : Replaced s args) (inv : s.Sound) :
    s.perform (.replace args) = .ok (.replaced ⟨args.expectedGenerationId,
      args.expectedStateVersion + 1, args.record (s.version args.newKey), true⟩, s) := by
  obtain ⟨e, he, hstate, replay⟩ := h.new
  have hcurrent : s.store.current args.contractId = some e := by
    cases hc : s.store.current args.contractId with
    | none => exact absurd hstate (current_none hc he rfl)
    | some x =>
      obtain ⟨hx, hxstate⟩ := current_some hc
      have hk := inv.single hx he rfl hxstate hstate
      rw [hk] at hx
      exact hx.symm.trans he
  have hgid : e.generationId = args.generationId :=
    congrArg Prod.snd (Table.key_of_find? he)
  rw [version_of_some he]
  show s.keep .replaced (s.store.replaceCurrentEpoch args) = _
  unfold Store.replaceCurrentEpoch
  rw [h.valid, hcurrent]
  show s.keep .replaced (if e.generationId = args.generationId then _ else _) = _
  rw [if_pos hgid, check, if_pos replay]
  rfl

end Audited

/-! ## The state machine -/

/-- **The epochs of a store** after any calls, and any more of them. -/
theorem epoch_machine (xs ys : List Call) :
    let s := Audited.empty.run xs
    let s' := s.run ys
    (∀ j k e e', s.epoch j = some e → s.epoch k = some e' → j.1 = k.1 → e.state = .current →
      e'.state = .current → j = k) ∧
    (∀ k e, s.epoch k = some e → (s.store.events k).map Event.number = numbers e.stateVersion) ∧
    (∀ k e, s.epoch k = some e → e.Revoked → ∀ name a,
      s'.store.attestExecutionEpoch k.1 k.2 name ≠ .ok a) ∧
    (∀ k e, s.epoch k = some e →
      e.totalCalls = e.successfulCalls + e.failedCalls + s.credited k) ∧
    (∀ c a t, s.Stale c → s.perform c = .ok (a, t) → a.IsStale ∧ t = s) ∧
    ∀ args r t, s.perform (.replace args) = .ok (.replaced r, t) →
      Audited.Unmoved t (t.run ys) args →
      (t.run ys).perform (.replace args) = .ok (.replaced { r with repeated := true }, t.run ys) := by
  intro s s'
  have sound : s.Sound := Audited.sound_empty.run xs
  refine ⟨fun j k e e' he he' same => sound.single he he' same, fun k e he => ?_,
    fun k e he hrevoked name a h => ?_, fun k e he => sound.totals he,
    fun c a t stale h => Audited.stale_perform stale h, fun args r t h unmoved => ?_⟩
  · rw [sound.numbered, Audited.version_of_some he]
  · obtain ⟨e', he', on⟩ := (Audited.Since.run s ys).epoch he
    obtain ⟨x, hx, accepted⟩ := Audited.attest_ok h
    obtain rfl : e' = x := Option.some.inj (he'.symm.trans hx)
    exact accepted (on.revoked hrevoked)
  · obtain ⟨r', hr, heq, ht⟩ := Audited.keep_ok h
    cases heq
    obtain ⟨replaced, b, rfl⟩ := Audited.replaced_of_ok s.credited hr
    rw [← ht] at replaced ⊢
    have sound' : t.Sound := sound.changes (Audited.perform_changes h)
    rw [(replaced.since (.run t ys) unmoved).perform (sound'.run ys), unmoved.2]

end Metnos.Epochs
