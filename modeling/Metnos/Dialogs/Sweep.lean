import Metnos.Dialogs.Callbacks

/-!
# Dialogs.Sweep — what the sweep of expired dialogs removes

A sweep takes the time, reads the record without the lock, and unlinks the file in a later step;
the locked sections of other processes may stand between the two.  It removes an answered dialog
when the callback was never claimed, although the recovery scanner still lists it.
-/

namespace Metnos.Dialogs

variable {J : Type} (cfg : Config J)

/-! ## The rules of retention -/

namespace Record

variable (r : Record J) (now : ℤ)

/-- A form keeps its record while its callback works, and for some time after. -/
def httpKept (alive : ℕ → Bool) : Bool :=
  r.httpCallbackProcess.any fun p =>
    (r.httpCallbackReceipt.isNone && r.callbackReceipt.isNone && alive p &&
      !Dialogs.isExpired cfg r.completedAt (some cfg.retention) now) ||
    !Dialogs.isExpired cfg
      (r.httpCallbackFinishedAt <|> r.callbackFinishedAt <|> r.completedAt) (some cfg.formTtl) now

def deliveryKept : Bool :=
  (r.callbackDeliveryState = .pending || r.callbackDeliveryState = .running) &&
    r.callbackDeliveryAttempts < maxDeliveries

def callbackIncomplete : Bool :=
  r.completed && r.frozen && r.callbackReceipt.isNone &&
    (r.callbackClaimedAt.isSome || r.callbackState = .running ||
      r.callbackState = .recoveryPending || r.callbackState = .recoveryExhausted)

/-- When the retention of an incomplete callback starts; 0 is unknown. -/
def anchor : ℤ := max (r.startedAt.getD 0) (r.completedAt.getD (r.startedAt.getD 0))

def retained : Bool := r.anchor = 0 ∨ now - r.anchor ≤ cfg.retention * second

/-- `sweep_expired`: the record is removed. -/
def sweepRemoves (alive : ℕ → Bool) : Bool :=
  if r.ownerUserId = "" then true
  else if r.httpKept cfg now alive then false
  else if r.deliveryKept then false
  else if r.callbackIncomplete && r.retained cfg now then false
  else r.isExpired cfg now

/-- `sweep_expired`: the removed record is reported as abandoned. -/
def sweepReports : Bool := r.ownerUserId ≠ "" && !(r.completed || r.cancelled)

/-- `pending_frozen_callbacks`: the record is listed. -/
def pendingFrozen (alive : ℕ → Bool) : Bool :=
  r.completed && !r.cancelled && r.frozen && r.callbackReceipt.isNone && r.ownerUserId ≠ "" &&
    r.callbackRecoveryAttempts < maxAttempts &&
    (r.callbackClaimedAt.isNone || r.callbackState = .recoveryPending ||
      (r.callbackState = .running && !claimIsLive alive r.callbackProcess))

end Record

/-! ## The system -/

/-- Where a sweep stands with the dialog. -/
inductive Sweep (J : Type)
  | idle
  | started (now : ℤ)
  /-- It has read this record, and will unlink the file. -/
  | decided (copy : Record J)

/-- A removal: the record that was there, and what the sweep made of it. -/
structure Removal (J : Type) where
  record : Record J
  now : ℤ
  listed : Bool
  reported : Bool

structure Sweeps (J : Type) where
  file : Option (Record J)
  clock : ℤ
  alive : ℕ → Bool
  sweep : ℕ → Sweep J
  removed : List (Removal J)

namespace Sweeps

inductive Action (J : Type)
  | tick (microseconds : ℕ)
  | call (p : ℕ) (c : Call J)
  | die (p : ℕ)
  | start (k : ℕ)
  | read (k : ℕ)
  | unlink (k : ℕ)

def init {J : Type} (r : Record J) (clock : ℤ) (alive : ℕ → Bool) : Sweeps J where
  file := some r
  clock := clock
  alive := alive
  sweep := fun _ => .idle
  removed := []

section
variable (s : Sweeps J)

def goto (k : ℕ) (phase : Sweep J) : Sweeps J :=
  { s with sweep := Function.update s.sweep k phase }

/-- The sweep `k` reads the record at the time that it took. -/
def read (k : ℕ) (now : ℤ) : Sweeps J :=
  match s.file with
  | none => s.goto k .idle
  | some r => if r.sweepRemoves cfg now s.alive then s.goto k (.decided r) else s.goto k .idle

/-- The sweep `k` unlinks the file whose copy it has. -/
def unlink (k : ℕ) (copy : Record J) : Sweeps J :=
  match s.file with
  | none => s.goto k .idle
  | some r =>
    { s.goto k .idle with
      file := none
      removed := s.removed ++ [⟨r, s.clock, r.pendingFrozen s.alive, copy.sweepReports⟩] }

end

variable [DecidableEq J] (s : Sweeps J)

def transition : Action J → Except Unit (Sweeps J)
  | .tick d => .ok { s with clock := s.clock + d }
  | .call p c =>
    if s.alive p then .ok { s with file := (c.perform cfg s.alive p s.clock s.file).2 }
    else .error ()
  | .die p => .ok { s with alive := Function.update s.alive p false }
  | .start k =>
    match s.sweep k with
    | .idle => .ok (s.goto k (.started s.clock))
    | _ => .error ()
  | .read k =>
    match s.sweep k with
    | .started now => .ok (s.read cfg k now)
    | _ => .error ()
  | .unlink k =>
    match s.sweep k with
    | .decided copy => .ok (s.unlink k copy)
    | _ => .error ()

def run (actions : List (Action J)) : Sweeps J := Transaction.run (transition cfg) s actions

end Sweeps

/-! ## No accepted answer is lost -/

/-- The retention that starts at the time `t` is over. -/
def Late (t now : ℤ) : Prop := cfg.retention * second < now - t

instance (t now : ℤ) : Decidable (Late cfg t now) := inferInstanceAs (Decidable (_ < _))

/-- The removal took no accepted answer whose callback is still due. -/
structure Removal.Safe (e : Removal J) : Prop where
  /-- An answered frozen plan without a receipt had its retention. -/
  kept : e.record.completed = true → e.record.frozen = true → e.record.callbackReceipt = none →
    ∀ t, e.record.completedAt = some t → Late cfg t e.now
  listed : e.listed = true → Late cfg e.record.anchor e.now
  reported : e.reported = true → e.record.completed = false

/-- The record is answered, and only the recovery scanner would still know of its callback: the
callback was not claimed yet, and the time to live and the time of the form are over. -/
structure Record.Forgotten (r : Record J) (now : ℤ) (alive : ℕ → Bool) : Prop where
  completed : r.completed = true
  frozen : r.frozen = true
  receipt : r.callbackReceipt = none
  unclaimed : r.callbackClaimedAt = none
  early : ¬ Late cfg r.anchor now
  form : r.httpKept cfg now alive = false
  expired : r.isExpired cfg now = true

instance (r : Record J) (now : ℤ) (alive : ℕ → Bool) : Decidable (r.Forgotten cfg now alive) :=
  decidable_of_iff (r.completed = true ∧ r.frozen = true ∧ r.callbackReceipt.isNone = true ∧
      r.callbackClaimedAt = none ∧ ¬ Late cfg r.anchor now ∧ r.httpKept cfg now alive = false ∧
      r.isExpired cfg now = true)
    ⟨fun ⟨hc, hf, hr, hu, he, hk, hx⟩ => ⟨hc, hf, Option.isNone_iff_eq_none.mp hr, hu, he, hk, hx⟩,
      fun h => ⟨h.completed, h.frozen, Option.isNone_iff_eq_none.mpr h.receipt, h.unclaimed,
        h.early, h.form, h.expired⟩⟩

/-- A sweep that reads now reads no forgotten record. -/
def Sweep.Remembers (alive : ℕ → Bool) : Sweep J → Option (Record J) → Prop
  | .started now, some r => ¬ r.Forgotten cfg now alive
  | _, _ => True

instance (alive : ℕ → Bool) : ∀ (w : Sweep J) (file : Option (Record J)),
    Decidable (w.Remembers cfg alive file)
  | .started _, some _ => inferInstanceAs (Decidable (¬ _))
  | .started _, none => inferInstanceAs (Decidable True)
  | .idle, _ => inferInstanceAs (Decidable True)
  | .decided _, _ => inferInstanceAs (Decidable True)

def Sweeps.Remembered (s : Sweeps J) : Sweeps.Action J → Prop
  | .read k => (s.sweep k).Remembers cfg s.alive s.file
  | _ => True

instance (s : Sweeps J) : ∀ action, Decidable (s.Remembered cfg action)
  | .read k => inferInstanceAs (Decidable ((s.sweep k).Remembers cfg s.alive s.file))
  | .tick _ | .call .. | .die _ | .start _ | .unlink _ => inferInstanceAs (Decidable True)

variable {cfg}

theorem Late.mono {t now now' : ℤ} (h : Late cfg t now) (le : now ≤ now') : Late cfg t now' := by
  unfold Late at *
  omega

theorem Record.isExpired_mono {r : Record J} {now now' : ℤ} (h : r.isExpired cfg now = true)
    (le : now ≤ now') : r.isExpired cfg now' = true := by
  simp only [Record.isExpired, Dialogs.isExpired, decide_eq_true_eq] at *
  exact ⟨h.1, by omega⟩

theorem Record.le_anchor {r : Record J} {t : ℤ} (h : r.completedAt = some t) : t ≤ r.anchor := by
  rw [Record.anchor, h]
  exact le_max_right ..

/-- What a decision to remove leaves true until the file is unlinked. -/
structure Record.Doomed (cfg : Config J) (r : Record J) (now : ℤ) : Prop where
  /-- Nobody can answer any more. -/
  expired : r.completed = false → r.isExpired cfg now = true
  late : r.completed = true → r.frozen = true → r.callbackReceipt = none → Late cfg r.anchor now

theorem Record.Doomed.mono {r : Record J} {now now' : ℤ} (h : r.Doomed cfg now)
    (le : now ≤ now') : r.Doomed cfg now' where
  expired hc := Record.isExpired_mono (h.expired hc) le
  late hc hf hr := (h.late hc hf hr).mono le

theorem Record.doomed_of_removes {r : Record J} {now : ℤ} {alive : ℕ → Bool}
    (owned : r.ownerUserId ≠ "") (h : r.sweepRemoves cfg now alive = true)
    (remembered : ¬ r.Forgotten cfg now alive) : r.Doomed cfg now := by
  unfold Record.sweepRemoves at h
  rw [if_neg owned] at h
  split at h
  · cases h
  rename_i hform
  split at h
  · cases h
  split at h
  · cases h
  rename_i hincomplete
  refine ⟨fun _ => h, fun hc hf hr => ?_⟩
  by_contra early
  by_cases hclaimed : r.callbackClaimedAt = none
  · exact remembered ⟨hc, hf, hr, hclaimed, early, Bool.eq_false_iff.mpr hform, h⟩
  · refine hincomplete ?_
    have hsome : r.callbackClaimedAt.isSome = true := Option.isSome_iff_ne_none.mpr hclaimed
    have hle : now - r.anchor ≤ cfg.retention * second := Int.not_lt.mp early
    simp [Record.callbackIncomplete, Record.retained, hc, hf, hr, hsome, hle]

theorem Record.Doomed.call {r r' : Record J} {now : ℤ} {alive : ℕ → Bool} {p : ℕ} {c : Call J}
    {a : Answer J} (h : r.Doomed cfg now) (performed : Performed cfg alive p now r c a r') :
    r'.Doomed cfg now ∧ r'.completed = r.completed := by
  have later := performed.later
  have same : r'.completed = r.completed := by
    cases hc : r.completed with
    | true => exact (later.completed hc).1
    | false =>
      have hexpired := h.expired hc
      cases performed with
      | refused => exact hc
      | forced _ hlive => rw [hlive] at hexpired; cases hexpired
      | accepted _ _ hlive => rw [hlive] at hexpired; cases hexpired
      | cancelled => exact hc
      | exhausted => exact hc
      | claimed => exact hc
      | authorized => exact hc
      | released => exact hc
      | finished => exact hc
  refine ⟨⟨fun hc => ?_, fun hc hf hr => ?_⟩, same⟩
  · rw [later.isExpired]
    exact h.expired (same ▸ hc)
  · have hc' : r.completed = true := same ▸ hc
    have hanchor : r'.anchor = r.anchor := by
      rw [Record.anchor, Record.anchor, later.started, (later.completed hc').2]
    rw [hanchor]
    refine h.late hc' (later.frozen ▸ hf) ?_
    cases hreceipt : r.callbackReceipt with
    | none => rfl
    | some receipt =>
      rw [later.receipt receipt hreceipt] at hr
      cases hr

namespace Sweeps

/-- The invariant: what the sweeps that have decided rely on. -/
structure Swept (cfg : Config J) (s : Sweeps J) : Prop where
  owned : ∀ r, s.file = some r → r.ownerUserId ≠ ""
  started : ∀ k now, s.sweep k = .started now → now ≤ s.clock
  decided : ∀ k copy, s.sweep k = .decided copy → ∀ r, s.file = some r →
    r.completed = copy.completed ∧ r.Doomed cfg s.clock
  removed : ∀ e ∈ s.removed, e.Safe cfg

variable {s : Sweeps J}

theorem swept_init {r : Record J} (owned : r.ownerUserId ≠ "") (clock : ℤ) (alive : ℕ → Bool) :
    (init r clock alive).Swept cfg where
  owned r' h := by
    cases h
    exact owned
  started k now h := by cases h
  decided k copy h := by cases h
  removed e he := by cases he

theorem Swept.goto (inv : s.Swept cfg) {k : ℕ} {phase : Sweep J}
    (started : ∀ now, phase = .started now → now ≤ s.clock)
    (decided : ∀ copy, phase = .decided copy → ∀ r, s.file = some r →
      r.completed = copy.completed ∧ r.Doomed cfg s.clock) : (s.goto k phase).Swept cfg where
  owned := inv.owned
  started j now h := by
    simp only [Sweeps.goto, Function.update_apply] at h
    split at h
    · exact started now h
    · exact inv.started j now h
  decided j copy h := by
    simp only [Sweeps.goto, Function.update_apply] at h
    split at h
    · exact decided copy h
    · exact inv.decided j copy h
  removed := inv.removed

theorem Swept.idle (inv : s.Swept cfg) (k : ℕ) : (s.goto k .idle).Swept cfg :=
  inv.goto (fun _ h => by cases h) (fun _ h => by cases h)

theorem Swept.read (inv : s.Swept cfg) {k : ℕ} {now : ℤ} (h : s.sweep k = .started now)
    (remembered : ∀ r, s.file = some r → ¬ r.Forgotten cfg now s.alive) :
    (s.read cfg k now).Swept cfg := by
  unfold Sweeps.read
  split
  · exact inv.idle k
  · rename_i r hfile
    split
    · rename_i hremoves
      refine inv.goto (fun _ h => by cases h) fun copy heq r' hr' => ?_
      cases heq
      rw [hfile] at hr'
      cases hr'
      exact ⟨rfl, (Record.doomed_of_removes (inv.owned r hfile) hremoves (remembered r hfile)).mono
        (inv.started k now h)⟩
    · exact inv.idle k

theorem Record.Doomed.safe {r copy : Record J} {now : ℤ} (h : r.Doomed cfg now)
    (same : r.completed = copy.completed) (alive : ℕ → Bool) :
    Removal.Safe cfg ⟨r, now, r.pendingFrozen alive, copy.sweepReports⟩ where
  kept hc hf hr t ht := by
    have hlate := h.late hc hf hr
    have hle := Record.le_anchor ht
    unfold Late at *
    dsimp only at *
    omega
  listed hl := by
    simp only [Record.pendingFrozen, Bool.and_eq_true, Option.isNone_iff_eq_none] at hl
    exact h.late hl.1.1.1.1.1.1 hl.1.1.1.1.2 hl.1.1.1.2
  reported hr := by
    simp only [Record.sweepReports, Bool.and_eq_true, Bool.not_eq_true', Bool.or_eq_false_iff]
      at hr
    exact same.trans hr.2.1

theorem Swept.unlink (inv : s.Swept cfg) {k : ℕ} {copy : Record J}
    (h : s.sweep k = .decided copy) : (s.unlink k copy).Swept cfg := by
  unfold Sweeps.unlink
  split
  · exact inv.idle k
  · rename_i r hfile
    obtain ⟨same, doomed⟩ := inv.decided k copy h r hfile
    exact
      { owned := fun r' hr' => by cases hr'
        started := (inv.idle k).started
        decided := fun j copy _ r' hr' => by cases hr'
        removed := fun e he => by
          rcases List.mem_append.mp he with he | he
          · exact inv.removed e he
          · rw [List.mem_singleton] at he
            subst he
            exact Record.Doomed.safe doomed same s.alive }

variable [DecidableEq J]

theorem Swept.call (inv : s.Swept cfg) (p : ℕ) (c : Call J) :
    ({ s with file := (c.perform cfg s.alive p s.clock s.file).2 } : Sweeps J).Swept cfg := by
  cases hfile : s.file with
  | none =>
    have gone : (c.perform cfg s.alive p s.clock none).2 = none := by
      cases c with
      | consume owner var value source =>
        simp only [Call.perform, consumePendingStep, loadPending_none]
        split <;> rename_i h <;> split at h <;> first | rfl | cases h
      | cancel => rfl
      | begin =>
        simp only [Call.perform, beginCallbackOnce, loadPending_none]
        split <;> rfl
      | authorize =>
        simp only [Call.perform, authorizeCallbackRecovery, loadPending_none]
        split <;> rfl
      | deferRecovery => rfl
      | deferReceiptCommit => rfl
      | complete =>
        simp only [Call.perform, completeCallbackOnce, loadPending_none]
        split <;> rfl
    rw [gone]
    exact
      { owned := fun r h => by cases h
        started := inv.started
        decided := fun k copy _ r h => by cases h
        removed := inv.removed }
  | some r =>
    obtain ⟨r', hr', performed⟩ := perform_performed cfg s.alive p s.clock r c
    rw [hr']
    exact
      { owned := fun r'' h => by
          cases h
          rw [performed.later.owner]
          exact inv.owned r hfile
        started := inv.started
        decided := fun k copy hk r'' h => by
          cases h
          obtain ⟨same, doomed⟩ := inv.decided k copy hk r hfile
          obtain ⟨doomed', same'⟩ := doomed.call performed
          exact ⟨same'.trans same, doomed'⟩
        removed := inv.removed }

theorem Swept.step {s' : Sweeps J} {action : Action J} (remembered : s.Remembered cfg action)
    (h : s.transition cfg action = .ok s') (inv : s.Swept cfg) : s'.Swept cfg := by
  cases action with
  | tick d =>
    cases h
    have le : s.clock ≤ s.clock + d := by omega
    exact
      { owned := inv.owned
        started := fun k now hk => le_trans (inv.started k now hk) le
        decided := fun k copy hk r hr =>
          let ⟨same, doomed⟩ := inv.decided k copy hk r hr
          ⟨same, doomed.mono le⟩
        removed := inv.removed }
  | call p c =>
    simp only [transition] at h
    split at h
    · cases h
      exact inv.call p c
    · cases h
  | die p =>
    cases h
    exact ⟨inv.owned, inv.started, inv.decided, inv.removed⟩
  | start k =>
    simp only [transition] at h
    split at h
    · cases h
      refine inv.goto (fun now heq => ?_) (fun _ heq => by cases heq)
      cases heq
      exact le_refl _
    · cases h
  | read k =>
    simp only [transition] at h
    split at h
    · rename_i now hk
      cases h
      refine inv.read hk fun r hr => ?_
      simp only [Sweeps.Remembered, hk, hr] at remembered
      exact remembered
    · cases h
  | unlink k =>
    simp only [transition] at h
    split at h
    · rename_i copy hk
      cases h
      exact inv.unlink hk
    · cases h

/-- **No accepted answer is lost** in a run whose sweeps read no forgotten record. -/
theorem sweep_safe {r : Record J} (owned : r.ownerUserId ≠ "") (clock : ℤ) (alive : ℕ → Bool)
    {actions : List (Action J)}
    (remembered : Transaction.Meets (transition cfg) (Remembered cfg) (init r clock alive) actions) :
    ∀ e ∈ ((init r clock alive).run cfg actions).removed, e.Safe cfg :=
  (Transaction.run_invariant Swept.step remembered (swept_init owned clock alive)).removed

end Sweeps

/-! ## Samples -/

namespace Sample

open Sweeps

/-- The plan is claimed after the answer; the sweep within the retention leaves it, and the one
after it does not. -/
def claimed : List (Sweeps.Action String) :=
  [.call 1 (.consume "u1" "decision" "apply" .telegramButton),
    .call 1 (.begin "u1" "n1" false),
    .tick 2000000, .start 0, .read 0,
    .tick 2592000000000, .start 0, .read 0, .unlink 0]

theorem sweep_safe_sample :
    ((init record 1599000000 fun _ => true).run config claimed).removed.length = 1 ∧
    ∀ e ∈ ((init record 1599000000 fun _ => true).run config claimed).removed, e.Safe config :=
  ⟨by decide +kernel, sweep_safe (by decide) 1599000000 (fun _ => true) (by decide +kernel)⟩

/-- The plan is not claimed before the sweep: its process ended after the answer. -/
def unclaimed : List (Sweeps.Action String) :=
  [.call 1 (.consume "u1" "decision" "apply" .telegramButton), .die 1,
    .tick 2000000, .start 0, .read 0, .unlink 0]

/-- Two seconds after the answer the sweep removes it, and the scanner would have listed it. -/
theorem sweep_loses : ¬ ∀ (r : Record String) (clock : ℤ) (alive : ℕ → Bool)
    (actions : List (Sweeps.Action String)), r.ownerUserId ≠ "" →
    ∀ e ∈ ((init r clock alive).run config actions).removed, e.Safe config := by
  intro h
  have lost : ((init record 1599000000 fun _ => true).run config unclaimed).removed.any
      (fun e => e.record.completed && e.record.frozen && e.record.callbackReceipt.isNone &&
        e.listed && decide (e.record.completedAt = some 1599000000) &&
        decide (e.now = 1601000000)) = true := by decide +kernel
  obtain ⟨e, he, hlost⟩ := List.any_eq_true.mp lost
  simp only [Bool.and_eq_true, decide_eq_true_eq, Option.isNone_iff_eq_none] at hlost
  obtain ⟨⟨⟨⟨⟨hc, hf⟩, hr⟩, -⟩, hat⟩, hnow⟩ := hlost
  have late := (h record _ _ _ (by decide) e he).kept hc hf hr _ hat
  rw [hnow] at late
  exact absurd late (by decide)

end Sample

end Metnos.Dialogs
