import Mathlib.Tactic.Common
import Metnos.Dialogs.Calls
import Metnos.Lib.Transaction

/-!
# Dialogs.Callbacks — who may run the callback of a dialog

Processes call the operations in any order and die at any time.  A process makes the calls that
end or extend a claim only while it holds one: from the `begin_callback_once` that gave it until
one of its own calls gave it back.
-/

namespace Metnos.Dialogs

/-- The dialog, the processes, and what was answered so far. -/
structure Callbacks (J : Type) where
  file : Option (Record J)
  alive : ℕ → Bool
  /-- Processes that were given a claim and have not given it back. -/
  holds : ℕ → Bool
  /-- Every call with its answer, in order. -/
  log : List (Call J × Answer J)

namespace Callbacks

inductive Action (J : Type)
  | call (p : ℕ) (now : ℤ) (c : Call J)
  | die (p : ℕ)

/-- Nobody has asked for the callback yet. -/
def start {J : Type} (r : Record J) (alive : ℕ → Bool) : Callbacks J where
  file := some r
  alive := alive
  holds := fun _ => false
  log := []

/-- Who holds a claim after the call of the process. -/
def holders {J : Type} (p : ℕ) (c : Call J) (a : Answer J) (holds : ℕ → Bool) : ℕ → Bool :=
  match a with
  | .begun b => if b.isClaimed then Function.update holds p true else holds
  | .done true => if c.givesBack then Function.update holds p false else holds
  | _ => holds

variable {J : Type} [DecidableEq J] (cfg : Config J) (s : Callbacks J)

def answer (p : ℕ) (now : ℤ) (c : Call J) : Answer J :=
  (c.perform cfg s.alive p now s.file).1

def transition : Action J → Except Unit (Callbacks J)
  | .call p now c =>
    if s.alive p && (!c.needsClaim || s.holds p) then
      .ok { s with
        file := (c.perform cfg s.alive p now s.file).2
        holds := holders p c (s.answer cfg p now c) s.holds
        log := s.log ++ [(c, s.answer cfg p now c)] }
    else .error ()
  | .die p => .ok { s with alive := Function.update s.alive p false }

def run (actions : List (Action J)) : Callbacks J :=
  Transaction.run (transition cfg) s actions

/-! ## The properties -/

def Running (p : ℕ) : Prop := s.alive p = true ∧ s.holds p = true

/-- Some `authorize_callback_recovery` has answered true. -/
def Authorized : Prop := ∃ owner nonce binding, (.authorize owner nonce binding, .done true) ∈ s.log

def claims : ℕ := s.log.countP (fun e => e.2.isClaimed)

def receipt : Option J := s.file.bind Record.callbackReceipt

def completed : Bool := s.file.any Record.completed

def cancelled : Bool := s.file.any Record.cancelled

/-! ## The invariant -/

/-- What the record says about the processes and the answers so far. -/
structure Ledger (r : Record J) : Prop where
  file : s.file = some r
  /-- A live holder is the process of the running claim. -/
  holder : ∀ p, s.Running p →
    r.callbackProcess = .of p ∧ r.callbackState = .running ∧ r.callbackClaimedAt.isSome
  attempts : s.claims = r.callbackRecoveryAttempts
  bound : r.callbackRecoveryAttempts ≤ maxAttempts
  first : r.callbackClaimedAt = none → r.callbackRecoveryAttempts = 0
  authorized : s.Authorized → r.callbackAuthorizedAt.isSome
  needs : r.callbackAuthorizedAt.isSome → r.callbackClaimedAt.isSome
  completed : r.callbackClaimedAt.isSome ∨ r.callbackReceipt.isSome → r.completed = true

variable {s} {cfg}

omit [DecidableEq J] in
theorem ledger_start {r : Record J} (fresh : r.Unclaimed) (alive : ℕ → Bool) :
    (start r alive).Ledger r where
  file := rfl
  holder p h := absurd h.2 (by simp [start])
  attempts := fresh.attempts.symm
  bound := by rw [fresh.attempts]; exact Nat.zero_le _
  first _ := fresh.attempts
  authorized h := by
    obtain ⟨owner, nonce, binding, hmem⟩ := h
    cases hmem
  needs h := absurd h (by simp [fresh.authorized])
  completed h := absurd h (by simp [fresh.claimed, fresh.receipt])

section
variable {p : ℕ} {now : ℤ} {c : Call J} {a : Answer J} {r r' : Record J}

omit [DecidableEq J] in
/-- The state after a call with this outcome. -/
def after (s : Callbacks J) (p : ℕ) (c : Call J) (a : Answer J) (r : Record J) : Callbacks J :=
  { s with file := some r, holds := holders p c a s.holds, log := s.log ++ [(c, a)] }

omit [DecidableEq J] in
theorem claims_after : (s.after p c a r).claims = s.claims + if a.isClaimed then 1 else 0 := by
  unfold claims after
  rw [List.countP_append]
  by_cases h : a.isClaimed = true <;> simp [h]

omit [DecidableEq J] in
theorem authorized_after (h : (s.after p c a r).Authorized) :
    s.Authorized ∨ ∃ owner nonce binding, c = .authorize owner nonce binding ∧ a = .done true := by
  obtain ⟨owner, nonce, binding, hmem⟩ := h
  rcases List.mem_append.mp hmem with hmem | hmem
  · exact .inl ⟨owner, nonce, binding, hmem⟩
  · rw [List.mem_singleton, Prod.mk.injEq] at hmem
    exact .inr ⟨owner, nonce, binding, hmem.1.symm, hmem.2.symm⟩

omit [DecidableEq J] in
theorem running_after (h : a.isClaimed = false) {q : ℕ} (hq : (s.after p c a r).Running q) :
    s.Running q := by
  obtain ⟨halive, hholds⟩ := hq
  refine ⟨halive, ?_⟩
  simp only [after, holders] at hholds
  split at hholds
  · rename_i b
    have hb : b.isClaimed = false := h
    simpa [hb] using hholds
  · split at hholds
    · rw [Function.update_apply] at hholds
      split at hholds
      · cases hholds
      · exact hholds
    · exact hholds
  · exact hholds

omit [DecidableEq J] in
theorem not_running_back (h : c.givesBack = true) : ¬ (s.after p c (.done true) r).Running p := by
  rintro ⟨-, hholds⟩
  simp [after, holders, h] at hholds

omit [DecidableEq J] in
theorem Ledger.quiet (inv : s.Ledger r) (later : r.Later r') (ha : a.isClaimed = false)
    (attempts : r'.callbackRecoveryAttempts = r.callbackRecoveryAttempts)
    (claimedAt : r'.callbackClaimedAt = r.callbackClaimedAt)
    (authorizedAt : r'.callbackAuthorizedAt.isSome → r.callbackClaimedAt.isSome)
    (receipt : r'.callbackReceipt.isSome → r.callbackClaimedAt.isSome ∨ r.callbackReceipt.isSome)
    (records : ∀ owner nonce binding, c = .authorize owner nonce binding → a = .done true →
      r'.callbackAuthorizedAt.isSome)
    (holder : ∀ q, (s.after p c a r').Running q →
      r'.callbackProcess = r.callbackProcess ∧ r'.callbackState = r.callbackState) :
    (s.after p c a r').Ledger r' where
  file := rfl
  holder q hq := by
    obtain ⟨hprocess, hstate⟩ := holder q hq
    rw [hprocess, hstate, claimedAt]
    exact inv.holder q (running_after ha hq)
  attempts := by
    rw [claims_after, ha, attempts, ← inv.attempts]
    rfl
  bound := attempts ▸ inv.bound
  first h := by
    rw [attempts]
    exact inv.first (claimedAt ▸ h)
  authorized h := by
    rcases authorized_after h with h | ⟨owner, nonce, binding, hc, hdone⟩
    · exact later.authorized (inv.authorized h)
    · exact records owner nonce binding hc hdone
  needs h := claimedAt ▸ authorizedAt h
  completed h := by
    rw [claimedAt] at h
    exact (later.completed (inv.completed (h.elim .inl receipt))).1

omit [DecidableEq J] in
theorem Ledger.claimed {owner nonce : String} {attested recovered recoveredAuthorized : Bool}
    {binding : String} (inv : s.Ledger r) (hcompleted : r.completed = true)
    (free : r.callbackClaimedAt.isSome →
      ¬ (claimIsLive s.alive r.callbackProcess = true ∧ r.callbackState = .running) ∧
      r.callbackRecoveryAttempts < maxAttempts ∧
      (r.callbackAuthorizedAt.isSome → attested = true)) :
    (s.after p (.begin owner nonce attested)
      (.begun (.claimed recovered recoveredAuthorized binding)) (claim p now r)).Ledger
      (claim p now r) where
  file := rfl
  holder q hq := by
    obtain ⟨halive, hholds⟩ := hq
    refine ⟨?_, rfl, rfl⟩
    show ProcessClaim.of p = .of q
    by_cases hqp : q = p
    · rw [hqp]
    · -- another live holder would be the process of a running claim
      have before : s.Running q := by
        refine ⟨halive, ?_⟩
        simpa [after, holders, Begun.isClaimed, Function.update_of_ne hqp] using hholds
      obtain ⟨hprocess, hstate, hsome⟩ := inv.holder q before
      refine absurd ⟨?_, hstate⟩ (free hsome).1
      rw [hprocess]
      exact halive
  attempts := by
    rw [claims_after, inv.attempts]
    rfl
  bound := by
    show r.callbackRecoveryAttempts + 1 ≤ maxAttempts
    by_cases hsome : r.callbackClaimedAt.isSome = true
    · exact (free hsome).2.1
    · rw [inv.first (by simpa using hsome)]
      decide
  first h := by cases h
  authorized h := by
    rcases authorized_after h with h | ⟨_, _, _, hc, -⟩
    · exact inv.authorized h
    · cases hc
  needs _ := rfl
  completed _ := hcompleted

omit [DecidableEq J] in
theorem Ledger.call (inv : s.Ledger r) (holding : c.needsClaim = true → s.Running p)
    (h : Performed cfg s.alive p now r c a r') : (s.after p c a r').Ledger r' := by
  have later := h.later
  cases h with
  | refused ha hc =>
    refine inv.quiet later ha rfl rfl inv.needs .inr (fun owner nonce binding heq hdone => ?_)
      (fun _ _ => ⟨rfl, rfl⟩)
    rw [hc owner nonce binding heq] at hdone
    cases hdone
  | forced =>
    exact inv.quiet later rfl rfl rfl inv.needs .inr (fun _ _ _ heq => by cases heq)
      (fun _ _ => ⟨rfl, rfl⟩)
  | @accepted owner var value source step resolved =>
    obtain ⟨values, index, process, heq⟩ := accept_eq p now source step resolved r
    rw [heq] at later ⊢
    exact inv.quiet later rfl rfl rfl inv.needs .inr (fun _ _ _ heq => by cases heq)
      (fun _ _ => ⟨rfl, rfl⟩)
  | cancelled =>
    exact inv.quiet later rfl rfl rfl inv.needs .inr (fun _ _ _ heq => by cases heq)
      (fun _ _ => ⟨rfl, rfl⟩)
  | exhausted hsome hfree =>
    -- no live process holds a claim, so none loses one
    refine inv.quiet later rfl rfl rfl inv.needs .inr (fun _ _ _ heq => by cases heq) (fun q hq => ?_)
    have before := running_after rfl hq
    obtain ⟨hprocess, hstate, -⟩ := inv.holder q before
    refine absurd ⟨?_, hstate⟩ hfree
    rw [hprocess]
    exact before.1
  | claimed hcompleted _ _ free => exact inv.claimed hcompleted free
  | authorized hrunning hsome =>
    exact inv.quiet later rfl rfl rfl (fun _ => hsome) .inr (fun _ _ _ _ _ => rfl)
      (fun _ _ => ⟨rfl, rfl⟩)
  | released hback hreceipt =>
    have mine := (inv.holder p (holding ?_)).1
    · refine inv.quiet later rfl rfl rfl inv.needs .inr (fun _ _ _ heq => ?_) (fun q hq => ?_)
      · rw [heq] at hback
        cases hback
      · have hprocess := (inv.holder q (running_after rfl hq)).1
        rw [mine, ProcessClaim.of.injEq] at hprocess
        exact absurd (hprocess ▸ hq) (not_running_back hback)
    · cases c <;> first | rfl | cases hback
  | finished hsome hreceipt =>
    have mine := (inv.holder p (holding rfl)).1
    refine inv.quiet later rfl rfl rfl inv.needs (fun _ => .inl hsome) (fun _ _ _ heq => by cases heq) (fun q hq => ?_)
    have hprocess := (inv.holder q (running_after rfl hq)).1
    rw [mine, ProcessClaim.of.injEq] at hprocess
    exact absurd (hprocess ▸ hq) (not_running_back rfl)

end

theorem Ledger.step {r : Record J} {action : Action J} {s' : Callbacks J} (inv : s.Ledger r)
    (h : s.transition cfg action = .ok s') : ∃ r', s'.Ledger r' ∧ r.Later r' := by
  cases action with
  | die p =>
    cases h
    refine ⟨r, ?_, .refl r⟩
    have before : ∀ q, ({ s with alive := Function.update s.alive p false } : Callbacks J).Running q →
        s.Running q := by
      rintro q ⟨halive, hholds⟩
      refine ⟨?_, hholds⟩
      dsimp only at halive
      rw [Function.update_apply] at halive
      split at halive
      · cases halive
      · exact halive
    exact
      { file := inv.file
        holder := fun q hq => inv.holder q (before q hq)
        attempts := inv.attempts
        bound := inv.bound
        first := inv.first
        authorized := inv.authorized
        needs := inv.needs
        completed := inv.completed }
  | call p now c =>
    unfold transition at h
    dsimp only at h
    split at h
    · rename_i hguard
      simp only [Bool.and_eq_true, Bool.or_eq_true, Bool.not_eq_true'] at hguard
      obtain ⟨halive, hclaim⟩ := hguard
      cases h
      unfold answer
      rw [inv.file]
      obtain ⟨r', hfile, hperformed⟩ := perform_performed cfg s.alive p now r c
      refine ⟨r', ?_, hperformed.later⟩
      rw [hfile]
      refine inv.call (fun hneeds => ⟨halive, ?_⟩) hperformed
      rcases hclaim with hclaim | hclaim
      · rw [hneeds] at hclaim
        cases hclaim
      · exact hclaim
    · cases h

variable (cfg) in
theorem Ledger.run {r : Record J} (inv : s.Ledger r) (actions : List (Action J)) :
    ∃ r', (s.run cfg actions).Ledger r' ∧ r.Later r' :=
  Transaction.run_preserves (t := transition cfg) (I := fun s => ∃ r', s.Ledger r' ∧ r.Later r')
    (fun h ⟨_, hinv, hlater⟩ =>
      let ⟨r'', hinv', hlater'⟩ := hinv.step h
      ⟨r'', hinv', hlater.trans hlater'⟩)
    ⟨r, inv, .refl r⟩

/-! ## Claims -/

theorem Ledger.begun {r : Record J} (inv : s.Ledger r) {p : ℕ} {now : ℤ} {owner nonce : String}
    {attested : Bool} (h : (s.answer cfg p now (.begin owner nonce attested)).isClaimed = true) :
    r.completed = true ∧ r.cancelled = false ∧
      (r.callbackAuthorizedAt.isSome → attested = true) := by
  unfold answer at h
  rw [inv.file] at h
  obtain ⟨r', -, hperformed⟩ := perform_performed cfg s.alive p now r
    (.begin owner nonce attested)
  generalize ((Call.begin owner nonce attested).perform cfg s.alive p now (some r)).1 = a at *
  cases hperformed with
  | refused ha => rw [ha] at h; cases h
  | exhausted => cases h
  | claimed hcompleted hcancelled _ free =>
    exact ⟨hcompleted, hcancelled, fun ha => (free (inv.needs ha)).2.2 ha⟩
  | released hback => cases hback

theorem begin_receipt {r : Record J} {receipt : J} {p : ℕ} {now : ℤ} {attested : Bool}
    {alive : ℕ → Bool} (owned : r.ownerUserId ≠ "") (nonce : r.nonce ≠ "")
    (hcompleted : r.completed = true) (hcancelled : r.cancelled = false)
    (hreceipt : r.callbackReceipt = some receipt) :
    (beginCallbackOnce cfg alive p now r.ownerUserId r.nonce attested (some r)).1 =
      .completed receipt := by
  unfold beginCallbackOnce
  rw [if_neg nonce, loadPending_own owned]
  simp [hcompleted, hcancelled, nonceOrId_of_nonce nonce, nonce, hreceipt]

theorem Ledger.receipt_answer {r₀ r : Record J} {s₀ : Callbacks J} {receipt : J}
    (inv₀ : s₀.Ledger r₀) (inv : s.Ledger r) (later : r₀.Later r) (owned : r₀.ownerUserId ≠ "")
    (nonce : r₀.nonce ≠ "") (h : s₀.receipt = some receipt) : s.receipt = some receipt ∧
      ∀ p now attested, s.cancelled = true ∨
        s.answer cfg p now (.begin r₀.ownerUserId r₀.nonce attested) =
          .begun (.completed receipt) := by
  have hr₀ : r₀.callbackReceipt = some receipt := by
    simpa [Callbacks.receipt, inv₀.file] using h
  have hr := later.receipt receipt hr₀
  refine ⟨by simpa [Callbacks.receipt, inv.file] using hr, fun p now attested => ?_⟩
  by_cases hcancelled : r.cancelled = true
  · left
    simpa [Callbacks.cancelled, inv.file] using hcancelled
  · right
    have hcompleted := (later.completed (inv₀.completed (.inr (by simp [hr₀])))).1
    unfold answer
    rw [inv.file]
    rw [← later.nonce, ← later.owner] at *
    exact congrArg Answer.begun
      (begin_receipt owned nonce hcompleted (Bool.eq_false_iff.mpr hcancelled) hr)

variable (cfg) in
/-- **The claims of a callback.**  Along every run on a saved dialog that has a nonce: one live
process at most holds a claim; once an authority was recorded, a claim is given against an
attestation only; claims are few, and only given on a completed dialog that was not cancelled; and
a receipt stays, as the answer to the nonce unless the dialog was cancelled. -/
theorem callback_protocol (r : Record J) (fresh : r.Unclaimed) (owned : r.ownerUserId ≠ "")
    (nonce : r.nonce ≠ "") (alive : ℕ → Bool) (xs ys : List (Action J)) :
    let s := (start r alive).run cfg xs
    let s' := s.run cfg ys
    (∀ p q, s.Running p → s.Running q → p = q) ∧
    (s.Authorized → ∀ p now o n attested,
      (s'.answer cfg p now (.begin o n attested)).isClaimed = true → attested = true) ∧
    s.claims ≤ maxAttempts ∧
    (∀ receipt, s.receipt = some receipt → s'.receipt = some receipt ∧
      ∀ p now attested, s'.cancelled = true ∨
        s'.answer cfg p now (.begin r.ownerUserId r.nonce attested) =
          .begun (.completed receipt)) ∧
    ∀ p now o n attested, (s.answer cfg p now (.begin o n attested)).isClaimed = true →
      s.completed = true ∧ s.cancelled = false := by
  intro s s'
  obtain ⟨r₁, inv, later⟩ := (ledger_start fresh alive).run cfg xs
  obtain ⟨r₂, inv', later'⟩ := inv.run cfg ys
  refine ⟨fun p q hp hq => ?_, fun hauthorized p now o n attested h => ?_, ?_,
    fun receipt hreceipt => ?_, fun p now o n attested h => ?_⟩
  · have hprocess := (inv.holder p hp).1.symm.trans (inv.holder q hq).1
    exact ProcessClaim.of.inj hprocess
  · exact (inv'.begun h).2.2 (later'.authorized (inv.authorized hauthorized))
  · rw [inv.attempts]
    exact inv.bound
  · rw [← later.owner, ← later.nonce]
    exact inv.receipt_answer inv' later' (later.owner ▸ owned) (later.nonce ▸ nonce) hreceipt
  · obtain ⟨hcompleted, hcancelled, -⟩ := inv.begun h
    rw [Callbacks.completed, Callbacks.cancelled, inv.file]
    exact ⟨hcompleted, hcancelled⟩

end Callbacks

/-! ## A sample -/

namespace Sample

/-- A form of one step, with a frozen plan behind it. -/
def record : Record String where
  dialogId := "d1"
  ownerUserId := "u1"
  channel := "telegram"
  formOnly := false
  dialog := [⟨"decision", "text"⟩]
  stepIndex := 0
  valuesCollected := fun _ => none
  startedAt := some 1000000000
  timeoutS := some 600
  completed := false
  completedAt := none
  cancelled := false
  onComplete := some ⟨"resume_frozen_plan", "n1"⟩
  httpCallbackProcess := none
  httpCallbackReceipt := none
  httpCallbackFinishedAt := none
  callbackClaimedAt := none
  callbackProcess := .legacy
  callbackState := .absent
  callbackRecoveryAttempts := 0
  callbackAuthorizedAt := none
  callbackAuthorizationBinding := ""
  callbackRecoveryReason := ""
  callbackReceipt := none
  callbackFinishedAt := none
  callbackDeliveryState := .absent
  callbackDeliveryAttempts := 0

def config : Config String where
  resolve := fun _ value => some value
  apply := "apply"
  ttl := 60
  formTtl := 600
  retention := 2592000

/-- The first process dies with its claim, and the second one finishes. -/
def recovery : List (Callbacks.Action String) :=
  [.call 1 1005000000 (.consume "u1" "decision" "apply" .telegramButton),
    .call 1 1006000000 (.begin "u1" "n1" false),
    .call 1 1006000000 (.authorize "u1" "n1" "b1"),
    .die 1,
    .call 2 1007000000 (.begin "u1" "n1" false),
    .call 2 1007000000 (.begin "u1" "n1" true),
    .call 2 1008000000 (.complete "u1" "n1" "done")]

/-- In this run two claims are given, and the receipt answers later calls. -/
theorem callback_protocol_sample :
    let s := (Callbacks.start record fun _ => true).run config recovery
    s.Authorized ∧ s.receipt = some "done" ∧ s.claims = 2 ∧
    ∀ p now attested, s.answer config p now (.begin "u1" "n1" attested) =
      .begun (.completed "done") := by
  intro s
  have hreceipt : s.receipt = some "done" := by decide +kernel
  have hlive : s.cancelled = false := by decide +kernel
  refine ⟨⟨"u1", "n1", "b1", ?_⟩, hreceipt, by decide +kernel, fun p now attested => ?_⟩
  · exact List.mem_of_getElem? (i := 2) rfl
  · have general := (Callbacks.callback_protocol config record
      ⟨rfl, rfl, rfl, rfl, rfl⟩ (by decide) (by decide) (fun _ => true) recovery []).2.2.2.1
    rcases (general "done" hreceipt).2 p now attested with h | h
    · exact absurd (hlive.symm.trans h) Bool.false_ne_true
    · exact h

end Sample

end Metnos.Dialogs
