import Mathlib.Data.Int.Order.Basic
import Mathlib.Logic.Function.Basic

/-!
# Dialogs.Calls — the record of one dialog and the sections that change it

A dialog is one file.  Every operation here is one section under the sender's lock: it loads the
record, and either refuses or saves another one.  Times are microseconds; a stamp that stands in a
record has whole seconds.
-/

namespace Metnos.Dialogs

/-- `CALLBACK_RECOVERY_MAX_ATTEMPTS`. -/
def maxAttempts : ℕ := 12

/-- `CALLBACK_DELIVERY_MAX_ATTEMPTS`. -/
def maxDeliveries : ℕ := 12

def second : ℤ := 1000000

/-- `now_iso_offset`. -/
def nowIso (t : ℤ) : ℤ := t / second * second

structure Step (J : Type) where
  var : String
  schema : J

structure OnComplete where
  type : String
  /-- Empty when the callback has none. -/
  nonce : String
deriving DecidableEq

/-- `callback_process`. -/
inductive ProcessClaim
  /-- No object; a claim of a former release. -/
  | legacy
  /-- The empty object. -/
  | released
  | of (process : ℕ)
deriving DecidableEq

inductive CallbackState
  | absent | running | recoveryPending | recoveryExhausted | completed
deriving DecidableEq

inductive DeliveryState
  | absent | pending | running | delivered | ambiguous | failed
deriving DecidableEq

/-- The JSON values of schemas, answers and receipts are of the type `J`. -/
structure Record (J : Type) where
  dialogId : String
  ownerUserId : String
  channel : String
  formOnly : Bool
  dialog : List (Step J)
  stepIndex : ℕ
  valuesCollected : String → Option J
  startedAt : Option ℤ
  /-- In seconds. -/
  timeoutS : Option ℤ
  completed : Bool
  completedAt : Option ℤ
  cancelled : Bool
  onComplete : Option OnComplete
  httpCallbackProcess : Option ℕ
  httpCallbackReceipt : Option J
  httpCallbackFinishedAt : Option ℤ
  callbackClaimedAt : Option ℤ
  callbackProcess : ProcessClaim
  callbackState : CallbackState
  callbackRecoveryAttempts : ℕ
  callbackAuthorizedAt : Option ℤ
  callbackAuthorizationBinding : String
  callbackRecoveryReason : String
  callbackReceipt : Option J
  callbackFinishedAt : Option ℤ
  callbackDeliveryState : DeliveryState
  callbackDeliveryAttempts : ℕ

/-- What the module reads from its surroundings. -/
structure Config (J : Type) where
  /-- `_resolve_choice_reply`, on the schema of the step. -/
  resolve : J → J → Option J
  /-- The decision that asks for a change. -/
  apply : J
  /-- `DEFAULT_TTL_S`. -/
  ttl : ℤ
  /-- `FORM_TTL_S`. -/
  formTtl : ℤ
  /-- `CALLBACK_RECOVERY_RETENTION_S`. -/
  retention : ℤ

/-- Where an answer comes from. -/
inductive Source
  | internal | httpChat | httpFormOwner | httpFormCapability | telegramChat | telegramButton
  | other (name : String)
deriving DecidableEq

namespace Source

def valid : Source → Bool
  | .other _ => false
  | _ => true

def form : Source → Bool
  | .httpFormOwner | .httpFormCapability => true
  | _ => false

end Source

inductive ConsumeError
  | invalidSubmissionSource | dialogNotFound | dialogAlreadyCompleted | dialogCancelled
  | dialogExpired | formOnly | varMismatch | invalidChoice
deriving DecidableEq

/-- What `begin_callback_once` returns. -/
inductive Begun (J : Type)
  | invalid
  | completed (receipt : J)
  | inProgress
  | exhausted
  | claimed (recovered recoveredAuthorized : Bool) (binding : String)
deriving DecidableEq

def Begun.isClaimed {J : Type} : Begun J → Bool
  | .claimed .. => true
  | _ => false

/-- `_claim_is_live`. -/
def claimIsLive (alive : ℕ → Bool) : ProcessClaim → Bool
  | .legacy => true
  | .released => false
  | .of p => alive p

variable {J : Type} (cfg : Config J)

/-- `is_expired`, with the fields that it reads; a time to live of zero is none. -/
def isExpired (startedAt timeoutS : Option ℤ) (now : ℤ) : Bool :=
  let started := startedAt.getD 0
  let ttl := if timeoutS.getD 0 = 0 then cfg.ttl else timeoutS.getD 0
  started ≠ 0 ∧ ttl * second < now - started

/-- `load_pending`; owners come without blanks around them. -/
def loadPending (owner : String) (file : Option (Record J)) : Option (Record J) :=
  match file with
  | none => none
  | some r => if owner = "" ∨ r.ownerUserId ≠ owner then none else some r

namespace Record

variable (r : Record J)

def isExpired (now : ℤ) : Bool := Dialogs.isExpired cfg r.startedAt r.timeoutS now

/-- `on_complete.get("nonce") or ""`. -/
def nonce : String := (r.onComplete.map OnComplete.nonce).getD ""

/-- `on_complete.get("nonce") or dialog_id`. -/
def nonceOrId : String := if r.nonce = "" then r.dialogId else r.nonce

def frozen : Bool := r.onComplete.any (fun o => o.type = "resume_frozen_plan")

/-- Nothing was asked of the callback yet. -/
structure Unclaimed : Prop where
  claimed : r.callbackClaimedAt = none
  state : r.callbackState = .absent
  attempts : r.callbackRecoveryAttempts = 0
  authorized : r.callbackAuthorizedAt = none
  receipt : r.callbackReceipt = none

end Record

/-! ## Answering -/

/-- `_consume_pending_step_unlocked`, for an answer to the step at the index. -/
def accept (p : ℕ) (now : ℤ) (source : Source) (step : Step J) (value : J) (r : Record J) :
    Record J :=
  let r := { r with
    valuesCollected := Function.update r.valuesCollected step.var (some value)
    stepIndex := r.stepIndex + 1 }
  if r.dialog.length ≤ r.stepIndex then
    { r with
      completed := true
      completedAt := some (nowIso now)
      httpCallbackProcess :=
        if r.onComplete.isSome && source.form then some p else r.httpCallbackProcess }
  else r

/-- `consume_pending_step`: the record that is saved. -/
def consumePendingStep (p : ℕ) (now : ℤ) (owner var : String) (value : J) (source : Source)
    (file : Option (Record J)) : Except ConsumeError (Record J) :=
  if !source.valid then .error .invalidSubmissionSource
  else match loadPending owner file with
  | none => .error .dialogNotFound
  | some r =>
    if r.completed then .error .dialogAlreadyCompleted
    else if r.cancelled then .error .dialogCancelled
    else if r.isExpired cfg now then .error .dialogExpired
    else if r.formOnly && !source.form then .error .formOnly
    else match r.dialog[r.stepIndex]? with
    | none => .ok { r with completed := true }
    | some step =>
      if step.var ≠ var then .error .varMismatch
      else match cfg.resolve step.schema value with
      | none => .error .invalidChoice
      | some resolved => .ok (accept p now source step resolved r)

/-- `cancel_pending`: the answer, and the record. -/
def cancelPending (owner : String) (source : Source) (file : Option (Record J)) :
    Bool × Option (Record J) :=
  match loadPending owner file with
  | none => (false, file)
  | some r =>
    if r.formOnly && !source.form then (false, file)
    else if r.cancelled then (true, file)
    else (true, some { r with cancelled := true })

/-! ## The callback -/

/-- The record of a claim that is given. -/
def claim (p : ℕ) (now : ℤ) (r : Record J) : Record J :=
  { r with
    callbackClaimedAt := some (nowIso now)
    callbackProcess := .of p
    callbackState := .running
    callbackRecoveryAttempts := r.callbackRecoveryAttempts + 1 }

variable [DecidableEq J]

/-- `begin_callback_once`, by the process `p`. -/
def beginCallbackOnce (alive : ℕ → Bool) (p : ℕ) (now : ℤ) (owner nonce : String)
    (attested : Bool) (file : Option (Record J)) : Begun J × Option (Record J) :=
  if nonce = "" then (.invalid, file)
  else match loadPending owner file with
  | none => (.invalid, file)
  | some r =>
    if !r.completed || r.cancelled then (.invalid, file)
    else if r.nonceOrId = "" ∨ r.nonceOrId ≠ nonce then (.invalid, file)
    else match r.callbackReceipt with
    | some receipt => (.completed receipt, file)
    | none =>
      if r.callbackClaimedAt.isSome then
        if claimIsLive alive r.callbackProcess && r.callbackState = .running then
          (.inProgress, file)
        else if maxAttempts ≤ r.callbackRecoveryAttempts then
          (.exhausted, some { r with callbackState := .recoveryExhausted })
        else if r.callbackAuthorizedAt.isSome then
          if !attested then (.inProgress, file)
          else (.claimed true true r.callbackAuthorizationBinding, some (claim p now r))
        else if r.valuesCollected "decision" = some cfg.apply && r.isExpired cfg now &&
            r.callbackRecoveryReason ≠ "receipt_commit_failed" then (.invalid, file)
        else (.claimed true false r.callbackAuthorizationBinding, some (claim p now r))
      else if r.isExpired cfg now && !r.frozen then (.invalid, file)
      else (.claimed false false r.callbackAuthorizationBinding, some (claim p now r))

omit [DecidableEq J] in
/-- `authorize_callback_recovery`. -/
def authorizeCallbackRecovery (now : ℤ) (owner nonce binding : String)
    (file : Option (Record J)) : Bool × Option (Record J) :=
  if nonce = "" ∨ binding = "" then (false, file)
  else match loadPending owner file with
  | none => (false, file)
  | some r =>
    if r.callbackState ≠ .running || r.callbackClaimedAt.isNone then (false, file)
    else if r.nonce = "" ∨ r.nonce ≠ nonce then (false, file)
    else if r.callbackAuthorizationBinding ≠ "" ∧ r.callbackAuthorizationBinding ≠ binding then
      (false, file)
    else (true, some { r with
      callbackAuthorizedAt := some (r.callbackAuthorizedAt.getD (nowIso now))
      callbackAuthorizationBinding := binding })

/-- The record of a claim that is given back. -/
def release (reason : String) (r : Record J) : Record J :=
  { r with
    callbackState := .recoveryPending
    callbackRecoveryReason := reason
    callbackProcess := .released }

/-- The two ways to give a claim back, each with the field that it asks for. -/
def deferCallback (asked : Record J → Bool) (owner nonce reason : String)
    (file : Option (Record J)) : Bool × Option (Record J) :=
  match loadPending owner file with
  | none => (false, file)
  | some r =>
    if r.callbackReceipt.isSome then (false, file)
    else if r.nonce = "" ∨ r.nonce ≠ nonce then (false, file)
    else if !asked r then (false, file)
    else (true, some (release reason r))

/-- `defer_callback_recovery`. -/
def deferCallbackRecovery (owner nonce reason : String) (file : Option (Record J)) :
    Bool × Option (Record J) :=
  deferCallback (fun r => r.callbackAuthorizedAt.isSome) owner nonce
    (String.ofList ((if reason = "" then "interrupted" else reason).toList.take 500)) file

/-- `defer_callback_receipt_commit`. -/
def deferCallbackReceiptCommit (owner nonce : String) (file : Option (Record J)) :
    Bool × Option (Record J) :=
  deferCallback (fun r => r.callbackClaimedAt.isSome) owner nonce "receipt_commit_failed" file

/-- `complete_callback_once`; receipts are equal up to the order of their keys. -/
def completeCallbackOnce (now : ℤ) (owner nonce : String) (receipt : J)
    (file : Option (Record J)) : Bool × Option (Record J) :=
  if nonce = "" then (false, file)
  else match loadPending owner file with
  | none => (false, file)
  | some r =>
    if r.callbackClaimedAt.isNone then (false, file)
    else if r.nonceOrId = "" ∨ r.nonceOrId ≠ nonce then (false, file)
    else match r.callbackReceipt with
    | some existing => (existing = receipt, file)
    | none => (true, some { r with
        callbackReceipt := some receipt
        callbackState := .completed
        callbackFinishedAt := some (nowIso now)
        callbackDeliveryState :=
          if r.channel = "telegram" && r.frozen then .pending else r.callbackDeliveryState })

/-! ## Calls -/

/-- One call on the dialog; each is one locked section. -/
inductive Call (J : Type)
  | consume (owner var : String) (value : J) (source : Source)
  | cancel (owner : String) (source : Source)
  | begin (owner nonce : String) (attested : Bool)
  | authorize (owner nonce binding : String)
  | deferRecovery (owner nonce reason : String)
  | deferReceiptCommit (owner nonce : String)
  | complete (owner nonce : String) (receipt : J)

inductive Answer (J : Type)
  | consumed (error : Option ConsumeError)
  | done (ok : Bool)
  | begun (begun : Begun J)

def Answer.isClaimed {J : Type} : Answer J → Bool
  | .begun b => b.isClaimed
  | _ => false

namespace Call

/-- Calls that only the holder of a claim makes. -/
def needsClaim {J : Type} : Call J → Bool
  | .authorize .. | .deferRecovery .. | .deferReceiptCommit .. | .complete .. => true
  | _ => false

def givesBack {J : Type} : Call J → Bool
  | .deferRecovery .. | .deferReceiptCommit .. | .complete .. => true
  | _ => false

/-- What the call of the process `p` at the time `now` answers, and the file that it leaves. -/
def perform (alive : ℕ → Bool) (p : ℕ) (now : ℤ) (file : Option (Record J)) :
    Call J → Answer J × Option (Record J)
  | .consume owner var value source =>
    match consumePendingStep cfg p now owner var value source file with
    | .error e => (.consumed (some e), file)
    | .ok r => (.consumed none, some r)
  | .cancel owner source =>
    let (ok, file) := cancelPending owner source file
    (.done ok, file)
  | .begin owner nonce attested =>
    let (begun, file) := beginCallbackOnce cfg alive p now owner nonce attested file
    (.begun begun, file)
  | .authorize owner nonce binding =>
    let (ok, file) := authorizeCallbackRecovery now owner nonce binding file
    (.done ok, file)
  | .deferRecovery owner nonce reason =>
    let (ok, file) := deferCallbackRecovery owner nonce reason file
    (.done ok, file)
  | .deferReceiptCommit owner nonce =>
    let (ok, file) := deferCallbackReceiptCommit owner nonce file
    (.done ok, file)
  | .complete owner nonce receipt =>
    let (ok, file) := completeCallbackOnce now owner nonce receipt file
    (.done ok, file)

end Call

end Metnos.Dialogs

/-!
## What a call can do to a record

`Performed` lists every outcome of a call on a record that exists, with what its guards have
established; the invariants of the protocol are read off from it.
-/

namespace Metnos.Dialogs

variable {J : Type} {cfg : Config J}

theorem loadPending_some {owner : String} {r r' : Record J}
    (h : loadPending owner (some r) = some r') : r' = r ∧ owner ≠ "" ∧ r.ownerUserId = owner := by
  unfold loadPending at h
  dsimp only at h
  split at h
  · cases h
  · rename_i hne
    rw [not_or, not_not] at hne
    cases h
    exact ⟨rfl, hne⟩

theorem loadPending_own {r : Record J} (owned : r.ownerUserId ≠ "") :
    loadPending r.ownerUserId (some r) = some r := by
  simp [loadPending, owned]

@[simp] theorem loadPending_none (owner : String) :
    loadPending owner (none : Option (Record J)) = none := rfl

theorem nonceOrId_of_nonce {r : Record J} (h : r.nonce ≠ "") : r.nonceOrId = r.nonce := if_neg h

/-- The outcomes of a call by the process `p` on the record `r`. -/
inductive Performed (cfg : Config J) (alive : ℕ → Bool) (p : ℕ) (now : ℤ) (r : Record J) :
    Call J → Answer J → Record J → Prop
  /-- Nothing is saved, and no claim is given. -/
  | refused {c : Call J} {a : Answer J} : a.isClaimed = false →
      (∀ owner nonce binding, c = .authorize owner nonce binding → a = .done false) →
      Performed cfg alive p now r c a r
  | forced {owner var value source} : r.completed = false → r.isExpired cfg now = false →
      Performed cfg alive p now r (.consume owner var value source) (.consumed none)
        { r with completed := true }
  | accepted {owner var value source} {step : Step J} {resolved : J} : r.completed = false →
      r.cancelled = false → r.isExpired cfg now = false →
      Performed cfg alive p now r (.consume owner var value source) (.consumed none)
        (accept p now source step resolved r)
  | cancelled {owner source} :
      Performed cfg alive p now r (.cancel owner source) (.done true) { r with cancelled := true }
  | exhausted {owner nonce attested} : r.callbackClaimedAt.isSome →
      ¬ (claimIsLive alive r.callbackProcess = true ∧ r.callbackState = .running) →
      Performed cfg alive p now r (.begin owner nonce attested) (.begun .exhausted)
        { r with callbackState := .recoveryExhausted }
  | claimed {owner nonce attested recovered recoveredAuthorized binding} : r.completed = true →
      r.cancelled = false → r.callbackReceipt = none →
      (r.callbackClaimedAt.isSome →
        ¬ (claimIsLive alive r.callbackProcess = true ∧ r.callbackState = .running) ∧
        r.callbackRecoveryAttempts < maxAttempts ∧
        (r.callbackAuthorizedAt.isSome → attested = true)) →
      Performed cfg alive p now r (.begin owner nonce attested)
        (.begun (.claimed recovered recoveredAuthorized binding)) (claim p now r)
  | authorized {owner nonce binding} : r.callbackState = .running →
      r.callbackClaimedAt.isSome →
      Performed cfg alive p now r (.authorize owner nonce binding) (.done true)
        { r with
          callbackAuthorizedAt := some (r.callbackAuthorizedAt.getD (nowIso now))
          callbackAuthorizationBinding := binding }
  | released {c : Call J} {reason : String} : c.givesBack = true → r.callbackReceipt = none →
      Performed cfg alive p now r c (.done true) (release reason r)
  | finished {owner nonce receipt deliveryState} : r.callbackClaimedAt.isSome →
      r.callbackReceipt = none →
      Performed cfg alive p now r (.complete owner nonce receipt) (.done true)
        { r with
          callbackReceipt := some receipt
          callbackState := .completed
          callbackFinishedAt := some (nowIso now)
          callbackDeliveryState := deliveryState }

section
variable {alive : ℕ → Bool} {p : ℕ} {now : ℤ} {r : Record J}

theorem Performed.kept {c : Call J} {ok : Bool}
    (h : ∀ owner nonce binding, c ≠ .authorize owner nonce binding) :
    Performed cfg alive p now r c (.done ok) r :=
  .refused rfl fun _ _ _ heq => absurd heq (h _ _ _)

theorem consume_performed {owner var : String} {value : J} {source : Source} {r' : Record J}
    (h : consumePendingStep cfg p now owner var value source (some r) = .ok r') :
    Performed cfg alive p now r (.consume owner var value source) (.consumed none) r' := by
  unfold consumePendingStep at h
  split at h
  · cases h
  split at h
  · cases h
  rename_i loaded hload
  obtain ⟨rfl, -, -⟩ := loadPending_some hload
  split at h
  · cases h
  rename_i hcompleted
  split at h
  · cases h
  rename_i hcancelled
  split at h
  · cases h
  rename_i hexpired
  split at h
  · cases h
  split at h
  · cases h
    exact .forced (Bool.eq_false_iff.mpr hcompleted) (Bool.eq_false_iff.mpr hexpired)
  split at h
  · cases h
  split at h
  · cases h
  cases h
  exact .accepted (Bool.eq_false_iff.mpr hcompleted) (Bool.eq_false_iff.mpr hcancelled)
    (Bool.eq_false_iff.mpr hexpired)

theorem cancel_performed {owner : String} {source : Source} {ok : Bool} {file : Option (Record J)}
    (h : cancelPending owner source (some r) = (ok, file)) :
    ∃ r', file = some r' ∧ Performed cfg alive p now r (.cancel owner source) (.done ok) r' := by
  have kept : ∀ ok, Performed cfg alive p now r (.cancel owner source) (.done ok) r :=
    fun ok => .kept (by simp)
  unfold cancelPending at h
  split at h
  · cases h
    exact ⟨r, rfl, kept _⟩
  rename_i loaded hload
  obtain ⟨rfl, -, -⟩ := loadPending_some hload
  split at h
  · cases h
    exact ⟨_, rfl, kept _⟩
  split at h
  · cases h
    exact ⟨_, rfl, kept _⟩
  · cases h
    exact ⟨_, rfl, .cancelled⟩

theorem authorize_performed {owner nonce binding : String} {ok : Bool} {file : Option (Record J)}
    (h : authorizeCallbackRecovery now owner nonce binding (some r) = (ok, file)) :
    ∃ r', file = some r' ∧
      Performed cfg alive p now r (.authorize owner nonce binding) (.done ok) r' := by
  have refused : Performed cfg alive p now r (.authorize owner nonce binding) (.done false) r :=
    .refused rfl fun _ _ _ _ => rfl
  unfold authorizeCallbackRecovery at h
  split at h
  · cases h
    exact ⟨r, rfl, refused⟩
  split at h
  · cases h
    exact ⟨r, rfl, refused⟩
  rename_i loaded hload
  obtain ⟨rfl, -, -⟩ := loadPending_some hload
  split at h
  · cases h
    exact ⟨_, rfl, refused⟩
  rename_i hrunning
  split at h
  · cases h
    exact ⟨_, rfl, refused⟩
  split at h
  · cases h
    exact ⟨_, rfl, refused⟩
  · cases h
    simp only [Bool.or_eq_true, decide_eq_true_eq, not_or, not_not, Bool.not_eq_true,
      Option.isNone_eq_false_iff] at hrunning
    exact ⟨_, rfl, .authorized hrunning.1 hrunning.2⟩

theorem defer_performed {asked : Record J → Bool} {owner nonce reason : String} {ok : Bool}
    {file : Option (Record J)} {c : Call J} (gives : c.givesBack = true)
    (other : ∀ owner nonce binding, c ≠ .authorize owner nonce binding)
    (h : deferCallback asked owner nonce reason (some r) = (ok, file)) :
    ∃ r', file = some r' ∧ Performed cfg alive p now r c (.done ok) r' := by
  unfold deferCallback at h
  split at h
  · cases h
    exact ⟨r, rfl, .kept other⟩
  rename_i loaded hload
  obtain ⟨rfl, -, -⟩ := loadPending_some hload
  split at h
  · cases h
    exact ⟨_, rfl, .kept other⟩
  rename_i hreceipt
  split at h
  · cases h
    exact ⟨_, rfl, .kept other⟩
  split at h
  · cases h
    exact ⟨_, rfl, .kept other⟩
  · cases h
    exact ⟨_, rfl, .released gives (by simpa using hreceipt)⟩

variable [DecidableEq J]

theorem begin_performed {owner nonce : String} {attested : Bool} {b : Begun J}
    {file : Option (Record J)}
    (h : beginCallbackOnce cfg alive p now owner nonce attested (some r) = (b, file)) :
    ∃ r', file = some r' ∧
      Performed cfg alive p now r (.begin owner nonce attested) (.begun b) r' := by
  have refused : ∀ b : Begun J, b.isClaimed = false →
      Performed cfg alive p now r (.begin owner nonce attested) (.begun b) r :=
    fun b hb => .refused hb (by simp)
  unfold beginCallbackOnce at h
  split at h
  · cases h
    exact ⟨r, rfl, refused _ rfl⟩
  split at h
  · cases h
    exact ⟨r, rfl, refused _ rfl⟩
  rename_i loaded hload
  obtain ⟨rfl, -, -⟩ := loadPending_some hload
  split at h
  · cases h
    exact ⟨_, rfl, refused _ rfl⟩
  rename_i hstate
  simp only [Bool.or_eq_true, Bool.not_eq_true', not_or, Bool.not_eq_false, Bool.not_eq_true]
    at hstate
  obtain ⟨hcompleted, hcancelled⟩ := hstate
  split at h
  · cases h
    exact ⟨_, rfl, refused _ rfl⟩
  split at h
  · cases h
    exact ⟨_, rfl, refused _ rfl⟩
  rename_i hreceipt
  split at h
  · rename_i hclaimed
    split at h
    · cases h
      exact ⟨_, rfl, refused _ rfl⟩
    rename_i hlive
    simp only [Bool.and_eq_true, decide_eq_true_eq] at hlive
    split at h
    · cases h
      exact ⟨_, rfl, .exhausted hclaimed hlive⟩
    rename_i hattempts
    have fewer := Nat.lt_of_not_le hattempts
    split at h
    · split at h
      · cases h
        exact ⟨_, rfl, refused _ rfl⟩
      rename_i hattested
      cases h
      exact ⟨_, rfl, .claimed hcompleted hcancelled hreceipt
        fun _ => ⟨hlive, fewer, fun _ => by simpa using hattested⟩⟩
    rename_i hauthorized
    split at h
    · cases h
      exact ⟨_, rfl, refused _ rfl⟩
    · cases h
      exact ⟨_, rfl, .claimed hcompleted hcancelled hreceipt
        fun _ => ⟨hlive, fewer, fun ha => absurd ha hauthorized⟩⟩
  · rename_i hclaimed
    split at h
    · cases h
      exact ⟨_, rfl, refused _ rfl⟩
    · cases h
      exact ⟨_, rfl, .claimed hcompleted hcancelled hreceipt fun hc => absurd hc hclaimed⟩

theorem complete_performed {owner nonce : String} {receipt : J} {ok : Bool}
    {file : Option (Record J)}
    (h : completeCallbackOnce now owner nonce receipt (some r) = (ok, file)) :
    ∃ r', file = some r' ∧
      Performed cfg alive p now r (.complete owner nonce receipt) (.done ok) r' := by
  have kept : ∀ ok, Performed cfg alive p now r (.complete owner nonce receipt) (.done ok) r :=
    fun ok => .kept (by simp)
  unfold completeCallbackOnce at h
  split at h
  · cases h
    exact ⟨r, rfl, kept _⟩
  split at h
  · cases h
    exact ⟨r, rfl, kept _⟩
  rename_i loaded hload
  obtain ⟨rfl, -, -⟩ := loadPending_some hload
  split at h
  · cases h
    exact ⟨_, rfl, kept _⟩
  rename_i hclaimed
  split at h
  · cases h
    exact ⟨_, rfl, kept _⟩
  split at h
  · cases h
    exact ⟨_, rfl, kept _⟩
  · rename_i hreceipt
    cases h
    exact ⟨_, rfl, .finished (Option.isSome_iff_ne_none.mpr (by simpa using hclaimed)) hreceipt⟩

variable (cfg alive p now r) in
theorem perform_performed (c : Call J) : ∃ r', (c.perform cfg alive p now (some r)).2 = some r' ∧
    Performed cfg alive p now r c (c.perform cfg alive p now (some r)).1 r' := by
  cases c with
  | consume owner var value source =>
    simp only [Call.perform]
    split
    · exact ⟨r, rfl, .refused rfl (by simp)⟩
    · rename_i hr
      exact ⟨_, rfl, consume_performed hr⟩
  | cancel owner source => exact cancel_performed rfl
  | begin owner nonce attested => exact begin_performed rfl
  | authorize owner nonce binding => exact authorize_performed rfl
  | deferRecovery owner nonce reason => exact defer_performed rfl (by simp) rfl
  | deferReceiptCommit owner nonce => exact defer_performed rfl (by simp) rfl
  | complete owner nonce receipt => exact complete_performed rfl

end

/-! ## What calls never take back -/

/-- `r'` is what calls may leave of `r`. -/
structure Record.Later (r r' : Record J) : Prop where
  dialogId : r'.dialogId = r.dialogId
  owner : r'.ownerUserId = r.ownerUserId
  onComplete : r'.onComplete = r.onComplete
  started : r'.startedAt = r.startedAt
  timeout : r'.timeoutS = r.timeoutS
  completed : r.completed = true → r'.completed = true ∧ r'.completedAt = r.completedAt
  cancelled : r.cancelled = true → r'.cancelled = true
  claimed : r.callbackClaimedAt.isSome → r'.callbackClaimedAt.isSome
  authorized : r.callbackAuthorizedAt.isSome → r'.callbackAuthorizedAt.isSome
  receipt : ∀ receipt, r.callbackReceipt = some receipt → r'.callbackReceipt = some receipt

namespace Record.Later

variable {r r' r'' : Record J}

theorem refl (r : Record J) : r.Later r where
  dialogId := rfl
  owner := rfl
  onComplete := rfl
  started := rfl
  timeout := rfl
  completed h := ⟨h, rfl⟩
  cancelled h := h
  claimed h := h
  authorized h := h
  receipt _ h := h

theorem trans (h : r.Later r') (h' : r'.Later r'') : r.Later r'' where
  dialogId := h'.dialogId.trans h.dialogId
  owner := h'.owner.trans h.owner
  onComplete := h'.onComplete.trans h.onComplete
  started := h'.started.trans h.started
  timeout := h'.timeout.trans h.timeout
  completed hr := by
    obtain ⟨hr', at'⟩ := h.completed hr
    obtain ⟨hr'', at''⟩ := h'.completed hr'
    exact ⟨hr'', at''.trans at'⟩
  cancelled hr := h'.cancelled (h.cancelled hr)
  claimed hr := h'.claimed (h.claimed hr)
  authorized hr := h'.authorized (h.authorized hr)
  receipt _ hr := h'.receipt _ (h.receipt _ hr)

theorem nonce (h : r.Later r') : r'.nonce = r.nonce := by
  unfold Record.nonce
  rw [h.onComplete]

theorem frozen (h : r.Later r') : r'.frozen = r.frozen := by
  unfold Record.frozen
  rw [h.onComplete]

theorem isExpired (h : r.Later r') (cfg : Config J) (now : ℤ) :
    r'.isExpired cfg now = r.isExpired cfg now := by
  unfold Record.isExpired
  rw [h.started, h.timeout]

end Record.Later

theorem accept_eq (p : ℕ) (now : ℤ) (source : Source) (step : Step J) (resolved : J)
    (r : Record J) : ∃ values index process, accept p now source step resolved r = { r with
      valuesCollected := values
      stepIndex := index
      completed := (accept p now source step resolved r).completed
      completedAt := (accept p now source step resolved r).completedAt
      httpCallbackProcess := process } := by
  refine ⟨(accept p now source step resolved r).valuesCollected,
    (accept p now source step resolved r).stepIndex,
    (accept p now source step resolved r).httpCallbackProcess, ?_⟩
  unfold accept
  dsimp only
  split <;> rfl

theorem Performed.later {alive : ℕ → Bool} {p : ℕ} {now : ℤ} {r r' : Record J} {c : Call J}
    {a : Answer J} (h : Performed cfg alive p now r c a r') : r.Later r' := by
  cases h with
  | refused => exact .refl r
  | forced hc => exact { Record.Later.refl r with completed := fun h => absurd h (by simp [hc]) }
  | @accepted owner var value source step resolved hc =>
    obtain ⟨values, index, process, heq⟩ := accept_eq p now source step resolved r
    rw [heq]
    exact { Record.Later.refl r with completed := fun h => absurd h (by simp [hc]) }
  | cancelled => exact { Record.Later.refl r with cancelled := fun _ => rfl }
  | exhausted => exact { Record.Later.refl r with }
  | claimed => exact { Record.Later.refl r with claimed := fun _ => rfl }
  | authorized => exact { Record.Later.refl r with authorized := fun _ => rfl }
  | released => exact { Record.Later.refl r with }
  | finished _ hr =>
    exact { Record.Later.refl r with receipt := fun _ h => absurd h (by simp [hr]) }

end Metnos.Dialogs
