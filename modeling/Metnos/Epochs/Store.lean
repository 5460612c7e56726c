import Metnos.Lib.Table
import Metnos.Lib.Transaction
import Metnos.Undo.Selection

/-!
# Epochs.Store — the transactions on generation epochs

A contract has one epoch for each generation that was opened, with a lifecycle, a version and
counters; the history has one event for each version.  Every function here is one `BEGIN
IMMEDIATE` transaction: what it raises leaves the store as it was.
-/

namespace Metnos.Epochs

inductive EpochState
  | current | deprecated | archived
deriving DecidableEq

inductive BirthLifecycle
  | proposed | synthesized | preexercise | active | quarantined | deprecated | archived
deriving DecidableEq

def EpochState.value : EpochState → String
  | .current => "current"
  | .deprecated => "deprecated"
  | .archived => "archived"

def BirthLifecycle.value : BirthLifecycle → String
  | .proposed => "proposed"
  | .synthesized => "synthesized"
  | .preexercise => "preexercise"
  | .active => "active"
  | .quarantined => "quarantined"
  | .deprecated => "deprecated"
  | .archived => "archived"

/-- `_LIFECYCLE_TRANSITIONS`. -/
def lifecycleTransitions : BirthLifecycle → List BirthLifecycle
  | .proposed => [.synthesized]
  | .synthesized => [.preexercise, .quarantined]
  | .preexercise => [.active, .quarantined]
  | .active => [.quarantined, .deprecated]
  | .quarantined => []
  | .deprecated => [.archived]
  | .archived => []

/-- `_STATE_TRANSITIONS`. -/
def stateTransitions : EpochState → List EpochState
  | .current => [.current, .deprecated, .archived]
  | .deprecated => [.deprecated, .archived]
  | .archived => [.archived]

structure EpochStoreError where
  code : String
  detail : String
deriving DecidableEq

abbrev Key := String × String

/-- A row of `executor_epochs`. -/
structure Epoch where
  contractId : String
  generationId : String
  name : String
  source : String
  state : EpochState
  lifecycle : BirthLifecycle
  firstSeenAt : String
  lastUsedAt : Option String
  totalCalls : ℕ
  successfulCalls : ℕ
  failedCalls : ℕ
  positiveFeedback : ℕ
  negativeFeedback : ℕ
  lastCallOk : Option Bool
  inactivitySince : Option String
  lifecycleOverride : Option BirthLifecycle
  overrideReason : Option String
  historicEpochRef : Option String
  stateVersion : ℕ
  createdAt : String
  updatedAt : String

def Epoch.key (e : Epoch) : Key := (e.contractId, e.generationId)

/-- A JSON object of texts, by its sorted keys; `none` is null. -/
abbrev Detail := List (String × Option String)

/-- A row of `executor_epoch_history`. -/
structure Event where
  contractId : String
  generationId : String
  eventSeq : ℕ
  ts : String
  eventKind : String
  source : Option String
  priorStateVersion : Option ℕ
  newStateVersion : ℕ
  detail : Detail

def Event.key (e : Event) : Key := (e.contractId, e.generationId)

/-- A row of `executor_preexercise_cache`. -/
structure CacheEntry where
  key : Key
  lifecycle : BirthLifecycle
  payload : List UInt8
  createdAt : String
deriving DecidableEq

/-- The primary key of a cached payload. -/
def CacheEntry.slot (c : CacheEntry) : Key × BirthLifecycle := (c.key, c.lifecycle)

structure Store where
  epochs : Table Epoch Key Epoch.key
  history : List Event
  cache : Table CacheEntry (Key × BirthLifecycle) CacheEntry.slot

/-- The identity under which calls are counted and epochs are moved. -/
structure EpochCacheKey where
  contractId : String
  generationId : String
  lifecycle : BirthLifecycle

def EpochCacheKey.key (k : EpochCacheKey) : Key := (k.contractId, k.generationId)

/-- The fields of a record that an opening call returns. -/
structure EpochRecord where
  contractId : String
  generationId : String
  name : String
  source : String
  state : EpochState
  lifecycle : BirthLifecycle
  stateVersion : ℕ
deriving DecidableEq

structure EpochReplacement where
  closedGenerationId : String
  closedStateVersion : ℕ
  opened : EpochRecord
  repeated : Bool
deriving DecidableEq

structure ExecutionEpochAttestation where
  contractId : String
  generationId : String
  name : String
  state : EpochState
  lifecycle : BirthLifecycle
  stateVersion : ℕ
deriving DecidableEq

inductive QuarantineCAS
  | applied | alreadyQuarantined | stale
deriving DecidableEq

/-! ## Checks -/

section
variable {ε : Type}

def check (p : Prop) [Decidable p] (e : ε) : Except ε Unit := if p then .ok () else .error e

@[simp] theorem check_eq_ok {p : Prop} [Decidable p] {e : ε} {u : Unit} :
    check p e = .ok u ↔ p := by
  unfold check
  split_ifs with h <;> simp [h]

end

/-- `_DIGEST`. -/
def isDigest (s : String) : Bool :=
  s.toList.take 7 = "sha256:".toList && (s.toList.drop 7).length = 64 &&
    (s.toList.drop 7).all fun c => ('0' ≤ c && c ≤ '9') || ('a' ≤ c && c ≤ 'f')

/-- `_generation`. -/
def generation (v : String) : Except EpochStoreError Unit :=
  check (isDigest v = true) ⟨"epoch_invalid", "generation_id"⟩

/-- `_text`. -/
def text (v field : String) : Except EpochStoreError Unit :=
  check (v ≠ "" ∧ Undo.strip v.toList = v.toList ∧ Char.ofNat 0 ∉ v.toList)
    ⟨"epoch_invalid", field⟩

def optionalText (v : Option String) (field : String) : Except EpochStoreError Unit :=
  match v with
  | none => .ok ()
  | some v => text v field

def positive (v : ℕ) (field : String) : Except EpochStoreError Unit :=
  check (1 ≤ v) ⟨"epoch_invalid", field⟩

namespace Store

variable (s : Store)

def empty : Store := ⟨.empty, [], .empty⟩

/-! ## Rows -/

/-- `INSERT INTO executor_epochs`, under the primary key and the two unique indexes. -/
def insertEpoch (e : Epoch) : Except EpochStoreError Store := do
  check (∀ x ∈ s.epochs.rows, ¬ (x.name = e.name ∧ x.generationId = e.generationId))
    ⟨"epoch_conflict", "UNIQUE constraint failed: executor_epochs.name, " ++
      "executor_epochs.generation_id"⟩
  check (∀ x ∈ s.epochs.rows,
      ¬ (x.contractId = e.contractId ∧ x.state = .current ∧ e.state = .current))
    ⟨"epoch_conflict", "UNIQUE constraint failed: executor_epochs.contract_id"⟩
  match s.epochs.insert? e with
  | some epochs => pure { s with epochs := epochs }
  | none => throw ⟨"epoch_conflict", "UNIQUE constraint failed: executor_epochs.contract_id, " ++
      "executor_epochs.generation_id"⟩

/-- `UPDATE executor_epochs .. WHERE contract_id=? AND generation_id=? AND ..`, of which one row
must be the outcome. -/
def updateEpoch (k : Key) (p : Epoch → Bool) (f : Epoch → Epoch) (hf : ∀ e, (f e).key = e.key)
    (detail : String) : Except EpochStoreError Store :=
  match s.epochs.cas k p f hf with
  | some epochs => .ok { s with epochs := epochs }
  | none => .error ⟨"epoch_conflict", detail⟩

/-- The events of an epoch, in the order in which they were inserted. -/
def events (k : Key) : List Event := s.history.filter (fun ev => ev.key = k)

/-- `COALESCE(MAX(event_seq),0)` of an epoch. -/
def lastSeq (k : Key) : ℕ := ((s.events k).map Event.eventSeq).foldl max 0

/-- `INSERT INTO executor_epoch_history`, under its unique index. -/
def insertEvent (ev : Event) : Except EpochStoreError Store := do
  check (∀ x ∈ s.events ev.key, x.eventSeq ≠ ev.eventSeq)
    ⟨"epoch_conflict", "UNIQUE constraint failed: executor_epoch_history.contract_id, " ++
      "executor_epoch_history.generation_id, executor_epoch_history.event_seq"⟩
  pure { s with history := s.history ++ [ev] }

/-- The event that follows the last one. -/
def appendEvent (k : Key) (ts kind : String) (prior : ℕ) (detail : Detail) :
    Except EpochStoreError Store :=
  s.insertEvent ⟨k.1, k.2, s.lastSeq k + 1, ts, kind, none, some prior, prior + 1, detail⟩

/-- `DELETE FROM executor_preexercise_cache`. -/
def dropCache (k : Key) : Store := { s with cache := s.cache.keep (fun c => c.key ≠ k) }

/-- `SELECT .. WHERE contract_id=? AND state='current'`. -/
def current (cid : String) : Option Epoch :=
  s.epochs.rows.find? (fun e => e.contractId = cid ∧ e.state = .current)

/-- The row that an opening call inserts. -/
def fresh (cid gid name source : String) (lifecycle : BirthLifecycle) (ts : String)
    (historic : Option String) : Epoch where
  contractId := cid
  generationId := gid
  name := name
  source := source
  state := .current
  lifecycle := lifecycle
  firstSeenAt := ts
  lastUsedAt := none
  totalCalls := 0
  successfulCalls := 0
  failedCalls := 0
  positiveFeedback := 0
  negativeFeedback := 0
  lastCallOk := none
  inactivitySince := none
  lifecycleOverride := none
  overrideReason := none
  historicEpochRef := historic
  stateVersion := 1
  createdAt := ts
  updatedAt := ts

/-! ## Opening and closing -/

/-- `open_epoch`. -/
def openEpoch (cid gid name source : String) (lifecycle : BirthLifecycle) (observedAt : String)
    (historic : Option String) : Except EpochStoreError (EpochRecord × Store) := do
  generation gid
  text name "name"
  text source "source"
  text observedAt "observed_at"
  optionalText historic "historic_epoch_ref"
  let s ← s.insertEpoch (fresh cid gid name source lifecycle observedAt historic)
  let s ← s.insertEvent ⟨cid, gid, 1, observedAt, "opened", some source, none, 1,
    [("lifecycle", some lifecycle.value)]⟩
  pure (⟨cid, gid, name, source, .current, lifecycle, 1⟩, s)

/-- The arguments of `replace_current_epoch`. -/
structure Replacement where
  contractId : String
  expectedGenerationId : String
  expectedStateVersion : ℕ
  generationId : String
  name : String
  source : String
  lifecycle : BirthLifecycle
  observedAt : String
  eventKind : String
  historicEpochRef : Option String

namespace Replacement

variable (a : Replacement)

def oldKey : Key := (a.contractId, a.expectedGenerationId)

def newKey : Key := (a.contractId, a.generationId)

def valid : Except EpochStoreError Unit := do
  generation a.expectedGenerationId
  generation a.generationId
  check (a.expectedGenerationId ≠ a.generationId) ⟨"epoch_invalid", "successor generation"⟩
  positive a.expectedStateVersion "expected_state_version"
  text a.name "name"
  text a.source "source"
  text a.observedAt "observed_at"
  text a.eventKind "event_kind"
  optionalText a.historicEpochRef "historic_epoch_ref"

/-- What the opening event says of the successor. -/
def openingDetail : Detail :=
  [("historic_epoch_ref", a.historicEpochRef), ("lifecycle", some a.lifecycle.value),
    ("predecessor_generation_id", some a.expectedGenerationId)]

def record (version : ℕ) : EpochRecord :=
  ⟨a.contractId, a.generationId, a.name, a.source, .current, a.lifecycle, version⟩

/-- `event_seq=1` of the successor. -/
def opening : Option Event := (s.events a.newKey).find? (fun ev => ev.eventSeq = 1)

/-- The store holds exactly what this call has made of it. -/
structure Replay (current : Epoch) : Prop where
  prior : ∃ prior, s.epochs.find? a.oldKey = some prior ∧ prior.state = .deprecated ∧
    prior.lifecycle = .deprecated ∧ prior.stateVersion = a.expectedStateVersion + 1
  name : current.name = a.name
  source : current.source = a.source
  lifecycle : current.lifecycle = a.lifecycle
  historic : current.historicEpochRef = a.historicEpochRef
  opening : ∃ ev, opening s a = some ev ∧ ev.eventKind = a.eventKind ∧
    ev.source = some a.source ∧ ev.detail = a.openingDetail

instance (current : Epoch) : Decidable (Replay s a current) :=
  decidable_of_iff
    ((s.epochs.find? a.oldKey).any (fun prior => prior.state = .deprecated ∧
        prior.lifecycle = .deprecated ∧ prior.stateVersion = a.expectedStateVersion + 1) = true ∧
      current.name = a.name ∧ current.source = a.source ∧ current.lifecycle = a.lifecycle ∧
      current.historicEpochRef = a.historicEpochRef ∧
      (opening s a).any (fun ev => ev.eventKind = a.eventKind ∧ ev.source = some a.source ∧
        ev.detail = a.openingDetail) = true)
    ⟨fun ⟨hp, hn, hs, hl, hh, ho⟩ =>
      ⟨by simpa [Option.any_eq_true] using hp, hn, hs, hl, hh,
        by simpa [Option.any_eq_true] using ho⟩,
      fun h => ⟨by simpa [Option.any_eq_true] using h.prior, h.name, h.source, h.lifecycle,
        h.historic, by simpa [Option.any_eq_true] using h.opening⟩⟩

end Replacement

/-- `replace_current_epoch`. -/
def replaceCurrentEpoch (a : Replacement) : Except EpochStoreError (EpochReplacement × Store) := do
  a.valid
  match s.current a.contractId with
  | none => throw ⟨"epoch_conflict", "stale predecessor"⟩
  | some current =>
    if current.generationId = a.generationId then do
      check (a.Replay s current) ⟨"epoch_conflict", "successor replay mismatch"⟩
      pure (⟨a.expectedGenerationId, a.expectedStateVersion + 1, a.record current.stateVersion,
        true⟩, s)
    else do
      check (current.generationId = a.expectedGenerationId ∧
          current.stateVersion = a.expectedStateVersion)
        ⟨"epoch_conflict", "stale predecessor"⟩
      let s ← s.updateEpoch a.oldKey
        (fun e => e.state = .current ∧ e.stateVersion = a.expectedStateVersion)
        (fun e => { e with
          state := .deprecated
          lifecycle := .deprecated
          stateVersion := e.stateVersion + 1
          updatedAt := a.observedAt })
        (fun _ => rfl) "stale predecessor"
      let s ← (s.dropCache a.oldKey).appendEvent a.oldKey a.observedAt
        (a.eventKind ++ "_predecessor_closed") a.expectedStateVersion
        [("state", some "deprecated"), ("successor_generation_id", some a.generationId)]
      let s ← s.insertEpoch (fresh a.contractId a.generationId a.name a.source a.lifecycle
        a.observedAt a.historicEpochRef)
      let s ← s.insertEvent ⟨a.contractId, a.generationId, 1, a.observedAt, a.eventKind,
        some a.source, none, 1, a.openingDetail⟩
      pure (⟨a.expectedGenerationId, a.expectedStateVersion + 1, a.record 1, false⟩, s)

/-- `transition_epoch`. -/
def transitionEpoch (k : EpochCacheKey) (expectedVersion : ℕ) (newState : EpochState)
    (newLifecycle : BirthLifecycle) (eventKind occurredAt : String) :
    Except EpochStoreError (ℕ × Store) := do
  generation k.generationId
  positive expectedVersion "expected_version"
  text eventKind "event_kind"
  text occurredAt "occurred_at"
  match s.epochs.find? k.key with
  | none => throw ⟨"epoch_conflict", ""⟩
  | some current =>
    check (current.stateVersion = expectedVersion) ⟨"epoch_conflict", ""⟩
    check (current.lifecycle = k.lifecycle) ⟨"epoch_conflict", "stale_lifecycle"⟩
    check (newState ∈ stateTransitions current.state ∧
        newLifecycle ∈ lifecycleTransitions current.lifecycle)
      ⟨"epoch_transition_invalid", ""⟩
    let s ← s.updateEpoch k.key
      (fun e => e.stateVersion = expectedVersion ∧ e.lifecycle = current.lifecycle)
      (fun e => { e with
        state := newState
        lifecycle := newLifecycle
        stateVersion := e.stateVersion + 1
        updatedAt := occurredAt })
      (fun _ => rfl) ""
    let s ← (s.dropCache k.key).appendEvent k.key occurredAt eventKind expectedVersion
      [("lifecycle", some newLifecycle.value), ("state", some newState.value)]
    pure (expectedVersion + 1, s)

/-! ## Counters -/

/-- `record_execution`. -/
def recordExecution (k : EpochCacheKey) (expectedVersion : ℕ) (successful : Bool)
    (occurredAt : String) : Except EpochStoreError (Unit × Store) := do
  generation k.generationId
  positive expectedVersion "expected_version"
  text occurredAt "occurred_at"
  let s ← s.updateEpoch k.key
    (fun e => e.lifecycle = k.lifecycle ∧ e.state = .current ∧ e.stateVersion = expectedVersion)
    (fun e => { e with
      totalCalls := e.totalCalls + 1
      successfulCalls := e.successfulCalls + if successful then 1 else 0
      failedCalls := e.failedCalls + if successful then 0 else 1
      lastCallOk := some successful
      lastUsedAt := some occurredAt
      updatedAt := occurredAt })
    (fun _ => rfl) "stale execution identity"
  pure ((), s)

/-- `record_feedback`: the negative verdicts in a row. -/
def recordFeedback (k : EpochCacheKey) (expectedVersion : ℕ) (good : Bool) (occurredAt : String) :
    Except EpochStoreError (ℕ × Store) := do
  generation k.generationId
  positive expectedVersion "expected_version"
  text occurredAt "occurred_at"
  let s ← s.updateEpoch k.key
    (fun e => e.lifecycle = k.lifecycle ∧ e.state = .current ∧ e.stateVersion = expectedVersion)
    (fun e => { e with
      positiveFeedback := e.positiveFeedback + if good then 1 else 0
      negativeFeedback := if good then 0 else e.negativeFeedback + 1
      updatedAt := occurredAt })
    (fun _ => rfl) "stale feedback identity"
  pure (((s.epochs.find? k.key).map Epoch.negativeFeedback).getD 0, s)

/-- `credit_uses`. -/
def creditUses (cid gid : String) (expectedVersion uses : ℕ) (occurredAt : String) :
    Except EpochStoreError (ℕ × Store) := do
  generation gid
  positive uses "uses"
  positive expectedVersion "expected_version"
  text occurredAt "occurred_at"
  let s ← s.updateEpoch (cid, gid)
    (fun e => e.state = .current ∧ e.stateVersion = expectedVersion)
    (fun e => { e with
      totalCalls := e.totalCalls + uses
      lastUsedAt := some occurredAt
      updatedAt := occurredAt })
    (fun _ => rfl) "stale credit identity"
  pure (uses, s)

/-! ## Restrictions -/

/-- The current epoch of the exact generation and version. -/
def exact (k : Key) (version : ℕ) : Option Epoch :=
  (s.epochs.find? k).filter (fun e => e.state = .current ∧ e.stateVersion = version)

/-- `restrict_generation`. -/
def restrictGeneration (cid gid : String) (expectedVersion : ℕ) (override : BirthLifecycle)
    (reason observedAt : String) : Except EpochStoreError (ℕ × Store) := do
  generation gid
  check (override = .deprecated ∨ override = .archived) ⟨"epoch_invalid", "restriction override"⟩
  positive expectedVersion "expected_version"
  text reason "reason"
  text observedAt "observed_at"
  match s.exact (cid, gid) expectedVersion with
  | none => throw ⟨"epoch_conflict", "stale restriction identity"⟩
  | some current =>
    if current.lifecycleOverride = some override then pure (expectedVersion, s)
    else do
      let since := if override = .deprecated then some observedAt else current.inactivitySince
      let s ← s.updateEpoch (cid, gid)
        (fun e => e.state = .current ∧ e.stateVersion = expectedVersion)
        (fun e => { e with
          lifecycleOverride := some override
          overrideReason := some reason
          inactivitySince := since
          stateVersion := e.stateVersion + 1
          updatedAt := observedAt })
        (fun _ => rfl) "stale restriction identity"
      let s ← (s.dropCache (cid, gid)).appendEvent (cid, gid) observedAt
        ("restricted_" ++ override.value) expectedVersion [("reason", some reason)]
      pure (expectedVersion + 1, s)

/-- `clear_restriction`. -/
def clearRestriction (cid gid : String) (expectedVersion : ℕ) (reason observedAt : String) :
    Except EpochStoreError (ℕ × Store) := do
  generation gid
  positive expectedVersion "expected_version"
  text reason "reason"
  text observedAt "observed_at"
  match s.exact (cid, gid) expectedVersion with
  | none => throw ⟨"epoch_conflict", "stale restriction identity"⟩
  | some current =>
    if current.lifecycleOverride = none then pure (expectedVersion, s)
    else do
      let s ← s.updateEpoch (cid, gid)
        (fun e => e.state = .current ∧ e.stateVersion = expectedVersion)
        (fun e => { e with
          lifecycleOverride := none
          overrideReason := some reason
          inactivitySince := none
          lastUsedAt := some observedAt
          stateVersion := e.stateVersion + 1
          updatedAt := observedAt })
        (fun _ => rfl) "stale restriction identity"
      let s ← s.appendEvent (cid, gid) observedAt "restriction_cleared" expectedVersion
        [("reason", some reason)]
      pure (expectedVersion + 1, s)

/-- `quarantine_for_feedback`. -/
def quarantineForFeedback (cid gid occurredAt : String) :
    Except EpochStoreError (QuarantineCAS × Store) := do
  generation gid
  text occurredAt "occurred_at"
  match s.current cid with
  | none => pure (.stale, s)
  | some row =>
    if row.generationId ≠ gid then pure (.stale, s)
    else if row.lifecycle = .quarantined then pure (.alreadyQuarantined, s)
    else do
      check (.quarantined ∈ lifecycleTransitions row.lifecycle)
        ⟨"epoch_transition_invalid", "feedback quarantine"⟩
      let s ← s.updateEpoch (cid, gid)
        (fun e => e.state = .current ∧ e.lifecycle = row.lifecycle ∧
          e.stateVersion = row.stateVersion)
        (fun e => { e with
          lifecycle := .quarantined
          stateVersion := e.stateVersion + 1
          negativeFeedback := e.negativeFeedback + 1
          updatedAt := occurredAt })
        (fun _ => rfl) ""
      let s ← (s.dropCache (cid, gid)).appendEvent (cid, gid) occurredAt
        "negative_feedback_quarantine" row.stateVersion [("lifecycle", some "quarantined")]
      pure (.applied, s)

/-! ## Reading -/

/-- `attest_execution_epoch`. -/
def attestExecutionEpoch (cid gid name : String) :
    Except EpochStoreError ExecutionEpochAttestation := do
  generation gid
  text name "name"
  match s.epochs.find? (cid, gid) with
  | none => throw ⟨"execution.runner_absent", ""⟩
  | some row =>
    check (row.name = name) ⟨"execution.runner_absent", "name_mismatch"⟩
    check (row.lifecycle ≠ .quarantined) ⟨"execution.quarantined", ""⟩
    check (row.lifecycle ≠ .deprecated ∧ row.lifecycle ≠ .archived ∧ row.state = .current)
      ⟨"execution.retired", ""⟩
    check (row.lifecycleOverride ≠ some .archived) ⟨"execution.retired", ""⟩
    check (row.lifecycle = .active) ⟨"execution.dormant", ""⟩
    pure ⟨cid, gid, name, row.state, row.lifecycle, row.stateVersion⟩

end Store

end Metnos.Epochs
