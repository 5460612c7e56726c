import Metnos.Durable.Writes

/-!
# Durable.Commands — an owner command is answered once

`commands` keeps the answer of every accepted command.  The rows of that table with their answers
stand beside the store; `answer` is one call, with the replay test in front of the version test, and
the purge of an owner is a call like the others.
-/

namespace Metnos.Durable

def WorkloadState.value : WorkloadState → String
  | .draft => "draft"
  | .admitted => "admitted"
  | .queued => "queued"
  | .running => "running"
  | .pauseRequested => "pause_requested"
  | .paused => "paused"
  | .cancelRequested => "cancel_requested"
  | .cancelled => "cancelled"
  | .needsAttention => "needs_attention"
  | .failed => "failed"
  | .completedWithErrors => "completed_with_errors"
  | .completed => "completed"

/-- `WorkloadState(value)`. -/
def WorkloadState.ofValue? (value : String) : Option WorkloadState :=
  [.draft, .admitted, .queued, .running, .pauseRequested, .paused, .cancelRequested, .cancelled,
    .needsAttention, .failed, .completedWithErrors, .completed].find?
      (fun s : WorkloadState => s.value = value)

theorem WorkloadState.ofValue?_value (s : WorkloadState) : ofValue? s.value = some s := by
  cases s <;> rfl

def CommandPayload.expectedVersion : CommandPayload → ℕ
  | .control _ v => v
  | .resolveAttention _ v _ => v

namespace Commands

open Transaction

/-! ## Answers -/

/-- `WorkloadRecord`, without the evidence of a terminal reason. -/
structure WorkloadRecord where
  workloadId : Key
  requestKey : ℕ
  state : WorkloadState
  priority : Priority
  activeRevisionId : Option Key
  version : ℕ
  createdAt : ℕ
  updatedAt : ℕ
deriving DecidableEq

/-- `_row_to_workload`. -/
def rowToWorkload (w : Workload) : WorkloadRecord :=
  ⟨w.id, w.requestKey, w.state, w.priority, w.activeRevisionId, w.version, w.createdAt, w.updatedAt⟩

/-- The object in `result_json`. -/
structure Snapshot where
  schemaVersion : String
  workloadId : Key
  requestKey : ℕ
  state : String
  priority : Priority
  activeRevisionId : Option Key
  version : ℕ
  createdAt : ℕ
  updatedAt : ℕ
deriving DecidableEq

def resultSchema : String := "metnos.durable-command-result/1"

/-- `_workload_snapshot`. -/
def workloadSnapshot (r : WorkloadRecord) : Snapshot :=
  ⟨resultSchema, r.workloadId, r.requestKey, r.state.value, r.priority, r.activeRevisionId, r.version,
    r.createdAt, r.updatedAt⟩

/-- `_snapshot_to_workload`. -/
def snapshotToWorkload (x : Snapshot) : Tx WorkloadRecord := do
  require .durableStore (x.schemaVersion = resultSchema)
  let state ← orRaise .valueError (WorkloadState.ofValue? x.state)
  return ⟨x.workloadId, x.requestKey, state, x.priority, x.activeRevisionId, x.version, x.createdAt,
    x.updatedAt⟩

@[simp] theorem snapshot_roundtrip (r : WorkloadRecord) :
    snapshotToWorkload (workloadSnapshot r) = .ok r := by
  unfold snapshotToWorkload workloadSnapshot
  rw [WorkloadState.ofValue?_value]
  rfl

/-- A row of `commands`. -/
structure CommandRow where
  command : Command
  result : Snapshot
deriving DecidableEq

/-- `owner_user_id=? AND workload_id=? AND idempotency_key=?`. -/
def sameKey (c : Command) (row : CommandRow) : Bool :=
  decide (row.command.workloadId = c.workloadId) &&
  decide (row.command.idempotencyKey = c.idempotencyKey)

/-- `_existing_command`. -/
def existing (rows : List CommandRow) (c : Command) : Tx (Option WorkloadRecord) :=
  match rows.find? (sameKey c) with
  | none => .ok none
  | some row =>
    if row.command.payload = c.payload then do
      let record ← snapshotToWorkload row.result
      return some record
    else .error .idempotencyConflict

/-! ## Effects -/

/-- The end of `_control`: a draining or cancelled workload is settled, and the record is the one
that settlement leaves. -/
def settleRecord (db : Store) (workloadId : Key) (result : WorkloadRecord) (now : ℕ) :
    Tx (WorkloadRecord × Store) :=
  match result.activeRevisionId with
  | none => .ok (result, db)
  | some revision =>
    if result.state = .pauseRequested || result.state = .cancelRequested then do
      let (_, db) ← settle db workloadId now false unitStateBatchSize
      let row ← selectWorkload db workloadId
      return (rowToWorkload row, db)
    else if result.state = .cancelled then
      .ok (result, (cancelWaitingUnits db revision now unitStateBatchSize).2)
    else .ok (result, db)

/-- `_control` between the replay test and the record. -/
def controlEffect (db : Store) (workloadId : Key) (command : ControlCommand)
    (expectedVersion now : ℕ) : Tx (WorkloadRecord × Store) := do
  let w ← selectWorkload db workloadId
  require .versionConflict (w.version = expectedVersion)
  let target ← orRaise .invalidTransition (controlTransition command w.state)
  match target with
  | none => settleRecord db workloadId (rowToWorkload w) now
  | some target => do
    require .invalidTransition (canTransitionWorkload w.state target)
    let db ← updateState db workloadId w.state target expectedVersion now
    let updated ← selectWorkload db workloadId
    let type ← orRaise .valueError (eventByTarget target)
    let db ← appendEvent db workloadId type {
      previousState := some w.state, newState := some target, newVersion := some updated.version }
    settleRecord db workloadId (rowToWorkload updated) now

/-- `record_attention_resolution` between the replay test and the record. -/
def attentionEffect (db : Store) (workloadId : Key) (decision : AttentionDecision)
    (expectedVersion now : ℕ) : Tx (WorkloadRecord × Store) := do
  let w ← selectWorkload db workloadId
  require .versionConflict (w.version = expectedVersion)
  require .invalidTransition (w.state = .needsAttention)
  let revision ← orRaise .invalidTransition w.activeRevisionId
  let active := activeUnitCount db revision
  match decision with
  | .retry => do
    let db ← grantManualRetry db workloadId revision now
    let target := if active ≠ 0 then .running else .queued
    let db ← updateState db workloadId w.state target expectedVersion now
    let updated ← selectWorkload db workloadId
    let db ← appendEvent db workloadId .attentionResolved {
      newState := some target, newVersion := some updated.version, decision := some decision }
    return (rowToWorkload updated, db)
  | .cancel => do
    let db ← updateState db workloadId w.state .cancelRequested expectedVersion now
    let updated ← selectWorkload db workloadId
    let db ← appendEvent db workloadId .attentionResolved {
      newState := some .cancelRequested, newVersion := some updated.version
      decision := some decision }
    let (_, db) ← settle db workloadId now false unitStateBatchSize
    let row ← selectWorkload db workloadId
    return (rowToWorkload row, db)

/-- What an accepted command does before it is recorded, and the record it answers. -/
def commandEffect (db : Store) (c : Command) (now : ℕ) : Tx (WorkloadRecord × Store) :=
  match c.payload with
  | .control command v => controlEffect db c.workloadId command v now
  | .resolveAttention decision v _ => attentionEffect db c.workloadId decision v now

/-! ## Calls -/

/-- The store with the rows of `commands` and their answers. -/
structure Answered where
  db : Store
  rows : List CommandRow

def Answered.empty : Answered := ⟨.empty, []⟩

/-- `_record_command`. -/
def record (db : Store) (rows : List CommandRow) (c : Command) (result : WorkloadRecord) : Answered :=
  ⟨recordCommand db c.workloadId c.idempotencyKey c.payload, ⟨c, workloadSnapshot result⟩ :: rows⟩

/-- The command of an operation, and its instant. -/
def command? : Op → Option (Command × ℕ)
  | .control workloadId command idempotencyKey expectedVersion now =>
    some (⟨workloadId, idempotencyKey, .control command expectedVersion⟩, now)
  | .recordAttentionResolution workloadId decision note idempotencyKey expectedVersion now =>
    some (⟨workloadId, idempotencyKey, .resolveAttention decision expectedVersion note⟩, now)
  | _ => none

/-- `ON DELETE CASCADE` from the workloads of the owner. -/
def purgeStore (db : Store) (owner : ℕ) : Store :=
  { workloads := db.workloads.keep (fun w => w.id.owner ≠ owner)
    revisions := db.revisions.keep (fun r => r.id.owner ≠ owner)
    stages := db.stages.keep (fun s => s.id.owner ≠ owner)
    sources := db.sources.keep (fun s => s.id.owner ≠ owner)
    units := db.units.keep (fun u => u.id.owner ≠ owner)
    attempts := db.attempts.keep (fun a => a.id.owner ≠ owner)
    results := db.results.keep (fun r => r.id.owner ≠ owner)
    usage := db.usage.keep (fun u => u.revisionId.owner ≠ owner)
    cursors := db.cursors.keep (fun c => c.stageId.owner ≠ owner)
    unitDependencies := db.unitDependencies.filter (fun d => d.unitId.owner ≠ owner)
    resultDependencies := db.resultDependencies.filter (fun d => d.1.owner ≠ owner)
    commands := db.commands.filter (fun c => c.workloadId.owner ≠ owner)
    events := db.events.filter (fun e => e.workloadId.owner ≠ owner)
    artifactAttention := db.artifactAttention.filter (fun r => r.owner ≠ owner) }

inductive Call
  | operate (op : Op)
  /-- `purge_owner` -/
  | purgeOwner (owner : ℕ)

/-- One transaction: the record that a command answers, and the state after it. -/
def answer (D : Digests) (s : Answered) : Call → Tx (Option WorkloadRecord × Answered)
  | .operate op =>
    match command? op with
    | some (c, now) => do
      match ← existing s.rows c with
      | some replay => return (some replay, s)
      | none => do
        let (result, db) ← commandEffect s.db c now
        return (some result, record db s.rows c result)
    | none => do
      let db ← transact D s.db op
      return (none, ⟨db, s.rows⟩)
  | .purgeOwner owner =>
    .ok (none, ⟨purgeStore s.db owner, s.rows.filter (fun r => r.command.workloadId.owner ≠ owner)⟩)

/-- The state that a call leaves when it does not raise. -/
def perform (D : Digests) (s : Answered) (call : Call) : Tx Answered := do
  let (_, s) ← answer D s call
  return s

/-- The state after a run of calls. -/
abbrev after (D : Digests) (s : Answered) (calls : List Call) : Answered :=
  Transaction.run (perform D) s calls

section
variable {D : Digests} {s s' : Answered} {call : Call} {c c' : Command} {row : CommandRow}

/-! ## One call -/

theorem existing_none : existing s.rows c = .ok none ↔ s.rows.find? (sameKey c) = none := by
  unfold existing
  cases s.rows.find? (sameKey c) with
  | none => simp
  | some row =>
    dsimp only
    split
    · cases snapshotToWorkload row.result <;> simp
    · simp

theorem existing_some {r : WorkloadRecord} : existing s.rows c = .ok (some r) ↔
    ∃ row, s.rows.find? (sameKey c) = some row ∧ row.command.payload = c.payload ∧
      snapshotToWorkload row.result = .ok r := by
  unfold existing
  cases s.rows.find? (sameKey c) with
  | none => simp
  | some row =>
    dsimp only
    split
    · rename_i same
      cases read : snapshotToWorkload row.result <;> simp [same, read]
    · rename_i other
      simp [other]

/-- What a call that does not raise does. -/
inductive Performed (D : Digests) (s : Answered) : Call → Option WorkloadRecord → Answered → Prop
  | operated (op : Op) (db : Store) (plain : command? op = none)
      (done : transact D s.db op = .ok db) : Performed D s (.operate op) none ⟨db, s.rows⟩
  | replayed (op : Op) (c : Command) (now : ℕ) (r : WorkloadRecord)
      (command : command? op = some (c, now)) (found : existing s.rows c = .ok (some r)) :
      Performed D s (.operate op) (some r) s
  | recorded (op : Op) (c : Command) (now : ℕ) (r : WorkloadRecord) (db : Store)
      (command : command? op = some (c, now)) (fresh : existing s.rows c = .ok none)
      (done : commandEffect s.db c now = .ok (r, db)) :
      Performed D s (.operate op) (some r) (record db s.rows c r)
  | purged (owner : ℕ) : Performed D s (.purgeOwner owner) none
      ⟨purgeStore s.db owner, s.rows.filter (fun r => r.command.workloadId.owner ≠ owner)⟩

theorem answer_performed {x : Option WorkloadRecord} (h : answer D s call = .ok (x, s')) :
    Performed D s call x s' := by
  cases call with
  | purgeOwner owner =>
    cases h
    exact .purged owner
  | operate op =>
    simp only [answer] at h
    split at h
    · rename_i c now command
      simp only [bind_eq_ok] at h
      obtain ⟨found, hfound, h⟩ := h
      cases found with
      | some r =>
        cases h
        exact .replayed op c now r command hfound
      | none =>
        simp only [bind_eq_ok, pure_eq_ok, Prod.exists] at h
        obtain ⟨r, db, done, h⟩ := h
        cases h
        exact .recorded op c now r db command hfound done
    · rename_i plain
      simp only [bind_eq_ok, pure_eq_ok] at h
      obtain ⟨db, done, h⟩ := h
      cases h
      exact .operated op db plain done

theorem perform_performed (h : perform D s call = .ok s') : ∃ x, Performed D s call x s' := by
  unfold perform at h
  simp only [bind_eq_ok, pure_eq_ok, Prod.exists] at h
  obtain ⟨x, s1, h1, rfl⟩ := h
  exact ⟨x, answer_performed h1⟩

theorem commit_raised {e : StoreError} (h : answer D s call = .error e) :
    Transaction.commit (perform D) s call = s := by
  unfold Transaction.commit perform
  rw [h]
  rfl

theorem sameKey_congr (workload : c'.workloadId = c.workloadId)
    (key : c'.idempotencyKey = c.idempotencyKey) : sameKey c' = sameKey c := by
  funext row
  unfold sameKey
  rw [workload, key]

theorem found_kept {x : Option WorkloadRecord} (h : Performed D s call x s')
    (kept : call ≠ .purgeOwner c.workloadId.owner) (found : s.rows.find? (sameKey c) = some row) :
    s'.rows.find? (sameKey c) = some row := by
  cases h with
  | operated => exact found
  | replayed => exact found
  | recorded op c' now r db command fresh done =>
    show List.find? (sameKey c) (⟨c', workloadSnapshot r⟩ :: s.rows) = some row
    have other : ¬sameKey c ⟨c', workloadSnapshot r⟩ = true := by
      intro same
      obtain ⟨workload, key⟩ : c'.workloadId = c.workloadId ∧
          c'.idempotencyKey = c.idempotencyKey := by simpa [sameKey] using same
      rw [existing_none, sameKey_congr workload key, found] at fresh
      cases fresh
    rw [List.find?_cons_of_neg other]
    exact found
  | purged owner =>
    have owners : ∀ r : CommandRow, sameKey c r = true → r.command.workloadId.owner ≠ owner := by
      intro r hr
      have workload : r.command.workloadId = c.workloadId := by
        simp only [sameKey, Bool.and_eq_true, decide_eq_true_eq] at hr
        exact hr.1
      rw [workload]
      rintro rfl
      exact kept rfl
    rw [List.find?_filter]
    rw [← found]
    congr 1
    funext r
    by_cases hr : sameKey c r = true
    · simp [hr, owners r hr]
    · simp [hr]

theorem answered_row {op : Op} {now : ℕ} {r : WorkloadRecord} (hop : command? op = some (c, now))
    (h : answer D s (.operate op) = .ok (some r, s')) :
    ∃ row, s'.rows.find? (sameKey c) = some row ∧ row.command.payload = c.payload ∧
      snapshotToWorkload row.result = .ok r := by
  cases answer_performed h with
  | replayed _ c' now' _ command found =>
    obtain ⟨rfl, rfl⟩ : c' = c ∧ now' = now := by simpa [hop, eq_comm] using command
    exact existing_some.mp found
  | recorded _ c' now' _ db command fresh done =>
    obtain ⟨rfl, rfl⟩ : c' = c ∧ now' = now := by simpa [hop, eq_comm] using command
    refine ⟨⟨c', workloadSnapshot r⟩, ?_, rfl, snapshot_roundtrip r⟩
    exact List.find?_cons_of_pos (by simp [sameKey])

/-! ## Runs -/

theorem found_after {calls : List Call} (kept : .purgeOwner c.workloadId.owner ∉ calls)
    (found : s.rows.find? (sameKey c) = some row) :
    (after D s calls).rows.find? (sameKey c) = some row := by
  have meets : Meets (perform D) (fun _ call => call ≠ .purgeOwner c.workloadId.owner) s calls := by
    refine meets_of_mem (fun call hcall _ => ?_) s
    rintro rfl
    exact kept hcall
  refine run_invariant (I := fun s => s.rows.find? (sameKey c) = some row) ?_ meets found
  intro a call b hcall hab ha
  obtain ⟨x, performed⟩ := perform_performed hab
  exact found_kept performed hcall ha

/-- The call commits the effect of the row's command, and the row with it. -/
def Commits (D : Digests) (s : Answered) (call : Call) (row : CommandRow) : Prop :=
  ∃ op now r db, call = .operate op ∧ command? op = some (row.command, now) ∧
    existing s.rows row.command = .ok none ∧
    commandEffect s.db row.command now = .ok (r, db) ∧ row.result = workloadSnapshot r ∧
    Transaction.commit (perform D) s call = record db s.rows row.command r

/-- Some call of the run commits the effect of the row's command. -/
def Committed (D : Digests) (s : Answered) (calls : List Call) (row : CommandRow) : Prop :=
  ∃ before call later, calls = before ++ call :: later ∧ Commits D (after D s before) call row

theorem committed_cons {calls : List Call} : Committed D s (call :: calls) row ↔
    Commits D s call row ∨ Committed D (Transaction.commit (perform D) s call) calls row := by
  constructor
  · rintro ⟨before, call', later, split, commits⟩
    cases before with
    | nil =>
      obtain ⟨rfl, rfl⟩ : call = call' ∧ calls = later := by simpa using split
      exact .inl commits
    | cons first before =>
      obtain ⟨rfl, rest⟩ : call = first ∧ calls = before ++ call' :: later := by simpa using split
      exact .inr ⟨before, call', later, rest, commits⟩
  · rintro (commits | ⟨before, call', later, rest, commits⟩)
    · exact ⟨[], call, calls, rfl, commits⟩
    · exact ⟨call :: before, call', later, by rw [rest]; rfl, commits⟩

theorem row_commit (kept : call ≠ .purgeOwner row.command.workloadId.owner) :
    row ∈ (Transaction.commit (perform D) s call).rows ↔ row ∈ s.rows ∨ Commits D s call row := by
  constructor
  · intro h
    unfold Transaction.commit at h
    split at h
    · rename_i s1 hs1
      obtain ⟨x, performed⟩ := perform_performed hs1
      cases performed with
      | operated => exact .inl h
      | replayed => exact .inl h
      | recorded op c now r db command fresh done =>
        rcases List.mem_cons.mp h with rfl | h
        · refine .inr ⟨op, now, r, db, rfl, command, fresh, done, rfl, ?_⟩
          unfold Transaction.commit
          rw [hs1]
        · exact .inl h
      | purged owner => exact .inl (List.mem_of_mem_filter h)
    · exact .inl h
  · rintro (h | ⟨op, now, r, db, rfl, command, fresh, done, result, committed⟩)
    · unfold Transaction.commit
      split
      · rename_i s1 hs1
        obtain ⟨x, performed⟩ := perform_performed hs1
        cases performed with
        | operated => exact h
        | replayed => exact h
        | recorded => exact List.mem_cons_of_mem _ h
        | purged owner =>
          refine List.mem_filter.mpr ⟨h, ?_⟩
          rw [decide_eq_true_eq]
          rintro rfl
          exact kept rfl
      · exact h
    · rw [committed]
      refine List.mem_cons.mpr (.inl ?_)
      rw [← result]

theorem recorded_iff_committed {calls : List Call}
    (kept : .purgeOwner row.command.workloadId.owner ∉ calls) :
    row ∈ (after D s calls).rows ↔ row ∈ s.rows ∨ Committed D s calls row := by
  induction calls generalizing s with
  | nil => simp [Committed]
  | cons call calls ih =>
    have first : call ≠ .purgeOwner row.command.workloadId.owner := fun h => kept (h ▸ by simp)
    have rest : .purgeOwner row.command.workloadId.owner ∉ calls :=
      fun h => kept (List.mem_cons_of_mem _ h)
    show row ∈ (after D (Transaction.commit (perform D) s call) calls).rows ↔ _
    rw [ih rest, row_commit first, committed_cons, or_assoc]

theorem version_raised {op : Op} {now : ℕ} {w : Workload} (hop : command? op = some (c, now))
    (fresh : existing s.rows c = .ok none) (hw : s.db.workloads.find? c.workloadId = some w)
    (version : w.version ≠ c.payload.expectedVersion) :
    answer D s (.operate op) = .error .versionConflict := by
  have raised : commandEffect s.db c now = .error .versionConflict := by
    unfold commandEffect
    cases hp : c.payload with
    | control command v =>
      rw [hp] at version
      have v_ne : ¬w.version = v := version
      simp [controlEffect, selectWorkload, hw, orRaise, require, v_ne, bind, Except.bind]
    | resolveAttention decision v note =>
      rw [hp] at version
      have v_ne : ¬w.version = v := version
      simp [attentionEffect, selectWorkload, hw, orRaise, require, v_ne, bind, Except.bind]
  simp [answer, hop, fresh, raised, bind, Except.bind]

/-- A command is accepted at most once.  Until its owner is purged, the same key with the same
payload gets the recorded answer, with another payload it raises, and a row of `commands` is there
exactly when the effect of its command was committed with it. -/
theorem accepted_once {op : Op} {now : ℕ} {calls : List Call} (hop : command? op = some (c, now))
    (kept : .purgeOwner c.workloadId.owner ∉ calls) :
    (∀ r, answer D s (.operate op) = .ok (some r, s') →
      (∀ op' now', command? op' = some (c, now') →
        answer D (after D s' calls) (.operate op') = .ok (some r, after D s' calls)) ∧
      (∀ op' c' now', command? op' = some (c', now') → c'.workloadId = c.workloadId →
        c'.idempotencyKey = c.idempotencyKey → c'.payload ≠ c.payload →
        answer D (after D s' calls) (.operate op') = .error .idempotencyConflict)) ∧
    (∀ w, existing s.rows c = .ok none → s.db.workloads.find? c.workloadId = some w →
      w.version ≠ c.payload.expectedVersion →
      answer D s (.operate op) = .error .versionConflict) ∧
    (∀ e, answer D s (.operate op) = .error e →
      Transaction.commit (perform D) s (.operate op) = s) ∧
    ∀ result, ⟨c, result⟩ ∈ (after D s calls).rows ↔
      ⟨c, result⟩ ∈ s.rows ∨ Committed D s calls ⟨c, result⟩ := by
  refine ⟨fun r first => ⟨?_, ?_⟩, fun w fresh hw version => version_raised hop fresh hw version,
    fun e raised => commit_raised raised, fun result => recorded_iff_committed kept⟩
  · intro op' now' hop'
    obtain ⟨row, found, payload, read⟩ := answered_row hop first
    have answered : existing (after D s' calls).rows c = .ok (some r) :=
      existing_some.mpr ⟨row, found_after kept found, payload, read⟩
    simp [answer, hop', answered, bind, Except.bind, pure, Except.pure]
  · intro op' c' now' hop' workload key other
    obtain ⟨row, found, payload, -⟩ := answered_row hop first
    have raised : existing (after D s' calls).rows c' = .error .idempotencyConflict := by
      unfold existing
      rw [sameKey_congr workload key, found_after kept found]
      have differs : ¬row.command.payload = c'.payload := by
        rw [payload]
        exact fun h => other h.symm
      simp [differs]
    simp [answer, hop', raised, bind, Except.bind]

end

/-! ## A purge in between -/

/-- A queued workload of owner 1, under version 3. -/
def sampleQueued : Answered :=
  after sampleDigests .empty ((sampleStart 1 0 [sampleInventory, sampleMap] 100 [7]).map .operate)

def samplePause : Op := .control ⟨1, 1⟩ .pause 5 3 10

/-- The workload is resumed in between, and the pause is still answered as the first time. -/
theorem resumed_between : ∃ r s',
    answer sampleDigests sampleQueued (.operate samplePause) = .ok (some r, s') ∧
      let resumed := after sampleDigests s' [.operate (.control ⟨1, 1⟩ .resume 6 4 20)]
      answer sampleDigests resumed (.operate samplePause) = .ok (some r, resumed) := by
  obtain ⟨r, s', first⟩ : ∃ r s',
      answer sampleDigests sampleQueued (.operate samplePause) = .ok (some r, s') := ⟨_, _, rfl⟩
  have kept : Call.purgeOwner 1 ∉ [Call.operate (.control ⟨1, 1⟩ .resume 6 4 20)] := by simp
  have paused : command? samplePause = some (⟨⟨1, 1⟩, 5, .control .pause 3⟩, 10) := rfl
  exact ⟨r, s', first, ((accepted_once paused kept).1 r first).1 samplePause 10 paused⟩

/-- After the purge of its owner the command is not answered again. -/
theorem purged_between : ∃ r s',
    answer sampleDigests sampleQueued (.operate samplePause) = .ok (some r, s') ∧
      answer sampleDigests (after sampleDigests s' [.purgeOwner 1]) (.operate samplePause) =
        .error .workloadNotFound :=
  ⟨_, _, rfl, rfl⟩

end Commands

end Metnos.Durable
