import Mathlib.Logic.Function.Basic
import Metnos.Lib.Dynamic
import Metnos.Lib.Table
import Metnos.Lib.Transaction

/-!
# Jobs.Daemon — the rows of the scheduler

The scheduler keeps its entries and their runs in one database.  Every function of the storage is one
statement, and other processes execute statements between any two.  Instants are whole milliseconds.
-/

namespace Metnos.Jobs

/-- `ScheduleEntry`; `remainingRuns` is 0 for an entry without a bound. -/
structure ScheduleEntry where
  id : ℕ := 0
  name : String
  trigger : String
  nextFireAt : ℤ
  recurring : Bool
  callbackKey : String
  payload : Dynamic.Dict := []
  weekdays : String := ""
  expiresAt : String := ""
  remainingRuns : ℤ := 0
  enabled : Bool := true
  timeoutS : Option ℤ := none
  maxConcurrent : ℤ := 1
  graceWindowS : Option ℤ := none
  lastStatus : Option String := none
  lastDurationMs : Option ℤ := none
  lastError : Option String := none
  totalRuns : ℕ := 0
  totalFailures : ℕ := 0
  consecutiveFailures : ℕ := 0

/-- A row of `runs`. -/
structure Run where
  id : ℕ
  entryId : ℕ
  entryName : String
  startedAt : ℤ
  finishedAt : Option ℤ := none
  status : String := "running"
  durationMs : Option ℤ := none
  output : String := ""

structure Storage where
  entries : Table ScheduleEntry ℕ ScheduleEntry.id
  runs : Table Run ℕ Run.id

namespace Storage

def empty : Storage := ⟨.empty, .empty⟩

/-- The identifier that SQLite gives to a new row of an `INTEGER PRIMARY KEY`. -/
def freshId (ids : List ℕ) : ℕ := ids.foldr max 0 + 1

/-- `UPDATE schedule_entries SET … WHERE id=?` -/
def updateEntry (st : Storage) (k : ℕ) (f : ScheduleEntry → ScheduleEntry)
    (hf : ∀ e, (f e).id = e.id) : Storage :=
  { st with entries := st.entries.updateWhere (fun e => e.id = k) f hf }

def getByName (st : Storage) (name : String) : Option ScheduleEntry :=
  st.entries.rows.find? fun e => e.name = name

/-- The identifier of the row that `upsert` writes. -/
def upsertId (st : Storage) (e : ScheduleEntry) : ℕ :=
  match st.getByName e.name with
  | some old => old.id
  | none => freshId (st.entries.rows.map ScheduleEntry.id)

/-- All columns are written, the counters too. -/
def upsert (st : Storage) (e : ScheduleEntry) : Storage :=
  { st with entries := st.entries.upsert { e with id := st.upsertId e } }

def delete (st : Storage) (name : String) : Storage :=
  { st with entries := st.entries.keep fun e => e.name ≠ name }

/-- `purge_names` -/
def purgeNames (st : Storage) (names : List String) : Storage :=
  { entries := st.entries.keep fun e => e.name ∉ names
    runs := st.runs.keep fun r => r.entryName ∉ names }

def updateNextFire (st : Storage) (k : ℕ) (nextFireAt : ℤ) : Storage :=
  st.updateEntry k (fun e => { e with nextFireAt := nextFireAt }) fun _ => rfl

def disable (st : Storage) (k : ℕ) : Storage :=
  st.updateEntry k (fun e => { e with enabled := false }) fun _ => rfl

/-- `enable`: `next` is the next instant of a trigger, none where it cannot be computed. -/
def enable (st : Storage) (next : String → Option ℤ) (k : ℕ) : Storage :=
  st.updateEntry k
    (fun e => { e with
      enabled := true
      consecutiveFailures := 0
      nextFireAt := (next e.trigger).getD e.nextFireAt })
    fun _ => rfl

/-- The `UPDATE` of `initialize_remaining_runs` hits a row. -/
def uninitialized (st : Storage) (k : ℕ) : Bool :=
  (st.entries.find? k).any fun e => e.remainingRuns = 0

/-- `initialize_remaining_runs` with a positive value. -/
def initializeRemainingRuns (st : Storage) (k : ℕ) (value : ℤ) : Storage :=
  st.updateEntry k
    (fun e => if e.remainingRuns = 0 then { e with remainingRuns := value } else e)
    fun e => by split <;> rfl

/-- `status in {"error", "timeout"}` -/
def isHardFailure (status : String) : Bool := status = "error" || status = "timeout"

/-- What `record_outcome` is called with. -/
structure Report where
  status : String
  durationMs : ℤ
  error : Option String
  nextFireAt : Option ℤ
  decrementRemaining : Bool
  disable : Bool

/-- The columns after `record_outcome`. -/
def Report.apply (r : Report) (e : ScheduleEntry) : ScheduleEntry :=
  { e with
    lastStatus := some r.status
    lastDurationMs := some r.durationMs
    lastError := r.error
    totalRuns := e.totalRuns + 1
    totalFailures :=
      if isHardFailure r.status || r.status = "partial" then e.totalFailures + 1
      else e.totalFailures
    consecutiveFailures := if isHardFailure r.status then e.consecutiveFailures + 1 else 0
    remainingRuns := if r.decrementRemaining then max 0 (e.remainingRuns - 1) else e.remainingRuns
    nextFireAt := r.nextFireAt.getD e.nextFireAt
    enabled := e.enabled && !r.disable }

def recordOutcome (st : Storage) (k : ℕ) (r : Report) : Storage :=
  st.updateEntry k r.apply fun _ => rfl

/-! ## Runs -/

/-- The identifier of the row that `begin_run` inserts. -/
def beginRunId (st : Storage) : ℕ := freshId (st.runs.rows.map Run.id)

def newRun (st : Storage) (k : ℕ) (name : String) (now : ℤ) : Run :=
  { id := st.beginRunId, entryId := k, entryName := name, startedAt := now }

def beginRun (st : Storage) (k : ℕ) (name : String) (now : ℤ) : Storage :=
  { st with runs := st.runs.upsert (st.newRun k name now) }

/-- The columns after `end_run`. -/
def endedRun (status : String) (durationMs : ℤ) (output : String) (now : ℤ) (r : Run) : Run :=
  { r with
    finishedAt := some now
    status := status
    durationMs := some durationMs
    output := output }

def endRun (st : Storage) (runId : ℕ) (status : String) (durationMs : ℤ) (output : String)
    (now : ℤ) : Storage :=
  { st with
    runs := st.runs.updateWhere (fun r => r.id = runId) (endedRun status durationMs output now)
      fun _ => rfl }

/-- The columns after `mark_crashed_runs`. -/
def crashedRun (now : ℤ) (r : Run) : Run := { r with status := "crashed", finishedAt := some now }

def markCrashedRuns (st : Storage) (now : ℤ) : Storage :=
  { st with
    runs := st.runs.updateWhere (fun r => r.status = "running") (crashedRun now) fun _ => rfl }

/-! ## What the statements leave -/

theorem lt_freshId {ids : List ℕ} {n : ℕ} (h : n ∈ ids) : n < freshId ids := by
  unfold freshId
  induction ids with
  | nil => cases h
  | cons m ids ih =>
    rw [List.foldr_cons]
    rcases List.mem_cons.mp h with rfl | h
    · omega
    · have := ih h
      omega

theorem find?_beginRunId (st : Storage) : st.runs.find? st.beginRunId = none := by
  rw [Table.find?_eq_none]
  intro r hr
  have := lt_freshId (List.mem_map_of_mem (f := Run.id) hr)
  exact (show r.id < st.beginRunId from this).ne

section
variable (st : Storage) (k j : ℕ) {f : ScheduleEntry → ScheduleEntry} {hf : ∀ e, (f e).id = e.id}

theorem find?_updateEntry_self :
    (st.updateEntry k f hf).entries.find? k = (st.entries.find? k).map f := by
  unfold updateEntry
  rcases h : st.entries.find? k with _ | e
  · rw [Table.find?_updateWhere, h]
    rfl
  · exact Table.find?_update_self hf h

theorem find?_updateEntry_ne (ne : k ≠ j) :
    (st.updateEntry j f hf).entries.find? k = st.entries.find? k :=
  Table.find?_update_ne hf ne

@[simp] theorem updateEntry_runs : (st.updateEntry k f hf).runs = st.runs := rfl

end

theorem find?_upsert (st : Storage) (e : ScheduleEntry) (k : ℕ) :
    (st.upsert e).entries.find? k =
      if k = st.upsertId e then some { e with id := st.upsertId e } else st.entries.find? k :=
  Table.find?_upsert st.entries { e with id := st.upsertId e } k

theorem find?_beginRun (st : Storage) (k n : ℕ) (name : String) (now : ℤ) :
    (st.beginRun k name now).runs.find? n =
      if n = st.beginRunId then some (st.newRun k name now) else st.runs.find? n :=
  Table.find?_upsert st.runs (st.newRun k name now) n

theorem find?_markCrashedRuns (st : Storage) (now : ℤ) (n : ℕ) :
    (st.markCrashedRuns now).runs.find? n = (st.runs.find? n).map fun r =>
      if decide (r.status = "running") = true then crashedRun now r else r :=
  Table.find?_updateWhere st.runs (fun r => r.status = "running") (crashedRun now) (fun _ => rfl) n

theorem find?_endRun (st : Storage) (runId : ℕ) (status : String) (durationMs : ℤ)
    (output : String) (now : ℤ) (n : ℕ) :
    (st.endRun runId status durationMs output now).runs.find? n = (st.runs.find? n).map fun r =>
      if decide (r.id = runId) = true then endedRun status durationMs output now r else r :=
  Table.find?_updateWhere st.runs (fun r => r.id = runId) (endedRun status durationMs output now)
    (fun _ => rfl) n

end Storage

end Metnos.Jobs

/-!
## One tick after the other, among other processes

The loop fetches the due entries and fires them together; the next tick comes when all have ended.
Every act below executes one statement of the database at most, so that the acts of a run are in the
order in which the processes execute them.  `history` keeps what happened; no code reads it.
-/

namespace Metnos.Jobs

open Transaction

/-- What the daemon gets from Python, from its configuration and from the registry. -/
structure Environment where
  /-- `next_fire_at(trigger, now, tz_name)`, none where it raises. -/
  nextFire : String → String → ℤ → Option ℤ
  tzName : String
  /-- The weekday of the instant is among those of the text. -/
  onAllowedDay : String → ℤ → Bool
  /-- The instant of the text can be read and is past. -/
  expired : String → ℤ → Bool
  /-- `int(v)`, none where it raises. -/
  int : Json → Option ℤ
  /-- `str(v)` -/
  str : Json → String
  /-- `repr(s)` -/
  repr : String → String
  /-- `callbacks.get(key)` finds a callback. -/
  registered : String → Bool
  /-- `_CIRCUIT_BREAK_AFTER` -/
  circuitBreakAfter : ℤ

/-! ## The callback -/

inductive CallbackResult
  /-- `CallbackOutcome` -/
  | outcome (status output : String) (error : Option String)
  | dict (fields : Dynamic.Dict)
  | none
  /-- Any other value, by its text. -/
  | other (text : String)

/-- How the `await` of the callback ends. -/
inductive Awaited
  | returned (result : CallbackResult)
  /-- `asyncio.TimeoutError` -/
  | timedOut
  /-- Another `Exception`, by its type and text. -/
  | raised (error : String)
  /-- `CancelledError`, or another `BaseException` that is no `Exception`. -/
  | interrupted

structure Outcome where
  status : String
  error : Option String
  output : String

/-- `s[:n]` -/
def truncate (n : ℕ) (s : String) : String := String.ofList (s.toList.take n)

/-- `s or None` -/
def orNone (s : String) : Option String := if s = "" then none else some s

def allowedStatuses : List String := ["success", "partial", "error", "timeout"]

section
variable (env : Environment) (e : ScheduleEntry)

/-- `result.get("error_class") or result.get("error") or "callback_returned_not_ok"` -/
def receiptError (fields : Dynamic.Dict) : Json :=
  if (fields.get "error_class").truthy then fields.get "error_class"
  else if (fields.get "error").truthy then fields.get "error"
  else .str "callback_returned_not_ok"

/-- The local variables when the callback returned. -/
def resultOutcome : CallbackResult → Outcome
  | .outcome status output error =>
    if status ∈ allowedStatuses then
      ⟨status, orNone (truncate 1000 (error.getD "")), truncate 4096 output⟩
    else ⟨"error", some ("invalid callback status: " ++ env.repr status), truncate 4096 output⟩
  | .dict fields =>
    if Dynamic.isFalse (fields.get "ok") then
      ⟨"error", some (truncate 1000 (env.str (receiptError fields))), ""⟩
    else ⟨"success", none, truncate 4096 (env.str (.obj fields))⟩
  | .none => ⟨"success", none, ""⟩
  | .other text => ⟨"success", none, truncate 4096 text⟩

/-- The local variables when the `try` statement is left; they start as a success. -/
def awaitedOutcome : Awaited → Outcome
  | .returned result => resultOutcome env result
  | .timedOut =>
    let seconds := match e.timeoutS with
      | some n => toString n
      | none => "None"
    ⟨"timeout", some ("timed out after " ++ seconds ++ "s"), ""⟩
  | .raised error => ⟨"error", some error, ""⟩
  | .interrupted => ⟨"success", none, ""⟩

/-- An entry without a callback awaits nothing. -/
def callOutcome (a : Awaited) : Outcome :=
  if env.registered e.callbackKey then awaitedOutcome env e a
  else ⟨"error", some ("unknown callback_key: " ++ env.repr e.callbackKey), ""⟩

/-! ## The report -/

/-- `_retry_cooldown_s` -/
def retryCooldownS (consecutiveFailures : ℤ) : ℤ :=
  let steps := max 0 (consecutiveFailures - env.circuitBreakAfter)
  min (24 * 60 * 60) (15 * 60 * 2 ^ (min steps 16).toNat)

def countsDown : Bool := e.recurring && decide (0 < e.remainingRuns)

/-- The entry does not go on after this run. -/
def finishes : Bool :=
  !e.recurring || (countsDown e && decide (e.remainingRuns - 1 ≤ 0))

/-- The arguments of `record_outcome`. -/
def report (o : Outcome) (durationMs now : ℤ) : Storage.Report :=
  let next := if e.recurring then env.nextFire e.trigger env.tzName now else none
  let failures : ℤ := e.consecutiveFailures + 1
  let slowed := e.recurring && Storage.isHardFailure o.status &&
    decide (0 < env.circuitBreakAfter) && !finishes e && decide (env.circuitBreakAfter ≤ failures)
  { status := o.status
    durationMs := durationMs
    error := o.error
    nextFireAt :=
      if slowed then some (max (next.getD 0) (now + 1000 * retryCooldownS env failures)) else next
    decrementRemaining := countsDown e
    disable := finishes e }

end

/-! ## The daemon -/

/-- How far `_fire` is. -/
inductive Stage
  | due
  /-- Behind the filters and the lock. -/
  | admitted
  /-- The callback is awaited. -/
  | called (runId : ℕ) (startedAt : ℤ)
  /-- Between `end_run` and `record_outcome`. -/
  | ended (outcome : Outcome) (durationMs : ℤ)
  /-- Before the lock that counts the fire out. -/
  | recorded

/-- A call of `_fire`, with the entry as it was fetched. -/
structure Fire where
  entry : ScheduleEntry
  stage : Stage

namespace Fire

def key (x : Fire) : ℕ := x.entry.id

def toStage (stage : Stage) (x : Fire) : Fire := { x with stage := stage }

/-- The fetched entry takes the bound that was stored. -/
def toAdmitted (stored : Bool) (bound : ℤ) (x : Fire) : Fire :=
  ⟨if stored then { x.entry with remainingRuns := bound } else x.entry, .admitted⟩

theorem key_toStage (stage : Stage) (x : Fire) : (x.toStage stage).key = x.key := rfl

theorem key_toAdmitted (stored : Bool) (bound : ℤ) (x : Fire) :
    (x.toAdmitted stored bound).key = x.key := by
  cases stored <;> rfl

end Fire

inductive Event
  /-- The callback of an entry is called. -/
  | started (entryId : ℕ)
  /-- A run ended; what was awaited, if the entry has a callback. -/
  | ended (entryId runId : ℕ) (awaited : Option Awaited) (status : String)
  /-- The entry was registered or enabled, and has these counters. -/
  | reset (entryId totalRuns consecutiveFailures : ℕ)

structure Daemon where
  storage : Storage
  /-- `_running` -/
  running : ℕ → ℕ
  /-- The fires of the tick. -/
  fires : Table Fire ℕ Fire.key
  /-- What happened, the newest first. -/
  history : List Event

namespace Daemon

def init : Daemon := ⟨.empty, fun _ => 0, .empty, []⟩

section
variable (env : Environment) (w : Daemon)

/-- Another stage for the fire of an entry. -/
def setStage (k : ℕ) (stage : Stage) : Daemon :=
  { w with
    fires := w.fires.updateWhere (fun x => x.key = k) (Fire.toStage stage) (Fire.key_toStage stage) }

/-- The call of `_fire` returned. -/
def endFire (k : ℕ) : Daemon := { w with fires := w.fires.keep fun x => x.key ≠ k }

/-- The rows of `fetch_due`. -/
def dueEntries (st : Storage) (now : ℤ) : List ScheduleEntry :=
  st.entries.select (fun e => e.enabled && decide (e.nextFireAt ≤ now))
    (fun a b => decide (a.nextFireAt ≤ b.nextFireAt)) 100

theorem dueEntries_nodup (st : Storage) (now : ℤ) :
    (((dueEntries st now).map fun e => (⟨e, .due⟩ : Fire)).map Fire.key).Nodup := by
  rw [List.map_map]
  show ((dueEntries st now).map ScheduleEntry.id).Nodup
  unfold dueEntries Table.select
  refine List.Nodup.sublist ((List.take_sublist _ _).map _) ?_
  refine List.Perm.nodup ((List.perm_insertionSort _ _).map _).symm ?_
  exact st.entries.nodup.sublist (List.filter_sublist.map _)

/-- A tick: the due entries are fired together. -/
def fetch (now : ℤ) : Daemon :=
  let due := (dueEntries w.storage now).map fun e => ⟨e, .due⟩
  { w with fires := ⟨due, dueEntries_nodup w.storage now⟩ }

/-- A fire that is skipped; a recurring entry gets its next instant unless that cannot be computed. -/
def skip (e : ScheduleEntry) (now : ℤ) : Daemon :=
  match env.nextFire e.trigger env.tzName now with
  | some next => { w with storage := w.storage.updateNextFire e.id next }.endFire e.id
  | none => w.endFire e.id

/-- `declared_times` -/
def declaredTimes (e : ScheduleEntry) : ℤ :=
  if (e.payload.get "times").truthy then (env.int (e.payload.get "times")).getD 0 else 0

/-- The number of runs that is stored for an old entry with a bound in its payload only. -/
def inferredRuns (e : ScheduleEntry) : Option ℤ :=
  if e.recurring && decide (e.remainingRuns = 0) && decide (0 < declaredTimes env e) then
    some (max 1 (declaredTimes env e - e.totalRuns))
  else none

/-- The fire is counted in, and the bound of an old entry is stored. -/
def enter (e : ScheduleEntry) : Daemon :=
  let w := { w with running := Function.update w.running e.id (w.running e.id + 1) }
  match inferredRuns env e with
  | none => w.setStage e.id .admitted
  | some inferred =>
    let stored := w.storage.uninitialized e.id
    { w with
      storage := w.storage.initializeRemainingRuns e.id inferred
      fires := w.fires.updateWhere (fun x => x.key = e.id) (Fire.toAdmitted stored inferred)
        (Fire.key_toAdmitted stored inferred) }

/-- `_fire` up to the first statement of the run. -/
def admitFire (e : ScheduleEntry) (now : ℤ) : Daemon :=
  if e.weekdays ≠ "" ∧ env.onAllowedDay e.weekdays now = false then
    if e.recurring then w.skip env e now
    else { w with storage := w.storage.disable e.id }.endFire e.id
  else if e.expiresAt ≠ "" ∧ env.expired e.expiresAt now = true then
    { w with storage := w.storage.disable e.id }.endFire e.id
  else if max 1 e.maxConcurrent ≤ w.running e.id then
    if e.recurring then w.skip env e now else w.endFire e.id
  else w.enter env e

/-- `begin_run`, and the callback is called. -/
def call (e : ScheduleEntry) (now : ℤ) : Daemon :=
  { w with
    storage := w.storage.beginRun e.id e.name now
    history := if env.registered e.callbackKey then .started e.id :: w.history else w.history
  }.setStage e.id (.called w.storage.beginRunId now)

/-- The `await` ended; `end_run`. -/
def endRun (e : ScheduleEntry) (runId : ℕ) (startedAt : ℤ) (a : Awaited) (now : ℤ) : Daemon :=
  let o := callOutcome env e a
  let awaited := if env.registered e.callbackKey then some a else none
  { w with
    storage := w.storage.endRun runId o.status (now - startedAt) o.output now
    history := .ended e.id runId awaited o.status :: w.history
  }.setStage e.id (.ended o (now - startedAt))

/-- `record_outcome` -/
def record (e : ScheduleEntry) (o : Outcome) (durationMs now : ℤ) : Daemon :=
  { w with storage := w.storage.recordOutcome e.id (report env e o durationMs now) }.setStage e.id
    .recorded

/-- The fire is counted out; it is not where the wait for the lock is cancelled. -/
def leave (k : ℕ) (cancelled : Bool) : Daemon :=
  if cancelled then w.endFire k
  else { w with running := Function.update w.running k (w.running k - 1) }.endFire k

/-- What a registration or an activation leaves in the history. -/
def reset (st : Storage) (k : ℕ) : List Event :=
  match st.entries.find? k with
  | some e => [.reset k e.totalRuns e.consecutiveFailures]
  | none => []

/-- New rows of the storage, where the counters of an entry start again. -/
def restart (st : Storage) (k : ℕ) : Daemon :=
  { w with storage := st, history := reset st k ++ w.history }

end

/-! ## Acts -/

inductive Act
  /-- `upsert`, called by `schedule`, `add_job` and `add_timer`. -/
  | upsert (e : ScheduleEntry)
  | delete (name : String)
  | purgeNames (names : List String)
  | enable (k : ℕ) (now : ℤ)
  | disable (k : ℕ)
  | updateNextFire (k : ℕ) (nextFireAt : ℤ)
  /-- The loop starts. -/
  | boot (now : ℤ)
  | fetch (now : ℤ)
  /-- The wait for the first lock is cancelled. -/
  | cancel (k : ℕ)
  | admitFire (k : ℕ) (now : ℤ)
  | call (k : ℕ) (now : ℤ)
  | endRun (k : ℕ) (a : Awaited) (now : ℤ)
  | record (k : ℕ) (now : ℤ)
  | leave (k : ℕ) (cancelled : Bool)
  /-- The process dies. -/
  | die

/-- The zone that `enable` computes the next instant in. -/
def defaultZone : String := "Europe/Rome"

/-- One act; there is nothing to do for an act that does not fit the stage. -/
def transact (env : Environment) (w : Daemon) : Act → Except Unit Daemon
  | .upsert e => .ok (w.restart (w.storage.upsert e) (w.storage.upsertId e))
  | .delete name => .ok { w with storage := w.storage.delete name }
  | .purgeNames names => .ok { w with storage := w.storage.purgeNames names }
  | .enable k now =>
    .ok (w.restart (w.storage.enable (fun t => env.nextFire t defaultZone now) k) k)
  | .disable k => .ok { w with storage := w.storage.disable k }
  | .updateNextFire k nextFireAt => .ok { w with storage := w.storage.updateNextFire k nextFireAt }
  | .boot now =>
    if w.fires.rows.isEmpty then .ok { w with storage := w.storage.markCrashedRuns now } else .error ()
  | .fetch now => if w.fires.rows.isEmpty then .ok (w.fetch now) else .error ()
  | .cancel k =>
    match w.fires.find? k with
    | some ⟨_, .due⟩ => .ok (w.endFire k)
    | _ => .error ()
  | .admitFire k now =>
    match w.fires.find? k with
    | some ⟨e, .due⟩ => .ok (w.admitFire env e now)
    | _ => .error ()
  | .call k now =>
    match w.fires.find? k with
    | some ⟨e, .admitted⟩ => .ok (w.call env e now)
    | _ => .error ()
  | .endRun k a now =>
    match w.fires.find? k with
    | some ⟨e, .called runId startedAt⟩ => .ok (w.endRun env e runId startedAt a now)
    | _ => .error ()
  | .record k now =>
    match w.fires.find? k with
    | some ⟨e, .ended o durationMs⟩ => .ok (w.record env e o durationMs now)
    | _ => .error ()
  | .leave k cancelled =>
    match w.fires.find? k with
    | some ⟨_, .recorded⟩ => .ok (w.leave k cancelled)
    | _ => .error ()
  | .die => .ok { w with running := fun _ => 0, fires := .empty }

/-- The daemon and its database after a sequence of acts. -/
abbrev runFrom (env : Environment) (w : Daemon) (acts : List Act) : Daemon :=
  Transaction.run (transact env) w acts

end Daemon

/-! ## The client -/

namespace Client

open Daemon

def resumeJob (st : Storage) (name : String) (now : ℤ) : List Act :=
  match st.getByName name with
  | none => []
  | some e => [.enable e.id now]

end Client

/-- The statements of `_recover_missed`. -/
def recoverMissed (env : Environment) (st : Storage) (now : ℤ) : List Daemon.Act :=
  st.entries.rows.flatMap fun e =>
    let age := now - e.nextFireAt
    if e.enabled && decide (0 < age) && e.graceWindowS.any (fun grace => decide (1000 * grace < age))
    then
      if e.recurring then
        match env.nextFire e.trigger env.tzName now with
        | some next => [.updateNextFire e.id next]
        | none => []
      else [.disable e.id]
    else []

end Metnos.Jobs
