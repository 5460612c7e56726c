import Metnos.Invocations.Cursor

/-!
# Invocations.Undo — the undo log under a result that comes in time, and under one that comes late

`UndoLog` as the list of its records, what the turn makes of a device's result (`invoke_remote` and
`_undo_done`), and what `complete_invocation` makes of the same result after the turn gave up
(`_close_late_undo`).
-/

namespace Metnos.Invocations

abbrev Fields := List (String × Json)

namespace Fields

/-- `fields[k] = v`. -/
def set (fields : Fields) (k : String) (v : Json) : Fields :=
  if fields.any fun f => f.1 = k then fields.map fun f => if f.1 = k then (k, v) else f
  else fields ++ [(k, v)]

/-- `fields.setdefault(k, v)`. -/
def setDefault (fields : Fields) (k : String) (v : Json) : Fields :=
  if fields.any fun f => f.1 = k then fields else fields ++ [(k, v)]

/-- `fields.pop(k, None)`. -/
def pop (fields : Fields) (k : String) : Fields := fields.filter fun f => f.1 ≠ k

/-- `bool(fields.get(k))`. -/
def holds (fields : Fields) (k : String) : Bool := (Json.get? fields k).any Json.truthy

end Fields

/-! ### The log -/

inductive UndoOutcome
  | reversible | noEffect | irreversible | invalid
deriving DecidableEq

/-- `pending`, with what its fields are read for; `done`; `closed`; `undone`. -/
inductive UndoRecord
  | pending (opId turnId device outcomeContract : String)
  | done (opId : String) (results : Fields)
  | closed (opId : String) (outcome : UndoOutcome) (reason : String)
  | undone (opId : String)

abbrev UndoLog := List UndoRecord

def UndoRecord.opId : UndoRecord → String
  | .pending opId _ _ _ | .done opId _ | .closed opId _ _ | .undone opId => opId

/-- `PER_EXECUTION_OUTCOME`. -/
def perExecutionOutcome : String := "per_execution"

/-- `_mutated_result`. -/
def mutatedResult (results : Fields) : Bool :=
  results.holds "ok" || results.holds "ok_count" || results.holds "results"

/-- The outcome a receipt declares under `_undo`. -/
def declaredOutcome (results : Fields) : UndoOutcome :=
  match Json.get? results "_undo" with
  | some (.obj metadata) =>
    match Json.get? metadata "outcome" with
    | some (.str "reversible") => .reversible
    | some (.str "no_effect") => .noEffect
    | some (.str "irreversible") => .irreversible
    | _ => .invalid
  | _ => .invalid

/-- `execution_undo_outcome`. -/
def executionUndoOutcome (results : Fields) (contract : String) : UndoOutcome :=
  if contract ≠ perExecutionOutcome then
    if mutatedResult results then .reversible else .noEffect
  else declaredOutcome results

/-- The record of `append_completion`. -/
def completionRecord (opId : String) (results : Fields) (contract : String) : UndoRecord :=
  match executionUndoOutcome results contract with
  | .reversible => .done opId results
  | .noEffect => .closed opId .noEffect ""
  | .irreversible => .closed opId .irreversible ""
  | .invalid => .closed opId .irreversible "invalid_execution_receipt"

/-- How an operation is classified once it is complete. -/
inductive Completion
  | done (results : Fields)
  | closed (outcome : UndoOutcome)

def UndoRecord.completes (opId : String) : UndoRecord → Option Completion
  | .done op results => if op = opId then some (.done results) else none
  | .closed op outcome _ => if op = opId then some (.closed outcome) else none
  | .pending _ _ _ _ | .undone _ => none

/-- The completion of an operation: of several records the last one counts. -/
def UndoLog.completion (log : UndoLog) (opId : String) : Option Completion :=
  (log.filterMap (UndoRecord.completes opId)).getLast?

/-- The turn, the device and the contract of a `pending` record. -/
def UndoRecord.starts (opId : String) : UndoRecord → Option (String × String × String)
  | .pending op turnId device contract => if op = opId then some (turnId, device, contract) else none
  | .done _ _ | .closed _ _ _ | .undone _ => none

/-- The last `pending` record of an operation. -/
def UndoLog.pending? (log : UndoLog) (opId : String) : Option (String × String × String) :=
  (log.filterMap (UndoRecord.starts opId)).getLast?

def UndoLog.isUndone (log : UndoLog) (opId : String) : Bool :=
  log.any fun
    | .undone op => op = opId
    | _ => false

/-- An open operation of the turn on the device: its contract. -/
def UndoLog.openFor (log : UndoLog) (turnId device opId : String) : Option String :=
  match log.pending? opId with
  | some (turn, dev, contract) =>
    if (log.completion opId).isNone && !log.isUndone opId && turn = turnId && dev = device then
      some contract
    else none
  | none => none

/-- The keys of `_aggregate_ops`. -/
def UndoLog.opIds (log : UndoLog) : List String :=
  (log.map UndoRecord.opId).eraseDups.filter fun opId => opId ≠ ""

/-- `close_pending_for_turn`. -/
def UndoLog.closePendingForTurn (log : UndoLog) (turnId : String) (results : Fields)
    (device : String) : UndoLog :=
  if turnId = "" then log
  else log ++ log.opIds.filterMap fun opId =>
    (log.openFor turnId device opId).map fun contract => completionRecord opId results contract

/-! ### A result in time -/

/-- What the dispatcher knows of an operation.  `token` is the field that `redact_result` removes,
`targetDevice` the name that `_ran_on_device` keeps. -/
structure Operation where
  opId : String
  turnId : String
  executor : String
  device : String
  outcomeContract : String
  token : Option String
  targetDevice : Option String

def Operation.pending (o : Operation) : UndoRecord :=
  .pending o.opId o.turnId o.device o.outcomeContract

/-- The texts of messages, and the timings of `_remote`, which come from the clocks. -/
structure Texts where
  message : String → String
  remote : Fields

/-- `ERROR_CODES` of `filesystem_permissions`. -/
def errorCodes : List String :=
  ["ERR_FS_PATH_INVALID", "ERR_FS_DEVICE_INVALID", "ERR_FS_GRANT_INVALID", "ERR_FS_GRANT_LIMIT",
    "ERR_FS_PERMISSION_REQUIRED", "ERR_FS_RESERVED_PATH", "ERR_FS_LINK_REFUSED",
    "ERR_FS_CONTRACT_INVALID", "ERR_FS_AUTHORITY_INVALID", "ERR_FS_INVOCATION_INVALID",
    "ERR_FS_REQUEST_EXPIRED", "ERR_FS_TRANSFER_INVALID", "ERR_FS_SIZE_LIMIT", "ERR_FS_DEST_EXISTS",
    "ERR_FS_HASH_MISMATCH", "ERR_FS_SOURCE_CHANGED", "ERR_FS_BINARY_ENCODING_REQUIRED",
    "ERR_FS_BROKER_UNSUPPORTED", "ERR_FS_IO"]

/-- An error with a known code gets its message; a list or a dict cannot be looked up as one. -/
def localize (T : Texts) (fields : Fields) : Option Fields :=
  match Json.get? fields "error_code" with
  | some (.str code) =>
    some (if errorCodes.contains code then fields.set "error" (.str (T.message code)) else fields)
  | some (.arr _) | some (.obj _) => none
  | _ => some fields

def localizeItem (T : Texts) : Json → Option Json
  | .obj fields => (localize T fields).map .obj
  | v => some v

/-- The loop over `failed`; a number or `true` cannot be looped over. -/
def localizeFailed (T : Texts) (fields : Fields) : Option Fields :=
  match Json.get? fields "failed" with
  | some (.arr items) =>
    (items.mapM (localizeItem T)).map fun items => fields.set "failed" (.arr items)
  | some (.int n) => if n = 0 then some fields else none
  | some (.float text) => if (Json.float text).truthy then none else some fields
  | some (.bool true) => none
  | _ => some fields

/-- `result.get("payload")` when it is a dict with something in it. -/
def payloadOf (result : Fields) : Option Fields :=
  match Json.get? result "payload" with
  | some (.obj payload) => if payload.isEmpty then none else some payload
  | _ => none

/-- What `invoke_remote` returns for a result: the payload with the transport's own fields, or the
result itself when an old client sent no payload. -/
def observe (T : Texts) (result : Fields) : Option Fields :=
  match payloadOf result with
  | some payload => do
    let localized ← localize T payload
    let merged ← localizeFailed T localized
    return (merged.setDefault "ok" (.bool (result.holds "ok"))).set "_remote" (.obj T.remote)
  | none => some (result.setDefault "ok" (.bool false))

/-- The mark of the device that ran the operation. -/
def Operation.mark (o : Operation) (observation : Fields) : Fields :=
  match o.targetDevice with
  | some name => observation.setDefault "_ran_on_device" (.str name)
  | none => observation

/-- The observation as it reaches the log. -/
def Operation.finish (o : Operation) (observation : Fields) : Fields :=
  match o.token with
  | some token => (o.mark observation).pop token
  | none => o.mark observation

/-- What `invoke_remote` returns when the wait is over. -/
def timeoutObservation (T : Texts) (o : Operation) (invocationId : String) : Fields :=
  [("ok", .bool false), ("error", .str (T.message "ERR_DEVICE_TIMEOUT")),
    ("error_class", .str "remote_timeout"), ("invocation_id", .str invocationId),
    ("device_id", .str o.device)]

/-- `_undo_done` on an observation. -/
def Operation.undoDone (o : Operation) (observation : Fields) : UndoRecord :=
  completionRecord o.opId (o.finish observation) o.outcomeContract

/-- The records of a turn that gets the result in time; it dies on one it cannot read. -/
def timelyRecords (T : Texts) (o : Operation) (result : Fields) : UndoLog :=
  ((observe T result).map o.undoDone).toList

/-! ### A late result -/

/-- `_MUTATING_PREFIXES`. -/
def mutatingPrefixes : List String :=
  ["delete", "move", "write", "create", "send", "share", "order", "change", "organize"]

/-- `executor.split("_", 1)[0]`. -/
def verb (executor : String) : String :=
  String.ofList (executor.toList.takeWhile fun c => c ≠ '_')

def payloadText (payload : Json) (name : String) : String :=
  match payload with
  | .obj fields => (field? fields name).getD ""
  | _ => ""

/-- `_close_late_undo`. -/
def closeLateUndo (log : UndoLog) (payload : Json) (result : Fields) : UndoLog :=
  if payloadText payload "turn_id" = "" ∨
      verb (payloadText payload "executor") ∉ mutatingPrefixes then log
  else log.closePendingForTurn (payloadText payload "turn_id") result
    ((field? result "device_id").getD "")

/-- `complete_invocation` with what follows its transaction: a late success closes the undo. -/
def recordResult (db : Db) (log : UndoLog) (dev : Option Device) (verified : Bool)
    (result : Fields) (now : ℚ) : Except InvocationError (Db × UndoLog) := do
  let db' ← completeInvocation db dev verified result now
  match (field? result "invocation_id").bind db.find? with
  | some row =>
    if row.state ≠ .done ∧ row.state ≠ .failed ∧
        (row.abandonedByTurn = true ∨ row.state = .expired) ∧ succeeded result = true then
      return (db', closeLateUndo log row.payload result)
    else return (db', log)
  | none => return (db', log)

end Metnos.Invocations
