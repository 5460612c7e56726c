import Mathlib.Logic.Function.Basic
import Mathlib.Order.Defs.LinearOrder
import Metnos.Lib.Dynamic
import Metnos.Lib.LastMax
import Metnos.Lib.Recent
import Metnos.Lib.Texts
import Metnos.Lib.Transaction

/-!
# Undo.Selection — the undo log as a file that several processes write

An append opens the log, waits for the lock of the file that it opened, and writes one line.  A
purge reads the log without the lock, writes the lines that it keeps to a temporary file and
renames it to the log.  Every system call is one step, writes may be cut by a crash after any
byte, and an iteration over the log decodes it as a whole.
-/

namespace Metnos.Undo

open Texts

abbrev Text := List Char

/-- The JSON texts of the records, and the time that a record carries. -/
structure Codec (Record Time : Type) where
  ts : Record → Time
  dumps : Record → Text
  loads : Text → Option Record
  loads_dumps : ∀ r, loads (dumps r) = some r
  /-- An object stands between braces. -/
  braces : ∀ r, ∃ body, dumps r = '{' :: body ++ ['}']
  /-- Control characters are escaped. -/
  newline : ∀ r, '\n' ∉ dumps r
  carriage : ∀ r, '\r' ∉ dumps r

/-! ## Reading -/

/-- `str.isspace`, on one character. -/
def isSpace (c : Char) : Bool :=
  decide (9 ≤ c.toNat ∧ c.toNat ≤ 13) || decide (0x1c ≤ c.toNat ∧ c.toNat ≤ 0x20) ||
    decide (0x2000 ≤ c.toNat ∧ c.toNat ≤ 0x200a) ||
    [0x85, 0xa0, 0x1680, 0x2028, 0x2029, 0x202f, 0x205f, 0x3000].contains c.toNat

/-- `str.strip`. -/
def strip (l : Text) : Text :=
  ((l.dropWhile isSpace).reverse.dropWhile isSpace).reverse

/-- The line endings of a file that is read as text. -/
def universal : Text → Text
  | [] => []
  | '\r' :: '\n' :: text => '\n' :: universal text
  | '\r' :: text => '\n' :: universal text
  | c :: text => c :: universal text

def encode (text : Text) : ByteArray := (String.ofList text).toByteArray

def decode (b : ByteArray) : Option Text := b.utf8Decode?.map Array.toList

/-- What iterating over the file yields, without the line ends. -/
def fileLines (b : ByteArray) : Option (List Text) :=
  (decode b).map fun text => lines '\n' (universal text)

section
variable {Record Time : Type} (codec : Codec Record Time)

def line (r : Record) : Text := codec.dumps r ++ ['\n']

/-- `_iter_records`; lines that are not JSON are passed over. -/
def iterRecords (b : ByteArray) : Option (List Record) :=
  (fileLines b).map fun ls => ((ls.map strip).filter (fun l => l ≠ [])).filterMap codec.loads

variable [LinearOrder Time] (cutoff : Time)

/-- The record of the line is older than the cutoff. -/
def outdated (l : Text) : Bool := (codec.loads l).any (fun r => decide (codec.ts r < cutoff))

def purgeLines (b : ByteArray) : Option (List Text) :=
  (fileLines b).map fun ls => ls.filter (fun l => strip l ≠ [])

/-- The lines that it keeps, those that are not JSON among them. -/
def kept (ls : List Text) : List Text := ls.filter (fun l => !outdated codec cutoff l)

end

/-! ## Writing -/

/-- What a write at a position of a file leaves. -/
def writeAt (b : ByteArray) (pos : ℕ) (piece : ByteArray) : ByteArray :=
  b.extract 0 pos ++ ⟨Array.replicate (pos - b.size) 0⟩ ++ piece ++
    b.extract (pos + piece.size) b.size

/-- Where a process stands. -/
inductive Phase (Record Time : Type)
  | idle
  /-- The log was opened as this inode, and the lock is awaited. -/
  | locking (record : Record) (inode : ℕ)
  | writing (record : Record) (inode : ℕ)
  /-- After the write, until the lock is given back. -/
  | syncing (inode : ℕ)
  /-- A purge has opened the log as this inode. -/
  | reading (cutoff : Time) (inode : ℕ)
  /-- It has read the log, and some records are outdated. -/
  | saving (cutoff : Time) (lines : List Text)
  /-- It writes `rest` to the temporary file that it opened. -/
  | filling (cutoff : Time) (inode : ℕ) (pos : ℕ) (rest : ByteArray)
  | replacing (cutoff : Time)

structure Log (Record Time : Type) where
  files : ℕ → ByteArray
  /-- The inode of the path of the log. -/
  path : ℕ
  /-- The inode of the temporary path. -/
  tmp : Option ℕ
  /-- The inodes that were never used start here. -/
  unused : ℕ
  /-- Who holds the lock of an inode. -/
  holder : ℕ → Option ℕ
  phase : ℕ → Phase Record Time
  /-- The records whose line was written to its end, in that order. -/
  written : List Record
  /-- The latest cutoff of a purge that replaced the log. -/
  latest : Option Time

inductive Action (Record Time : Type)
  | append (p : ℕ) (record : Record)
  | purge (p : ℕ) (cutoff : Time)
  /-- The next system call of the process. -/
  | next (p : ℕ)
  /-- A purge flushes some bytes of what it writes. -/
  | fill (p : ℕ) (bytes : ℕ)
  /-- The process ends within the write of a line. -/
  | cut (p : ℕ) (bytes : ℕ)
  | crash (p : ℕ)

namespace Log

variable {Record Time : Type} (s : Log Record Time)

def empty : Log Record Time where
  files := fun _ => .empty
  path := 0
  tmp := none
  unused := 1
  holder := fun _ => none
  phase := fun _ => .idle
  written := []
  latest := none

def goto (p : ℕ) (phase : Phase Record Time) : Log Record Time :=
  { s with phase := Function.update s.phase p phase }

/-- `write` at the end of the file. -/
def append (i : ℕ) (bytes : ByteArray) : Log Record Time :=
  { s with files := Function.update s.files i (s.files i ++ bytes) }

/-- The process ends, and its locks with it. -/
def crash (p : ℕ) : Log Record Time :=
  { s with holder := fun i => if s.holder i = some p then none else s.holder i }.goto p .idle

/-- `open(tmp, "w")`: the file that is there is truncated. -/
def openTmp : Log Record Time × ℕ :=
  match s.tmp with
  | some i => ({ s with files := Function.update s.files i .empty }, i)
  | none =>
    ({ s with
        files := Function.update s.files s.unused .empty
        tmp := some s.unused
        unused := s.unused + 1 }, s.unused)

variable [LinearOrder Time] (codec : Codec Record Time)

/-- `os.replace(tmp, path)`, which raises when the temporary path is gone. -/
def replace (cutoff : Time) : Log Record Time :=
  match s.tmp with
  | some i =>
    { s with
      path := i
      tmp := none
      latest := some (s.latest.elim cutoff (max cutoff)) }
  | none => s

/-- The next system call, by the phase of the process. -/
def next (p : ℕ) : Phase Record Time → Option (Log Record Time)
  | .idle => none
  | .locking r i =>
    if (s.holder i).isNone then
      some ({ s with holder := Function.update s.holder i (some p) }.goto p (.writing r i))
    else none
  | .writing r i =>
    some ({ s with written := s.written ++ [r] }.append i (encode (line codec r))|>.goto p
      (.syncing i))
  | .syncing i => some ({ s with holder := Function.update s.holder i none }.goto p .idle)
  | .reading cutoff i =>
    match purgeLines (s.files i) with
    | none => some (s.goto p .idle)
    | some ls =>
      if ls.any (outdated codec cutoff) then some (s.goto p (.saving cutoff (kept codec cutoff ls)))
      else some (s.goto p .idle)
  | .saving cutoff ls =>
    some (s.openTmp.1.goto p (.filling cutoff s.openTmp.2 0 (encode (render '\n' ls))))
  | .filling cutoff _ _ rest => if rest.size = 0 then some (s.goto p (.replacing cutoff)) else none
  | .replacing cutoff => some ((s.replace cutoff).goto p .idle)

/-- One step; `none` when the process is not there. -/
def step : Action Record Time → Option (Log Record Time)
  | .append p r =>
    match s.phase p with
    | .idle => some (s.goto p (.locking r s.path))
    | _ => none
  | .purge p cutoff =>
    match s.phase p with
    | .idle => some (s.goto p (.reading cutoff s.path))
    | _ => none
  | .next p => s.next codec p (s.phase p)
  | .fill p n =>
    match s.phase p with
    | .filling cutoff i pos rest =>
      let piece := rest.extract 0 n
      some ({ s with files := Function.update s.files i (writeAt (s.files i) pos piece) }.goto p
        (.filling cutoff i (pos + piece.size) (rest.extract n rest.size)))
    | _ => none
  | .cut p n =>
    match s.phase p with
    | .writing r i => some ((s.append i ((encode (line codec r)).extract 0 n)).crash p)
    | _ => none
  | .crash p => some (s.crash p)

def transition (s : Log Record Time) (action : Action Record Time) :
    Except Unit (Log Record Time) :=
  match s.step codec action with
  | some s' => .ok s'
  | none => .error ()

def run (actions : List (Action Record Time)) : Log Record Time :=
  Transaction.run (transition codec) s actions

/-- The record is not older than the cutoff of a purge that replaced the log. -/
def current (r : Record) : Bool := s.latest.all (fun cutoff => decide (cutoff ≤ codec.ts r))

/-- The log yields what was written, in its order. -/
def Durable : Prop :=
  ∃ yielded, iterRecords codec (s.files s.path) = some yielded ∧
    (s.written.filter (s.current codec)).Sublist yielded

end Log

end Metnos.Undo

/-!
## What the next undo reverses

The records of one operation are collected by its id, whatever their order in the log.
`latest_turn_done` takes the operation of the person that was completed last, where also a closed one
and one that was undone count as completed, and returns what is done and not undone in its turn.
-/

namespace Metnos.Undo

open LastMax

/-! ## Records -/

structure Pending (Time : Type) where
  opId : String
  turnId : String
  ts : Time
  actor : String := "host"
  channel : String := ""
  device : String := ""
  executor : String := ""
  args : Json := .obj []
  plan : Json := .obj []
  outcomeContract : String := ""

structure Done (Time : Type) where
  opId : String
  ts : Time
  results : Json

structure Closed (Time : Type) where
  opId : String
  ts : Time
  outcome : String
  reason : String := ""

structure Undone (Time : Type) where
  opId : String
  ts : Time
  reverseResults : Json

/-- A line of the log, by its `type`. -/
inductive Entry (Time : Type)
  | pending (p : Pending Time)
  | done (d : Done Time)
  | closed (c : Closed Time)
  | undone (u : Undone Time)

namespace Entry

variable {Time : Type}

def opId : Entry Time → String
  | pending p => p.opId
  | done d => d.opId
  | closed c => c.opId
  | undone u => u.opId

def ts : Entry Time → Time
  | pending p => p.ts
  | done d => d.ts
  | closed c => c.ts
  | undone u => u.ts

def completes : Entry Time → Bool
  | pending _ => false
  | _ => true

end Entry

/-! ## Appends -/

/-- `_mutated_result` -/
def mutatedResult : Json → Bool
  | .obj results => (Dynamic.Dict.get results "ok").truthy ||
      (Dynamic.Dict.get results "ok_count").truthy || (Dynamic.Dict.get results "results").truthy
  | _ => false

/-- `UNDO_OUTCOMES` -/
def undoOutcomes : List String := ["reversible", "no_effect", "irreversible"]

/-- `execution_undo_outcome` -/
def executionUndoOutcome (results : Json) (contract : String) : String :=
  if contract ≠ "per_execution" then
    if mutatedResult results then "reversible" else "no_effect"
  else
    let metadata := (Dynamic.asDict results).map fun d => Dynamic.Dict.get d "_undo"
    let outcome := (metadata.bind Dynamic.asDict).map fun d => Dynamic.Dict.get d "outcome"
    match outcome.bind Dynamic.asStr with
    | some text => if text ∈ undoOutcomes then text else "invalid"
    | none => "invalid"

section
variable {Time : Type}

/-- `append_completion`: the record that it appends. -/
def completionEntry (opId : String) (results : Json) (contract : String) (ts : Time) : Entry Time :=
  let outcome := executionUndoOutcome results contract
  if outcome = "reversible" then .done ⟨opId, ts, results⟩
  else if outcome = "no_effect" ∨ outcome = "irreversible" then .closed ⟨opId, ts, outcome, ""⟩
  else .closed ⟨opId, ts, "irreversible", "invalid_execution_receipt"⟩

inductive Act (Time : Type)
  | appendPending (p : Pending Time)
  | appendCompletion (opId : String) (results : Json) (contract : String) (ts : Time)
  | appendClosed (opId outcome reason : String) (ts : Time)
  | appendUndone (opId : String) (reverseResults : Json) (ts : Time)
  | purgeOlderThan (cutoff : Time)

/-- The record that an act appends; `append_closed` refuses other outcomes. -/
def Act.entry : Act Time → Option (Entry Time)
  | appendPending p => some (.pending p)
  | appendCompletion opId results contract ts => some (completionEntry opId results contract ts)
  | appendClosed opId outcome reason ts =>
    if outcome = "no_effect" ∨ outcome = "irreversible" then some (.closed ⟨opId, ts, outcome, reason⟩)
    else none
  | appendUndone opId reverseResults ts => some (.undone ⟨opId, ts, reverseResults⟩)
  | purgeOlderThan _ => none

/-! ## Operations -/

/-- What `_aggregate_ops` collects of one operation: the last record of each type. -/
structure Op (Time : Type) where
  pending : Option (Pending Time) := none
  done : Option (Done Time) := none
  closed : Option (Closed Time) := none
  undone : Option (Undone Time) := none

/-- `entry[rec["type"]] = rec` -/
def Op.set (op : Op Time) : Entry Time → Op Time
  | .pending p => { op with pending := some p }
  | .done d => { op with done := some d }
  | .closed c => { op with closed := some c }
  | .undone u => { op with undone := some u }

abbrev Ops (Time : Type) := List (String × Op Time)

/-- One step of the loop of `_aggregate_ops`. -/
def Ops.add (ops : Ops Time) (r : Entry Time) : Ops Time :=
  if r.opId = "" then ops
  else if ops.any fun e => e.1 = r.opId then
    ops.map fun e => if e.1 = r.opId then (e.1, e.2.set r) else e
  else ops ++ [(r.opId, ({} : Op Time).set r)]

/-- `_aggregate_ops` -/
def aggregateOps (log : List (Entry Time)) : Ops Time := log.foldl Ops.add []

/-- `op.get("undone") or op.get("closed") or op.get("done")`, by its time. -/
def Op.completedAt (op : Op Time) : Option Time :=
  (op.undone.map Undone.ts).or ((op.closed.map Closed.ts).or (op.done.map Done.ts))

/-- An item of `completed_ops`. -/
structure Completed (Time : Type) where
  pending : Pending Time
  ts : Time
  done : Option (Done Time)

def Op.completed (op : Op Time) : Option (Completed Time) :=
  match op.pending, op.completedAt with
  | some pending, some ts => some ⟨pending, ts, if op.undone.isNone then op.done else none⟩
  | _, _ => none

/-- `p.get("actor") or "host"` -/
def Pending.person (p : Pending Time) : String := if p.actor = "" then "host" else p.actor

/-- The operation is one that was asked for. -/
def Pending.isOf (actor : Option String) (p : Pending Time) : Bool :=
  actor.all fun a => p.person = a

/-- `completed_ops` -/
def completedOps (actor : Option String) (log : List (Entry Time)) : List (Completed Time) :=
  ((aggregateOps log).filterMap fun e => e.2.completed).filter fun x => x.pending.isOf actor

/-- `_same_boundary` -/
def sameBoundary (latest p : Pending Time) : Bool :=
  if latest.turnId ≠ "" then p.turnId = latest.turnId else p.opId = latest.opId

variable [LinearOrder Time]

def boundary (actor : Option String) (log : List (Entry Time)) : Option (Completed Time) :=
  (sortBy Completed.ts (completedOps actor log)).getLast?

/-- `latest_turn_done`: each pending record with the results of its done record. -/
def latestTurnDone (actor : Option String) (log : List (Entry Time)) :
    List (Pending Time × Json) :=
  match boundary actor log with
  | none => []
  | some latest =>
    let sameTurn := (sortBy Completed.ts (completedOps actor log)).filterMap fun x =>
      if sameBoundary latest.pending x.pending then x.done.map fun d => (x.pending, d) else none
    (sortBy (fun x : Pending Time × Done Time => x.2.ts) sameTurn).map fun x => (x.1, x.2.results)

/-- `purge_older_than`, by its cutoff. -/
def purgeOlderThan (cutoff : Time) (log : List (Entry Time)) : List (Entry Time) :=
  log.filter fun r => !decide (r.ts < cutoff)

/-- An act on the log; `append_closed` may raise. -/
def transition (log : List (Entry Time)) : Act Time → Except Unit (List (Entry Time))
  | .purgeOlderThan cutoff => .ok (purgeOlderThan cutoff log)
  | a =>
    match a.entry with
    | some r => .ok (log ++ [r])
    | none => .error ()

end

end Metnos.Undo
