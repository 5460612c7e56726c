import Metnos.Client.Wire
import Metnos.Lib.Recent
import Metnos.Lib.Transaction

/-!
# Client.Runner — the client between two file steps

`runner.rs`: what is on disk (STARTED markers, spooled results, the ledger of executed ids), the
running process with its set of executed ids, and one event for each step that writes or removes a
file, or may stop at a crash.  A response is an id: its signature is good, and what the server signs
under an id, in particular whether it is `read_only`, does not change.
-/

namespace Metnos.Client

/-- `EXECUTED_CAP`. -/
def executedCap : ℕ := 100000

/-- `executed.log`: its lines, and what stands after the last newline. -/
structure Ledger where
  lines : List String
  rest : String

namespace Ledger

def texts (l : Ledger) : List String := l.lines ++ if l.rest = "" then [] else [l.rest]

/-- `load_executed_ledger`; none is a corrupt ledger, which stops the start. -/
def load (l : Ledger) : Option (List String) :=
  let texts := l.texts.filter fun text => text ≠ ""
  if texts.all fun text => (invocationEpoch text).isSome then
    let ids := Recent.keepFirst texts
    some (ids.drop (ids.length - executedCap))
  else none

/-- The first `n` characters of the line with the id are appended. -/
def write (l : Ledger) (id : String) (n : ℕ) : Ledger :=
  if id.length < n then ⟨l.lines ++ [l.rest ++ id], ""⟩
  else { l with rest := l.rest ++ String.ofList (id.toList.take n) }

end Ledger

/-- Where the process is: in the loop, in `recover_started`, or in `handle` after the marker, in the
executor, after the result was spooled, or after it was recorded. -/
inductive Phase
  | idle
  | recovering (todo recovered : List String)
  | marked (id : String)
  | executing (id : String)
  | spooled (id : String)
  | recorded (id : String)
deriving DecidableEq

structure Process where
  executed : List String
  phase : Phase

/-- What the run did: an id entered `execute`, or came into the ledger or the set for the first
time. -/
inductive Entry
  | executed (id : String)
  | recorded (id : String)
deriving DecidableEq

structure Device where
  started : Finset String
  results : Finset String
  ledger : Ledger
  process : Option Process
  trace : List Entry

def Device.init : Device := ⟨∅, ∅, ⟨[], ""⟩, none, []⟩

/-- A flag is whether a write or a removal succeeded. -/
inductive RunnerEvent
  | boot (pending todo : List String)
  | spoolUnknown (written : Bool)
  | clearStarted (removed : Bool)
  | ready
  | poll (id : String) (now : ℤ) (written : Bool)
  | enter
  | spool (written : Bool)
  | record (characters : ℕ) (written : Bool)
  | finish (removed : Bool)
  | deliver (id : String)
  | crash

def Device.within (S : Device) (p : Process) (phase : Phase) : Device :=
  { S with process := some { p with phase := phase } }

def recordedAll (ids : List String) : List Entry := ids.map .recorded

/-- `Runner::new` up to `recover_started`, with the files as the directories list them. -/
def Device.boot (S : Device) (pending todo : List String) : Except Unit Device :=
  match S.process, S.ledger.load with
  | none, some ids =>
    if pending.toFinset = S.results ∧ todo.toFinset = S.started then
      .ok { S with
        process := some ⟨pending.foldl (Recent.insert executedCap)
          (ids.foldl (Recent.insert executedCap) []), .recovering todo []⟩
        trace := S.trace ++
          recordedAll ((if S.ledger.rest = "" then [] else [S.ledger.rest]) ++ pending) }
    else .error ()
  | _, _ => .error ()

/-- `recover_started`, before the marker of the next id is removed: the id gets an uncertain result
if it is not `read_only` and has none. -/
def Device.spoolUnknown (readOnly : String → Bool) (S : Device) (p : Process) (id : String)
    (todo recovered : List String) (written : Bool) : Except Unit Device :=
  if id ∈ S.results ∨ readOnly id then .error ()
  else if written then .ok { S with results := Insert.insert id S.results }
  else .ok (S.within p (.recovering todo recovered))

/-- The marker of the next id is removed; a `read_only` id without a result is not recovered. -/
def Device.clearStarted (readOnly : String → Bool) (S : Device) (p : Process) (id : String)
    (todo recovered : List String) (removed : Bool) : Except Unit Device :=
  if id ∈ S.results ∨ readOnly id then
    .ok { S.within p (.recovering todo (if id ∈ S.results then recovered ++ [id] else recovered)) with
      started := if removed then S.started.erase id else S.started }
  else .error ()

/-- A response in the loop of `run`, and `handle` up to `write_started`. -/
def Device.poll (S : Device) (p : Process) (id : String) (now : ℤ) (written : Bool) : Device :=
  if id ∈ p.executed then S
  else if !validateInvocationFreshness id now then S
  else if !written then S
  else { S.within p (.marked id) with started := Insert.insert id S.started }

/-- `record_executed`: a failed append leaves any part of the line. -/
def Device.append (S : Device) (p : Process) (id : String) (characters : ℕ) (written : Bool) :
    Except Unit Device :=
  if written && !decide (id.length < characters) then .error ()
  else .ok { S.within p (if written then .recorded id else .idle) with
    ledger := S.ledger.write id characters
    trace := S.trace ++ if id.length < characters then [.recorded id] else [] }

def Device.step (readOnly : String → Bool) (S : Device) : RunnerEvent → Except Unit Device
  | .boot pending todo => S.boot pending todo
  | .crash => .ok { S with process := none }
  | e =>
    match S.process with
    | none => .error ()
    | some p =>
      match e, p.phase with
      | .spoolUnknown written, .recovering (id :: todo) recovered =>
        S.spoolUnknown readOnly p id todo recovered written
      | .clearStarted removed, .recovering (id :: todo) recovered =>
        S.clearStarted readOnly p id todo recovered removed
      | .ready, .recovering [] recovered => .ok { S with
          process := some ⟨recovered.foldl (Recent.insert executedCap) p.executed, .idle⟩
          trace := S.trace ++ recordedAll recovered }
      | .poll id now written, .idle => .ok (S.poll p id now written)
      | .enter, .marked id =>
        .ok { S.within p (.executing id) with trace := S.trace ++ [.executed id] }
      | .spool written, .executing id =>
        -- `write_pending_result` may fail: `handle` then returns with the marker in place
        if written then .ok { S.within p (.spooled id) with results := Insert.insert id S.results }
        else .ok (S.within p .idle)
      | .record characters written, .spooled id =>
        S.append p id characters written
      | .finish removed, .recorded id => .ok { S with
          process := some ⟨Recent.insert executedCap p.executed id, .idle⟩
          started := if removed then S.started.erase id else S.started }
      | .deliver id, .idle =>
        if id ∈ S.results then .ok { S with results := S.results.erase id } else .error ()
      | _, _ => .error ()

/-- The ids recorded after the first entry of `id` into `execute`. -/
def since (id : String) : List Entry → Finset String
  | [] => ∅
  | .executed other :: rest => if other = id then recordedIn rest else since id rest
  | .recorded _ :: rest => since id rest
where
  recordedIn : List Entry → Finset String
    | [] => ∅
    | .recorded other :: rest => Insert.insert other (recordedIn rest)
    | .executed _ :: rest => recordedIn rest

abbrev Device.run (readOnly : String → Bool) (events : List RunnerEvent) : Device :=
  Transaction.run (Device.step readOnly) .init events

end Metnos.Client

/-!
## Where the client remembers what it executed

An id that entered `execute` leaves its marker, its spooled result, or its line of the ledger on
disk; a running process also has it in its set, or its marker is still there.  Only as many other
ids as the set holds make the client forget it.
-/

namespace Metnos.Client

/-! ### The trace -/

theorem since_of_notMem {id : String} {t : List Entry} (h : .executed id ∉ t) : since id t = ∅ := by
  induction t with
  | nil => rfl
  | cons e t ih =>
    rw [List.mem_cons, not_or] at h
    cases e with
    | executed other =>
      rw [since, if_neg fun heq => h.1 (by rw [heq])]
      exact ih h.2
    | recorded other =>
      rw [since]
      exact ih h.2

theorem recordedIn_append (t t' : List Entry) :
    since.recordedIn (t ++ t') = since.recordedIn t ∪ since.recordedIn t' := by
  induction t with
  | nil => rw [List.nil_append, since.recordedIn, Finset.empty_union]
  | cons e t ih =>
    cases e with
    | executed other => rw [List.cons_append, since.recordedIn, since.recordedIn, ih]
    | recorded other =>
      rw [List.cons_append, since.recordedIn, since.recordedIn, ih, Finset.insert_union]

theorem since_append {id : String} {t : List Entry} (h : .executed id ∈ t) (t' : List Entry) :
    since id (t ++ t') = since id t ∪ since.recordedIn t' := by
  induction t with
  | nil => cases h
  | cons e t ih =>
    cases e with
    | executed other =>
      rw [List.cons_append, since, since]
      by_cases heq : other = id
      · rw [if_pos heq, if_pos heq, recordedIn_append]
      · rw [if_neg heq, if_neg heq]
        refine ih ((List.mem_cons.mp h).resolve_left fun h => heq ?_)
        cases h
        rfl
    | recorded other =>
      rw [List.cons_append, since, since]
      exact ih ((List.mem_cons.mp h).resolve_left (by simp))

theorem recordedIn_recordedAll (ids : List String) :
    since.recordedIn (recordedAll ids) = ids.toFinset := by
  induction ids with
  | nil => rfl
  | cons id ids ih =>
    show Insert.insert id (since.recordedIn (recordedAll ids)) = _
    rw [ih, List.toFinset_cons]

theorem since_subset (id : String) (t t' : List Entry) :
    since id t ⊆ since id (t ++ t') := by
  by_cases h : .executed id ∈ t
  · rw [since_append h]
    exact Finset.subset_union_left
  · rw [since_of_notMem h]
    exact Finset.empty_subset _

/-! ### The ledger -/

/-- A finished line is no id, so that the client does not start again. -/
def Ledger.Corrupt (l : Ledger) : Prop :=
  ∃ text ∈ l.lines, text ≠ "" ∧ invocationEpoch text = none

def Ledger.named (l : Ledger) : List String := l.lines.filter fun text => text ≠ ""

theorem Ledger.load_corrupt {l : Ledger} (h : l.Corrupt) : l.load = none := by
  obtain ⟨text, hmem, hne, hnone⟩ := h
  unfold load
  refine if_neg fun hall => ?_
  have := List.all_eq_true.mp hall text (List.mem_filter.mpr
    ⟨List.mem_append_left _ hmem, by simpa using hne⟩)
  rw [hnone] at this
  cases this

theorem Ledger.texts_named (l : Ledger) :
    l.texts.filter (fun text => text ≠ "") =
      l.named ++ if l.rest = "" then [] else [l.rest] := by
  unfold texts named
  rw [List.filter_append]
  by_cases h : l.rest = "" <;> simp [h]

theorem epoch_length {id : String} (h : (invocationEpoch id).isSome) : id.length = 28 := by
  unfold invocationEpoch at h
  split at h
  · cases h
  · split at h
    · cases h
    · rename_i form
      simp only [Bool.or_eq_true, decide_eq_true_eq, not_or, not_not] at form
      exact form.1

theorem epoch_append {rest id : String} (hid : id.length = 28) (hrest : rest ≠ "") :
    invocationEpoch (rest ++ id) = none := by
  by_contra h
  have length := epoch_length (Option.isSome_iff_ne_none.mpr h)
  rw [String.length_append, hid] at length
  have empty : rest.length = 0 := by omega
  exact hrest (String.length_eq_zero_iff.mp empty)

/-! ### What is kept of an executed id -/

abbrev Crowded (S : Device) (id : String) : Prop :=
  Recent.Crowded executedCap (since id S.trace) id

abbrev Followed (S : Device) (ids : List String) (id : String) : Prop :=
  Recent.Followed (since id S.trace) ids id

structure Remembered (S : Device) (id : String) : Prop where
  ledger : id ∈ S.ledger.named →
    S.ledger.Corrupt ∨ Followed S (Recent.keepFirst S.ledger.named) id
  disk : id ∈ S.started ∨ id ∈ S.results ∨ id ∈ S.ledger.named ∨ S.ledger.Corrupt ∨ Crowded S id
  memory : ∀ p, S.process = some p → id ∈ S.started ∨ Crowded S id ∨ id ∈ p.executed ∨
    ∃ todo recovered, p.phase = .recovering todo recovered ∧ id ∈ recovered
  known : ∀ p, S.process = some p → id ∈ p.executed → Followed S p.executed id ∨ Crowded S id

def Phase.busy : Phase → Option String
  | .marked id | .executing id | .spooled id | .recorded id => some id
  | _ => none

def Phase.entered : Phase → Option String
  | .executing id | .spooled id | .recorded id => some id
  | _ => none

/-- What holds of the id that `handle` is at. -/
structure Handling (readOnly : String → Bool) (S : Device) (p : Process) : Prop where
  nodup : p.executed.Nodup
  busy : ∀ id, p.phase.busy = some id →
    id ∈ S.started ∧ id ∉ p.executed ∧ (invocationEpoch id).isSome
  marked : ∀ id, p.phase = .marked id → readOnly id = false → .executed id ∈ S.trace →
    Crowded S id
  entered : ∀ id, p.phase.entered = some id → .executed id ∈ S.trace
  recorded : ∀ id, p.phase = .recorded id → (id ∈ S.ledger.named ∨ S.ledger.Corrupt) ∧
    ∀ other, other ≠ id → .executed other ∈ S.trace → id ∈ since other S.trace

/-- An id that enters `execute` again was crowded out before. -/
def Once (readOnly : String → Bool) (trace : List Entry) : Prop :=
  ∀ id, readOnly id = false → ∀ before after, trace = before ++ .executed id :: after →
    .executed id ∈ before → Recent.Crowded executedCap (since id before) id

structure Kept (readOnly : String → Bool) (S : Device) : Prop where
  handling : ∀ p, S.process = some p → Handling readOnly S p
  lines : ∀ id ∈ S.ledger.named, .executed id ∈ S.trace ∨ S.ledger.Corrupt
  remembered : ∀ id, readOnly id = false → .executed id ∈ S.trace → Remembered S id
  once : Once readOnly S.trace

/-- The client only acts on a response for an id whose marker is there if it knows the id, and takes
a result out of the spool only while the ledger or a marker has its id. -/
def Careful (readOnly : String → Bool) (S : Device) : RunnerEvent → Prop
  | .poll id _ _ => readOnly id = false → id ∈ S.started → ∀ p, S.process = some p → id ∈ p.executed
  | .deliver id => readOnly id = false → id ∈ S.ledger.named ∨ id ∈ S.started
  | _ => True

end Metnos.Client
