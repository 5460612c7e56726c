import Mathlib.Logic.Function.Basic
import Metnos.Ownership.Heads

/-!
# Ownership.Store — appending heads and moving the required head

Every file operation is one step, also each piece of a write; any number of calls may be under way,
and only the moving of the required head is under a lock.  A call may raise or be stopped before
any of its steps.
-/

namespace Metnos.Ownership

/-- The two files of a head. -/
inductive Part
  | payload | signature
deriving DecidableEq

inductive Name
  | required
  | requiredTmp (headId : String)
  | file (part : Part) (stem : String)
  | tmp (part : Part) (stem suffix : String)
deriving DecidableEq

def Head.bytes (h : Head) : Part → Bytes
  | .payload => h.encoded
  | .signature => h.signature

/-- What a temporary file is written for. -/
inductive Job
  | pair (h : Head) (part : Part)
  /-- The required head; the frame that is there, if there is one. -/
  | pointer (h : Head) (current : Option Bytes)

/-- The tests before a pair is appended, in their order. -/
inductive Test
  | payloadFirst | signatureFirst | signatureSecond | payloadSecond | orphan

/-- Where a call stands. -/
inductive Phase
  | idle
  | testing (h : Head) (test : Test)
  /-- `temporary.exists()`. -/
  | looking (job : Job)
  | opening (job : Job)
  | writing (job : Job) (inode : ℕ) (rest : Bytes)
  /-- The temporary file that is there is read. -/
  | comparing (job : Job)
  | publishing (job : Job)
  /-- The destination was there. -/
  | found (job : Job)
  /-- The `finally` of an append, one file after the other. -/
  | dropping (h : Head) (part : Part)
  | waiting (h : Head) (expected : Option String)
  /-- The four tests of `_read_pair`; `payload` is what the third one saw. -/
  | pairFirst (h : Head) (expected : Option String)
  | pairSecond (h : Head) (expected : Option String)
  | pairThird (h : Head) (expected : Option String)
  | pairFourth (h : Head) (expected : Option String) (payload : Bool)
  | reading (h : Head) (expected : Option String) (part : Part)
  | pointerThere (h : Head) (expected : Option String)
  | pointerRead (h : Head) (expected : Option String)
  | rechecking (h : Head) (current : Option Bytes)
  | replacing (h : Head)
  /-- The `finally` of an update. -/
  | cleaning (h : Head) (ok : Bool)
  | rereading (h : Head)
  | unlocking

structure Chain where
  names : Name → Option ℕ
  content : ℕ → Bytes
  /-- The inodes that were never used start here. -/
  unused : ℕ
  /-- Who holds the lock of the required head. -/
  lock : Option ℕ
  phase : ℕ → Phase
  /-- The heads that the required pointer has named, in order. -/
  history : List Head

inductive Action
  | append (p : ℕ) (encoded signature : Bytes)
  | update (p : ℕ) (encoded signature : Bytes) (expected : Option String)
  | next (p : ℕ)
  | write (p : ℕ) (bytes : ℕ)
  /-- The step fails, or the call raises there. -/
  | fail (p : ℕ)
  | stop (p : ℕ)

variable (site : Site)

/-- `f".{stem}.{suffix}"`, with the digest of both files. -/
def suffix (h : Head) : String := site.sha256 (h.encoded ++ h.signature)

/-- The frame of the required pointer, as bytes. -/
def frame (h : Head) : Bytes := (encodeRequiredHead h).toOption.getD []

namespace Job

def tmp : Job → Name
  | .pair h part => .tmp part (stem h) (suffix site h)
  | .pointer h _ => .requiredTmp h.headId

def target : Job → Name
  | .pair h part => .file part (stem h)
  | .pointer .. => .required

def bytes : Job → Bytes
  | .pair h part => h.bytes part
  | .pointer h _ => frame h

/-- What raising within the `try` leads to. -/
def raised : Job → Phase
  | .pair h _ => .dropping h .signature
  | .pointer h _ => .cleaning h false

/-- After the temporary file is complete. -/
def complete : Job → Phase
  | .pair h part => .publishing (.pair h part)
  | .pointer h current => .rechecking h current

/-- After the destination is there with the bytes. -/
def done : Job → Phase
  | .pair h .signature => .looking (.pair h .payload)
  | .pair h .payload => .dropping h .signature
  | .pointer h _ => .cleaning h true

end Job

namespace Chain

variable (s : Chain)

def empty : Chain where
  names := fun _ => none
  content := fun _ => []
  unused := 0
  lock := none
  phase := fun _ => .idle
  history := []

def goto (p : ℕ) (phase : Phase) : Chain :=
  { s with phase := Function.update s.phase p phase }

def there (n : Name) : Bool := (s.names n).isSome

def read (n : Name) : Option Bytes := (s.names n).map s.content

def unlink (n : Name) : Chain := { s with names := Function.update s.names n none }

/-- `open` with `O_CREAT | O_EXCL`, of a file that is not there. -/
def create (n : Name) : Chain :=
  { s with
    names := Function.update s.names n (some s.unused)
    content := Function.update s.content s.unused []
    unused := s.unused + 1 }

def rename (source target : Name) (i : ℕ) : Chain :=
  { s with names := Function.update (Function.update s.names target (some i)) source none }

/-- The required pointer now names the head. -/
def note (job : Job) : Chain :=
  match job with
  | .pair .. => s
  | .pointer h _ => { s with history := s.history ++ [h] }

def test (h : Head) : Test → Phase
  | .payloadFirst =>
    if s.there (.file .payload (stem h)) then .testing h .signatureFirst
    else .testing h .signatureSecond
  | .signatureFirst =>
    if s.there (.file .signature (stem h)) then .testing h .signatureSecond else .idle
  | .signatureSecond =>
    if s.there (.file .signature (stem h)) then .testing h .payloadSecond
    else .looking (.pair h .signature)
  | .payloadSecond =>
    if s.there (.file .payload (stem h)) then .looking (.pair h .signature)
    else .testing h .orphan
  | .orphan =>
    if s.read (.file .signature (stem h)) = some h.signature then .looking (.pair h .signature)
    else .idle

/-- `_update_required_head_locked`, once the pointer was read: the frame to compare with, when the
call goes on. -/
def compare (h : Head) (expected : Option String) (framed : Bytes) : Phase :=
  match decodeRequiredHead site framed with
  | .error _ => .unlocking
  | .ok current =>
    if current.headId = h.headId then .unlocking
    else if expected ≠ some current.headId then .unlocking
    else if h.releaseSequence ≠ current.releaseSequence + 1 ∨
        h.previousHeadId ≠ some current.headId then .unlocking
    else .looking (.pointer h (some framed))

/-- The next step of the call, by its phase. -/
def next (p : ℕ) : Phase → Option Chain
  | .idle => none
  | .testing h t => some (s.goto p (s.test h t))
  | .looking job =>
    some (s.goto p (if s.there (job.tmp site) then .comparing job else .opening job))
  | .opening job =>
    if s.there (job.tmp site) then some (s.goto p job.raised)
    else some ((s.create (job.tmp site)).goto p (.writing job s.unused job.bytes))
  | .writing job _ rest => if rest = [] then some (s.goto p job.complete) else none
  | .comparing job =>
    some (s.goto p (if s.read (job.tmp site) = some job.bytes then job.complete else job.raised))
  | .publishing job =>
    match s.names (job.tmp site) with
    | none => some (s.goto p job.raised)
    | some i =>
      if s.there job.target then some (s.goto p (.found job))
      else some (((s.rename (job.tmp site) job.target i).note job).goto p job.done)
  | .found job =>
    some (s.goto p (if s.read job.target = some job.bytes then job.done else job.raised))
  | .dropping h .signature =>
    some ((s.unlink (.tmp .signature (stem h) (suffix site h))).goto p (.dropping h .payload))
  | .dropping h .payload =>
    some ((s.unlink (.tmp .payload (stem h) (suffix site h))).goto p .idle)
  | .waiting h expected =>
    if s.lock.isNone then some ({ s with lock := some p }.goto p (.pairFirst h expected)) else none
  | .pairFirst h expected =>
    some (s.goto p (if s.there (.file .payload (stem h)) then .pairThird h expected
      else .pairSecond h expected))
  | .pairSecond h expected =>
    some (s.goto p (if s.there (.file .signature (stem h)) then .pairThird h expected
      else .unlocking))
  | .pairThird h expected =>
    some (s.goto p (.pairFourth h expected (s.there (.file .payload (stem h)))))
  | .pairFourth h expected payload =>
    some (s.goto p (if s.there (.file .signature (stem h)) = payload then .reading h expected .payload
      else .unlocking))
  | .reading h expected .payload =>
    some (s.goto p (if s.read (.file .payload (stem h)) = some h.encoded then
      .reading h expected .signature else .unlocking))
  | .reading h expected .signature =>
    some (s.goto p (if s.read (.file .signature (stem h)) = some h.signature then
      .pointerThere h expected else .unlocking))
  | .pointerThere h expected =>
    if s.there .required then some (s.goto p (.pointerRead h expected))
    else if expected.isSome then some (s.goto p .unlocking)
    else if h.releaseSequence ≠ 1 ∨ h.previousHeadId ≠ none then some (s.goto p .unlocking)
    else some (s.goto p (.looking (.pointer h none)))
  | .pointerRead h expected =>
    match s.read .required with
    | none => some (s.goto p .unlocking)
    | some framed => some (s.goto p (compare site h expected framed))
  | .rechecking h current =>
    if s.read .required = current then
      some (s.goto p (if current.isNone then .publishing (.pointer h none) else .replacing h))
    else some (s.goto p (.cleaning h false))
  | .replacing h =>
    match s.names (.requiredTmp h.headId) with
    | none => some (s.goto p (.cleaning h false))
    | some i =>
      some (((s.rename (.requiredTmp h.headId) .required i).note (.pointer h none)).goto p
        (.cleaning h true))
  | .cleaning h ok =>
    some ((s.unlink (.requiredTmp h.headId)).goto p (if ok then .rereading h else .unlocking))
  | .rereading _ => some (s.goto p .unlocking)
  | .unlocking => some ({ s with lock := none }.goto p .idle)

def raise : Phase → Phase
  | .looking job | .opening job | .writing job _ _ | .comparing job | .publishing job
  | .found job => job.raised
  | .rechecking h _ | .replacing h => .cleaning h false
  | .pairFirst .. | .pairSecond .. | .pairThird .. | .pairFourth .. | .reading ..
  | .pointerThere .. | .pointerRead .. | .cleaning .. | .rereading _ | .unlocking => .unlocking
  | .idle | .testing .. | .dropping .. | .waiting .. => .idle

/-- The lock of the process goes with it. -/
def stop (p : ℕ) : Chain :=
  { s with lock := if s.lock = some p then none else s.lock }.goto p .idle

/-- One step; `none` when the call is not there. -/
def step : Action → Option Chain
  | .append p encoded signature =>
    match s.phase p, verifyOwnershipHead site encoded signature with
    | .idle, .ok h => some (s.goto p (.testing h .payloadFirst))
    | _, _ => none
  | .update p encoded signature expected =>
    match s.phase p, verifyOwnershipHead site encoded signature with
    | .idle, .ok h => some (s.goto p (.waiting h expected))
    | _, _ => none
  | .next p => s.next site p (s.phase p)
  | .write p n =>
    match s.phase p with
    | .writing job i rest =>
      some ({ s with content := Function.update s.content i (s.content i ++ rest.take n) }.goto p
        (.writing job i (rest.drop n)))
    | _ => none
  | .fail p => some (s.goto p (raise (s.phase p)))
  | .stop p => some (s.stop p)

def transition (s : Chain) (action : Action) : Except Unit Chain :=
  match s.step site action with
  | some s' => .ok s'
  | none => .error ()

def run (actions : List Action) : Chain := Transaction.run (transition site) s actions

end Chain

end Metnos.Ownership
