import Mathlib
import Metnos.Lib.Transaction

/-!
# Client.SelfUpdate — swapping the executable, with a crash between any two steps

An update renames the executable to `.old`, renames the new binary into its place and writes the
marker of a probation; the next boots count it, and the first successful poll confirms it.  Every
file operation is one step, which may fail, and the process may end before each of them.  An
update is safe when whatever boots next is confirmed, or is on a trial with a way back.
-/

namespace Metnos.Client.SelfUpdate

/-- A binary of the client: the components of its version, and its digest. -/
structure Binary where
  version : List ℕ
  sha256 : ℕ
deriving DecidableEq

/-- `version_gt`, on the components. -/
def versionGt (a b : List ℕ) : Bool := decide (b < a)

/-- The path of the executable and its siblings with another extension. -/
inductive Location
  | exe | old | new | failed
deriving DecidableEq

/-! ## The marker -/

inductive Phase
  | none | probation
deriving DecidableEq

structure UpdateState where
  phase : Phase
  targetVersion : List ℕ
  boots : ℕ
deriving DecidableEq

def UpdateState.default : UpdateState := ⟨.none, [], 0⟩

/-- `enter_probation`. -/
def UpdateState.enterProbation (targetVersion : List ℕ) : UpdateState :=
  ⟨.probation, targetVersion, 0⟩

/-- `MAX_PROBATION_BOOTS`. -/
def maxProbationBoots : ℕ := 2

inductive BootAction
  | proceed | rollback
deriving DecidableEq

/-- `decide_boot`; `boots` is a `u32` that saturates. -/
def decideBoot (st : UpdateState) : UpdateState × BootAction :=
  match st.phase with
  | .none => (st, .proceed)
  | .probation =>
    let boots := min (st.boots + 1) (2 ^ 32 - 1)
    if maxProbationBoots ≤ boots then (.default, .rollback)
    else ({ st with boots := boots }, .proceed)

/-! ## The device -/

/-- Where the client stands. -/
inductive Stage
  /-- In `apply_startup_recovery`, before `restore_exe_if_missing`. -/
  | starting
  /-- Before the marker is loaded. -/
  | loading
  /-- Before the decision of the boot is saved. -/
  | persisting (next : UpdateState) (action : BootAction)
  /-- In `rollback_binary`, before `.failed` is removed. -/
  | parking
  /-- Before the executable is renamed to `.failed`. -/
  | shelving
  /-- Before `.old` is renamed to the executable. -/
  | restoring
  /-- After a rollback that failed, before the marker is reset. -/
  | forgetting
  /-- Before the next poll; `update_confirmed`. -/
  | polling (confirmed : Bool)
  /-- In `maybe_update`, before the download is written. -/
  | writing (path : Location) (b : Binary) (confirmed : Bool)
  /-- In `swap_binary`, before `.old` is removed. -/
  | clearing (path : Location) (b : Binary) (confirmed : Bool)
  /-- Before the executable is renamed to `.old`. -/
  | retiring (path : Location) (b : Binary) (confirmed : Bool)
  /-- Before `.new` is renamed to the executable. -/
  | installing (path : Location) (b : Binary) (confirmed : Bool)
  /-- Before `.old` is renamed back. -/
  | undoing (path : Location) (confirmed : Bool)
  /-- Before the marker of the probation is saved. -/
  | marking (b : Binary) (confirmed : Bool)
  /-- In `confirm_running`. -/
  | confirming
  /-- Before `.old` and before `.failed` are removed. -/
  | sweepingOld
  | sweepingFailed
deriving DecidableEq

structure Process where
  running : Binary
  /-- Where the file of the running image is; `none` when it was removed or replaced. -/
  image : Option Location
  stage : Stage
deriving DecidableEq

structure Device where
  files : Location → Option Binary
  /-- `none`: absent or unreadable. -/
  marker : Option UpdateState
  process : Option Process
  /-- The binaries that `confirm_running` has confirmed. -/
  confirmed : List Binary

namespace Device

variable (s : Device)

/-- `UpdateState::load`. -/
def load : UpdateState := s.marker.getD .default

/-- `UpdateState::save`: all or nothing. -/
def save (st : UpdateState) (ok : Bool) : Device :=
  if ok then { s with marker := some st } else s

def goto (stage : Stage) : Device :=
  { s with process := s.process.map (fun p => { p with stage := stage }) }

/-- The running image follows the changes of the directory. -/
def moveImage (f : Location → Option Location) : Device :=
  { s with process := s.process.map (fun p => { p with image := p.image.bind f }) }

/-- `fs::remove_file`, whose outcome is ignored. -/
def remove (l : Location) (ok : Bool) : Device :=
  if ok then { s with files := Function.update s.files l none }.moveImage
    (fun i => if i = l then none else some i)
  else s

/-- `fs::rename`, which replaces what is there. -/
def rename (source target : Location) (ok : Bool) : Option Device :=
  match s.files source, ok with
  | some b, true =>
    some ({ s with
      files := Function.update (Function.update s.files source none) target (some b) }.moveImage
        (fun i => if i = source then some target else if i = target then none else some i))
  | _, _ => none

def exit : Device := { s with process := none }

/-- After a poll whose update came to nothing. -/
def polled (confirmed : Bool) : Device :=
  s.goto (if confirmed then .polling true else .confirming)

def confirm : Device :=
  { s with confirmed := s.process.toList.map Process.running ++ s.confirmed }

/-- `current_exe`: on Linux it follows the renames of the image. -/
def currentExe (follows : Bool) (p : Process) : Option Location :=
  if follows then p.image else some .exe

/-- `maybe_update` up to the download: the path to update and the binary to put there. -/
def maybeUpdate (follows : Bool) (p : Process) (published : Option Binary) :
    Option (Location × Binary) := do
  let b ← published
  guard (versionGt b.version p.running.version)
  let path ← currentExe follows p
  let own ← s.files path
  guard (own.sha256 ≠ b.sha256)
  return (path, b)

/-- The next file operation, which succeeds only if `ok`. -/
def next (ok : Bool) : Stage → Option Device
  | .starting =>
    let restored := if (s.files .exe).isNone then s.rename .old .exe ok else none
    some ((restored.getD s).goto .loading)
  | .loading =>
    if s.load.phase = .none then some (s.goto (.polling false))
    else some (s.goto (.persisting (decideBoot s.load).1 (decideBoot s.load).2))
  | .persisting st action =>
    match action with
    | .proceed => some ((s.save st ok).goto (.polling false))
    | .rollback =>
      if (s.files .old).isNone then some ((s.save st ok).goto .forgetting)
      else some ((s.save st ok).goto .parking)
  | .parking =>
    if (s.files .exe).isSome then some ((s.remove .failed ok).goto .shelving)
    else some ((s.remove .failed ok).goto .restoring)
  | .shelving =>
    match s.rename .exe .failed ok with
    | some s => some (s.goto .restoring)
    | none => some (s.goto .forgetting)
  | .restoring =>
    match s.rename .old .exe ok with
    | some s => some s.exit
    | none => some (s.goto .forgetting)
  | .forgetting => some ((s.save .default ok).goto (.polling false))
  | .polling _ => none
  | .writing path b confirmed =>
    if ok then
      some ({ s with files := Function.update s.files .new (some b) }.goto
        (.clearing path b confirmed))
    else some ({ s with files := Function.update s.files .new none }.polled confirmed)
  | .clearing path b confirmed => some ((s.remove .old ok).goto (.retiring path b confirmed))
  | .retiring path b confirmed =>
    match s.rename path .old ok with
    | some s => some (s.goto (.installing path b confirmed))
    | none => some (s.polled confirmed)
  | .installing path b confirmed =>
    match s.rename .new path ok with
    | some s => some (s.goto (.marking b confirmed))
    | none => some (s.goto (.undoing path confirmed))
  | .undoing path confirmed => some (((s.rename .old path ok).getD s).polled confirmed)
  | .marking b confirmed =>
    if ok then some (s.save (.enterProbation b.version) true).exit else some (s.polled confirmed)
  | .confirming =>
    if s.load.phase = .none then some (s.confirm.goto (.polling true))
    else if ok then some ((s.save .default true).confirm.goto .sweepingOld)
    else some (s.goto (.polling true))
  | .sweepingOld => some ((s.remove .old ok).goto .sweepingFailed)
  | .sweepingFailed => some ((s.remove .failed ok).goto (.polling true))

end Device

inductive Action
  /-- The supervisor starts the executable. -/
  | boot
  /-- `ExecStartPre` of the supervisor: put `.old` into the place of a missing executable. -/
  | supervise (ok : Bool)
  | next (ok : Bool)
  /-- A successful poll, and the newer binary whose descriptor and download verified, if any. -/
  | poll (published : Option Binary)
  /-- The process ends wherever it stands. -/
  | crash
deriving DecidableEq

/-- One step; `none` when the action is not possible. -/
def Device.step (follows : Bool) (s : Device) : Action → Option Device
  | .boot =>
    match s.process, s.files .exe with
    | none, some b => some { s with process := some ⟨b, some .exe, .starting⟩ }
    | _, _ => none
  | .supervise ok =>
    if s.process.isNone && (s.files .exe).isNone then s.rename .old .exe ok else none
  | .next ok => s.process.bind (fun p => s.next ok p.stage)
  | .poll published =>
    match s.process with
    | some p =>
      match p.stage with
      | .polling confirmed =>
        match s.maybeUpdate follows p published with
        | some (path, b) => some (s.goto (.writing path b confirmed))
        | none => some (s.polled confirmed)
      | _ => none
    | none => none
  | .crash => some s.exit

def Device.transition (follows : Bool) (s : Device) (action : Action) : Except Unit Device :=
  (s.step follows action).elim (.error ()) .ok

abbrev Device.run (follows : Bool) (s : Device) (actions : List Action) : Device :=
  Transaction.run (Device.transition follows) s actions

end Metnos.Client.SelfUpdate
