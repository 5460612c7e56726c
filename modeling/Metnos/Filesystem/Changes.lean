import Mathlib.Logic.Function.Basic
import Metnos.Filesystem.Grants
import Metnos.Lib.Json

/-!
# Filesystem.Changes — the server's own file operations, and their undo

An item stages what it writes and makes it visible in one step, after a copy of what was there went
to the history under its digest.  What the batch returns is the list of the items that went through,
in their order, and each stage of the undo goes through that list from its start.
-/

namespace Metnos.Filesystem

abbrev Bytes := List UInt8

/-- `MAX_FILE_SIZE` -/
def maxFileSize : ℕ := 4 * 1024 ^ 3

/-- `MAX_READ` -/
def maxRead : ℕ := 256 * 1024

/-- What does not change while no one else writes and the grants stay. -/
structure Server where
  /-- `Broker.check`: path, access and overwrite. -/
  permits : Text → Access → Bool → Bool
  /-- The parents open without links, and what is at the path is nothing or a file with one name. -/
  reachable : Text → Bool
  sha256 : Bytes → String
  /-- `base64.b64decode(content, validate=True)` -/
  b64decode : String → Option Bytes

/-- The blobs of the turn, by the digest in their names. -/
structure History (sha256 : Bytes → String) where
  blob : String → Option Bytes
  addressed : ∀ key content, blob key = some content → sha256 content = key

/-- A blob under a digest that has none. -/
def History.add {sha256 : Bytes → String} (h : History sha256) (content : Bytes) : History sha256 where
  blob := Function.update h.blob (sha256 content) (some content)
  addressed key c hc := by
    by_cases eq : key = sha256 content
    · subst eq
      rw [Function.update_self] at hc
      rw [Option.some.inj hc]
    · rw [Function.update_of_ne eq] at hc
      exact h.addressed key c hc

structure Disk (srv : Server) where
  files : Text → Option Bytes
  history : History srv.sha256

/-- Where an item fails besides what it checks: before the backup, behind it, or behind the change
that others see (`os.fsync` of the directory). -/
inductive Fault
  | early | staged | late
deriving DecidableEq

/-- An entry of the results. -/
structure Receipt where
  path : Text
  skipped : Bool := false
  created : Bool := false
  prevBlob : Option String := none
  blob : Option String := none
  sha256 : Option String := none
  restoreCreate : Bool := false
  bytesWritten : ℕ := 0

variable {srv : Server}

/-! ## Items -/

/-- `io.backup`, by the digest; a blob that is there is compared with its name. -/
def backup (history : History srv.sha256) (content : Bytes) :
    Option (History srv.sha256 × String) :=
  let key := srv.sha256 content
  match history.blob key with
  | none => some (history.add content, key)
  | some found => if srv.sha256 found = key then some (history, key) else none

/-- The end of `Broker.replace`: what was staged becomes visible. -/
def commit (d : Disk srv) (path : Text) (prevBlob : Option String) (staged : Option (Bytes × ℕ))
    (fault : Option Fault) : Disk srv × Option Receipt :=
  match staged with
  | none => (d, none)
  | some (content, count) =>
    if maxFileSize < content.length ∨ fault = some .staged then (d, none)
    else
      let d' := { d with files := Function.update d.files path (some content) }
      if fault = some .late then (d', none)
      else (d', some
        { path := path, created := (d.files path).isNone, prevBlob := prevBlob
          sha256 := some (srv.sha256 content), bytesWritten := count })

/-- `Broker.replace`; the producer stages the content from what was there. -/
def replace (d : Disk srv) (path : Text) (producer : Option Bytes → Option (Bytes × ℕ))
    (overwrite : Bool) (mode : String) (fault : Option Fault) : Disk srv × Option Receipt :=
  if srv.permits path .write false = false ∨ srv.reachable path = false ∨ fault = some .early then
    (d, none)
  else
    match d.files path with
    | none => commit d path none (producer none) fault
    | some old =>
      if maxFileSize < old.length then (d, none)
      else if mode = "skip_if_exists" then (d, some { path := path, skipped := true })
      else if overwrite = false ∨ mode = "fail_if_exists" then (d, none)
      else if srv.permits path .write true = false then (d, none)
      else
        match backup d.history old with
        | none => (d, none)
        | some (history, key) =>
          commit { d with history := history } path (some key) (producer (some old)) fault

structure WriteSpec where
  path : Text
  content : Json
  encoding : String
  mode : String

def writeModes : List String := ["overwrite", "append", "fail_if_exists", "skip_if_exists"]

/-- `str.encode("latin-1")` -/
def latin1 (text : String) : Option Bytes :=
  if text.toList.all (fun c => c.toNat < 256) then some (text.toList.map fun c => c.toNat.toUInt8)
  else none

/-- The bytes of a write, or what it refuses. -/
def dataOf (srv : Server) (w : WriteSpec) : Option Bytes :=
  match w.content with
  | .str text =>
    if w.mode ∉ writeModes then none
    else
      let data :=
        if w.encoding = "binary" then srv.b64decode text
        else if w.encoding = "utf-8" then some text.toUTF8.toList
        else if w.encoding = "latin-1" then latin1 text
        else none
      data.filter fun bytes => bytes.length ≤ maxRead
  | _ => none

def WriteSpec.stage (w : WriteSpec) (data : Bytes) (previous : Option Bytes) : Bytes :=
  if w.mode = "append" then previous.getD [] ++ data else data

/-- `Broker.write` -/
def write (d : Disk srv) (w : WriteSpec) (fault : Option Fault) : Disk srv × Option Receipt :=
  match normalizePath w.path .posix, dataOf srv w with
  | some path, some data =>
    replace d path (fun previous => some (w.stage data previous, data.length)) true w.mode fault
  | _, _ => (d, none)

/-- `Broker.copy` -/
def copy (d : Disk srv) (src dst : Text) (overwrite : Bool) (fault : Option Fault) :
    Disk srv × Option Receipt :=
  if srv.permits src .read false = false ∨ srv.reachable src = false then (d, none)
  else
    match d.files src with
    | none => (d, none)
    | some content =>
      if maxFileSize < content.length then (d, none)
      else replace d dst (fun _ => some (content, content.length)) overwrite "overwrite" fault

/-- `Broker.delete` -/
def delete (d : Disk srv) (path : Text) (fault : Option Fault) : Disk srv × Option Receipt :=
  if srv.permits path .write false = false ∨ srv.reachable path = false ∨ fault = some .early then
    (d, none)
  else
    match d.files path with
    | none => (d, none)
    | some old =>
      if maxFileSize < old.length then (d, none)
      else
        match backup d.history old with
        | none => (d, none)
        | some (history, key) =>
          if fault = some .staged then ({ d with history := history }, none)
          else
            let d' : Disk srv := { files := Function.update d.files path none, history := history }
            if fault = some .late then (d', none)
            else (d', some { path := path, blob := some key, restoreCreate := true })

/-! ## Batches -/

inductive Spec
  | write (w : WriteSpec)
  | copy (src dst : Text) (overwrite : Bool)
  | delete (path : Text)

def Spec.run (d : Disk srv) (fault : Option Fault) : Spec → Disk srv × Option Receipt
  | write w => Filesystem.write d w fault
  | copy src dst overwrite => Filesystem.copy d src dst overwrite fault
  | delete path => Filesystem.delete d path fault

/-- The specs of one operation. -/
inductive Batch
  | write (specs : List WriteSpec)
  | copy (specs : List (Text × Text)) (overwrite : Bool)
  | delete (paths : List Text)

def Batch.specs : Batch → List Spec
  | write specs => specs.map .write
  | copy specs overwrite => specs.map fun s => .copy s.1 s.2 overwrite
  | delete paths => paths.map .delete

/-- The items with their faults, by their indices. -/
def Batch.items (b : Batch) (faults : ℕ → Option Fault) : List (Spec × Option Fault) :=
  b.specs.zipIdx.map fun s => (s.1, faults s.2)

inductive Pattern
  | swapSrcDst | deleteCreatedPaths | deleteCreatedDirs | restoreBlobBackup | restoreTrashedFiles
deriving DecidableEq

/-- `reverse_pattern` of the executors `write_files`, `move_files` and `delete_files`. -/
def Batch.patterns : Batch → List Pattern
  | write _ => [.restoreBlobBackup, .deleteCreatedPaths]
  | copy _ _ => [.swapSrcDst, .restoreBlobBackup, .deleteCreatedDirs]
  | delete _ => [.restoreBlobBackup, .restoreTrashedFiles]

/-- The file is not the one that the receipt tells of. -/
def isNewer (d : Disk srv) (r : Receipt) : Bool :=
  match r.sha256 with
  | none => false
  | some sha =>
    match d.files r.path with
    | none => true
    | some content =>
      !(srv.permits r.path .write false && srv.reachable r.path &&
        decide (content.length ≤ maxFileSize) && decide (srv.sha256 content = sha))

/-- The body of the loop of `undo_stage`, by the disk that it leaves. -/
def undoEntry (pattern : Pattern) (d : Disk srv) (r : Receipt) : Disk srv :=
  let remove := decide (pattern = .swapSrcDst ∨ pattern = .deleteCreatedPaths) && r.created
  let blob := if pattern = .restoreBlobBackup then r.prevBlob.or r.blob else none
  if r.skipped = true ∨ remove = false ∧ blob = none then d
  else if isNewer d r = true then d
  else if remove = true then (delete d r.path none).1
  else
    match blob with
    | none => d
    | some key =>
      match d.history.blob key with
      | none => d
      | some content =>
        (replace d r.path
          (fun _ => if srv.sha256 content = key then some (content, content.length) else none)
          (!r.restoreCreate) "overwrite" none).1

/-- `undo_stage`, by the disk that it leaves. -/
def undoStage (pattern : Pattern) (d : Disk srv) (receipts : List Receipt) : Disk srv :=
  receipts.foldl (undoEntry pattern) d

/-- `apply_patterns`, on the results of a batch. -/
def undo (patterns : List Pattern) (d : Disk srv) (receipts : List Receipt) : Disk srv :=
  patterns.foldl (fun d pattern => undoStage pattern d receipts) d

end Metnos.Filesystem

/-!
## What a batch changes, and how it is taken back

A batch is a list of changes, each of one path from one content to another.  A change is taken back
when the path still has the content that it gave; the receipts tell enough for that, and an undo
takes back the changes in the order in which they were made.
-/

namespace Metnos.Filesystem

/-! ## Changes -/

structure Change where
  path : Text
  before : Option Bytes
  after : Option Bytes
  /-- There is a receipt of it. -/
  told : Bool

variable (srv : Server)

/-- The change of a replacement that goes through. -/
def replacement (files : Text → Option Bytes) (path : Text) (content : Bytes) (overwrite : Bool)
    (mode : String) (fault : Option Fault) : Option Change :=
  if srv.permits path .write false = true ∧ srv.reachable path = true ∧ fault ≠ some .early ∧
      fault ≠ some .staged ∧ content.length ≤ maxFileSize ∧
      ∀ old, files path = some old → old.length ≤ maxFileSize ∧ mode ≠ "skip_if_exists" ∧
        mode ≠ "fail_if_exists" ∧ overwrite = true ∧ srv.permits path .write true = true then
    some ⟨path, files path, some content, fault ≠ some .late⟩
  else none

/-- The change of an item that goes through. -/
def Spec.change (files : Text → Option Bytes) (fault : Option Fault) : Spec → Option Change
  | .write w =>
    match normalizePath w.path .posix, dataOf srv w with
    | some path, some data =>
      replacement srv files path (w.stage data (files path)) true w.mode fault
    | _, _ => none
  | .copy src dst overwrite =>
    match files src with
    | none => none
    | some content =>
      if srv.permits src .read false = true ∧ srv.reachable src = true then
        replacement srv files dst content overwrite "overwrite" fault
      else none
  | .delete path =>
    match files path with
    | none => none
    | some old =>
      if srv.permits path .write false = true ∧ srv.reachable path = true ∧ fault ≠ some .early ∧
          fault ≠ some .staged ∧ old.length ≤ maxFileSize then
        some ⟨path, some old, none, fault ≠ some .late⟩
      else none

def Change.apply (files : Text → Option Bytes) (ch : Change) : Text → Option Bytes :=
  Function.update files ch.path ch.after

/-- The changes of the items that go through. -/
def changes (files : Text → Option Bytes) : List (Spec × Option Fault) → List Change
  | [] => []
  | (spec, fault) :: rest =>
    match spec.change srv files fault with
    | none => changes files rest
    | some ch => ch :: changes (ch.apply files) rest

/-! ## Taking back -/

/-- The changes that a pattern takes back: those of a file that was there, or of one that was not. -/
def Pattern.acts (ch : Change) : Pattern → Bool
  | .restoreBlobBackup => ch.before.isSome
  | .swapSrcDst => ch.before.isNone
  | .deleteCreatedPaths => ch.before.isNone
  | .deleteCreatedDirs => false
  | .restoreTrashedFiles => false

def at_ (path : Text) (cs : List Change) : List Change := cs.filter fun ch => decide (ch.path = path)

/-! ## Receipts -/

/-- What a receipt tells of a change. -/
structure Tells (ch : Change) (r : Receipt) : Prop where
  path : r.path = ch.path
  skipped : r.skipped = false
  created : r.created = ch.before.isNone
  blob : r.prevBlob.or r.blob = ch.before.map srv.sha256
  sha256 : r.sha256 = ch.after.map srv.sha256
  restoreCreate : r.restoreCreate = ch.after.isNone

variable {srv}

/-- What allows to take a change back. -/
structure Sound (history : History srv.sha256) (ch : Change) : Prop where
  permits : srv.permits ch.path .write false = true
  reachable : srv.reachable ch.path = true
  before : ∀ old, ch.before = some old → old.length ≤ maxFileSize ∧
    history.blob (srv.sha256 old) = some old ∧
    (ch.after ≠ none → srv.permits ch.path .write true = true)
  after : ∀ new, ch.after = some new → new.length ≤ maxFileSize
  real : ch.before = none → ch.after ≠ none

def Grows (history history' : History srv.sha256) : Prop :=
  ∀ key content, history.blob key = some content → history'.blob key = some content

theorem Grows.refl (history : History srv.sha256) : Grows history history := fun _ _ h => h

theorem Grows.trans {a b c : History srv.sha256} (ab : Grows a b) (bc : Grows b c) : Grows a c :=
  fun key content h => bc key content (ab key content h)

theorem Sound.grow {history history' : History srv.sha256} {ch : Change} (h : Sound history ch)
    (grows : Grows history history') : Sound history' ch where
  permits := h.permits
  reachable := h.reachable
  before old hold := ⟨(h.before old hold).1, grows _ _ (h.before old hold).2.1, (h.before old hold).2.2⟩
  after := h.after
  real := h.real

end Metnos.Filesystem
