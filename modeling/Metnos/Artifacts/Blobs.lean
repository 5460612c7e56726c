import Metnos.Artifacts.Repository
import Metnos.Lib.Files

/-!
# Artifacts.Blobs — reading a file between two `fstat` calls

`_verify_descriptor_state` reads an open file to its end and compares what `fstat` showed before
and after.  Other processes run between any two of its system calls, so that it is a small state
machine here.  A file only ever grows while it is open; that makes what was read a prefix of its
content, and the final comparison of sizes makes it the whole content.
-/

namespace Metnos.Artifacts

open Files Transaction

/-- A regular file with mode `0600`. -/
def privateMode : Mode := ⟨true, 384⟩

section
variable {N : Type} [DecidableEq N]

/-- `_open_regular`. -/
def openRegular (fs : FileSystem N) (n : N) : Result ℕ :=
  match fs.names n with
  | none => .error .fileNotFound
  | some i => if fs.mode i = privateMode then .ok i else .error .security

theorem openRegular_ok {fs : FileSystem N} {n : N} {i : ℕ} (h : openRegular fs n = .ok i) :
    fs.names n = some i ∧ fs.mode i = privateMode := by
  unfold openRegular at h
  split at h
  · cases h
  · rename_i j hj
    split at h
    · rename_i hmode
      cases h
      exact ⟨hj, hmode⟩
    · cases h

theorem openRegular_error {fs : FileSystem N} {n : N} {e : ArtifactError}
    (h : openRegular fs n = .error e) :
    (e = .fileNotFound ∧ fs.names n = none) ∨ ∃ i, fs.names n = some i ∧ fs.mode i ≠ privateMode := by
  unfold openRegular at h
  split at h
  · rename_i none
    cases h
    exact .inl ⟨rfl, none⟩
  · rename_i i hi
    split at h
    · cases h
    · rename_i hmode
      exact .inr ⟨i, hi, hmode⟩

end

/-- Where `_verify_descriptor_state` stands: before the first `fstat`, in the loop over the
chunks, or before the second `fstat`. -/
inductive Probe
  | opened (file : ℕ)
  | reading (file : ℕ) (before : Stat) (seen : List UInt8)
  | ended (file : ℕ) (before : Stat) (seen : List UInt8)
deriving DecidableEq

namespace Probe

variable {N : Type} (fs : FileSystem N)

def file : Probe → ℕ
  | .opened file | .reading file _ _ | .ended file _ _ => file

/-- What one verification learns: the bytes it hashed and the identity of the file. -/
abbrev Verified := List UInt8 × Stat

/-- The next system call.  A `read` returns at most `chunk + 1` bytes. -/
def step (maxBytes chunk : ℕ) : Probe → Result (Probe ⊕ Verified)
  | .opened file =>
    if maxBytes < (fs.stat file).size then .error .integrity
    else .ok (.inl (.reading file (fs.stat file) []))
  | .reading file before seen =>
    let bytes := ((fs.content file).drop seen.length).take (chunk + 1)
    if bytes = [] then .ok (.inl (.ended file before seen))
    else if maxBytes < (seen ++ bytes).length then .error .integrity
    else .ok (.inl (.reading file before (seen ++ bytes)))
  | .ended file before seen =>
    let after := fs.stat file
    if before ≠ after ∨ seen.length ≠ after.size then .error .integrity
    else .ok (.inr (seen, after))

/-- What was read so far is at the start of the file. -/
def Sound : Probe → Prop
  | .opened _ => True
  | .reading file _ seen | .ended file _ seen => seen <+: fs.content file

variable {fs} {fs' : FileSystem N} {maxBytes chunk : ℕ} {q q' : Probe}

theorem Sound.mono (h : q.Sound fs) (grows : fs.content q.file <+: fs'.content q.file) :
    q.Sound fs' := by
  cases q with
  | opened file => trivial
  | reading file before seen => exact h.trans grows
  | ended file before seen => exact h.trans grows

theorem step_file (h : q.step fs maxBytes chunk = .ok (.inl q')) : q'.file = q.file := by
  cases q with
  | opened file =>
    simp only [step] at h
    split at h
    · cases h
    · cases h
      rfl
  | reading file before seen =>
    simp only [step] at h
    split at h
    · cases h
      rfl
    · split at h
      · cases h
      · cases h
        rfl
  | ended file before seen =>
    simp only [step] at h
    split at h <;> cases h

theorem append_chunk {seen content : List UInt8} (h : seen <+: content) (n : ℕ) :
    seen ++ (content.drop seen.length).take n <+: content := by
  obtain ⟨rest, rfl⟩ := h
  rw [List.drop_left]
  exact (List.prefix_append_right_inj seen).mpr (List.take_prefix n rest)

theorem Sound.step (sound : q.Sound fs) (h : q.step fs maxBytes chunk = .ok (.inl q')) :
    q'.Sound fs := by
  cases q with
  | opened file =>
    simp only [Probe.step] at h
    split at h
    · cases h
    · cases h
      exact List.nil_prefix
  | reading file before seen =>
    simp only [Probe.step] at h
    split at h
    · cases h
      exact sound
    · split at h
      · cases h
      · cases h
        exact append_chunk sound _
  | ended file before seen =>
    simp only [Probe.step] at h
    split at h <;> cases h

theorem Sound.verified (sound : q.Sound fs) {v : Verified}
    (h : q.step fs maxBytes chunk = .ok (.inr v)) :
    v = (fs.content q.file, fs.stat q.file) := by
  cases q with
  | opened file =>
    simp only [Probe.step] at h
    split at h <;> cases h
  | reading file before seen =>
    simp only [Probe.step] at h
    split at h
    · cases h
    · split at h <;> cases h
  | ended file before seen =>
    simp only [Probe.step] at h
    split at h
    · cases h
    · rename_i same
      cases h
      have size : seen.length = (fs.content file).length := by
        by_contra hne
        exact same (.inr hne)
      have whole : seen = fs.content file := List.IsPrefix.eq_of_length sound size
      rw [whole]
      rfl

end Probe

end Metnos.Artifacts

/-!
## Staging, registering and collecting blobs

The private blob directory of one owner and the processes that work in it.  A process is where
`stage`, `commit` or `collect_garbage` stands between two of its system calls or transaction
boundaries; a step of the system is one such call of one process, a crash, or another transaction
on the database.  One process at a time holds the writer transaction, and what a transaction
wrote is seen at its commit.
-/

namespace Metnos.Artifacts

open Metnos.Durable Files

/-- What the store was opened with, and SHA-256. -/
structure Site where
  owner : ℕ
  maxBlobBytes : ℕ
  sha256 : List UInt8 → ℕ

/-- The names of an owner's blob directory and scratch workspaces. -/
inductive BlobName
  /-- `.blob-<uuid>.tmp`, in a workspace or in the blob directory itself. -/
  | temporary (workspace : Option ℕ) (uuid : ℕ)
  | blob (digest : ℕ)
deriving DecidableEq

/-- The names that a scan of the blob directory can return. -/
def BlobName.scanned : BlobName → Bool
  | .temporary workspace _ => workspace.isNone
  | .blob _ => true

def Site.blobOf (site : Site) (content : List UInt8) : Blob :=
  ⟨site.sha256 content, content.length, blobRef (site.sha256 content)⟩

/-- `(digest, size)` of what was read against those of the blob. -/
def Site.confirms (site : Site) (content : List UInt8) (blob : Blob) : Bool :=
  decide (site.sha256 content = blob.digest) && decide (content.length = blob.sizeBytes)

/-- Where a process stands.  The order is what a staged blob is for: `none` in a call of `stage`,
the registration in a call of `commit`. -/
inductive Phase
  | idle
  /-- In the loop of `_write_temp`. -/
  | writing (order : Option Registration) (workspace : Option ℕ) (uuid file : ℕ)
      (written : List UInt8)
  /-- The `finally` of a `_write_temp` that failed. -/
  | discarding (workspace : Option ℕ) (uuid : ℕ)
  /-- Before `os.link`. -/
  | written (order : Option Registration) (workspace : Option ℕ) (uuid : ℕ) (blob : Blob)
  /-- Before `os.unlink` of the temporary. -/
  | linked (order : Option Registration) (workspace : Option ℕ) (uuid : ℕ) (blob : Blob)
  /-- Before the verification that `stage` ends with. -/
  | installed (order : Option Registration) (blob : Blob)
  | verifying (order : Option Registration) (blob : Blob) (probe : Probe)
  /-- At the start of `_verified_registration`. -/
  | staged (reg : Registration) (blob : Blob)
  | hashing (reg : Registration) (blob : Blob) (probe : Probe)
  /-- Before `BEGIN IMMEDIATE` of `register`. -/
  | hashed (reg : Registration) (blob : Blob) (file : ℕ) (identity : Stat)
  /-- In `verify_current_identity`, before `fstat` of the open file. -/
  | registering (reg : Registration) (blob : Blob) (file : ℕ) (identity : Stat)
  /-- In `verify_current_identity`, before `stat` of the name. -/
  | statted (reg : Registration) (blob : Blob) (file : ℕ) (identity observed : Stat)
  /-- Verified, before the insertion and `COMMIT`. -/
  | inserting (reg : Registration) (blob : Blob) (file : ℕ)
  /-- In the loop of `collect_garbage`. -/
  | collecting (threshold : ℕ) (names : List BlobName)
  /-- An old regular file, before `unlink_checked` or the transaction around it. -/
  | examined (threshold : ℕ) (names : List BlobName) (name : BlobName) (file : ℕ)
  /-- In the transaction of `unlink_if_unreferenced`, after a count of 0. -/
  | unreferenced (threshold : ℕ) (names : List BlobName) (digest file : ℕ)
  /-- Before `os.unlink` in `unlink_checked`. -/
  | removing (threshold : ℕ) (names : List BlobName) (name : BlobName)
  /-- Before the `COMMIT` of `unlink_if_unreferenced`. -/
  | removed (threshold : ℕ) (names : List BlobName)
deriving DecidableEq

namespace Phase

def output : Phase → Option ℕ
  | .writing _ _ _ file _ => some file
  | _ => none

def files : Phase → List ℕ
  | .writing _ _ _ file _ => [file]
  | .verifying _ _ probe | .hashing _ _ probe => [probe.file]
  | .hashed _ _ file _ | .registering _ _ file _ | .statted _ _ file _ _ | .inserting _ _ file =>
    [file]
  | _ => []

end Phase

structure BlobStore where
  files : FileSystem BlobName
  /-- The results of `uuid.uuid4()` so far. -/
  drawn : List ℕ
  repository : Repository
  /-- The process whose writer transaction is open. -/
  writer : Option ℕ
  processes : List Phase

namespace BlobStore

variable (site : Site) (s : BlobStore)

def goto (p : ℕ) (phase : Phase) : BlobStore := { s with processes := s.processes.set p phase }

/-- The end of a transaction of process `p`, if it holds one. -/
def release (p : ℕ) : BlobStore := if s.writer = some p then { s with writer := none } else s

/-- An exception that leaves the call, or the end of the process: descriptors are closed, an open
transaction is rolled back. -/
def quit (p : ℕ) : BlobStore := (s.release p).goto p .idle

/-- An inode for a new file: no name leads to it, and no process has it open. -/
def unused (i : ℕ) : Bool :=
  decide (s.files.Free i) && s.processes.all (fun phase => !phase.files.contains i)

/-- `_write_temp` creates its temporary file. -/
def stage (p : ℕ) (order : Option Registration) (workspace : Option ℕ) (uuid file now : ℕ) :
    Option BlobStore :=
  if s.drawn.contains uuid || !s.unused file then none
  else match s.files.create (.temporary workspace uuid) privateMode file now with
    | .error _ => some (s.quit p)
    | .ok files =>
      some ({ s with files := files, drawn := uuid :: s.drawn }.goto p
        (.writing order workspace uuid file []))

/-- `os.unlink` that ignores `FileNotFoundError`. -/
def unlinkAny (name : BlobName) (now : ℕ) : BlobStore :=
  match s.files.unlink name now with
  | .error _ => s
  | .ok files => { s with files := files }

/-- The next system call or transaction boundary of process `p`, which stands at `phase`;
`none` while it has to wait. -/
def next (p chunk now : ℕ) : Phase → Option BlobStore
  | .idle | .writing .. => none
  | .discarding workspace uuid =>
    some ((s.unlinkAny (.temporary workspace uuid) now).goto p .idle)
  | .written order workspace uuid blob =>
    match s.files.link (.temporary workspace uuid) (.blob blob.digest) now with
    | .ok files => some ({ s with files := files }.goto p (.linked order workspace uuid blob))
    | .error .exists_ => some (s.goto p (.linked order workspace uuid blob))
    | .error .noEntry => some (s.quit p)
  | .linked order workspace uuid blob =>
    some ((s.unlinkAny (.temporary workspace uuid) now).goto p (.installed order blob))
  | .installed order blob =>
    match openRegular s.files (.blob blob.digest) with
    | .ok file => some (s.goto p (.verifying order blob (.opened file)))
    | .error _ => some (s.quit p)
  | .verifying order blob probe =>
    match probe.step s.files site.maxBlobBytes chunk with
    | .ok (.inl probe) => some (s.goto p (.verifying order blob probe))
    | .ok (.inr (content, _)) =>
      if site.confirms content blob then
        match order with
        | none => some (s.goto p .idle)
        | some reg => some (s.goto p (.staged reg blob))
      else some (s.quit p)
    | .error _ => some (s.quit p)
  | .staged reg blob =>
    match openRegular s.files (.blob blob.digest) with
    | .ok file => some (s.goto p (.hashing reg blob (.opened file)))
    | .error _ => some (s.quit p)
  | .hashing reg blob probe =>
    match probe.step s.files site.maxBlobBytes chunk with
    | .ok (.inl probe) => some (s.goto p (.hashing reg blob probe))
    | .ok (.inr (content, identity)) =>
      if site.confirms content blob then
        some (s.goto p (.hashed reg blob probe.file identity))
      else some (s.quit p)
    | .error _ => some (s.quit p)
  | .hashed reg blob file identity =>
    if s.writer.isSome then none
    else match register s.repository reg blob (.ok ()) with
      | .ok _ => some ({ s with writer := some p }.goto p (.registering reg blob file identity))
      | .error _ => some (s.quit p)
  | .registering reg blob file identity =>
    some (s.goto p (.statted reg blob file identity (s.files.stat file)))
  | .statted reg blob file identity observed =>
    match s.files.names (.blob blob.digest) with
    | none => some (s.quit p)
    | some i =>
      if observed ≠ identity ∨ s.files.stat i ≠ identity then some (s.quit p)
      else some (s.goto p (.inserting reg blob file))
  | .inserting reg blob _ =>
    match register s.repository reg blob (.ok ()) with
    | .ok (repository, _) => some ({ s with repository := repository }.quit p)
    | .error _ => some (s.quit p)
  | .collecting _ [] => some (s.goto p .idle)
  | .collecting threshold (name :: names) =>
    match s.files.names name with
    | none => some (s.goto p (.collecting threshold names))
    | some i =>
      let metadata := s.files.stat i
      if !metadata.mode.regular || threshold < metadata.mtime then
        some (s.goto p (.collecting threshold names))
      else some (s.goto p (.examined threshold names name i))
  | .examined threshold names name file =>
    match name with
    | .temporary workspace uuid =>
      match s.files.names (.temporary workspace uuid) with
      | none => some (s.quit p)
      | some i =>
        if i ≠ file ∨ !(s.files.stat i).mode.regular then some (s.quit p)
        else some (s.goto p (.removing threshold names (.temporary workspace uuid)))
    | .blob digest =>
      if s.writer.isSome then none
      else if references s.repository site.owner digest ≠ 0 then
        some (s.goto p (.collecting threshold names))
      else some ({ s with writer := some p }.goto p (.unreferenced threshold names digest file))
  | .unreferenced threshold names digest file =>
    match s.files.names (.blob digest) with
    | none => some (s.quit p)
    | some i =>
      if i ≠ file ∨ !(s.files.stat i).mode.regular then some (s.quit p)
      else some (s.goto p (.removing threshold names (.blob digest)))
  | .removing threshold names name =>
    match s.files.unlink name now with
    | .error _ => some (s.quit p)
    | .ok files => some ({ s with files := files }.goto p (.removed threshold names))
  | .removed threshold names => some ((s.release p).goto p (.collecting threshold names))

end BlobStore

inductive BlobAction
  /-- A call of `stage` or `commit`, up to the creation of the temporary file. -/
  | stage (p : ℕ) (order : Option Registration) (workspace : Option ℕ) (uuid file now : ℕ)
  /-- One `os.write` of a part of the payload. -/
  | write (p : ℕ) (bytes : List UInt8) (now : ℕ)
  /-- The payload ends and is synced. -/
  | finish (p : ℕ)
  /-- An exception in `_write_temp`. -/
  | interrupt (p : ℕ)
  /-- A call of `collect_garbage`, up to its scan of the directory. -/
  | collect (p threshold : ℕ) (names : List BlobName)
  | next (p chunk now : ℕ)
  /-- The process ends, or an exception leaves the call. -/
  | crash (p : ℕ)
  /-- Another transaction on the database: it may change or delete artifacts, and inserts none. -/
  | database (repository : Repository)

/-- The rows of `new` have their content from `old`. -/
def keepsContent (old new : Repository) : Bool :=
  new.artifacts.rows.all fun a => old.artifacts.rows.any fun b =>
    decide (b.id = a.id) && decide (b.digest = a.digest) && decide (b.sizeBytes = a.sizeBytes)

/-- One step; `none` when the action is not possible. -/
def BlobStore.step (site : Site) (s : BlobStore) : BlobAction → Option BlobStore
  | .stage p order workspace uuid file now =>
    if s.processes[p]? = some .idle ∧ (order.all fun reg =>
        decide (reg.owner = site.owner) && decide (workspace = some reg.workloadId)) then
      s.stage p order workspace uuid file now
    else none
  | .write p bytes now =>
    match s.processes[p]? with
    | some (.writing order workspace uuid file written) =>
      if bytes = [] then none
      else if site.maxBlobBytes < written.length + bytes.length then
        some (s.goto p (.discarding workspace uuid))
      else
        some ({ s with files := s.files.append file bytes now }.goto p
          (.writing order workspace uuid file (written ++ bytes)))
    | _ => none
  | .finish p =>
    match s.processes[p]? with
    | some (.writing order workspace uuid _ written) =>
      some (s.goto p (.written order workspace uuid (site.blobOf written)))
    | _ => none
  | .interrupt p =>
    match s.processes[p]? with
    | some (.writing _ workspace uuid _ _) => some (s.goto p (.discarding workspace uuid))
    | _ => none
  | .collect p threshold names =>
    if s.processes[p]? = some .idle ∧ names.all BlobName.scanned then
      some (s.goto p (.collecting threshold names))
    else none
  | .next p chunk now => s.processes[p]?.bind (s.next site p chunk now)
  | .crash p => some (s.quit p)
  | .database repository =>
    if s.writer.isNone && keepsContent s.repository repository then
      some { s with repository := repository }
    else none

/-- The directory before the first call: no files, no artifacts, any number of processes. -/
def BlobStore.init (inodes : ℕ → Inode) (repository : Repository) (processes : ℕ) : BlobStore where
  files := ⟨[], inodes⟩
  drawn := []
  repository := repository
  writer := none
  processes := List.replicate processes .idle

/-- A step as a transition that fails when the action is not possible. -/
def BlobStore.transition (site : Site) (s : BlobStore) (action : BlobAction) :
    Except Unit BlobStore :=
  (s.step site action).elim (.error ()) .ok

abbrev BlobStore.run (site : Site) (s : BlobStore) (actions : List BlobAction) : BlobStore :=
  Transaction.run (BlobStore.transition site) s actions

end Metnos.Artifacts
