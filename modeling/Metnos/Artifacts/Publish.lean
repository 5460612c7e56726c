import Metnos.Artifacts.Blobs

/-!
# Artifacts.Publish — publishing and reconciling, one system call at a time

Publishing copies a registered blob to a prepared file, verifies it and links it to the name
`artifact` in the directory of the target; reconciling does the same without the copy.  The
prepared file has one name for all processes that handle the publication.  As in the blob store,
a process is where `publish` or `reconcile` stands between two of its steps, and whatever goes
wrong becomes one of three outcomes: published, needs attention (for good), or left as prepared.
-/

namespace Metnos.Artifacts

open Metnos.Durable Files

/-- A directory that `_directory` opens one component after the other. -/
inductive Place
  | blobs
  | target (directory : ℕ)
deriving DecidableEq

structure PublicationSite where
  owner : ℕ
  maxBlobBytes : ℕ
  sha256 : List UInt8 → ℕ
  /-- `_target_key`: the directory of a target. -/
  targetKey : String → ℕ
  /-- A path component is a symlink or no directory. -/
  insecure : Place → Bool

inductive TargetName
  | blob (digest : ℕ)
  /-- `artifact` in the directory of a target. -/
  | artifact (directory : ℕ)
  /-- `_publication_temp_name`, in the directory of the publication's target. -/
  | prepared (publication : Key)
deriving DecidableEq

/-- The arguments of `_finish_publication`. -/
structure Job where
  publication : Publication
  artifact : Artifact
  writeIfMissing : Bool
deriving DecidableEq

/-- `RecoveryStatus.COMMITTED` or `NEEDS_ATTENTION` with the digest observed. -/
inductive Verdict
  | committed (observed : ℕ)
  | needsAttention (observed : Option ℕ)
deriving DecidableEq

/-- Where a process stands. -/
inductive Publishing
  | idle
  /-- Before `begin_publication_attempt`. -/
  | attempting (artifact : Artifact) (publication : Publication)
  /-- Before the directory of the target is opened. -/
  | opening (job : Job)
  /-- The verification of a final file that is there already. -/
  | checking (job : Job)
  | checkingFile (job : Job) (probe : Probe)
  /-- Before the unlink of a prepared file that is left over. -/
  | clearing (job : Job) (digest size : ℕ)
  /-- The verification of the prepared file. -/
  | resuming (job : Job)
  | preparedFile (job : Job) (probe : Probe)
  /-- Before the blob is opened. -/
  | sourcing (job : Job)
  | creating (job : Job) (source : ℕ)
  /-- Before a `read` from the blob. -/
  | copying (job : Job) (source file : ℕ) (written : List UInt8)
  /-- Before a `write` of what was read. -/
  | pending (job : Job) (source file : ℕ) (written bytes : List UInt8)
  /-- The `finally` of a `_write_temp` that failed. -/
  | discarding (job : Job)
  /-- Before the unlink of a copy that is not the artifact. -/
  | refusing (job : Job)
  | rechecking (job : Job)
  /-- Before the unlink of a prepared file with other content. -/
  | dropping (job : Job)
  /-- In `_install_without_overwrite`, before `os.link` and before `os.unlink`. -/
  | linking (job : Job)
  | unlinking (job : Job)
  /-- The verification of the installed file. -/
  | closing (job : Job)
  | closingFile (job : Job) (probe : Probe)
  /-- Before the transaction that records the outcome. -/
  | deciding (job : Job) (verdict : Verdict)
deriving DecidableEq

namespace Publishing

def output : Publishing → Option ℕ
  | .copying _ _ file _ | .pending _ _ file _ _ => some file
  | _ => none

def files : Publishing → List ℕ
  | .checkingFile _ probe | .preparedFile _ probe | .closingFile _ probe => [probe.file]
  | .creating _ source => [source]
  | .copying _ source file _ | .pending _ source file _ _ => [source, file]
  | _ => []

end Publishing

structure PublicationStore where
  files : FileSystem TargetName
  /-- The directories of targets that exist. -/
  directories : List ℕ
  repository : Repository
  processes : List Publishing

namespace PublicationStore

variable (site : PublicationSite) (s : PublicationStore)

def goto (p : ℕ) (phase : Publishing) : PublicationStore :=
  { s with processes := s.processes.set p phase }

/-- No name leads to the inode, and no process has it open. -/
def unused (i : ℕ) : Bool :=
  decide (s.files.Free i) && s.processes.all (fun phase => !phase.files.contains i)

/-- `os.unlink` that ignores `FileNotFoundError`. -/
def unlinkAny (name : TargetName) (now : ℕ) : PublicationStore :=
  match s.files.unlink name now with
  | .error _ => s
  | .ok files => { s with files := files }

def finalName (job : Job) : TargetName := .artifact (site.targetKey job.publication.targetKey)

def preparedName (job : Job) : TargetName := .prepared job.publication.id

/-- `(digest, size)` against the publication's digest and the artifact's size. -/
def expects (job : Job) (digest size : ℕ) : Bool :=
  decide (digest = job.publication.expectedDigest) && decide (size = job.artifact.sizeBytes)

/-- The outcome of a verification of the final file. -/
def verdictOn (job : Job) (digest size : ℕ) : Verdict :=
  if expects job digest size then .committed digest else .needsAttention (some digest)

/-- The next step of process `p`, which stands at `phase`; a new file gets the inode `file`. -/
def next (p chunk file now : ℕ) : Publishing → Option PublicationStore
  | .idle => none
  | .attempting artifact publication =>
    match beginPublicationAttempt s.repository publication.id with
    | .ok (repository, publication) =>
      some ({ s with repository := repository }.goto p (.opening ⟨publication, artifact, true⟩))
    | .error _ => some (s.goto p .idle)
  | .opening job =>
    let directory := site.targetKey job.publication.targetKey
    if site.insecure (.target directory) then
      some (s.goto p (.deciding job (.needsAttention none)))
    else if job.writeIfMissing then
      some ({ s with directories := directory :: s.directories }.goto p (.checking job))
    else if s.directories.contains directory then some (s.goto p (.checking job))
    else some (s.goto p .idle)
  | .checking job =>
    match openRegular s.files (finalName site job) with
    | .ok file => some (s.goto p (.checkingFile job (.opened file)))
    | .error .fileNotFound => some (s.goto p (.resuming job))
    | .error _ => some (s.goto p (.deciding job (.needsAttention none)))
  | .checkingFile job probe =>
    match probe.step s.files site.maxBlobBytes chunk with
    | .ok (.inl probe) => some (s.goto p (.checkingFile job probe))
    | .ok (.inr (content, _)) =>
      some (s.goto p (.clearing job (site.sha256 content) content.length))
    | .error _ => some (s.goto p (.deciding job (.needsAttention none)))
  | .clearing job digest size =>
    some ((s.unlinkAny (preparedName job) now).goto p
      (.deciding job (verdictOn job digest size)))
  | .resuming job =>
    match openRegular s.files (preparedName job) with
    | .ok file => some (s.goto p (.preparedFile job (.opened file)))
    | .error .fileNotFound =>
      if job.writeIfMissing then some (s.goto p (.sourcing job)) else some (s.goto p .idle)
    | .error _ => some (s.goto p (.deciding job (.needsAttention none)))
  | .preparedFile job probe =>
    match probe.step s.files site.maxBlobBytes chunk with
    | .ok (.inl probe) => some (s.goto p (.preparedFile job probe))
    | .ok (.inr (content, _)) =>
      if expects job (site.sha256 content) content.length then some (s.goto p (.linking job))
      else some (s.goto p (.dropping job))
    | .error _ => some (s.goto p (.deciding job (.needsAttention none)))
  | .sourcing job =>
    if site.insecure .blobs then some (s.goto p (.deciding job (.needsAttention none)))
    else match openRegular s.files (.blob job.artifact.digest) with
    | .ok source => some (s.goto p (.creating job source))
    | .error _ => some (s.goto p (.deciding job (.needsAttention none)))
  | .creating job source =>
    if !s.unused file then none
    else match s.files.create (preparedName job) privateMode file now with
    | .ok files => some ({ s with files := files }.goto p (.copying job source file []))
    | .error _ => some (s.goto p .idle)
  | .copying job source file written =>
    let bytes := ((s.files.content source).drop written.length).take (chunk + 1)
    if bytes = [] then
      if expects job (site.sha256 written) written.length then some (s.goto p (.rechecking job))
      else some (s.goto p (.refusing job))
    else if site.maxBlobBytes < (written ++ bytes).length then some (s.goto p (.discarding job))
    else some (s.goto p (.pending job source file written bytes))
  | .pending job source file written bytes =>
    let part := bytes.take (chunk + 1)
    let rest := bytes.drop (chunk + 1)
    let phase := if rest = [] then .copying job source file (written ++ part)
      else .pending job source file (written ++ part) rest
    some ({ s with files := s.files.append file part now }.goto p phase)
  | .discarding job => some ((s.unlinkAny (preparedName job) now).goto p .idle)
  | .refusing job =>
    some ((s.unlinkAny (preparedName job) now).goto p (.deciding job (.needsAttention none)))
  | .rechecking job =>
    match openRegular s.files (preparedName job) with
    | .ok file => some (s.goto p (.preparedFile job (.opened file)))
    | .error .fileNotFound => some (s.goto p .idle)
    | .error _ => some (s.goto p (.deciding job (.needsAttention none)))
  | .dropping job => some ((s.unlinkAny (preparedName job) now).goto p .idle)
  | .linking job =>
    match s.files.link (preparedName job) (finalName site job) now with
    | .ok files => some ({ s with files := files }.goto p (.unlinking job))
    | .error .exists_ => some (s.goto p (.unlinking job))
    | .error .noEntry => some (s.goto p .idle)
  | .unlinking job => some ((s.unlinkAny (preparedName job) now).goto p (.closing job))
  | .closing job =>
    match openRegular s.files (finalName site job) with
    | .ok file => some (s.goto p (.closingFile job (.opened file)))
    | .error .fileNotFound => some (s.goto p .idle)
    | .error _ => some (s.goto p (.deciding job (.needsAttention none)))
  | .closingFile job probe =>
    match probe.step s.files site.maxBlobBytes chunk with
    | .ok (.inl probe) => some (s.goto p (.closingFile job probe))
    | .ok (.inr (content, _)) =>
      some (s.goto p (.deciding job (verdictOn job (site.sha256 content) content.length)))
    | .error _ => some (s.goto p (.deciding job (.needsAttention none)))
  | .deciding job verdict =>
    let outcome := match verdict with
      | .committed observed => markPublished s.repository job.publication.id observed
      | .needsAttention observed => markNeedsAttention s.repository job.publication.id observed
    match outcome with
    | .ok (repository, _) => some ({ s with repository := repository }.goto p .idle)
    | .error _ => some (s.goto p .idle)

end PublicationStore

inductive PublicationAction
  /-- A call of `publish`, up to the end of `prepare_publication`. -/
  | publish (p artifactId : ℕ) (targetKey : String) (publicationId : ℕ)
  /-- A call of `reconcile`, up to its look at the row. -/
  | reconcile (p publicationId : ℕ)
  | next (p chunk file now : ℕ)
  /-- An `OSError` while the copy is written. -/
  | interrupt (p : ℕ)
  /-- The process ends, or an `OSError` makes the outcome retryable. -/
  | crash (p : ℕ)
deriving DecidableEq

/-- `publish` after `prepare_publication`. -/
def PublicationStore.publish (site : PublicationSite) (s : PublicationStore) (p artifactId : ℕ)
    (targetKey : String) (publicationId : ℕ) : PublicationStore :=
  let started := do
    let artifact ← getArtifact s.repository ⟨site.owner, artifactId⟩
    let (repository, publication) ← preparePublication s.repository artifact.id targetKey
      (site.targetKey targetKey) publicationId
    return (artifact, repository, publication)
  match started with
  | .error _ => s
  | .ok (artifact, repository, publication) =>
    let s := { s with repository := repository }
    match publication.state with
    | .published | .needsAttention => s
    | .prepared | .cancelled => s.goto p (.attempting artifact publication)

def PublicationStore.reconcile (site : PublicationSite) (s : PublicationStore)
    (p publicationId : ℕ) : PublicationStore :=
  match getPublication s.repository ⟨site.owner, publicationId⟩ with
  | .error _ => s
  | .ok publication =>
    match publication.state with
    | .published | .needsAttention => s
    | .prepared | .cancelled =>
      match getArtifact s.repository publication.artifactId with
      | .error _ => s
      | .ok artifact => s.goto p (.opening ⟨publication, artifact, false⟩)

/-- One step; `none` when the action is not possible. -/
def PublicationStore.step (site : PublicationSite) (s : PublicationStore) :
    PublicationAction → Option PublicationStore
  | .publish p artifactId targetKey publicationId =>
    if s.processes[p]? = some .idle then
      some (s.publish site p artifactId targetKey publicationId)
    else none
  | .reconcile p publicationId =>
    if s.processes[p]? = some .idle then some (s.reconcile site p publicationId) else none
  | .next p chunk file now => s.processes[p]?.bind (s.next site p chunk file now)
  | .interrupt p =>
    match s.processes[p]? with
    | some (.copying job _ _ _) | some (.pending job _ _ _ _) => some (s.goto p (.discarding job))
    | _ => none
  | .crash p => some (s.goto p .idle)

def PublicationStore.transition (site : PublicationSite) (s : PublicationStore)
    (action : PublicationAction) : Except Unit PublicationStore :=
  (s.step site action).elim (.error ()) .ok

abbrev PublicationStore.run (site : PublicationSite) (s : PublicationStore)
    (actions : List PublicationAction) : PublicationStore :=
  Transaction.run (PublicationStore.transition site) s actions

end Metnos.Artifacts
