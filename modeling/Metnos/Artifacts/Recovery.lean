import Metnos.Lib.Count
import Metnos.Artifacts.Publish

/-!
# Artifacts.Recovery — what publications come to

A published artifact is in place, an installed file never changes, and attention has a reason,
in every run in which no process disturbs the files of another one: it leaves a file alone while
another process verifies it, and it installs only a complete file.  The last section runs two
processes on one publication that do disturb each other.
-/

namespace Metnos.Artifacts

open Metnos.Durable Files

open PublicationStore (preparedName finalName expects verdictOn)

variable {site : PublicationSite} {s s' : PublicationStore} {p q : ℕ}

/-! ## Outcomes -/

/-- The final file of a directory has this digest and size. -/
def PublicationStore.Installed (site : PublicationSite) (s : PublicationStore)
    (directory digest size : ℕ) : Prop :=
  ∃ i, s.files.names (.artifact directory) = some i ∧
    site.sha256 (s.files.content i) = digest ∧ (s.files.content i).length = size

/-- The registered blob is there, a private file with its digest and size. -/
def PublicationStore.BlobPresent (site : PublicationSite) (s : PublicationStore)
    (digest size : ℕ) : Prop :=
  ∃ i, s.files.names (.blob digest) = some i ∧ s.files.mode i = privateMode ∧
    site.sha256 (s.files.content i) = digest ∧ (s.files.content i).length = size

/-- A reason for attention: another final file, a blob that is missing or corrupt, or an unsafe
path. -/
def PublicationStore.Damaged (site : PublicationSite) (s : PublicationStore)
    (directory digest size : ℕ) : Prop :=
  (∃ i, s.files.names (.artifact directory) = some i ∧
    ¬(site.sha256 (s.files.content i) = digest ∧ (s.files.content i).length = size)) ∨
  ¬s.BlobPresent site digest size ∨ site.insecure (.target directory) = true ∨
  site.insecure .blobs = true

/-- Every outcome is what its row says; a final file holds what some publication of its target
publishes. -/
structure PublicationStore.Recovered (site : PublicationSite) (s : PublicationStore) : Prop where
  published : ∀ id row, s.repository.publications.find? id = some row →
    row.state = .published → ∃ a, s.repository.artifacts.find? row.artifactId = some a ∧
      s.Installed site (site.targetKey row.targetKey) row.expectedDigest a.sizeBytes
  attention : ∀ id row, s.repository.publications.find? id = some row →
    row.state = .needsAttention → ∃ a, s.repository.artifacts.find? row.artifactId = some a ∧
      s.Damaged site (site.targetKey row.targetKey) row.expectedDigest a.sizeBytes
  final : ∀ directory i, s.files.names (.artifact directory) = some i →
    ∃ id row, s.repository.publications.find? id = some row ∧
      site.targetKey row.targetKey = directory ∧
      site.sha256 (s.files.content i) = row.expectedDigest

/-- Installed files are neither replaced nor changed. -/
def PublicationStore.KeepsFinals (s s' : PublicationStore) : Prop :=
  ∀ directory i, s.files.names (.artifact directory) = some i →
    s'.files.names (.artifact directory) = some i ∧ s'.files.content i = s.files.content i

/-! ## Processes that leave each other's files alone -/

/-- The file between the two `fstat` calls of a verification. -/
def Probe.measured : Probe → Option ℕ
  | .opened _ => none
  | .reading file _ _ | .ended file _ _ => some file

def Publishing.measured : Publishing → Option ℕ
  | .checkingFile _ probe | .preparedFile _ probe | .closingFile _ probe => probe.measured
  | _ => none

/-- The file whose bytes or times the next step changes. -/
def Publishing.changes (site : PublicationSite) (s : PublicationStore) : Publishing → Option ℕ
  | .pending _ _ file _ _ => some file
  | .clearing job _ _ | .discarding job | .refusing job | .dropping job | .unlinking job =>
    s.files.names (PublicationStore.preparedName job)
  | .linking job =>
    if (s.files.names (PublicationStore.finalName site job)).isSome then none
    else s.files.names (PublicationStore.preparedName job)
  | _ => none

/-- The next step of `p` changes no file that another process measures, and installs only a
prepared file that is the artifact and that no process writes to any more. -/
def Undisturbed (site : PublicationSite) (s : PublicationStore) : PublicationAction → Bool
  | .next p _ _ _ =>
    match s.processes[p]? with
    | none => true
    | some phase =>
      (phase.changes site s).all (fun i =>
        (s.processes.eraseIdx p).all (fun other => decide (other.measured ≠ some i))) &&
      match phase with
      | .linking job =>
        (phase.changes site s).all (fun i =>
          PublicationStore.expects job (site.sha256 (s.files.content i))
            (s.files.content i).length &&
          s.processes.all (fun other => decide (other.output ≠ some i)))
      | _ => true
  | _ => true

/-! ## The invariant -/

/-- A private file within the size limit. -/
def PublicationStore.Small (site : PublicationSite) (s : PublicationStore) (i : ℕ) : Prop :=
  s.files.mode i = privateMode ∧ (s.files.content i).length ≤ site.maxBlobBytes

/-- The job was read from the two tables. -/
structure JobOf (db : Repository) (job : Job) : Prop where
  publication : ∃ row, db.publications.find? job.publication.id = some row ∧
    row.frozen = job.publication.frozen
  artifact : ∃ a, db.artifacts.find? job.publication.artifactId = some a ∧
    a.frozen = job.artifact.frozen
  digest : job.artifact.digest = job.publication.expectedDigest

/-- A verification of a small file that nothing changed since the first `fstat`. -/
def Probe.Calm (site : PublicationSite) (s : PublicationStore) (probe : Probe) : Prop :=
  s.Small site probe.file ∧
  match probe with
  | .opened _ => True
  | .reading file before seen => before = s.files.stat file ∧ seen <+: s.files.content file
  | .ended file before seen => before = s.files.stat file ∧ seen = s.files.content file

def Job.directory (site : PublicationSite) (job : Job) : ℕ :=
  site.targetKey job.publication.targetKey

def Verdict.Fair (site : PublicationSite) (s : PublicationStore) (job : Job) : Verdict → Prop
  | .committed observed => observed = job.publication.expectedDigest ∧
    s.Installed site (job.directory site) job.publication.expectedDigest job.artifact.sizeBytes
  | .needsAttention _ =>
    s.Damaged site (job.directory site) job.publication.expectedDigest job.artifact.sizeBytes

/-- The copy of a blob so far. -/
structure Copying (site : PublicationSite) (s : PublicationStore) (job : Job) (source file : ℕ)
    (written bytes : List UInt8) : Prop where
  blob : s.files.names (.blob job.artifact.digest) = some source
  content : s.files.content file = written
  progress : written ++ bytes <+: s.files.content source
  mode : s.files.mode file = privateMode
  size : (written ++ bytes).length ≤ site.maxBlobBytes
  names : ∀ n, s.files.names n = some file → ∃ k, n = .prepared k

/-- What a process knows at each point of its program. -/
def Publishing.Sound (site : PublicationSite) (s : PublicationStore) : Publishing → Prop
  | .idle => True
  | .attempting artifact publication => JobOf s.repository ⟨publication, artifact, true⟩
  | .opening job | .checking job | .resuming job | .sourcing job | .discarding job
  | .rechecking job | .dropping job | .linking job | .unlinking job | .closing job =>
    JobOf s.repository job
  | .checkingFile job probe | .closingFile job probe =>
    JobOf s.repository job ∧ probe.Calm site s ∧
    s.files.names (PublicationStore.finalName site job) = some probe.file
  | .preparedFile job probe => JobOf s.repository job ∧ probe.Calm site s
  | .clearing job digest size =>
    JobOf s.repository job ∧ s.Installed site (job.directory site) digest size
  | .creating job source =>
    JobOf s.repository job ∧ s.files.names (.blob job.artifact.digest) = some source
  | .copying job source file written =>
    JobOf s.repository job ∧ Copying site s job source file written []
  | .pending job source file written bytes =>
    JobOf s.repository job ∧ Copying site s job source file written bytes
  | .refusing job =>
    JobOf s.repository job ∧
    ¬s.BlobPresent site job.publication.expectedDigest job.artifact.sizeBytes
  | .deciding job verdict => JobOf s.repository job ∧ verdict.Fair site s job

structure PublicationStore.Orderly (site : PublicationSite) (s : PublicationStore) : Prop where
  rows : ∀ id row, s.repository.publications.find? id = some row →
    ∃ a, s.repository.artifacts.find? row.artifactId = some a ∧ a.digest = row.expectedDigest ∧
      (row.state = .published →
        s.Installed site (site.targetKey row.targetKey) row.expectedDigest a.sizeBytes) ∧
      (row.state = .needsAttention →
        s.Damaged site (site.targetKey row.targetKey) row.expectedDigest a.sizeBytes)
  final : ∀ directory i, s.files.names (.artifact directory) = some i → s.Small site i ∧
    ∃ id row, s.repository.publications.find? id = some row ∧
      site.targetKey row.targetKey = directory ∧
      site.sha256 (s.files.content i) = row.expectedDigest
  prepared : ∀ k i, s.files.names (.prepared k) = some i → s.Small site i
  phase : ∀ (q : ℕ) (phase : Publishing), s.processes[q]? = some phase → phase.Sound site s
  writers : ∀ (q q' : ℕ) (phase phase' : Publishing) (i : ℕ), s.processes[q]? = some phase →
    s.processes[q']? = some phase' → phase.output = some i → phase'.output = some i → q = q'

theorem PublicationStore.Orderly.recovered (orderly : s.Orderly site) : s.Recovered site := by
  refine ⟨fun id row hrow published => ?_, fun id row hrow attention => ?_, fun d i hi =>
    (orderly.final d i hi).2⟩
  · obtain ⟨a, ha, -, installed, -⟩ := orderly.rows id row hrow
    exact ⟨a, ha, installed published⟩
  · obtain ⟨a, ha, -, -, damaged⟩ := orderly.rows id row hrow
    exact ⟨a, ha, damaged attention⟩

/-! ## What an undisturbed step leaves to others -/

/-- A file that a name leads to or that another process than `p` has open. -/
def PublicationStore.Known (s : PublicationStore) (p i : ℕ) : Prop :=
  (∃ n, s.files.names n = some i) ∨
    ∃ (q : ℕ) (phase : Publishing), q ≠ p ∧ s.processes[q]? = some phase ∧ i ∈ phase.files

/-- What a step of process `p` leaves as it was. -/
structure Spares (site : PublicationSite) (p : ℕ) (s s' : PublicationStore) : Prop where
  rows : KeepsRows s.repository s'.repository
  blobNames : ∀ digest, s'.files.names (.blob digest) = s.files.names (.blob digest)
  blob : ∀ digest i, s.files.names (.blob digest) = some i →
    s'.files.content i = s.files.content i ∧ s'.files.mode i = s.files.mode i
  finals : s.KeepsFinals s'
  small : ∀ i, s.Known p i → s.Small site i → s'.Small site i
  measured : ∀ (q : ℕ) (phase : Publishing) (i : ℕ), q ≠ p → s.processes[q]? = some phase →
    phase.measured = some i → s'.files.stat i = s.files.stat i ∧
      s'.files.content i = s.files.content i
  output : ∀ (q : ℕ) (phase : Publishing) (i : ℕ), q ≠ p → s.processes[q]? = some phase →
    phase.output = some i → s'.files.content i = s.files.content i ∧
      s'.files.mode i = s.files.mode i ∧
      ∀ n, s'.files.names n = some i → s.files.names n = some i ∨ ∃ k, n = .prepared k

theorem JobOf.keeps {db db' : Repository} {job : Job} (h : JobOf db job) (keeps : KeepsRows db db') :
    JobOf db' job := by
  obtain ⟨⟨row, hrow, frozen⟩, ⟨a, ha, frozen'⟩, digest⟩ := h
  obtain ⟨row', hrow', same⟩ := keeps.publications _ _ hrow
  obtain ⟨a', ha', same'⟩ := keeps.artifacts _ _ ha
  exact ⟨⟨row', hrow', same.trans frozen⟩, ⟨a', ha', same'.trans frozen'⟩, digest⟩

section
variable {directory digest size : ℕ}

theorem PublicationStore.Installed.keeps (h : s.Installed site directory digest size)
    (finals : s.KeepsFinals s') : s'.Installed site directory digest size := by
  obtain ⟨i, hname, hdigest, hsize⟩ := h
  obtain ⟨hname', content⟩ := finals directory i hname
  exact ⟨i, hname', by rw [content]; exact hdigest, by rw [content]; exact hsize⟩

theorem Spares.blobPresent (spares : Spares site p s s') :
    s'.BlobPresent site digest size ↔ s.BlobPresent site digest size := by
  unfold PublicationStore.BlobPresent
  rw [spares.blobNames]
  refine exists_congr fun i => and_congr_right fun hname => ?_
  obtain ⟨content, mode⟩ := spares.blob digest i hname
  rw [content, mode]

theorem PublicationStore.Damaged.spares (h : s.Damaged site directory digest size)
    (spares : Spares site p s s') : s'.Damaged site directory digest size := by
  rcases h with ⟨i, hname, other⟩ | missing | rest
  · obtain ⟨hname', content⟩ := spares.finals directory i hname
    exact .inl ⟨i, hname', by rw [content]; exact other⟩
  · exact .inr (.inl fun present => missing (spares.blobPresent.mp present))
  · exact .inr (.inr rest)

end

theorem Verdict.Fair.spares {job : Job} {verdict : Verdict} (h : verdict.Fair site s job)
    (spares : Spares site p s s') : verdict.Fair site s' job := by
  cases verdict with
  | committed observed => exact ⟨h.1, h.2.keeps spares.finals⟩
  | needsAttention observed => exact PublicationStore.Damaged.spares h spares

theorem Probe.Calm.spares {probe : Probe} {phase : Publishing} (h : probe.Calm site s)
    (spares : Spares site p s s') (hne : q ≠ p) (hq : s.processes[q]? = some phase)
    (opened : probe.file ∈ phase.files) (measured : phase.measured = probe.measured) :
    probe.Calm site s' := by
  obtain ⟨small, rest⟩ := h
  refine ⟨spares.small _ (.inr ⟨q, phase, hne, hq, opened⟩) small, ?_⟩
  cases probe with
  | opened file => trivial
  | reading file before seen =>
    obtain ⟨stat, content⟩ := spares.measured q phase file hne hq measured
    exact ⟨rest.1.trans stat.symm, content.symm ▸ rest.2⟩
  | ended file before seen =>
    obtain ⟨stat, content⟩ := spares.measured q phase file hne hq measured
    exact ⟨rest.1.trans stat.symm, rest.2.trans content.symm⟩

theorem Copying.spares {job : Job} {source file : ℕ} {written bytes : List UInt8}
    {phase : Publishing} (h : Copying site s job source file written bytes)
    (spares : Spares site p s s') (hne : q ≠ p) (hq : s.processes[q]? = some phase)
    (output : phase.output = some file) : Copying site s' job source file written bytes := by
  obtain ⟨content, mode, names⟩ := spares.output q phase file hne hq output
  refine ⟨(spares.blobNames _).trans h.blob, content.trans h.content, ?_, mode.trans h.mode,
    h.size, fun n hn => (names n hn).elim (h.names n) id⟩
  rw [(spares.blob _ _ h.blob).1]
  exact h.progress

theorem Publishing.Sound.spares {phase : Publishing} (orderly : s.Orderly site) (hne : q ≠ p)
    (hq : s.processes[q]? = some phase) (spares : Spares site p s s') : phase.Sound site s' := by
  have sound := orderly.phase q phase hq
  cases phase with
  | idle => trivial
  | attempting artifact publication => exact JobOf.keeps sound spares.rows
  | opening job | checking job | resuming job | sourcing job | discarding job
  | rechecking job | dropping job | linking job | unlinking job | closing job =>
    exact JobOf.keeps sound spares.rows
  | checkingFile job probe | closingFile job probe =>
    obtain ⟨jobOf, calm, name⟩ := sound
    exact ⟨jobOf.keeps spares.rows, calm.spares spares hne hq (by simp [Publishing.files]) rfl,
      (spares.finals _ _ name).1⟩
  | preparedFile job probe =>
    obtain ⟨jobOf, calm⟩ := sound
    exact ⟨jobOf.keeps spares.rows, calm.spares spares hne hq (by simp [Publishing.files]) rfl⟩
  | clearing job digest size => exact ⟨sound.1.keeps spares.rows, sound.2.keeps spares.finals⟩
  | creating job source =>
    exact ⟨sound.1.keeps spares.rows, (spares.blobNames _).trans sound.2⟩
  | copying job source file written =>
    exact ⟨sound.1.keeps spares.rows, sound.2.spares spares hne hq rfl⟩
  | pending job source file written bytes =>
    exact ⟨sound.1.keeps spares.rows, sound.2.spares spares hne hq rfl⟩
  | refusing job =>
    exact ⟨sound.1.keeps spares.rows, fun present => sound.2 (spares.blobPresent.mp present)⟩
  | deciding job verdict => exact ⟨sound.1.keeps spares.rows, sound.2.spares spares⟩

/-! ## One step of a process -/

theorem PublicationStore.Orderly.advance {phase' : Publishing} (orderly : s.Orderly site)
    (spares : Spares site p s s') (processes : s'.processes = s.processes.set p phase')
    (sound : phase'.Sound site s')
    (alone : ∀ (i q : ℕ) (phase : Publishing), phase'.output = some i → q ≠ p →
      s.processes[q]? = some phase → phase.output ≠ some i)
    (rows : ∀ id row, s'.repository.publications.find? id = some row →
      ∃ a, s'.repository.artifacts.find? row.artifactId = some a ∧ a.digest = row.expectedDigest ∧
        (row.state = .published →
          s'.Installed site (site.targetKey row.targetKey) row.expectedDigest a.sizeBytes) ∧
        (row.state = .needsAttention →
          s'.Damaged site (site.targetKey row.targetKey) row.expectedDigest a.sizeBytes))
    (final : ∀ directory i, s'.files.names (.artifact directory) = some i → s'.Small site i ∧
      ∃ id row, s'.repository.publications.find? id = some row ∧
        site.targetKey row.targetKey = directory ∧
        site.sha256 (s'.files.content i) = row.expectedDigest)
    (prepared : ∀ k i, s'.files.names (.prepared k) = some i → s'.Small site i) :
    s'.Orderly site := by
  refine ⟨rows, final, prepared, ?_, ?_⟩
  · intro q phase hq
    rw [processes] at hq
    rcases Count.set_cases hq with ⟨rfl, rfl⟩ | ⟨hne, old⟩
    · exact sound
    · exact Publishing.Sound.spares orderly hne old spares
  · intro q q' phase phase'' i hq hq' hi hi'
    rw [processes] at hq hq'
    rcases Count.set_cases hq with ⟨rfl, rfl⟩ | ⟨hne, old⟩ <;>
      rcases Count.set_cases hq' with ⟨rfl, rfl⟩ | ⟨hne', old'⟩
    · rfl
    · exact (alone i q' phase'' hi hne' old' hi').elim
    · exact (alone i q phase hi' hne old hi).elim
    · exact orderly.writers q q' phase phase'' i old old' hi hi'

theorem PublicationStore.Orderly.rowsOf (orderly : s.Orderly site) (spares : Spares site p s s')
    (repository : s'.repository = s.repository) (id : Key) (row : Publication)
    (h : s'.repository.publications.find? id = some row) :
    ∃ a, s'.repository.artifacts.find? row.artifactId = some a ∧ a.digest = row.expectedDigest ∧
      (row.state = .published →
        s'.Installed site (site.targetKey row.targetKey) row.expectedDigest a.sizeBytes) ∧
      (row.state = .needsAttention →
        s'.Damaged site (site.targetKey row.targetKey) row.expectedDigest a.sizeBytes) := by
  rw [repository] at h ⊢
  obtain ⟨a, ha, digest, published, attention⟩ := orderly.rows id row h
  exact ⟨a, ha, digest, fun hs => (published hs).keeps spares.finals,
    fun hs => (attention hs).spares spares⟩

theorem PublicationStore.Orderly.finalOf {directory i : ℕ} (orderly : s.Orderly site)
    (spares : Spares site p s s') (h : s.files.names (.artifact directory) = some i) :
    s'.Small site i ∧ ∃ id row, s'.repository.publications.find? id = some row ∧
      site.targetKey row.targetKey = directory ∧
      site.sha256 (s'.files.content i) = row.expectedDigest := by
  obtain ⟨small, id, row, hrow, hdirectory, hdigest⟩ := orderly.final directory i h
  obtain ⟨row', hrow', frozen⟩ := spares.rows.publications id row hrow
  simp only [Publication.frozen, Prod.mk.injEq] at frozen
  refine ⟨spares.small i (.inl ⟨_, h⟩) small, id, row', hrow', ?_, ?_⟩
  · rw [frozen.2.1]
    exact hdirectory
  · rw [(spares.finals directory i h).2, frozen.2.2]
    exact hdigest

theorem Spares.of_files (files : s'.files = s.files)
    (rows : KeepsRows s.repository s'.repository) : Spares site p s s' := by
  refine ⟨rows, fun d => by rw [files], fun d i _ => by rw [files]; exact ⟨rfl, rfl⟩,
    fun d i h => by rw [files]; exact ⟨h, rfl⟩, fun i _ h => ?_,
    fun q phase i _ _ _ => by rw [files]; exact ⟨rfl, rfl⟩,
    fun q phase i _ _ _ => by rw [files]; exact ⟨rfl, rfl, fun n hn => .inl hn⟩⟩
  unfold PublicationStore.Small
  rw [files]
  exact h

theorem PublicationStore.Orderly.quiet {phase' : Publishing} (orderly : s.Orderly site)
    (files : s'.files = s.files) (repository : s'.repository = s.repository)
    (processes : s'.processes = s.processes.set p phase')
    (alone : ∀ (i q : ℕ) (phase : Publishing), phase'.output = some i → q ≠ p →
      s.processes[q]? = some phase → phase.output ≠ some i)
    (sound : phase'.Sound site s') : s'.Orderly site := by
  have spares : Spares site p s s' := .of_files files (repository ▸ .refl _)
  refine orderly.advance spares processes sound alone (orderly.rowsOf spares repository)
    (fun d i hi => ?_) fun k i hi => ?_
  · rw [files] at hi
    exact orderly.finalOf spares hi
  · rw [files] at hi
    exact spares.small i (.inl ⟨_, hi⟩) (orderly.prepared k i hi)

theorem PublicationStore.Orderly.goto {phase' : Publishing} (orderly : s.Orderly site)
    (output : phase'.output = none) (sound : phase'.Sound site s) :
    (s.goto p phase').Orderly site := by
  refine orderly.quiet rfl rfl rfl (fun i q phase hi => ?_) ?_
  · rw [output] at hi
    cases hi
  · cases phase' with
    | copying | pending => cases output
    | _ => exact sound

theorem PublicationStore.Orderly.unlinkAny {phase' : Publishing} {k : Key} {now : ℕ}
    (orderly : s.Orderly site)
    (undisturbed : ∀ i, s.files.names (.prepared k) = some i →
      ∀ (q : ℕ) (other : Publishing), q ≠ p → s.processes[q]? = some other →
        other.measured ≠ some i)
    (output : phase'.output = none)
    (sound : ∀ s', Spares site p s s' → phase'.Sound site s') :
    ((s.unlinkAny (.prepared k) now).goto p phase').Orderly site := by
  unfold PublicationStore.unlinkAny
  split
  · exact orderly.goto output (sound s (.of_files rfl (.refl _)))
  · rename_i files h
    obtain ⟨i₀, unlinked⟩ := FileSystem.unlink_ok h
    have still : ∀ m i, files.names m = some i → s.files.names m = some i := by
      intro m i hm
      rw [unlinked.names] at hm
      by_cases heq : m = .prepared k
      · subst heq
        simp at hm
      · rwa [Function.update_of_ne heq] at hm
    have kept : ∀ m, m ≠ .prepared k → files.names m = s.files.names m := by
      intro m hm
      rw [unlinked.names, Function.update_of_ne hm]
    have spares : Spares site p s
        (PublicationStore.goto { s with files := files } p phase') := by
      refine ⟨.refl _, fun d => kept _ (by simp), fun d i _ => ⟨unlinked.content i,
        unlinked.mode i⟩, fun d i hi => ⟨(kept _ (by simp)).trans hi, unlinked.content i⟩,
        fun i _ hi => ⟨(unlinked.mode i).trans hi.1,
          (congrArg List.length (unlinked.content i)).le.trans hi.2⟩,
        fun q other i hne hq hm => ⟨unlinked.others i ?_, unlinked.content i⟩,
        fun q other i _ _ _ => ⟨unlinked.content i, unlinked.mode i,
          fun n hn => .inl (still n i hn)⟩⟩
      rintro rfl
      exact undisturbed i unlinked.name q other hne hq hm
    refine orderly.advance spares rfl (sound _ spares) (fun i q phase hi => ?_)
      (orderly.rowsOf spares rfl) (fun d i hi => orderly.finalOf spares (still _ i hi))
      fun k' i hi => spares.small i (.inl ⟨_, still _ i hi⟩)
        (orderly.prepared k' i (still _ i hi))
    rw [output] at hi
    cases hi

theorem PublicationStore.Orderly.link {job : Job} {now : ℕ} {files : FileSystem TargetName}
    (orderly : s.Orderly site) (jobOf : JobOf s.repository job)
    (undisturbed : ∀ i, s.files.names (preparedName job) = some i →
      expects job (site.sha256 (s.files.content i)) (s.files.content i).length = true ∧
      ∀ (q : ℕ) (other : Publishing), s.processes[q]? = some other →
        other.output ≠ some i ∧ (q ≠ p → other.measured ≠ some i))
    (h : s.files.link (preparedName job) (finalName site job) now = .ok files) :
    (PublicationStore.goto { s with files := files } p (.unlinking job)).Orderly site := by
  obtain ⟨i₀, linked⟩ := FileSystem.link_ok h
  obtain ⟨complete, calm⟩ := undisturbed i₀ linked.source
  have names : ∀ m i, files.names m = some i →
      (m = finalName site job ∧ i = i₀) ∨ s.files.names m = some i := by
    intro m i hm
    rw [linked.names] at hm
    by_cases heq : m = finalName site job
    · subst heq
      rw [Function.update_self] at hm
      exact .inl ⟨rfl, (Option.some.inj hm).symm⟩
    · rw [Function.update_of_ne heq] at hm
      exact .inr hm
  have kept : ∀ m i, s.files.names m = some i → files.names m = some i := by
    intro m i hm
    rw [linked.names, Function.update_of_ne]
    · exact hm
    · rintro rfl
      rw [linked.free] at hm
      cases hm
  have spares : Spares site p s
      (PublicationStore.goto { s with files := files } p (.unlinking job)) := by
    refine ⟨.refl _, fun d => ?_, fun d i _ => ⟨linked.content i, linked.mode i⟩,
      fun d i hi => ⟨kept _ i hi, linked.content i⟩,
      fun i _ hi => ⟨(linked.mode i).trans hi.1,
        (congrArg List.length (linked.content i)).le.trans hi.2⟩,
      fun q other i hne hq hm => ⟨linked.others i ?_, linked.content i⟩,
      fun q other i _ hq hout => ⟨linked.content i, linked.mode i, fun n hn => ?_⟩⟩
    · show files.names (.blob d) = s.files.names (.blob d)
      rw [linked.names, Function.update_of_ne (by simp [finalName])]
    · rintro rfl
      exact (calm q other hq).2 hne hm
    · refine .inl ((names n i hn).resolve_left ?_)
      rintro ⟨-, rfl⟩
      exact (calm q other hq).1 hout
  refine orderly.advance spares rfl (jobOf.keeps (.refl _)) (fun i q phase hi => by cases hi)
    (orderly.rowsOf spares rfl) (fun d i hi => ?_) fun k i hi => ?_
  · rcases names _ i hi with ⟨heq, rfl⟩ | hi
    · have small : s.Small site i := orderly.prepared _ i linked.source
      obtain ⟨row, hrow, frozen⟩ := jobOf.publication
      simp only [Publication.frozen, Prod.mk.injEq] at frozen
      simp only [expects, Bool.and_eq_true, decide_eq_true_eq] at complete
      refine ⟨spares.small i (.inl ⟨_, linked.source⟩) small, _, row, hrow, ?_, ?_⟩
      · rw [frozen.2.1]
        exact (TargetName.artifact.inj heq).symm
      · rw [frozen.2.2, ← complete.1]
        exact congrArg site.sha256 (linked.content i)
    · exact orderly.finalOf spares hi
  · have old : s.files.names (.prepared k) = some i :=
      (names _ i hi).resolve_left (by simp [finalName])
    exact spares.small i (.inl ⟨_, old⟩) (orderly.prepared k i old)

theorem PublicationStore.unused_names {i : ℕ} (h : s.unused i = true) (n : TargetName) :
    s.files.names n ≠ some i := by
  simp only [PublicationStore.unused, Bool.and_eq_true, decide_eq_true_eq] at h
  exact FileSystem.Free.names h.1 n

theorem PublicationStore.unused_files {i : ℕ} {phase : Publishing} (h : s.unused i = true)
    (hq : s.processes[q]? = some phase) : i ∉ phase.files := by
  simp only [PublicationStore.unused, Bool.and_eq_true, List.all_eq_true, Bool.not_eq_true',
    List.contains_eq_mem, decide_eq_false_iff_not] at h
  exact h.2 phase (List.mem_of_getElem? hq)

theorem Publishing.output_files {phase : Publishing} {i : ℕ} (h : phase.output = some i) :
    i ∈ phase.files := by
  cases phase with
  | copying job source file written =>
    cases h
    simp [Publishing.files]
  | pending job source file written bytes =>
    cases h
    simp [Publishing.files]
  | _ => cases h

theorem Publishing.measured_files {phase : Publishing} {i : ℕ} (h : phase.measured = some i) :
    i ∈ phase.files := by
  cases phase with
  | checkingFile job probe | preparedFile job probe | closingFile job probe =>
    cases probe with
    | opened file => cases h
    | reading file before seen | ended file before seen =>
      cases h
      simp [Publishing.files, Probe.file]
  | _ => cases h

theorem PublicationStore.Orderly.create {job : Job} {source file now : ℕ}
    {files : FileSystem TargetName} (orderly : s.Orderly site)
    (hp : s.processes[p]? = some (.creating job source)) (unused : s.unused file = true)
    (h : s.files.create (preparedName job) privateMode file now = .ok files) :
    (PublicationStore.goto { s with files := files } p (.copying job source file [])).Orderly
      site := by
  obtain ⟨jobOf, blob⟩ := orderly.phase p _ hp
  have created := FileSystem.create_ok h
  let s' := PublicationStore.goto { s with files := files } p (.copying job source file [])
  have ne_of_name : ∀ n i, s.files.names n = some i → i ≠ file := by
    rintro n i hn rfl
    exact PublicationStore.unused_names unused n hn
  have ne_of_open : ∀ (q i : ℕ) (phase : Publishing), s.processes[q]? = some phase →
      i ∈ phase.files → i ≠ file := by
    rintro q i phase hq hi rfl
    exact PublicationStore.unused_files unused hq hi
  have same : ∀ i, i ≠ file → files.content i = s.files.content i ∧
      files.mode i = s.files.mode i ∧ files.stat i = s.files.stat i := by
    intro i hi
    unfold FileSystem.content FileSystem.mode FileSystem.stat
    rw [created.others i hi]
    exact ⟨rfl, rfl, rfl⟩
  have names : ∀ m i, files.names m = some i →
      (m = preparedName job ∧ i = file) ∨ s.files.names m = some i := by
    intro m i hm
    rw [created.names] at hm
    by_cases heq : m = preparedName job
    · subst heq
      rw [Function.update_self] at hm
      exact .inl ⟨rfl, (Option.some.inj hm).symm⟩
    · rw [Function.update_of_ne heq] at hm
      exact .inr hm
  have kept : ∀ m, m ≠ preparedName job → files.names m = s.files.names m := by
    intro m hm
    rw [created.names, Function.update_of_ne hm]
  have spares : Spares site p s s' := by
    refine ⟨.refl _, fun d => kept _ (by simp [preparedName]), fun d i hi => ?_,
      fun d i hi => ⟨(kept _ (by simp [preparedName])).trans hi, (same i (ne_of_name _ i hi)).1⟩,
      fun i known hi => ?_, fun q other i _ hq hm => ?_, fun q other i _ hq hout => ?_⟩
    · exact ⟨(same i (ne_of_name _ i hi)).1, (same i (ne_of_name _ i hi)).2.1⟩
    · have hne : i ≠ file := by
        rcases known with ⟨n, hn⟩ | ⟨q, phase, -, hq, hmem⟩
        · exact ne_of_name n i hn
        · exact ne_of_open q i phase hq hmem
      obtain ⟨content, mode, -⟩ := same i hne
      exact ⟨mode.trans hi.1, (congrArg List.length content).le.trans hi.2⟩
    · obtain ⟨content, -, stat⟩ := same i (ne_of_open q i other hq (Publishing.measured_files hm))
      exact ⟨stat, content⟩
    · obtain ⟨content, mode, -⟩ :=
        same i (ne_of_open q i other hq (Publishing.output_files hout))
      exact ⟨content, mode, fun n hn => (names n i hn).symm.imp_right
        fun heq => ⟨_, heq.1⟩⟩
  refine orderly.advance spares rfl ⟨jobOf, (spares.blobNames _).trans blob, created.content,
      List.nil_prefix, created.mode, Nat.zero_le _, fun n hn => ?_⟩
    (fun i q phase hi hne hq hout => ?_) (orderly.rowsOf spares rfl) (fun d i hi => ?_)
    fun k i hi => ?_
  · rcases names n file hn with ⟨rfl, -⟩ | hold
    · exact ⟨_, rfl⟩
    · exact (ne_of_name n file hold rfl).elim
  · cases hi
    exact ne_of_open q file phase hq (Publishing.output_files hout) rfl
  · have old : s.files.names (.artifact d) = some i :=
      (names _ i hi).resolve_left (by simp [preparedName])
    exact orderly.finalOf spares old
  · rcases names _ i hi with ⟨-, rfl⟩ | old
    · exact ⟨created.mode, (congrArg List.length created.content).le.trans (Nat.zero_le _)⟩
    · exact spares.small i (.inl ⟨_, old⟩) (orderly.prepared k i old)

theorem PublicationStore.Orderly.append {job : Job} {source file now : ℕ}
    {written part rest : List UInt8} {phase' : Publishing} (orderly : s.Orderly site)
    (hp : s.processes[p]? = some (.pending job source file written (part ++ rest)))
    (undisturbed : ∀ (q : ℕ) (other : Publishing), q ≠ p → s.processes[q]? = some other →
      other.measured ≠ some file)
    (output : phase'.output = some file)
    (sound : ∀ s', JobOf s'.repository job →
      Copying site s' job source file (written ++ part) rest → phase'.Sound site s') :
    (PublicationStore.goto { s with files := s.files.append file part now } p phase').Orderly
      site := by
  obtain ⟨jobOf, copying⟩ := orderly.phase p _ hp
  let s' := PublicationStore.goto { s with files := s.files.append file part now } p phase'
  have same : ∀ i, i ≠ file → s'.files.content i = s.files.content i :=
    fun i hi => FileSystem.append_content_ne hi
  have mode : ∀ i, s'.files.mode i = s.files.mode i := fun i => FileSystem.append_mode
  -- the file has no other name than that of the prepared file
  have ne_of_name : ∀ n i, s.files.names n = some i → (∀ k, n ≠ .prepared k) → i ≠ file := by
    rintro n i hn hne rfl
    obtain ⟨k, hk⟩ := copying.names n hn
    exact hne k hk
  have alone : ∀ (q : ℕ) (other : Publishing), q ≠ p → s.processes[q]? = some other →
      other.output ≠ some file := by
    intro q other hne hq hout
    exact hne (orderly.writers q p _ _ file hq hp hout rfl)
  have grown : s'.files.content file = written ++ part := by
    rw [← copying.content]
    exact FileSystem.append_content_self
  have size : (written ++ part).length ≤ site.maxBlobBytes := by
    have total := copying.size
    simp only [List.length_append] at total ⊢
    omega
  have spares : Spares site p s s' := by
    refine ⟨.refl _, fun d => rfl, fun d i hi => ⟨same i (ne_of_name _ i hi (by simp)), mode i⟩,
      fun d i hi => ⟨hi, same i (ne_of_name _ i hi (by simp))⟩, fun i _ hi => ?_,
      fun q other i hne hq hm => ?_, fun q other i hne hq hout => ?_⟩
    · refine ⟨(mode i).trans hi.1, ?_⟩
      by_cases heq : i = file
      · subst heq
        rw [grown]
        exact size
      · rw [same i heq]
        exact hi.2
    · have hne' : i ≠ file := by
        rintro rfl
        exact undisturbed q other hne hq hm
      exact ⟨FileSystem.append_stat_ne hne', same i hne'⟩
    · have hne' : i ≠ file := by
        rintro rfl
        exact alone q other hne hq hout
      exact ⟨same i hne', mode i, fun n hn => .inl hn⟩
  have next : Copying site s' job source file (written ++ part) rest := by
    have source_ne : source ≠ file := ne_of_name _ source copying.blob (by simp)
    refine ⟨copying.blob, grown, ?_, (mode file).trans copying.mode, ?_, copying.names⟩
    · rw [same source source_ne, List.append_assoc]
      exact copying.progress
    · rw [List.append_assoc]
      exact copying.size
  refine orderly.advance spares rfl (sound s' jobOf next) (fun i q phase hi hne hq => ?_)
    (orderly.rowsOf spares rfl) (fun d i hi => orderly.finalOf spares hi)
    fun k i hi => spares.small i (.inl ⟨_, hi⟩) (orderly.prepared k i hi)
  rw [output] at hi
  cases hi
  exact alone q phase hne hq

theorem PublicationStore.Orderly.update {phase' : Publishing} {repository : Repository} {k : Key}
    {state : PublicationState} (orderly : s.Orderly site)
    (updates : Updates k state s.repository repository)
    (reason : ∀ row a, s.repository.publications.find? k = some row →
      s.repository.artifacts.find? row.artifactId = some a →
        (state = .published →
          s.Installed site (site.targetKey row.targetKey) row.expectedDigest a.sizeBytes) ∧
        (state = .needsAttention →
          s.Damaged site (site.targetKey row.targetKey) row.expectedDigest a.sizeBytes))
    (output : phase'.output = none)
    (sound : ∀ s', s'.files = s.files → s'.repository = repository → phase'.Sound site s') :
    (PublicationStore.goto { s with repository := repository } p phase').Orderly site := by
  have spares : Spares site p s
      (PublicationStore.goto { s with repository := repository } p phase') :=
    .of_files rfl updates.keeps
  refine orderly.advance spares rfl (sound _ rfl rfl) (fun i q phase hi => ?_)
    (fun id row' hrow' => ?_) (fun d i hi => orderly.finalOf spares hi)
    fun k i hi => orderly.prepared k i hi
  · rw [output] at hi
    cases hi
  · obtain ⟨row, hrow, frozen, moved⟩ := updates.moved id row' hrow'
    obtain ⟨a, ha, digest, published, attention⟩ := orderly.rows id row hrow
    obtain ⟨a', ha', frozen'⟩ := updates.keeps.artifacts _ a ha
    simp only [Publication.frozen, Prod.mk.injEq] at frozen
    simp only [Artifact.frozen, Prod.mk.injEq] at frozen'
    refine ⟨a', by rw [frozen.1]; exact ha', by rw [frozen'.1, frozen.2.2]; exact digest, ?_, ?_⟩
    · intro hstate
      rw [frozen.2.1, frozen.2.2, frozen'.2]
      rcases moved with same | ⟨hid, hnew⟩
      · exact (published (same ▸ hstate)).keeps spares.finals
      · have heq : id = k := (Table.key_of_find? hrow').symm.trans hid
        exact ((reason row a (heq ▸ hrow) ha).1 (hnew.symm.trans hstate)).keeps spares.finals
    · intro hstate
      rw [frozen.2.1, frozen.2.2, frozen'.2]
      rcases moved with same | ⟨hid, hnew⟩
      · exact (attention (same ▸ hstate)).spares spares
      · have heq : id = k := (Table.key_of_find? hrow').symm.trans hid
        exact ((reason row a (heq ▸ hrow) ha).2 (hnew.symm.trans hstate)).spares spares

theorem JobOf.columns {db : Repository} {job : Job} {row : Publication} {a : Artifact}
    (h : JobOf db job) (hrow : db.publications.find? job.publication.id = some row)
    (ha : db.artifacts.find? row.artifactId = some a) :
    row.targetKey = job.publication.targetKey ∧
      row.expectedDigest = job.publication.expectedDigest ∧
      a.sizeBytes = job.artifact.sizeBytes := by
  obtain ⟨⟨row', hrow', frozen⟩, ⟨a', ha', frozen'⟩, -⟩ := h
  obtain rfl : row = row' := Option.some.inj (hrow.symm.trans hrow')
  simp only [Publication.frozen, Prod.mk.injEq] at frozen
  rw [frozen.1] at ha
  obtain rfl : a = a' := Option.some.inj (ha.symm.trans ha')
  exact ⟨frozen.2.1, frozen.2.2, (Prod.mk.inj frozen').2⟩

theorem PublicationStore.Orderly.decide {job : Job} {verdict : Verdict} {repository : Repository}
    {row : Publication} (orderly : s.Orderly site) (jobOf : JobOf s.repository job)
    (fair : verdict.Fair site s job)
    (h : (match verdict with
      | .committed observed => markPublished s.repository job.publication.id observed
      | .needsAttention observed => markNeedsAttention s.repository job.publication.id observed) =
      .ok (repository, row)) :
    (PublicationStore.goto { s with repository := repository } p .idle).Orderly site := by
  cases verdict with
  | committed observed =>
    refine orderly.update (markPublished_ok h) (fun row a hrow ha => ⟨fun _ => ?_, fun hs => ?_⟩)
      rfl fun _ _ _ => trivial
    · obtain ⟨target, digest, size⟩ := jobOf.columns hrow ha
      rw [target, digest, size]
      exact fair.2
    · cases hs
  | needsAttention observed =>
    refine orderly.update (markNeedsAttention_ok h)
      (fun row a hrow ha => ⟨fun hs => ?_, fun _ => ?_⟩) rfl fun _ _ _ => trivial
    · cases hs
    · obtain ⟨target, digest, size⟩ := jobOf.columns hrow ha
      rw [target, digest, size]
      exact fair

theorem Probe.Calm.next {probe : Probe} (calm : probe.Calm site s) (chunk : ℕ) :
    (∃ probe', probe.step s.files site.maxBlobBytes chunk = .ok (.inl probe') ∧
      probe'.file = probe.file ∧ probe'.Calm site s) ∨
    ∃ stat, probe.step s.files site.maxBlobBytes chunk =
      .ok (.inr (s.files.content probe.file, stat)) := by
  obtain ⟨small, rest⟩ := calm
  cases probe with
  | opened file =>
    left
    refine ⟨.reading file (s.files.stat file) [], ?_, rfl, small, rfl, List.nil_prefix⟩
    unfold Probe.step
    exact if_neg (Nat.not_lt_of_le small.2)
  | reading file before seen =>
    obtain ⟨rfl, sofar⟩ := rest
    left
    let bytes := ((s.files.content file).drop seen.length).take (chunk + 1)
    by_cases hend : bytes = []
    · refine ⟨.ended file (s.files.stat file) seen, ?_, rfl, small, rfl, ?_⟩
      · unfold Probe.step
        exact if_pos hend
      · obtain ⟨tail, heq⟩ := sofar
        have none : tail = [] := by
          show tail = []
          simpa [bytes, ← heq] using hend
        rw [← heq, none, List.append_nil]
    · have more := Probe.append_chunk sofar (chunk + 1)
      refine ⟨.reading file (s.files.stat file) (seen ++ bytes), ?_, rfl, small, rfl, more⟩
      unfold Probe.step
      exact (if_neg hend).trans (if_neg (Nat.not_lt_of_le (more.length_le.trans small.2)))
  | ended file before seen =>
    obtain ⟨rfl, rfl⟩ := rest
    right
    refine ⟨s.files.stat file, ?_⟩
    unfold Probe.step
    exact if_neg (by simp [FileSystem.stat, FileSystem.content])

theorem undisturbed_next {chunk file now : ℕ} {phase : Publishing}
    (h : Undisturbed site s (.next p chunk file now) = true)
    (hp : s.processes[p]? = some phase) :
    (∀ i, phase.changes site s = some i → ∀ (q : ℕ) (other : Publishing), q ≠ p →
      s.processes[q]? = some other → other.measured ≠ some i) ∧
    ∀ job, phase = .linking job → ∀ i, phase.changes site s = some i →
      expects job (site.sha256 (s.files.content i)) (s.files.content i).length = true ∧
      ∀ (q : ℕ) (other : Publishing), s.processes[q]? = some other → other.output ≠ some i := by
  simp only [Undisturbed, hp, Bool.and_eq_true] at h
  obtain ⟨calm, complete⟩ := h
  constructor
  · intro i hi q other hne hq
    rw [hi, Option.all_some, List.all_eq_true] at calm
    exact of_decide_eq_true (calm other (List.mem_eraseIdx_iff_getElem?.mpr ⟨q, hne, hq⟩))
  · rintro job rfl i hi
    rw [hi] at complete
    simp only [Option.all_some, Bool.and_eq_true, List.all_eq_true, decide_eq_true_eq] at complete
    exact ⟨complete.1, fun q other hq => complete.2 other (List.mem_of_getElem? hq)⟩

theorem fair_verdictOn {job : Job} {digest size : ℕ}
    (h : s.Installed site (job.directory site) digest size) :
    (verdictOn job digest size).Fair site s job := by
  unfold PublicationStore.verdictOn
  by_cases hmatch : expects job digest size = true
  · rw [if_pos hmatch]
    simp only [expects, Bool.and_eq_true, decide_eq_true_eq] at hmatch
    obtain ⟨rfl, rfl⟩ := hmatch
    exact ⟨rfl, h⟩
  · rw [if_neg hmatch]
    obtain ⟨i, hname, hdigest, hsize⟩ := h
    refine .inl ⟨i, hname, ?_⟩
    rw [hdigest, hsize]
    simpa [expects] using hmatch

theorem PublicationStore.Orderly.idle (orderly : s.Orderly site) (p : ℕ) :
    (s.goto p .idle).Orderly site :=
  orderly.goto rfl trivial

theorem PublicationStore.Orderly.next {chunk file now : ℕ} {phase : Publishing}
    (orderly : s.Orderly site) (hp : s.processes[p]? = some phase)
    (undisturbed : Undisturbed site s (.next p chunk file now) = true)
    (h : s.next site p chunk file now phase = some s') : s'.Orderly site := by
  have sound := orderly.phase p phase hp
  obtain ⟨calm, complete⟩ := undisturbed_next undisturbed hp
  cases phase with
  | idle => cases h
  | attempting artifact publication =>
    simp only [PublicationStore.next] at h
    split at h
    · rename_i repository row hbegin
      cases h
      obtain ⟨updates, hrow⟩ := beginPublicationAttempt_ok hbegin
      refine orderly.update updates (fun row a _ _ => ⟨by simp, by simp⟩) rfl
        fun s' _ hrepository => ?_
      obtain ⟨⟨old, hold, frozen⟩, ⟨a, ha, frozen'⟩, digest⟩ := sound
      obtain ⟨row', hrow', moved⟩ := updates.keeps.publications _ old hold
      obtain ⟨a', ha', moved'⟩ := updates.keeps.artifacts _ a ha
      have id := Table.key_of_find? hrow
      obtain rfl : row = row' := Option.some.inj (hrow.symm.trans hrow')
      have same : row.frozen = publication.frozen := moved.trans frozen
      simp only [Publication.frozen, Prod.mk.injEq] at same
      refine ⟨⟨row, ?_, rfl⟩, ⟨a', ?_, moved'.trans frozen'⟩, digest.trans same.2.2.symm⟩
      · rw [hrepository]
        show repository.publications.find? row.id = some row
        rw [id]
        exact hrow
      · rw [hrepository]
        show repository.artifacts.find? row.artifactId = some a'
        rw [same.1]
        exact ha'
    · cases h
      exact orderly.idle p
  | opening job =>
    simp only [PublicationStore.next] at h
    split at h
    · rename_i insecure
      cases h
      exact orderly.goto rfl ⟨sound, .inr (.inr (.inl insecure))⟩
    · split at h
      · cases h
        exact orderly.quiet rfl rfl rfl (fun i q phase hi => by cases hi) sound
      · split at h
        · cases h
          exact orderly.goto rfl sound
        · cases h
          exact orderly.idle p
  | checking job =>
    simp only [PublicationStore.next] at h
    split at h
    · rename_i i hopen
      cases h
      obtain ⟨hname, -⟩ := openRegular_ok hopen
      exact orderly.goto rfl ⟨sound, ⟨(orderly.final _ i hname).1, trivial⟩, hname⟩
    · cases h
      exact orderly.goto rfl sound
    · rename_i e other hopen
      rcases openRegular_error hopen with ⟨rfl, -⟩ | ⟨i, hname, hmode⟩
      · exact (other rfl).elim
      · exact (hmode (orderly.final _ i hname).1.1).elim
  | checkingFile job probe =>
    obtain ⟨jobOf, calmProbe, hname⟩ := sound
    simp only [PublicationStore.next] at h
    rcases calmProbe.next chunk with ⟨probe', hstep, same, calm'⟩ | ⟨stat, hstep⟩
    · rw [hstep] at h
      cases h
      exact orderly.goto rfl ⟨jobOf, calm', by rw [same]; exact hname⟩
    · rw [hstep] at h
      cases h
      exact orderly.goto rfl ⟨jobOf, _, hname, rfl, rfl⟩
  | clearing job digest size =>
    cases h
    exact orderly.unlinkAny calm rfl fun s' spares =>
      ⟨sound.1.keeps spares.rows, (fair_verdictOn sound.2).spares spares⟩
  | resuming job =>
    simp only [PublicationStore.next] at h
    split at h
    · rename_i i hopen
      cases h
      obtain ⟨hname, -⟩ := openRegular_ok hopen
      exact orderly.goto rfl ⟨sound, orderly.prepared _ i hname, trivial⟩
    · split at h
      · cases h
        exact orderly.goto rfl sound
      · cases h
        exact orderly.idle p
    · rename_i e other hopen
      rcases openRegular_error hopen with ⟨rfl, -⟩ | ⟨i, hname, hmode⟩
      · exact (other rfl).elim
      · exact (hmode (orderly.prepared _ i hname).1).elim
  | preparedFile job probe =>
    obtain ⟨jobOf, calmProbe⟩ := sound
    simp only [PublicationStore.next] at h
    rcases calmProbe.next chunk with ⟨probe', hstep, -, calm'⟩ | ⟨stat, hstep⟩
    · rw [hstep] at h
      cases h
      exact orderly.goto rfl ⟨jobOf, calm'⟩
    · rw [hstep] at h
      simp only at h
      split at h
      · cases h
        exact orderly.goto rfl jobOf
      · cases h
        exact orderly.goto rfl jobOf
  | sourcing job =>
    simp only [PublicationStore.next] at h
    split at h
    · rename_i insecure
      cases h
      exact orderly.goto rfl ⟨sound, .inr (.inr (.inr insecure))⟩
    · split at h
      · rename_i i hopen
        cases h
        exact orderly.goto rfl ⟨sound, (openRegular_ok hopen).1⟩
      · rename_i e hopen
        cases h
        refine orderly.goto rfl ⟨sound, .inr (.inl ?_)⟩
        rintro ⟨i, hname, hmode, -⟩
        rw [← sound.digest] at hname
        rcases openRegular_error hopen with ⟨-, none⟩ | ⟨j, hj, other⟩
        · rw [none] at hname
          cases hname
        · obtain rfl : i = j := Option.some.inj (hname.symm.trans hj)
          exact other hmode
  | creating job source =>
    simp only [PublicationStore.next] at h
    split at h
    · cases h
    · rename_i free
      split at h
      · rename_i files hcreate
        cases h
        exact orderly.create hp (by simpa using free) hcreate
      · cases h
        exact orderly.idle p
  | copying job source out written =>
    obtain ⟨jobOf, copying⟩ := sound
    have sofar : written <+: s.files.content source := by
      simpa using copying.progress
    simp only [PublicationStore.next] at h
    split at h
    · rename_i hend
      -- the whole blob was read
      have whole : written = s.files.content source := by
        obtain ⟨tail, heq⟩ := sofar
        have none : tail = [] := by simpa [← heq] using hend
        rw [← heq, none, List.append_nil]
      split at h
      · cases h
        exact orderly.goto rfl jobOf
      · rename_i mismatch
        cases h
        refine orderly.goto rfl ⟨jobOf, ?_⟩
        rintro ⟨i, hname, -, hdigest, hsize⟩
        rw [← jobOf.digest] at hname
        obtain rfl : i = source := Option.some.inj (hname.symm.trans copying.blob)
        rw [← whole] at hdigest hsize
        exact mismatch (by simp [expects, hdigest, hsize])
    · split at h
      · cases h
        exact orderly.goto rfl jobOf
      · rename_i within
        cases h
        refine orderly.quiet rfl rfl rfl (fun i q phase hi hne hq hout => ?_) ⟨jobOf,
          copying.blob, copying.content, Probe.append_chunk sofar _, copying.mode,
          Nat.le_of_not_lt within, copying.names⟩
        cases hi
        exact hne (orderly.writers q p _ _ out hq hp hout rfl)
  | pending job source out written bytes =>
    have split : bytes = bytes.take (chunk + 1) ++ bytes.drop (chunk + 1) :=
      (List.take_append_drop _ _).symm
    have hp' : s.processes[p]? = some (.pending job source out written
        (bytes.take (chunk + 1) ++ bytes.drop (chunk + 1))) := split ▸ hp
    cases h
    refine orderly.append hp' (calm out rfl) ?_ fun s' jobOf copying => ?_
    · split <;> rfl
    · split
      · rename_i done
        rw [done] at copying
        exact ⟨jobOf, copying⟩
      · exact ⟨jobOf, copying⟩
  | discarding job =>
    cases h
    exact orderly.unlinkAny calm rfl fun _ _ => trivial
  | refusing job =>
    cases h
    exact orderly.unlinkAny calm rfl fun s' spares => ⟨sound.1.keeps spares.rows,
      .inr (.inl fun present => sound.2 (spares.blobPresent.mp present))⟩
  | rechecking job =>
    simp only [PublicationStore.next] at h
    split at h
    · rename_i i hopen
      cases h
      obtain ⟨hname, -⟩ := openRegular_ok hopen
      exact orderly.goto rfl ⟨sound, orderly.prepared _ i hname, trivial⟩
    · cases h
      exact orderly.idle p
    · rename_i e other hopen
      rcases openRegular_error hopen with ⟨rfl, -⟩ | ⟨i, hname, hmode⟩
      · exact (other rfl).elim
      · exact (hmode (orderly.prepared _ i hname).1).elim
  | dropping job =>
    cases h
    exact orderly.unlinkAny calm rfl fun _ _ => trivial
  | linking job =>
    simp only [PublicationStore.next] at h
    split at h
    · rename_i files hlink
      cases h
      obtain ⟨i₀, linked⟩ := FileSystem.link_ok hlink
      have changes : ∀ i, s.files.names (preparedName job) = some i →
          (Publishing.linking job).changes site s = some i := by
        intro i hi
        simp only [Publishing.changes, linked.free, Option.isSome_none, Bool.false_eq_true,
          if_false]
        exact hi
      refine orderly.link sound (fun i hi => ?_) hlink
      obtain ⟨hexpects, noWriter⟩ := complete job rfl i (changes i hi)
      exact ⟨hexpects, fun q other hq =>
        ⟨noWriter q other hq, fun hne => calm i (changes i hi) q other hne hq⟩⟩
    · cases h
      exact orderly.goto rfl sound
    · cases h
      exact orderly.idle p
  | unlinking job =>
    cases h
    exact orderly.unlinkAny calm rfl fun s' spares => sound.keeps spares.rows
  | closing job =>
    simp only [PublicationStore.next] at h
    split at h
    · rename_i i hopen
      cases h
      obtain ⟨hname, -⟩ := openRegular_ok hopen
      exact orderly.goto rfl ⟨sound, ⟨(orderly.final _ i hname).1, trivial⟩, hname⟩
    · cases h
      exact orderly.idle p
    · rename_i e other hopen
      rcases openRegular_error hopen with ⟨rfl, -⟩ | ⟨i, hname, hmode⟩
      · exact (other rfl).elim
      · exact (hmode (orderly.final _ i hname).1.1).elim
  | closingFile job probe =>
    obtain ⟨jobOf, calmProbe, hname⟩ := sound
    simp only [PublicationStore.next] at h
    rcases calmProbe.next chunk with ⟨probe', hstep, same, calm'⟩ | ⟨stat, hstep⟩
    · rw [hstep] at h
      cases h
      exact orderly.goto rfl ⟨jobOf, calm', by rw [same]; exact hname⟩
    · rw [hstep] at h
      cases h
      exact orderly.goto rfl ⟨jobOf, fair_verdictOn ⟨_, hname, rfl, rfl⟩⟩
  | deciding job verdict =>
    simp only [PublicationStore.next] at h
    split at h
    · rename_i repository row hmark
      cases h
      exact orderly.decide sound.1 sound.2 hmark
    · cases h
      exact orderly.idle p

theorem PublicationStore.Orderly.prepare {repository : Repository} {artifactId : Key}
    {targetKey : String} {redacted publicationId : ℕ} {row : Publication}
    (orderly : s.Orderly site)
    (h : preparePublication s.repository artifactId targetKey redacted publicationId =
      .ok (repository, row)) :
    PublicationStore.Orderly site { s with repository := repository } := by
  obtain ⟨a, ha, frozen, -, keeps, artifacts, rows⟩ := preparePublication_ok h
  -- no process takes this step
  have spares : Spares site s.processes.length s { s with repository := repository } :=
    .of_files rfl keeps
  refine ⟨fun id row' hrow' => ?_, fun d i hi => orderly.finalOf spares hi,
    orderly.prepared, fun q phase hq => ?_, orderly.writers⟩
  · rcases rows id row' hrow' with hold | ⟨rfl, prepared⟩
    · obtain ⟨b, hb, digest, published, attention⟩ := orderly.rows id row' hold
      obtain ⟨b', hb', frozen'⟩ := keeps.artifacts _ b hb
      simp only [Artifact.frozen, Prod.mk.injEq] at frozen'
      refine ⟨b', hb', frozen'.1.trans digest, fun hs => ?_, fun hs => ?_⟩
      · rw [frozen'.2]
        exact (published hs).keeps spares.finals
      · rw [frozen'.2]
        exact (attention hs).spares spares
    · simp only [Publication.frozen, Prod.mk.injEq] at frozen
      refine ⟨a, ?_, frozen.2.2.symm, fun hs => ?_, fun hs => ?_⟩
      · show repository.artifacts.find? row'.artifactId = some a
        rw [artifacts, frozen.1]
        exact ha
      · rw [prepared] at hs
        cases hs
      · rw [prepared] at hs
        cases hs
  · refine Publishing.Sound.spares orderly ?_ hq spares
    rintro rfl
    rw [List.getElem?_eq_none le_rfl] at hq
    cases hq

theorem PublicationStore.Orderly.publish {artifactId publicationId : ℕ} {targetKey : String}
    (orderly : s.Orderly site) :
    (s.publish site p artifactId targetKey publicationId).Orderly site := by
  unfold PublicationStore.publish
  dsimp only
  split
  · exact orderly
  · rename_i artifact repository publication h
    simp only [getArtifact, Transaction.bind_eq_ok, orError_eq_ok, Transaction.pure_eq_ok,
      Prod.exists, Prod.mk.injEq] at h
    obtain ⟨a, ha, db, row, hprepare, rfl, rfl, rfl⟩ := h
    have next := orderly.prepare hprepare
    split
    · exact next
    · exact next
    all_goals
      refine next.goto rfl ?_
      obtain ⟨b, hb, frozen, hrow, -, artifacts, -⟩ := preparePublication_ok hprepare
      have id := Table.key_of_find? ha
      rw [id] at hb
      obtain rfl : b = a := Option.some.inj (hb.symm.trans ha)
      simp only [Publication.frozen, Prod.mk.injEq] at frozen
      refine ⟨⟨row, hrow, rfl⟩, ⟨b, ?_, rfl⟩, frozen.2.2.symm⟩
      show db.artifacts.find? row.artifactId = some b
      rw [artifacts, frozen.1, id]
      exact ha

theorem PublicationStore.Orderly.reconcile {publicationId : ℕ} (orderly : s.Orderly site) :
    (s.reconcile site p publicationId).Orderly site := by
  unfold PublicationStore.reconcile getPublication getArtifact
  split
  · exact orderly
  · rename_i publication h
    rw [orError_eq_ok] at h
    split
    · exact orderly
    · exact orderly
    all_goals
      split
      · exact orderly
      · rename_i a ha
        rw [orError_eq_ok] at ha
        obtain ⟨b, hb, digest, -, -⟩ := orderly.rows _ publication h
        obtain rfl : b = a := Option.some.inj (hb.symm.trans ha)
        refine orderly.goto rfl ⟨⟨publication, ?_, rfl⟩, ⟨b, hb, rfl⟩, digest⟩
        rw [Table.key_of_find? h]
        exact h

theorem transition_step {action : PublicationAction} (h : s.transition site action = .ok s') :
    s.step site action = some s' := by
  unfold PublicationStore.transition at h
  cases hstep : s.step site action with
  | none =>
    rw [hstep] at h
    cases h
  | some s₁ =>
    rw [hstep] at h
    cases h
    rfl

theorem PublicationStore.Orderly.transition {action : PublicationAction}
    (undisturbed : Undisturbed site s action = true)
    (h : s.transition site action = .ok s') (orderly : s.Orderly site) : s'.Orderly site := by
  have hstep := transition_step h
  cases action with
  | publish p artifactId targetKey publicationId =>
    simp only [PublicationStore.step] at hstep
    split at hstep
    · cases hstep
      exact orderly.publish
    · cases hstep
  | reconcile p publicationId =>
    simp only [PublicationStore.step] at hstep
    split at hstep
    · cases hstep
      exact orderly.reconcile
    · cases hstep
  | next p chunk file now =>
    simp only [PublicationStore.step, Option.bind_eq_some_iff] at hstep
    obtain ⟨phase, hp, hnext⟩ := hstep
    exact orderly.next hp undisturbed hnext
  | interrupt p =>
    simp only [PublicationStore.step] at hstep
    split at hstep
    · rename_i hp
      cases hstep
      exact orderly.goto rfl (orderly.phase p _ hp).1
    · rename_i hp
      cases hstep
      exact orderly.goto rfl (orderly.phase p _ hp).1
    · cases hstep
  | crash p =>
    cases hstep
    exact orderly.idle p

/-! ## Installed files stay -/

/-- What one step of a process does to the files. -/
inductive FileStep (s : PublicationStore) (phase : Publishing) : FileSystem TargetName → Prop
  | none : FileStep s phase s.files
  | unlink {k : Key} {now : ℕ} {files : FileSystem TargetName}
      (h : s.files.unlink (.prepared k) now = .ok files) : FileStep s phase files
  | create {k : Key} {file now : ℕ} {files : FileSystem TargetName} (unused : s.unused file = true)
      (h : s.files.create (.prepared k) privateMode file now = .ok files) : FileStep s phase files
  | link {k : Key} {directory now : ℕ} {files : FileSystem TargetName}
      (h : s.files.link (.prepared k) (.artifact directory) now = .ok files) :
      FileStep s phase files
  | append {file : ℕ} (part : List UInt8) (now : ℕ) (h : phase.output = some file) :
      FileStep s phase (s.files.append file part now)

theorem unlinkAny_fileStep {phase : Publishing} {k : Key} {now : ℕ} :
    FileStep s phase (s.unlinkAny (.prepared k) now).files := by
  unfold PublicationStore.unlinkAny
  split
  · exact .none
  · rename_i files h
    exact .unlink h

theorem next_fileStep {chunk file now : ℕ} {phase : Publishing}
    (h : s.next site p chunk file now phase = some s') : FileStep s phase s'.files := by
  cases phase with
  | clearing | discarding | refusing | dropping | unlinking =>
    cases h
    exact unlinkAny_fileStep
  | creating job source =>
    simp only [PublicationStore.next] at h
    split at h
    · cases h
    · rename_i free
      split at h
      · rename_i files hcreate
        cases h
        exact .create (by simpa using free) hcreate
      · cases h
        exact .none
  | pending job source out written bytes =>
    cases h
    exact .append _ _ rfl
  | linking job =>
    simp only [PublicationStore.next] at h
    split at h
    · rename_i files hlink
      cases h
      exact .link hlink
    all_goals
      cases h
      exact .none
  | idle => cases h
  | _ =>
    simp only [PublicationStore.next] at h
    repeat' split at h
    all_goals
      cases h
      exact .none

theorem PublicationStore.Orderly.output_ne {phase : Publishing} {directory i : ℕ}
    (orderly : s.Orderly site) (hp : s.processes[p]? = some phase) (output : phase.output = some i) :
    s.files.names (.artifact directory) ≠ some i := by
  have sound := orderly.phase p phase hp
  intro hname
  cases phase with
  | copying job source file written | pending job source file written bytes =>
    cases output
    obtain ⟨k, hk⟩ := sound.2.names _ hname
    cases hk
  | _ => cases output

theorem FileStep.keepsFinals {phase : Publishing} {files : FileSystem TargetName}
    (h : FileStep s phase files) (orderly : s.Orderly site) (hp : s.processes[p]? = some phase) :
    ∀ directory i, s.files.names (.artifact directory) = some i →
      files.names (.artifact directory) = some i ∧ files.content i = s.files.content i := by
  intro directory i hi
  cases h with
  | none => exact ⟨hi, rfl⟩
  | unlink h =>
    obtain ⟨j, unlinked⟩ := FileSystem.unlink_ok h
    refine ⟨?_, unlinked.content i⟩
    rw [unlinked.names, Function.update_of_ne (by simp)]
    exact hi
  | create unused h =>
    have created := FileSystem.create_ok h
    constructor
    · rw [created.names, Function.update_of_ne (by simp)]
      exact hi
    · unfold FileSystem.content
      rw [created.others i]
      rintro rfl
      exact PublicationStore.unused_names unused _ hi
  | link h =>
    obtain ⟨j, linked⟩ := FileSystem.link_ok h
    refine ⟨?_, linked.content i⟩
    rw [linked.names, Function.update_of_ne]
    · exact hi
    · intro heq
      rw [heq, linked.free] at hi
      cases hi
  | append part now h =>
    refine ⟨hi, FileSystem.append_content_ne ?_⟩
    rintro rfl
    exact orderly.output_ne hp h hi

theorem PublicationStore.Orderly.keepsFinals {action : PublicationAction}
    (h : s.step site action = some s') (orderly : s.Orderly site) : s.KeepsFinals s' := by
  have same : ∀ s', s'.files = s.files → s.KeepsFinals s' := by
    intro s' files d i hi
    rw [files]
    exact ⟨hi, rfl⟩
  cases action with
  | publish p artifactId targetKey publicationId =>
    simp only [PublicationStore.step] at h
    split at h
    · cases h
      refine same _ ?_
      unfold PublicationStore.publish
      dsimp only
      repeat' split
      all_goals rfl
    · cases h
  | reconcile p publicationId =>
    simp only [PublicationStore.step] at h
    split at h
    · cases h
      refine same _ ?_
      unfold PublicationStore.reconcile
      repeat' split
      all_goals rfl
    · cases h
  | next p chunk file now =>
    simp only [PublicationStore.step, Option.bind_eq_some_iff] at h
    obtain ⟨phase, hp, hnext⟩ := h
    exact (next_fileStep hnext).keepsFinals orderly hp
  | interrupt p =>
    simp only [PublicationStore.step] at h
    split at h <;> cases h <;> exact same _ rfl
  | crash p =>
    cases h
    exact same _ rfl

/-! ## Runs -/

/-- Blobs, artifacts and processes before the first publication. -/
structure PublicationStore.Fresh (s : PublicationStore) : Prop where
  files : ∀ n i, s.files.names n = some i → ∃ digest, n = .blob digest
  rows : s.repository.publications.rows = []
  processes : ∀ phase ∈ s.processes, phase = .idle

theorem PublicationStore.Fresh.orderly (fresh : s.Fresh) : s.Orderly site := by
  have norow : ∀ id row, s.repository.publications.find? id ≠ some row := by
    intro id row h
    have := Table.mem_of_find? h
    rw [fresh.rows] at this
    cases this
  have idle : ∀ (q : ℕ) (phase : Publishing), s.processes[q]? = some phase → phase = .idle :=
    fun q phase h => fresh.processes phase (List.mem_of_getElem? h)
  refine ⟨fun id row h => (norow id row h).elim, fun d i hi => ?_, fun k i hi => ?_,
    fun q phase h => ?_, fun q q' phase phase' i h _ hi _ => ?_⟩
  · obtain ⟨digest, heq⟩ := fresh.files _ i hi
    cases heq
  · obtain ⟨digest, heq⟩ := fresh.files _ i hi
    cases heq
  · rw [idle q phase h]
    trivial
  · rw [idle q phase h] at hi
    cases hi

/-- Undisturbed publishers: along every run whose steps leave other processes' files alone,
published artifacts are in place, attention has its reason, and what is installed stays. -/
theorem publication_recovery {actions : List PublicationAction} (fresh : s.Fresh)
    (undisturbed : Transaction.Meets (PublicationStore.transition site)
      (fun s action => Undisturbed site s action = true) s actions) :
    (s.run site actions).Recovered site ∧
      ∀ before after, actions = before ++ after →
        (s.run site before).KeepsFinals (s.run site actions) := by
  have invariant : ∀ {actions : List PublicationAction} {s : PublicationStore},
      Transaction.Meets (PublicationStore.transition site)
        (fun s action => Undisturbed site s action = true) s actions → s.Orderly site →
      (s.run site actions).Orderly site :=
    fun h orderly => Transaction.run_invariant
      (fun ok h orderly => PublicationStore.Orderly.transition ok h orderly) h orderly
  refine ⟨(invariant undisturbed fresh.orderly).recovered, ?_⟩
  rintro before after rfl
  rw [Transaction.meets_append] at undisturbed
  have orderly := invariant undisturbed.1 fresh.orderly
  show (s.run site before).KeepsFinals (s.run site (before ++ after))
  rw [PublicationStore.run, PublicationStore.run, Transaction.run_append]
  let R := fun a b : PublicationStore =>
    a.Orderly site → b.Orderly site ∧ PublicationStore.KeepsFinals a b
  have refl : ∀ a, R a a := fun a h => ⟨h, fun _ _ hi => ⟨hi, rfl⟩⟩
  have trans : ∀ {a b c}, R a b → R b c → R a c := by
    intro a b c hab hbc ha
    obtain ⟨hb, kept⟩ := hab ha
    obtain ⟨hc, kept'⟩ := hbc hb
    refine ⟨hc, fun d i hi => ?_⟩
    obtain ⟨hname, content⟩ := kept d i hi
    obtain ⟨hname', content'⟩ := kept' d i hname
    exact ⟨hname', content'.trans content⟩
  have step : ∀ {a : PublicationStore} {action b}, Undisturbed site a action = true →
      a.transition site action = .ok b → R a b := by
    intro a action b ok h ha
    exact ⟨ha.transition ok h, ha.keepsFinals (transition_step h)⟩
  exact (Transaction.run_rel refl trans step undisturbed.2 orderly).2

/-! ## Two processes on one publication -/

def onePublished : Artifact where
  id := ⟨0, 3⟩
  workloadId := ⟨0, 1⟩
  revisionId := ⟨0, 2⟩
  logicalName := "report"
  digest := 263
  mimeType := "text/plain"
  sizeBytes := 1
  schemaVersion := "v1"
  state := .committed
  blobRef := blobRef 263
  retentionUntil := none
  publishedTargetRedacted := none
  digestVerified := true
  schemaValid := true
  postconditionsValid := true

/-- The blob of the artifact, which is intact, and two processes. -/
def publishStart : PublicationStore where
  files := ⟨[(.blob 263, 0)], fun _ => ⟨privateMode, [7], 0, 0⟩⟩
  directories := []
  repository :=
    { store := Store.empty
      artifacts := ⟨[onePublished], List.nodup_singleton _⟩
      publications := .empty }
  processes := [.idle, .idle]

/-- A stand-in for SHA-256 that tells contents apart; every path is safe. -/
def publishSite : PublicationSite where
  owner := 0
  maxBlobBytes := 100
  sha256 := fun l => l.foldl (fun n b => 256 * n + b.toNat) 1
  targetKey := String.length
  insecure := fun _ => false

theorem publishStart_fresh : publishStart.Fresh where
  files := by
    intro n i h
    by_cases hn : n = .blob 263
    · exact ⟨263, hn⟩
    · simp [publishStart, FileSystem.names, Ne.symm hn] at h
  rows := rfl
  processes := by
    intro phase h
    simpa [publishStart] using h

/-- `n` steps of process `p` at a time. -/
def steps (p n now : ℕ) : List PublicationAction := List.replicate n (.next p 0 now now)

/-- Process 0 copies the blob, installs the copy and records the publication. -/
def publishAlone : List PublicationAction := .publish 0 3 "out" 4 :: steps 0 22 1

theorem publication_recovery_sample :
    ∃ s, publishStart.run publishSite publishAlone = s ∧
      s.repository.publications.rows.map Publication.state = [.published] ∧
      s.Recovered publishSite ∧
      (publishStart.run publishSite (publishAlone.take 16)).KeepsFinals s :=
  have undisturbed : Transaction.Meets (PublicationStore.transition publishSite)
      (fun s action => Undisturbed publishSite s action = true) publishStart publishAlone := by
    decide +kernel
  have recovery := publication_recovery publishStart_fresh undisturbed
  ⟨_, rfl, by decide +kernel, recovery.1, recovery.2 _ _ (List.take_append_drop 16 _).symm⟩

/-- Process 1 takes its first `fstat` of the prepared file, process 0 links it, and process 1
finds another `ctime` at its second `fstat`. -/
def publishTogether : List PublicationAction :=
  .publish 0 3 "out" 4 :: steps 0 14 1 ++ .publish 1 3 "out" 4 :: steps 1 5 2 ++ steps 0 1 3 ++
    steps 1 4 4

/-- The publication needs attention although its final file and its blob are intact. -/
theorem publication_disturbed :
    ¬∀ (site : PublicationSite) (s : PublicationStore) (actions : List PublicationAction),
      s.Fresh → (s.run site actions).Recovered site := by
  intro claim
  let s := publishStart.run publishSite publishTogether
  have recovered : s.Recovered publishSite := claim _ _ _ publishStart_fresh
  have row : (s.repository.publications.find? ⟨0, 4⟩).map Publication.state =
      some .needsAttention := by decide +kernel
  obtain ⟨publication, hrow, state⟩ := Option.map_eq_some_iff.mp row
  have columns : (s.repository.publications.find? ⟨0, 4⟩).map Publication.frozen =
      some (⟨0, 3⟩, "out", 263) := by decide +kernel
  rw [hrow, Option.map_some, Option.some.injEq, Publication.frozen, Prod.mk.injEq,
    Prod.mk.injEq] at columns
  obtain ⟨a, ha, damaged⟩ := recovered.attention _ _ hrow state
  have artifact : (s.repository.artifacts.find? ⟨0, 3⟩).map Artifact.sizeBytes = some 1 := by
    decide +kernel
  rw [columns.1] at ha
  rw [ha, Option.map_some, Option.some.injEq] at artifact
  rw [columns.2.1, columns.2.2, artifact] at damaged
  obtain ⟨i, hi, other⟩ | noblob | insecure | insecure := damaged
  · have final : s.files.names (.artifact (publishSite.targetKey "out")) = some 1 := by
      decide +kernel
    rw [final, Option.some.injEq] at hi
    subst hi
    exact other (by decide +kernel)
  · exact noblob ⟨0, by decide +kernel⟩
  · cases insecure
  · cases insecure

end Metnos.Artifacts
