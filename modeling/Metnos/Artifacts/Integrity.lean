import Metnos.Lib.Count
import Metnos.Artifacts.Blobs

/-!
# Artifacts.Integrity — a registered blob stays in place

What one process relies on while others run: a file that it has open keeps its content once
nobody writes to it, its temporary name is its own, and while it holds the writer transaction no
blob loses its name and no row appears.  Every step of another process respects that (`Leaves`),
so that the invariant is proved one step of one process at a time.
-/

namespace Metnos.Artifacts

open Metnos.Durable Files

variable {site : Site} {s s' : BlobStore} {p q : ℕ}

/-! ## The invariant -/

def BlobStore.Settled (s : BlobStore) (i : ℕ) : Prop :=
  ∀ (q : ℕ) (phase : Phase), s.processes[q]? = some phase → phase.output ≠ some i

/-- The file has the blob's bytes, and nobody writes to it any more. -/
structure BlobStore.Keeps (site : Site) (s : BlobStore) (blob : Blob) (i : ℕ) : Prop where
  digest : site.sha256 (s.files.content i) = blob.digest
  size : (s.files.content i).length = blob.sizeBytes
  mode : s.files.mode i = privateMode
  settled : s.Settled i

/-- What process `p` knows at each point of its program. -/
def Phase.Sound (site : Site) (s : BlobStore) (p : ℕ) : Phase → Prop
  | .idle | .discarding .. | .linked .. | .installed .. | .staged .. | .collecting .. | .examined ..
  | .removed .. => True
  | .writing _ workspace uuid file bytes =>
    uuid ∈ s.drawn ∧ s.files.content file = bytes ∧ s.files.mode file = privateMode ∧
    (∀ n, s.files.names n = some file → n = .temporary workspace uuid) ∧
    ∀ i, s.files.names (.temporary workspace uuid) = some i → i = file
  | .written _ workspace uuid blob =>
    uuid ∈ s.drawn ∧
    ∀ i, s.files.names (.temporary workspace uuid) = some i → s.Keeps site blob i
  | .verifying _ _ probe | .hashing _ _ probe =>
    probe.Sound s.files ∧ s.files.mode probe.file = privateMode ∧ s.Settled probe.file
  | .hashed _ blob file identity => identity.ino = file ∧ s.Keeps site blob file
  | .registering _ blob file identity | .statted _ blob file identity _ =>
    s.writer = some p ∧ identity.ino = file ∧ s.Keeps site blob file
  | .inserting _ blob file => s.writer = some p ∧ s.Keeps site blob file ∧
      s.files.names (.blob blob.digest) = some file
  | .unreferenced _ _ digest _ =>
    s.writer = some p ∧ references s.repository site.owner digest = 0
  | .removing _ _ name =>
    ∀ digest, name = .blob digest →
      s.writer = some p ∧ references s.repository site.owner digest = 0

/-- The invariant: what the names lead to, what the rows rest on, and what each process knows. -/
structure BlobStore.Intact (site : Site) (s : BlobStore) : Prop where
  blob : ∀ digest i, s.files.names (.blob digest) = some i →
    site.sha256 (s.files.content i) = digest ∧ s.files.mode i = privateMode ∧ s.Settled i
  temporary : ∀ workspace uuid i, s.files.names (.temporary workspace uuid) = some i →
    uuid ∈ s.drawn
  row : ∀ a ∈ s.repository.artifacts.rows, a.id.owner = site.owner →
    ∃ i, s.files.names (.blob a.digest) = some i ∧ (s.files.content i).length = a.sizeBytes
  phase : ∀ (q : ℕ) (phase : Phase), s.processes[q]? = some phase → phase.Sound site s q
  writers : ∀ (q q' : ℕ) (phase phase' : Phase) (i : ℕ), s.processes[q]? = some phase →
    s.processes[q']? = some phase' → phase.output = some i → phase'.output = some i → q = q'

/-! ## What a step leaves to others -/

/-- A file that a name leads to or that another process than `p` has open. -/
def BlobStore.Known (s : BlobStore) (p i : ℕ) : Prop :=
  (∃ n, s.files.names n = some i) ∨
    ∃ (q : ℕ) (phase : Phase), q ≠ p ∧ s.processes[q]? = some phase ∧ i ∈ phase.files

/-- What a step of process `p` leaves as it was. -/
structure Leaves (p : ℕ) (s s' : BlobStore) : Prop where
  drawn : ∀ uuid ∈ s.drawn, uuid ∈ s'.drawn
  file : ∀ i, s.Known p i →
    (∀ phase : Phase, s.processes[p]? = some phase → phase.output ≠ some i) →
    s'.files.content i = s.files.content i ∧ s'.files.mode i = s.files.mode i
  settled : ∀ i, s.Known p i → s.Settled i → s'.Settled i
  temporary : ∀ workspace uuid i, uuid ∈ s.drawn →
    s'.files.names (.temporary workspace uuid) = some i →
      s.files.names (.temporary workspace uuid) = some i
  output : ∀ (q : ℕ) (phase : Phase) (i : ℕ), q ≠ p → s.processes[q]? = some phase →
    phase.output = some i → ∀ n, s'.files.names n = some i → s.files.names n = some i
  name : ∀ q digest i, q ≠ p → s.writer = some q →
    s.files.names (.blob digest) = some i → s'.files.names (.blob digest) = some i
  writer : ∀ q, q ≠ p → s.writer = some q → s'.writer = some q
  repository : ∀ q, q ≠ p → s.writer = some q → s'.repository = s.repository

theorem BlobStore.Keeps.leaves {blob : Blob} {i : ℕ} (keeps : s.Keeps site blob i)
    (known : s.Known p i) (leaves : Leaves p s s') : s'.Keeps site blob i := by
  obtain ⟨content, mode⟩ := leaves.file i known (keeps.settled p)
  exact ⟨content ▸ keeps.digest, content ▸ keeps.size, mode ▸ keeps.mode,
    leaves.settled i known keeps.settled⟩

theorem Phase.Sound.leaves {phase : Phase} (intact : s.Intact site) (hne : q ≠ p)
    (hq : s.processes[q]? = some phase) (leaves : Leaves p s s') : phase.Sound site s' q := by
  have sound := intact.phase q phase hq
  have known : ∀ i ∈ phase.files, s.Known p i := fun i hi => .inr ⟨q, phase, hne, hq, hi⟩
  cases phase with
  | idle | discarding | linked | installed | staged | collecting | examined | removed => trivial
  | writing order workspace uuid file bytes =>
    obtain ⟨drawn, content, mode, only, name⟩ := sound
    have others : ∀ phase, s.processes[p]? = some phase → phase.output ≠ some file := by
      intro phase hp hout
      exact hne (intact.writers q p _ phase file hq hp rfl hout)
    obtain ⟨sameContent, sameMode⟩ := leaves.file file (known file (by simp [Phase.files])) others
    refine ⟨leaves.drawn uuid drawn, sameContent.trans content, sameMode.trans mode, ?_, ?_⟩
    · intro n hn
      exact only n (leaves.output q _ file hne hq rfl n hn)
    · intro i hi
      exact name i (leaves.temporary workspace uuid i drawn hi)
  | written order workspace uuid blob =>
    obtain ⟨drawn, name⟩ := sound
    refine ⟨leaves.drawn uuid drawn, fun i hi => ?_⟩
    have before := leaves.temporary workspace uuid i drawn hi
    exact (name i before).leaves (.inl ⟨_, before⟩) leaves
  | verifying order blob probe | hashing reg blob probe =>
    obtain ⟨sound, private_, settled⟩ := sound
    have hfile := known probe.file (by simp [Phase.files])
    obtain ⟨content, mode⟩ := leaves.file probe.file hfile (settled p)
    exact ⟨sound.mono (content ▸ List.prefix_rfl), mode.trans private_,
      leaves.settled _ hfile settled⟩
  | hashed reg blob file identity =>
    obtain ⟨ino, keeps⟩ := sound
    exact ⟨ino, keeps.leaves (known file (by simp [Phase.files])) leaves⟩
  | registering reg blob file identity | statted reg blob file identity observed =>
    obtain ⟨writer, ino, keeps⟩ := sound
    exact ⟨leaves.writer q hne writer, ino,
      keeps.leaves (known file (by simp [Phase.files])) leaves⟩
  | inserting reg blob file =>
    obtain ⟨writer, keeps, name⟩ := sound
    exact ⟨leaves.writer q hne writer, keeps.leaves (known file (by simp [Phase.files])) leaves,
      leaves.name q _ file hne writer name⟩
  | unreferenced threshold names digest file =>
    obtain ⟨writer, none⟩ := sound
    exact ⟨leaves.writer q hne writer, by rw [leaves.repository q hne writer]; exact none⟩
  | removing threshold names name =>
    intro digest hname
    obtain ⟨writer, none⟩ := sound digest hname
    exact ⟨leaves.writer q hne writer, by rw [leaves.repository q hne writer]; exact none⟩

/-! ## One step of a process -/

theorem BlobStore.Settled.set {phase' : Phase} {i : ℕ} (h : s.Settled i)
    (processes : s'.processes = s.processes.set p phase') (output : phase'.output ≠ some i) :
    s'.Settled i := by
  intro q phase hq
  rw [processes] at hq
  rcases Count.set_cases hq with ⟨-, rfl⟩ | ⟨-, hq⟩
  · exact output
  · exact h q phase hq

theorem BlobStore.Intact.advance {phase' : Phase} (intact : s.Intact site)
    (leaves : Leaves p s s') (processes : s'.processes = s.processes.set p phase')
    (sound : phase'.Sound site s' p)
    (alone : ∀ (i q : ℕ) (phase : Phase), phase'.output = some i → q ≠ p →
      s.processes[q]? = some phase → phase.output ≠ some i)
    (blob : ∀ digest i, s'.files.names (.blob digest) = some i →
      site.sha256 (s'.files.content i) = digest ∧ s'.files.mode i = privateMode ∧ s'.Settled i)
    (temporary : ∀ workspace uuid i, s'.files.names (.temporary workspace uuid) = some i →
      uuid ∈ s'.drawn)
    (row : ∀ a ∈ s'.repository.artifacts.rows, a.id.owner = site.owner →
      ∃ i, s'.files.names (.blob a.digest) = some i ∧ (s'.files.content i).length = a.sizeBytes) :
    s'.Intact site := by
  refine ⟨blob, temporary, row, ?_, ?_⟩
  · intro q phase hq
    rw [processes] at hq
    rcases Count.set_cases hq with ⟨rfl, rfl⟩ | ⟨hne, hq⟩
    · exact sound
    · exact Phase.Sound.leaves intact hne hq leaves
  · intro q q' phase phase'' i hq hq' hi hi'
    rw [processes] at hq hq'
    rcases Count.set_cases hq with ⟨rfl, rfl⟩ | ⟨hne, old⟩ <;>
      rcases Count.set_cases hq' with ⟨rfl, rfl⟩ | ⟨hne', old'⟩
    · rfl
    · exact (alone i q' phase'' hi hne' old' hi').elim
    · exact (alone i q phase hi' hne old hi).elim
    · exact intact.writers q q' phase phase'' i old old' hi hi'

/-- A step that changes no file and no row: only the phase of `p`, and perhaps who holds the
writer transaction. -/
theorem BlobStore.Intact.quiet {phase' : Phase} (intact : s.Intact site)
    (files : s'.files = s.files) (drawn : s'.drawn = s.drawn)
    (repository : s'.repository = s.repository)
    (processes : s'.processes = s.processes.set p phase')
    (writer : ∀ q, q ≠ p → s.writer = some q → s'.writer = some q)
    (output : phase'.output = none) (sound : phase'.Sound site s' p) : s'.Intact site := by
  have settled : ∀ i, s.Settled i → s'.Settled i :=
    fun i h => h.set processes (by rw [output]; simp)
  refine intact.advance ⟨fun u hu => drawn ▸ hu, fun i _ _ => by rw [files]; exact ⟨rfl, rfl⟩,
      fun i _ h => settled i h, fun w u i _ h => by rwa [files] at h,
      fun q phase i _ _ _ n h => by rwa [files] at h, fun q d i _ _ h => by rwa [files],
      writer, fun _ _ _ => repository⟩ processes sound (fun i q phase hi => ?_) ?_ ?_ ?_
  · rw [output] at hi
    cases hi
  · rw [files]
    intro digest i hi
    obtain ⟨content, mode, hsettled⟩ := intact.blob digest i hi
    exact ⟨content, mode, settled i hsettled⟩
  · rw [files, drawn]
    exact intact.temporary
  · rw [files, repository]
    exact intact.row

theorem BlobStore.Intact.goto {phase' : Phase} (intact : s.Intact site)
    (output : phase'.output = none) (sound : phase'.Sound site (s.goto p phase') p) :
    (s.goto p phase').Intact site :=
  intact.quiet rfl rfl rfl rfl (fun _ _ h => h) output sound

theorem release_writer (hne : q ≠ p) (h : s.writer = some q) : (s.release p).writer = some q := by
  unfold BlobStore.release
  rw [if_neg (fun hp => hne (Option.some.inj (h.symm.trans hp)))]
  exact h

theorem release_same (s : BlobStore) (p : ℕ) : (s.release p).files = s.files ∧
    (s.release p).drawn = s.drawn ∧ (s.release p).repository = s.repository ∧
    (s.release p).processes = s.processes := by
  unfold BlobStore.release
  split <;> exact ⟨rfl, rfl, rfl, rfl⟩

theorem BlobStore.Intact.releaseTo {phase' : Phase} (intact : s.Intact site)
    (output : phase'.output = none) (sound : ∀ s, phase'.Sound site s p) :
    ((s.release p).goto p phase').Intact site := by
  obtain ⟨files, drawn, repository, processes⟩ := release_same s p
  exact intact.quiet files drawn repository (congrArg (List.set · p phase') processes)
    (fun q hne h => release_writer hne h) output (sound _)

theorem BlobStore.Intact.quit (intact : s.Intact site) (p : ℕ) : (s.quit p).Intact site :=
  intact.releaseTo rfl fun _ => trivial

theorem BlobStore.Intact.unlink {phase' : Phase} {n : BlobName} {now : ℕ}
    {files : FileSystem BlobName} (intact : s.Intact site)
    (h : s.files.unlink n now = .ok files)
    (safe : ∀ digest, n = .blob digest →
      s.writer = some p ∧ references s.repository site.owner digest = 0)
    (output : phase'.output = none) (sound : ∀ s, phase'.Sound site s p) :
    (BlobStore.goto { s with files := files } p phase').Intact site := by
  obtain ⟨i₀, unlinked⟩ := FileSystem.unlink_ok h
  have still : ∀ m i, files.names m = some i → s.files.names m = some i := by
    intro m i hm
    rw [unlinked.names] at hm
    by_cases hne : m = n
    · subst hne
      simp at hm
    · rwa [Function.update_of_ne hne] at hm
  have settled : ∀ i, s.Settled i →
      (BlobStore.goto { s with files := files } p phase').Settled i :=
    fun i h => h.set rfl (by rw [output]; simp)
  refine intact.advance ⟨fun u hu => hu, fun i _ _ => ⟨unlinked.content i, unlinked.mode i⟩,
      fun i _ h => settled i h, fun w u i _ h => still _ i h,
      fun q phase i _ _ _ m h => still m i h, fun q d i hne hq hd => ?_,
      fun _ _ h => h, fun _ _ _ => rfl⟩ rfl (sound _) (fun i q phase hi => ?_) ?_ ?_ ?_
  · show files.names (.blob d) = some i
    rw [unlinked.names, Function.update_of_ne]
    · exact hd
    · intro heq
      exact hne (Option.some.inj (hq.symm.trans (safe d heq.symm).1))
  · rw [output] at hi
    cases hi
  · intro digest i hi
    obtain ⟨content, mode, hsettled⟩ := intact.blob digest i (still _ i hi)
    exact ⟨(unlinked.content i).symm ▸ content, (unlinked.mode i).symm ▸ mode, settled i hsettled⟩
  · intro w u i hi
    exact intact.temporary w u i (still _ i hi)
  · intro a ha howner
    obtain ⟨i, hi, hsize⟩ := intact.row a ha howner
    refine ⟨i, ?_, (congrArg List.length (unlinked.content i)).trans hsize⟩
    show files.names (.blob a.digest) = some i
    rw [unlinked.names, Function.update_of_ne]
    · exact hi
    · intro heq
      -- the row itself would be counted
      have zero := (safe a.digest heq.symm).2
      rw [references, Table.count, List.countP_eq_zero] at zero
      exact zero a ha (by simp [howner])

theorem BlobStore.Intact.unlinkAny {phase' : Phase} {workspace : Option ℕ} {uuid now : ℕ}
    (intact : s.Intact site) (output : phase'.output = none)
    (sound : ∀ s, phase'.Sound site s p) :
    ((s.unlinkAny (.temporary workspace uuid) now).goto p phase').Intact site := by
  unfold BlobStore.unlinkAny
  split
  · exact intact.goto output (sound _)
  · rename_i files h
    exact intact.unlink h (fun digest heq => by cases heq) output sound

theorem BlobStore.Intact.link {workspace : Option ℕ} {uuid now : ℕ} {blob : Blob}
    {order : Option Registration} {files : FileSystem BlobName} (intact : s.Intact site)
    (hp : s.processes[p]? = some (.written order workspace uuid blob))
    (h : s.files.link (.temporary workspace uuid) (.blob blob.digest) now = .ok files) :
    (BlobStore.goto { s with files := files } p (.linked order workspace uuid blob)).Intact
      site := by
  obtain ⟨i₀, linked⟩ := FileSystem.link_ok h
  obtain ⟨-, ready⟩ := intact.phase p _ hp
  have keeps := ready i₀ linked.source
  have settled : ∀ i, s.Settled i → (BlobStore.goto { s with files := files } p
      (.linked order workspace uuid blob)).Settled i :=
    fun i h => h.set rfl (by simp [Phase.output])
  -- the only new name is the blob's
  have names : ∀ m i, files.names m = some i →
      (m = .blob blob.digest ∧ i = i₀) ∨ s.files.names m = some i := by
    intro m i hm
    rw [linked.names] at hm
    by_cases heq : m = .blob blob.digest
    · subst heq
      rw [Function.update_self] at hm
      exact .inl ⟨rfl, (Option.some.inj hm).symm⟩
    · rw [Function.update_of_ne heq] at hm
      exact .inr hm
  have kept : ∀ m i, s.files.names m = some i → files.names m = some i := by
    intro m i hm
    rw [linked.names, Function.update_of_ne]
    · exact hm
    · rintro rfl
      rw [linked.free] at hm
      cases hm
  refine intact.advance ⟨fun u hu => hu, fun i _ _ => ⟨linked.content i, linked.mode i⟩,
      fun i _ h => settled i h, fun w u i _ hi => ?_, fun q phase i hne hq hout m hm => ?_,
      fun q d i _ _ hd => kept _ i hd, fun _ _ h => h, fun _ _ _ => rfl⟩ rfl trivial
      (fun i q phase hi => by cases hi) ?_ ?_ ?_
  · exact (names _ i hi).resolve_left (fun heq => by cases heq.1)
  · refine (names m i hm).resolve_left ?_
    rintro ⟨-, rfl⟩
    exact keeps.settled q phase hq hout
  · intro digest i hi
    rcases names _ i hi with ⟨heq, rfl⟩ | hi
    · cases heq
      exact ⟨(congrArg site.sha256 (linked.content i)).trans keeps.digest,
        (linked.mode i).trans keeps.mode, settled i keeps.settled⟩
    · obtain ⟨content, mode, hsettled⟩ := intact.blob digest i hi
      exact ⟨(congrArg site.sha256 (linked.content i)).trans content,
        (linked.mode i).trans mode, settled i hsettled⟩
  · intro w u i hi
    exact intact.temporary w u i ((names _ i hi).resolve_left (fun heq => by cases heq.1))
  · intro a ha howner
    obtain ⟨i, hi, hsize⟩ := intact.row a ha howner
    exact ⟨i, kept _ i hi, (congrArg List.length (linked.content i)).trans hsize⟩

theorem BlobStore.unused_names {i : ℕ} (h : s.unused i = true) (n : BlobName) :
    s.files.names n ≠ some i := by
  simp only [BlobStore.unused, Bool.and_eq_true, decide_eq_true_eq] at h
  exact FileSystem.Free.names h.1 n

theorem BlobStore.unused_files {i : ℕ} {phase : Phase} (h : s.unused i = true)
    (hq : s.processes[q]? = some phase) : i ∉ phase.files := by
  simp only [BlobStore.unused, Bool.and_eq_true, List.all_eq_true, Bool.not_eq_true',
    List.contains_eq_mem, decide_eq_false_iff_not] at h
  exact h.2 phase (List.mem_of_getElem? hq)

theorem Phase.output_files {phase : Phase} {i : ℕ} (h : phase.output = some i) :
    i ∈ phase.files := by
  cases phase with
  | writing order workspace uuid file bytes =>
    cases h
    exact List.mem_singleton_self _
  | _ => cases h

theorem BlobStore.Intact.create {order : Option Registration} {workspace : Option ℕ}
    {uuid file now : ℕ} {files : FileSystem BlobName} (intact : s.Intact site)
    (fresh : uuid ∉ s.drawn) (unused : s.unused file = true)
    (h : s.files.create (.temporary workspace uuid) privateMode file now = .ok files) :
    (BlobStore.goto { s with files := files, drawn := uuid :: s.drawn } p
      (.writing order workspace uuid file [])).Intact site := by
  have created := FileSystem.create_ok h
  let phase' : Phase := .writing order workspace uuid file []
  let s' := BlobStore.goto { s with files := files, drawn := uuid :: s.drawn } p phase'
  have ne_of_name : ∀ n i, s.files.names n = some i → i ≠ file := by
    rintro n i hn rfl
    exact BlobStore.unused_names unused n hn
  have same : ∀ i, i ≠ file → files.content i = s.files.content i ∧
      files.mode i = s.files.mode i := by
    intro i hi
    unfold FileSystem.content FileSystem.mode
    rw [created.others i hi]
    exact ⟨rfl, rfl⟩
  have settled : ∀ i, i ≠ file → s.Settled i → s'.Settled i := by
    intro i hi hs
    refine hs.set rfl ?_
    intro hout
    exact hi (Option.some.inj hout).symm
  have known : ∀ i, s.Known p i → i ≠ file := by
    rintro i (⟨n, hn⟩ | ⟨q, phase, -, hq, hi⟩) rfl
    · exact ne_of_name n i hn rfl
    · exact BlobStore.unused_files unused hq hi
  have names : ∀ m i, files.names m = some i →
      (m = .temporary workspace uuid ∧ i = file) ∨ s.files.names m = some i := by
    intro m i hm
    rw [created.names] at hm
    by_cases heq : m = .temporary workspace uuid
    · subst heq
      rw [Function.update_self] at hm
      exact .inl ⟨rfl, (Option.some.inj hm).symm⟩
    · rw [Function.update_of_ne heq] at hm
      exact .inr hm
  have blobs : ∀ d, files.names (.blob d) = s.files.names (.blob d) := by
    intro d
    rw [created.names, Function.update_of_ne (by simp)]
  refine intact.advance ⟨fun u hu => List.mem_cons_of_mem _ hu,
      fun i hi _ => same i (known i hi), fun i hi h => settled i (known i hi) h,
      fun w u i hu hi => ?_, fun q phase i hne hq hout m hm => ?_,
      fun q d i _ _ hd => (blobs d).trans hd, fun _ _ h => h, fun _ _ _ => rfl⟩ rfl ?_ ?_ ?_ ?_ ?_
  · refine (names _ i hi).resolve_left ?_
    rintro ⟨heq, -⟩
    cases heq
    exact fresh hu
  · refine (names m i hm).resolve_left ?_
    rintro ⟨-, rfl⟩
    exact BlobStore.unused_files unused hq (Phase.output_files hout)
  · refine ⟨List.mem_cons_self .., created.content, created.mode, fun n hn => ?_, fun i hi => ?_⟩
    · rcases names n file hn with ⟨rfl, -⟩ | hold
      · rfl
      · exact (ne_of_name n file hold rfl).elim
    · rcases names _ i hi with ⟨-, rfl⟩ | hold
      · rfl
      · exact (fresh (intact.temporary workspace uuid i hold)).elim
  · intro i q phase hi hne hq hout
    cases hi
    exact BlobStore.unused_files unused hq (Phase.output_files hout)
  · intro digest i hi
    rw [show s'.files.names (.blob digest) = s.files.names (.blob digest) from blobs digest] at hi
    obtain ⟨content, mode, hsettled⟩ := intact.blob digest i hi
    obtain ⟨sameContent, sameMode⟩ := same i (ne_of_name _ i hi)
    exact ⟨(congrArg site.sha256 sameContent).trans content, sameMode.trans mode,
      settled i (ne_of_name _ i hi) hsettled⟩
  · intro w u i hi
    rcases names _ i hi with ⟨heq, -⟩ | hi
    · cases heq
      exact List.mem_cons_self ..
    · exact List.mem_cons_of_mem _ (intact.temporary w u i hi)
  · intro a ha howner
    obtain ⟨i, hi, hsize⟩ := intact.row a ha howner
    exact ⟨i, (blobs _).trans hi,
      (congrArg List.length (same i (ne_of_name _ i hi)).1).trans hsize⟩

theorem BlobStore.Intact.append {order : Option Registration} {workspace : Option ℕ}
    {uuid file now : ℕ} {written bytes : List UInt8} (intact : s.Intact site)
    (hp : s.processes[p]? = some (.writing order workspace uuid file written)) :
    (BlobStore.goto { s with files := s.files.append file bytes now } p
      (.writing order workspace uuid file (written ++ bytes))).Intact site := by
  obtain ⟨drawn, content, mode, only, name⟩ := intact.phase p _ hp
  let phase' : Phase := .writing order workspace uuid file (written ++ bytes)
  let s' := BlobStore.goto { s with files := s.files.append file bytes now } p phase'
  have same : ∀ i, i ≠ file → s'.files.content i = s.files.content i :=
    fun i hi => FileSystem.append_content_ne hi
  have ne_of_settled : ∀ i, s.Settled i → i ≠ file := by
    rintro i hs rfl
    exact hs p _ hp rfl
  have settled : ∀ i, s.Settled i → s'.Settled i := by
    intro i hs
    refine hs.set rfl ?_
    intro hout
    exact ne_of_settled i hs (Option.some.inj hout).symm
  refine intact.advance ⟨fun u hu => hu,
      fun i _ hi => ⟨same i fun heq => hi _ hp (congrArg some heq.symm),
        FileSystem.append_mode⟩, fun i _ h => settled i h, fun w u i _ hi => hi,
      fun q phase i _ _ _ m hm => hm, fun q d i _ _ hd => hd, fun _ _ h => h,
      fun _ _ _ => rfl⟩ rfl ?_ ?_ ?_ ?_ ?_
  · refine ⟨drawn, ?_, FileSystem.append_mode.trans mode, only, name⟩
    rw [← content]
    exact FileSystem.append_content_self
  · intro i q phase hi hne hq hout
    cases hi
    exact hne (intact.writers q p _ _ file hq hp hout rfl)
  · intro digest i hi
    obtain ⟨content, mode, hsettled⟩ := intact.blob digest i hi
    exact ⟨(congrArg site.sha256 (same i (ne_of_settled i hsettled))).trans content,
      FileSystem.append_mode.trans mode, settled i hsettled⟩
  · exact intact.temporary
  · intro a ha howner
    obtain ⟨i, hi, hsize⟩ := intact.row a ha howner
    have hne := ne_of_settled i (intact.blob _ i hi).2.2
    exact ⟨i, hi, (congrArg List.length (same i hne)).trans hsize⟩

theorem BlobStore.Intact.finish {order : Option Registration} {workspace : Option ℕ}
    {uuid file : ℕ} {bytes : List UInt8} (intact : s.Intact site)
    (hp : s.processes[p]? = some (.writing order workspace uuid file bytes)) :
    (s.goto p (.written order workspace uuid (site.blobOf bytes))).Intact site := by
  obtain ⟨drawn, content, mode, -, name⟩ := intact.phase p _ hp
  refine intact.goto rfl ⟨drawn, fun i hi => ?_⟩
  obtain rfl : i = file := name i hi
  refine ⟨congrArg site.sha256 content, congrArg List.length content, mode, ?_⟩
  intro q phase hq hout
  rcases Count.set_cases hq with ⟨rfl, rfl⟩ | ⟨hne, old⟩
  · cases hout
  · exact hne (intact.writers q p _ _ i old hp hout rfl)

theorem BlobStore.Intact.insert {reg : Registration} {blob : Blob} {file : ℕ}
    {repository : Repository} {a : Artifact} (intact : s.Intact site)
    (hp : s.processes[p]? = some (.inserting reg blob file))
    (h : register s.repository reg blob (.ok ()) = .ok (repository, a)) :
    (BlobStore.quit { s with repository := repository } p).Intact site := by
  obtain ⟨writer, keeps, name⟩ := intact.phase p _ hp
  have rows : ∀ a ∈ repository.artifacts.rows,
      a ∈ s.repository.artifacts.rows ∨ a = reg.row blob := by
    rcases (register_cases h).2 with ⟨rfl, -, -⟩ | ⟨rfl, r, usage, registered⟩
    · exact fun a ha => .inl ha
    · intro a ha
      rw [(Table.insert?_some registered.inserted).2, List.mem_append] at ha
      exact ha.imp_right List.mem_singleton.mp
  have committed : BlobStore.quit { s with repository := repository } p =
      BlobStore.goto { s with repository := repository, writer := none } p .idle := by
    unfold BlobStore.quit BlobStore.release
    rw [if_pos (show s.writer = some p from writer)]
  rw [committed]
  have settled : ∀ i, s.Settled i →
      (BlobStore.goto { s with repository := repository, writer := none } p .idle).Settled i :=
    fun i h => h.set rfl (by simp [Phase.output])
  refine intact.advance ⟨fun u hu => hu, fun i _ _ => ⟨rfl, rfl⟩, fun i _ h => settled i h,
      fun w u i _ hi => hi, fun q phase i _ _ _ n hn => hn, fun q d i _ _ hd => hd,
      fun q hne h => (hne (Option.some.inj (h.symm.trans writer))).elim,
      fun q hne h => (hne (Option.some.inj (h.symm.trans writer))).elim⟩
    rfl trivial (fun i q phase hi => by cases hi) ?_ intact.temporary ?_
  · intro digest i hi
    obtain ⟨content, mode, hsettled⟩ := intact.blob digest i hi
    exact ⟨content, mode, settled i hsettled⟩
  · intro a ha howner
    rcases rows a ha with ha | rfl
    · exact intact.row a ha howner
    · exact ⟨file, name, keeps.size⟩

theorem BlobStore.Intact.next {chunk now : ℕ} {phase : Phase} (intact : s.Intact site)
    (hp : s.processes[p]? = some phase) (h : s.next site p chunk now phase = some s') :
    s'.Intact site := by
  have sound := intact.phase p phase hp
  cases phase with
  | idle | writing order workspace uuid file bytes => cases h
  | discarding workspace uuid =>
    cases h
    exact intact.unlinkAny rfl fun _ => trivial
  | written order workspace uuid blob =>
    simp only [BlobStore.next] at h
    split at h
    · rename_i files hlink
      cases h
      exact intact.link hp hlink
    · cases h
      exact intact.goto rfl trivial
    · cases h
      exact intact.quit p
  | linked order workspace uuid blob =>
    cases h
    exact intact.unlinkAny rfl fun _ => trivial
  | installed order blob =>
    simp only [BlobStore.next] at h
    split at h
    · rename_i file hopen
      cases h
      obtain ⟨hname, private_⟩ := openRegular_ok hopen
      refine intact.goto rfl ⟨trivial, private_, ?_⟩
      exact (intact.blob _ file hname).2.2.set rfl (by simp [Phase.output])
    · cases h
      exact intact.quit p
  | verifying order blob probe =>
    simp only [BlobStore.next] at h
    split at h
    · rename_i probe' hstep
      cases h
      refine intact.goto rfl ⟨sound.1.step hstep, ?_⟩
      rw [Probe.step_file hstep]
      exact ⟨sound.2.1, sound.2.2.set rfl (by simp [Phase.output])⟩
    · split at h
      · split at h
        · cases h
          exact intact.goto rfl trivial
        · cases h
          exact intact.goto rfl trivial
      · cases h
        exact intact.quit p
    · cases h
      exact intact.quit p
  | staged reg blob =>
    simp only [BlobStore.next] at h
    split at h
    · rename_i file hopen
      cases h
      obtain ⟨hname, private_⟩ := openRegular_ok hopen
      refine intact.goto rfl ⟨trivial, private_, ?_⟩
      exact (intact.blob _ file hname).2.2.set rfl (by simp [Phase.output])
    · cases h
      exact intact.quit p
  | hashing reg blob probe =>
    simp only [BlobStore.next] at h
    split at h
    · rename_i probe' hstep
      cases h
      refine intact.goto rfl ⟨sound.1.step hstep, ?_⟩
      rw [Probe.step_file hstep]
      exact ⟨sound.2.1, sound.2.2.set rfl (by simp [Phase.output])⟩
    · rename_i content identity hstep
      split at h
      · rename_i confirms
        cases h
        obtain ⟨rfl, rfl⟩ := Prod.mk.inj (sound.1.verified hstep)
        simp only [Site.confirms, Bool.and_eq_true, decide_eq_true_eq] at confirms
        exact intact.goto rfl ⟨rfl, confirms.1, confirms.2, sound.2.1,
          sound.2.2.set rfl (by simp [Phase.output])⟩
      · cases h
        exact intact.quit p
    · cases h
      exact intact.quit p
  | hashed reg blob file identity =>
    simp only [BlobStore.next] at h
    split at h
    · cases h
    · rename_i free
      split at h
      · cases h
        have none : s.writer = none := by simpa using free
        obtain ⟨ino, keeps⟩ := sound
        refine intact.quiet rfl rfl rfl rfl (fun q _ hq => ?_) rfl
          ⟨rfl, ino, keeps.digest, keeps.size, keeps.mode, keeps.settled.set rfl (by simp [Phase.output])⟩
        rw [none] at hq
        cases hq
      · cases h
        exact intact.quit p
  | registering reg blob file identity =>
    cases h
    obtain ⟨writer, ino, keeps⟩ := sound
    exact intact.goto rfl ⟨writer, ino, keeps.digest, keeps.size, keeps.mode,
      keeps.settled.set rfl (by simp [Phase.output])⟩
  | statted reg blob file identity observed =>
    simp only [BlobStore.next] at h
    obtain ⟨writer, ino, keeps⟩ := sound
    split at h
    · cases h
      exact intact.quit p
    · rename_i i hname
      split at h
      · cases h
        exact intact.quit p
      · rename_i same
        cases h
        -- the name leads to the very file that was hashed
        have identical : s.files.stat i = identity := by
          by_contra hne
          exact same (.inr hne)
        have heq : i = file := (congrArg Stat.ino identical).trans ino
        subst heq
        exact intact.goto rfl ⟨writer, ⟨keeps.digest, keeps.size, keeps.mode,
          keeps.settled.set rfl (by simp [Phase.output])⟩, hname⟩
  | inserting reg blob file =>
    simp only [BlobStore.next] at h
    split at h
    · rename_i repository a hreg
      cases h
      exact intact.insert hp hreg
    · cases h
      exact intact.quit p
  | collecting threshold names =>
    cases names with
    | nil =>
      cases h
      exact intact.goto rfl trivial
    | cons name names =>
      simp only [BlobStore.next] at h
      split at h
      · cases h
        exact intact.goto rfl trivial
      · split at h <;> cases h <;> exact intact.goto rfl trivial
  | examined threshold names name file =>
    cases name with
    | temporary workspace uuid =>
      simp only [BlobStore.next] at h
      split at h
      · cases h
        exact intact.quit p
      · split at h
        · cases h
          exact intact.quit p
        · cases h
          exact intact.goto rfl fun digest heq => by cases heq
    | blob digest =>
      simp only [BlobStore.next] at h
      split at h
      · cases h
      · rename_i free
        split at h
        · cases h
          exact intact.goto rfl trivial
        · rename_i zero
          cases h
          have none : s.writer = none := by simpa using free
          refine intact.quiet rfl rfl rfl rfl (fun q _ hq => ?_) rfl
            ⟨rfl, not_not.mp zero⟩
          rw [none] at hq
          cases hq
  | unreferenced threshold names digest file =>
    simp only [BlobStore.next] at h
    split at h
    · cases h
      exact intact.quit p
    · split at h
      · cases h
        exact intact.quit p
      · cases h
        refine intact.goto rfl fun d heq => ?_
        cases heq
        exact sound
  | removing threshold names name =>
    simp only [BlobStore.next] at h
    split at h
    · cases h
      exact intact.quit p
    · rename_i files hunlink
      cases h
      exact intact.unlink hunlink sound rfl fun _ => trivial
  | removed threshold names =>
    cases h
    exact intact.releaseTo rfl fun _ => trivial

theorem BlobStore.Intact.database {repository : Repository} (intact : s.Intact site)
    (free : s.writer = none) (keeps : keepsContent s.repository repository = true) :
    BlobStore.Intact site { s with repository := repository } := by
  -- no process takes this step
  have leaves : Leaves s.processes.length s { s with repository := repository } := by
    refine ⟨fun u hu => hu, fun i _ _ => ⟨rfl, rfl⟩, fun i _ h => h, fun w u i _ h => h,
      fun q phase i _ _ _ n h => h, fun q d i _ _ h => h, fun q _ h => h, fun q _ h => ?_⟩
    rw [free] at h
    cases h
  refine ⟨intact.blob, intact.temporary, fun a ha howner => ?_, fun q phase hq => ?_,
    intact.writers⟩
  · simp only [keepsContent, List.all_eq_true, List.any_eq_true, Bool.and_eq_true,
      decide_eq_true_eq] at keeps
    obtain ⟨b, hb, ⟨hid, hdigest⟩, hsize⟩ := keeps a ha
    rw [← hdigest, ← hsize]
    exact intact.row b hb (by rw [hid]; exact howner)
  · refine Phase.Sound.leaves intact ?_ hq leaves
    rintro rfl
    rw [List.getElem?_eq_none le_rfl] at hq
    cases hq

theorem BlobStore.Intact.step {action : BlobAction} (intact : s.Intact site)
    (h : s.step site action = some s') : s'.Intact site := by
  cases action with
  | stage p order workspace uuid file now =>
    simp only [BlobStore.step, BlobStore.stage] at h
    split at h
    · split at h
      · cases h
      · rename_i fresh
        simp only [Bool.or_eq_true, List.contains_eq_mem, decide_eq_true_eq, Bool.not_eq_true',
          not_or, Bool.not_eq_false] at fresh
        split at h
        · cases h
          exact intact.quit p
        · rename_i files hcreate
          cases h
          exact intact.create fresh.1 fresh.2 hcreate
    · cases h
  | write p bytes now =>
    simp only [BlobStore.step] at h
    split at h
    · rename_i order workspace uuid file written hp
      split at h
      · cases h
      · split at h
        · cases h
          exact intact.goto rfl trivial
        · cases h
          exact intact.append hp
    · cases h
  | finish p =>
    simp only [BlobStore.step] at h
    split at h
    · rename_i order workspace uuid file written hp
      cases h
      exact intact.finish hp
    · cases h
  | interrupt p =>
    simp only [BlobStore.step] at h
    split at h
    · cases h
      exact intact.goto rfl trivial
    · cases h
  | collect p threshold names =>
    simp only [BlobStore.step] at h
    split at h
    · cases h
      exact intact.goto rfl trivial
    · cases h
  | next p chunk now =>
    simp only [BlobStore.step, Option.bind_eq_some_iff] at h
    obtain ⟨phase, hp, hnext⟩ := h
    exact intact.next hp hnext
  | crash p =>
    cases h
    exact intact.quit p
  | database repository =>
    simp only [BlobStore.step] at h
    split at h
    · rename_i allowed
      cases h
      rw [Bool.and_eq_true, Option.isNone_iff_eq_none] at allowed
      exact intact.database allowed.1 allowed.2
    · cases h

/-! ## Runs -/

theorem BlobStore.Intact.init (inodes : ℕ → Inode) {repository : Repository} (processes : ℕ)
    (none : ∀ a ∈ repository.artifacts.rows, a.id.owner ≠ site.owner) :
    (BlobStore.init inodes repository processes).Intact site := by
  have names : ∀ n, (BlobStore.init inodes repository processes).files.names n = .none :=
    fun n => rfl
  have idle : ∀ (q : ℕ) (phase : Phase),
      (BlobStore.init inodes repository processes).processes[q]? = some phase → phase = .idle := by
    intro q phase hq
    exact List.eq_of_mem_replicate (List.mem_of_getElem? hq)
  refine ⟨fun d i h => ?_, fun w u i h => ?_, fun a ha howner => (none a ha howner).elim,
    fun q phase hq => ?_, fun q q' phase phase' i hq _ hi _ => ?_⟩
  · rw [names] at h
    cases h
  · rw [names] at h
    cases h
  · rw [idle q phase hq]
    trivial
  · rw [idle q phase hq] at hi
    cases hi

theorem BlobStore.Intact.transition {action : BlobAction}
    (h : s.transition site action = .ok s') (intact : s.Intact site) : s'.Intact site := by
  unfold BlobStore.transition at h
  cases hstep : s.step site action with
  | none =>
    rw [hstep] at h
    cases h
  | some s₁ =>
    rw [hstep] at h
    cases h
    exact intact.step hstep

/-- Whatever `stage`, `commit` and `collect_garbage` calls run, and wherever processes end, every
artifact of the owner has its blob: a regular file under its digest with that digest and size.  A
collector that is about to unlink a blob's name unlinks one that no artifact refers to. -/
theorem artifacts_have_blobs {inodes : ℕ → Inode} {repository : Repository} {processes : ℕ}
    {actions : List BlobAction}
    (none : ∀ a ∈ repository.artifacts.rows, a.id.owner ≠ site.owner)
    (h : (BlobStore.init inodes repository processes).run site actions = s) :
    (∀ a ∈ s.repository.artifacts.rows, a.id.owner = site.owner →
      ∃ i, s.files.names (.blob a.digest) = some i ∧ (s.files.mode i).regular = true ∧
        site.sha256 (s.files.content i) = a.digest ∧
        (s.files.content i).length = a.sizeBytes) ∧
    ∀ (p threshold : ℕ) (names : List BlobName) (digest : ℕ),
      s.processes[p]? = some (.removing threshold names (.blob digest)) →
        ∀ a ∈ s.repository.artifacts.rows, a.id.owner = site.owner → a.digest ≠ digest := by
  have intact : s.Intact site :=
    h ▸ Transaction.run_preserves BlobStore.Intact.transition
      (BlobStore.Intact.init inodes processes none)
  constructor
  · intro a ha howner
    obtain ⟨i, hname, hsize⟩ := intact.row a ha howner
    obtain ⟨digest, mode, -⟩ := intact.blob a.digest i hname
    exact ⟨i, hname, by rw [mode]; rfl, digest, hsize⟩
  · intro p threshold names digest hp a ha howner heq
    have zero := (intact.phase p _ hp digest rfl).2
    rw [references, Table.count, List.countP_eq_zero] at zero
    exact zero a ha (by simp [howner, heq])

/-- A database with one revision that has no usage yet. -/
def oneRevision (revision : Revision) (usage : RevisionUsage) : Repository where
  store := { Store.empty with
    revisions := ⟨[revision], List.nodup_singleton _⟩
    usage := ⟨[usage], List.nodup_singleton _⟩ }
  artifacts := .empty
  publications := .empty

/-- A revision of the workload `1` that allows 2 artifacts and 100 bytes. -/
def smallRevision : Revision where
  id := ⟨0, 2⟩
  workloadId := ⟨0, 1⟩
  planDigest := 0
  inventoryDigest := 0
  snapshotDigest := 0
  budgets := ⟨0, 100, 0, 0, 2, 0, 0⟩
  maxUnits := 0
  expectedSourceCount := 0
  requiredArtifacts := []
  failureDeclared := false
  toleratedErrorClasses := []
  capsTruncated := false
  partialOutputAccepted := false
  usageComplete := true
  manualRetryGeneration := 0

/-- Two processes, an empty directory, and a stand-in for SHA-256 that tells contents apart. -/
def smallStart : BlobStore :=
  .init (fun _ => ⟨⟨true, 0⟩, [], 0, 0⟩)
    (oneRevision smallRevision ⟨⟨0, 2⟩, 0, 0, 0, 0, 0, 0, false, none, none⟩) 2

def smallSite : Site := ⟨0, 100, fun l => l.foldl (fun n b => 256 * n + b.toNat) 1⟩

/-- One process commits three bytes while the other one collects. -/
def commitWhileCollecting : List BlobAction :=
  [.stage 0 (some ⟨0, 1, 2, "report", "text/plain", "v1", 7, none, true, true⟩) (some 1) 3 5 1,
    .write 0 [1, 2] 1, .write 0 [3] 2, .finish 0, .next 0 0 3, .next 0 0 3, .next 0 0 3,
    .collect 1 9 [.blob 16843267], .next 1 0 4] ++
  List.replicate 15 (.next 0 1 4) ++ [.next 1 0 5]

theorem artifacts_have_blobs_sample :
    ∃ s, smallStart.run smallSite commitWhileCollecting = s ∧
      s.repository.artifacts.rows.length = 1 ∧
      ∀ a ∈ s.repository.artifacts.rows, a.id.owner = smallSite.owner →
        ∃ i, s.files.names (.blob a.digest) = some i ∧ (s.files.mode i).regular = true ∧
          smallSite.sha256 (s.files.content i) = a.digest ∧
          (s.files.content i).length = a.sizeBytes :=
  ⟨_, rfl, by decide +kernel, (artifacts_have_blobs (fun a ha => by cases ha) rfl).1⟩

end Metnos.Artifacts
