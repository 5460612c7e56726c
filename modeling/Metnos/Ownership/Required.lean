import Metnos.Ownership.Store

/-!
# Ownership.Required — the required head moves forward only

Files under a head's stem are pieces of verified heads, and a complete one stays as it is, since no
head begins another one.  Under the lock the pointer and its temporary file belong to one call, so
what the call has compared still holds when it renames.
-/

namespace Metnos.Ownership

variable (site : Site)

/-- The bytes of the head are those of a verified one. -/
def Verified (h : Head) : Prop := verifyOwnershipHead site h.encoded h.signature = .ok h

def Succeeds (h c : Head) : Prop :=
  h.releaseSequence = c.releaseSequence + 1 ∧ h.previousHeadId = some c.headId

def First (h : Head) : Prop := h.releaseSequence = 1 ∧ h.previousHeadId = none

/-- The heads form a chain, oldest first. -/
def Chained (history : List Head) : Prop :=
  (∀ h ∈ history.head?, First h) ∧ history.IsChain (fun c h => Succeeds h c)

/-- The frame that was read lets the head follow. -/
def Admitted (h : Head) : Option Bytes → Prop
  | none => First h
  | some framed => ∃ c, decodeRequiredHead site framed = .ok c ∧ Succeeds h c

namespace Chain

variable (s : Chain)

/-- Both files of the head are there, complete. -/
def Stored (h : Head) : Prop :=
  ∀ part, s.read (.file part (stem h)) = some (h.bytes part)

/-- The inode has the beginning of a verified head's file, and so has who writes it. -/
def Holds (part : Part) (st : String) (i : ℕ) : Prop :=
  ∃ h, Verified site h ∧ stem h = st ∧ s.content i <+: h.bytes part ∧
    ∀ q job rest, s.phase q = .writing job i rest → job.bytes = h.bytes part

/-- An update under the lock. -/
structure Updating (p : ℕ) (h : Head) : Prop where
  verified : Verified site h
  lock : s.lock = some p

/-- An update that has compared the stored pair and the pointer. -/
structure Ready (p : ℕ) (h : Head) (current : Option Bytes) : Prop where
  verified : Verified site h
  lock : s.lock = some p
  stored : s.Stored h
  admitted : Admitted site h current

def JobOk (p : ℕ) : Job → Prop
  | .pair h _ => Verified site h
  | .pointer h current => s.Ready site p h current

/-- The temporary file of the pointer is complete. -/
def Framed (h : Head) : Prop := s.read (.requiredTmp h.headId) = some (frame h)

/-- What a call relies on, by its phase. -/
def PhaseOk (p : ℕ) : Phase → Prop
  | .idle => True
  | .testing h _ | .dropping h _ | .waiting h _ => Verified site h
  | .looking job | .opening job | .comparing job => s.JobOk site p job
  | .writing job i rest => s.JobOk site p job ∧ i < s.unused ∧ s.content i ++ rest = job.bytes ∧
      ∀ h c, job = .pointer h c → s.names (.requiredTmp h.headId) = some i
  | .publishing job | .found job => s.JobOk site p job ∧
      ∀ h c, job = .pointer h c → c = none ∧ s.Framed h
  | .pairFirst h _ | .pairSecond h _ | .pairThird h _ | .pairFourth h _ _
  | .reading h _ .payload => s.Updating site p h
  | .reading h _ .signature => s.Updating site p h ∧
      s.read (.file .payload (stem h)) = some h.encoded
  | .pointerThere h _ | .pointerRead h _ => s.Updating site p h ∧ s.Stored h
  | .rechecking h current => s.Ready site p h current ∧ s.Framed h
  | .replacing h => s.Updating site p h ∧ s.Stored h ∧ s.Framed h ∧
      ∃ c, s.history.getLast? = some c ∧ Succeeds h c
  | .cleaning h _ | .rereading h => s.Updating site p h
  | .unlocking => s.lock = some p

structure Inv : Prop where
  fresh : ∀ n i, s.names n = some i → i < s.unused
  files : ∀ part st i, s.names (.file part st) = some i → s.Holds site part st i
  tmps : ∀ part st suf i, s.names (.tmp part st suf) = some i → s.Holds site part st i
  pointerTmps : ∀ id i, s.names (.requiredTmp id) = some i →
    ∀ q job rest, s.phase q = .writing job i rest → ∃ h c, job = .pointer h c
  writers : ∀ p q i job job' rest rest', s.phase p = .writing job i rest →
    s.phase q = .writing job' i rest' → p = q
  phases : ∀ p, s.PhaseOk site p (s.phase p)
  pointer : ∀ i, s.names .required = some i → ∃ h, s.history.getLast? = some h ∧
    Verified site h ∧ s.Stored h ∧ s.content i = frame h ∧
    ∀ q job rest, s.phase q ≠ .writing job i rest
  unnamed : s.names .required = none → s.history = []
  chain : Chained s.history

variable {site} {s}

theorem inv_empty : empty.Inv site where
  fresh n i h := by cases h
  files part st i h := by cases h
  tmps part st suf i h := by cases h
  pointerTmps id i h := by cases h
  writers p q i job job' rest rest' h := by cases h
  phases p := trivial
  pointer i h := by cases h
  unnamed _ := rfl
  chain := ⟨fun h hh => (by cases hh), .nil⟩

/-! ## What a step of one call leaves to the others -/

variable (site) in
/-- What a step of the call `p` keeps for every other call. -/
structure Keeps (p : ℕ) (s s' : Chain) : Prop where
  unused : s.unused ≤ s'.unused
  lock : ∀ q, q ≠ p → s.lock = some q → s'.lock = some q
  stored : ∀ h part, s.read (.file part (stem h)) = some (h.bytes part) → Verified site h →
    s'.read (.file part (stem h)) = some (h.bytes part)
  written : ∀ q job i rest, q ≠ p → s.phase q = .writing job i rest → s'.content i = s.content i
  /-- Under the lock of another call, the pointer and its temporary files stay. -/
  names : ∀ q, q ≠ p → s.lock = some q → ∀ id,
    s'.names (.requiredTmp id) = s.names (.requiredTmp id) ∧
    s'.read (.requiredTmp id) = s.read (.requiredTmp id)
  history : ∀ q, q ≠ p → s.lock = some q → s'.history = s.history

section
variable {p q : ℕ} {s' : Chain}

theorem Keeps.stored_all (k : Keeps site p s s') {h : Head} (hv : Verified site h)
    (hs : s.Stored h) : s'.Stored h := fun part => k.stored h part (hs part) hv

theorem Keeps.ready (k : Keeps site p s s') (hq : q ≠ p) {h : Head}
    {current : Option Bytes} (hr : s.Ready site q h current) : s'.Ready site q h current where
  verified := hr.verified
  lock := k.lock q hq hr.lock
  stored := k.stored_all hr.verified hr.stored
  admitted := hr.admitted

theorem Keeps.updating (k : Keeps site p s s') (hq : q ≠ p) {h : Head}
    (hu : s.Updating site q h) : s'.Updating site q h where
  verified := hu.verified
  lock := k.lock q hq hu.lock

theorem Keeps.jobOk (k : Keeps site p s s') (hq : q ≠ p) {job : Job}
    (h : s.JobOk site q job) : s'.JobOk site q job := by
  cases job with
  | pair => exact h
  | pointer => exact k.ready hq h

theorem Keeps.framed (k : Keeps site p s s') (hq : q ≠ p) (lock : s.lock = some q)
    {h : Head} (hf : s.Framed h) : s'.Framed h := by
  unfold Framed
  rw [(k.names q hq lock h.headId).2]
  exact hf

theorem Keeps.phaseOk (k : Keeps site p s s') (hq : q ≠ p) {phase : Phase}
    (hw : ∀ job i rest, phase = .writing job i rest → s'.content i = s.content i)
    (h : s.PhaseOk site q phase) : s'.PhaseOk site q phase := by
  cases phase with
  | idle => trivial
  | testing => exact h
  | dropping => exact h
  | waiting => exact h
  | looking job => exact k.jobOk hq h
  | opening job => exact k.jobOk hq h
  | comparing job => exact k.jobOk hq h
  | writing job i rest =>
    obtain ⟨hjob, hlt, hcontent, hname⟩ := h
    refine ⟨k.jobOk hq hjob, lt_of_lt_of_le hlt k.unused, ?_, fun h c heq => ?_⟩
    · rw [hw job i rest rfl]
      exact hcontent
    · subst heq
      rw [(k.names q hq hjob.lock h.headId).1]
      exact hname h c rfl
  | publishing job =>
    refine ⟨k.jobOk hq h.1, fun h' c heq => ?_⟩
    subst heq
    exact ⟨(h.2 h' c rfl).1, k.framed hq h.1.lock (h.2 h' c rfl).2⟩
  | found job =>
    refine ⟨k.jobOk hq h.1, fun h' c heq => ?_⟩
    subst heq
    exact ⟨(h.2 h' c rfl).1, k.framed hq h.1.lock (h.2 h' c rfl).2⟩
  | pairFirst => exact k.updating hq h
  | pairSecond => exact k.updating hq h
  | pairThird => exact k.updating hq h
  | pairFourth => exact k.updating hq h
  | reading h' expected part =>
    cases part with
    | payload => exact k.updating hq h
    | signature => exact ⟨k.updating hq h.1, k.stored h' .payload h.2 h.1.verified⟩
  | pointerThere => exact ⟨k.updating hq h.1, k.stored_all h.1.verified h.2⟩
  | pointerRead => exact ⟨k.updating hq h.1, k.stored_all h.1.verified h.2⟩
  | rechecking => exact ⟨k.ready hq h.1, k.framed hq h.1.lock h.2⟩
  | replacing =>
    obtain ⟨hu, hs, hf, c, hlast, hsucc⟩ := h
    refine ⟨k.updating hq hu, k.stored_all hu.verified hs, k.framed hq hu.lock hf, c, ?_, hsucc⟩
    rw [k.history q hq hu.lock]
    exact hlast
  | cleaning => exact k.updating hq h
  | rereading => exact k.updating hq h
  | unlocking => exact k.lock q hq h

theorem Keeps.phases (k : Keeps site p s s') (idle : s.phase p = .idle) (same : s'.phase = s.phase)
    (h : ∀ q, s.PhaseOk site q (s.phase q)) (q : ℕ) : s'.PhaseOk site q (s'.phase q) := by
  rw [same]
  by_cases hq : q = p
  · subst hq
    rw [idle]
    trivial
  · exact k.phaseOk hq (fun job i rest => k.written q job i rest hq) (h q)

end

/-! ## Going to another phase -/

section
variable {p q : ℕ} {phase : Phase}

@[simp] theorem goto_self (s : Chain) (p : ℕ) (phase : Phase) : (s.goto p phase).phase p = phase :=
  Function.update_self ..

theorem goto_other (hq : q ≠ p) : (s.goto p phase).phase q = s.phase q :=
  Function.update_of_ne hq ..

theorem writing_goto {job : Job} {i : ℕ} {rest : Bytes}
    (h : (s.goto p phase).phase q = .writing job i rest) :
    q = p ∧ phase = .writing job i rest ∨ q ≠ p ∧ s.phase q = .writing job i rest := by
  by_cases hq : q = p
  · subst hq
    rw [goto_self] at h
    exact .inl ⟨rfl, h⟩
  · rw [goto_other hq] at h
    exact .inr ⟨hq, h⟩

def Resting (phase : Phase) : Prop := ∀ job i rest, phase ≠ .writing job i rest

theorem writing_resting (hr : Resting phase) {job : Job} {i : ℕ} {rest : Bytes}
    (h : (s.goto p phase).phase q = .writing job i rest) : s.phase q = .writing job i rest := by
  rcases writing_goto h with ⟨-, h⟩ | ⟨-, h⟩
  · exact absurd h (hr job i rest)
  · exact h

theorem Holds.mono {s' : Chain} {part : Part} {st : String} {i : ℕ} (h : s.Holds site part st i)
    (content : s'.content i = s.content i)
    (writers : ∀ q job rest, s'.phase q = .writing job i rest → s.phase q = .writing job i rest) :
    s'.Holds site part st i := by
  obtain ⟨head, hv, hst, hprefix, hw⟩ := h
  refine ⟨head, hv, hst, ?_, fun q job rest hq => hw q job rest (writers q job rest hq)⟩
  rw [content]
  exact hprefix

theorem keeps_goto (s : Chain) (p r : ℕ) (phase : Phase) : Keeps site r s (s.goto p phase) where
  unused := le_rfl
  lock _ _ h := h
  stored _ _ h _ := h
  written _ _ _ _ _ _ := rfl
  names _ _ _ _ := ⟨rfl, rfl⟩
  history _ _ _ := rfl

theorem PhaseOk.goto {phase' : Phase} (h : s.PhaseOk site q phase') :
    (s.goto p phase).PhaseOk site q phase' :=
  (keeps_goto s p (q + 1) phase).phaseOk (Nat.lt_succ_self q).ne (fun _ _ _ _ => rfl) h

theorem Inv.goto (inv : s.Inv site) (hr : Resting phase) (ok : s.PhaseOk site p phase) :
    (s.goto p phase).Inv site where
  fresh := inv.fresh
  files part st i h := (inv.files part st i h).mono rfl fun _ _ _ => writing_resting hr
  tmps part st suf i h := (inv.tmps part st suf i h).mono rfl fun _ _ _ => writing_resting hr
  pointerTmps id i h q job rest hq := inv.pointerTmps id i h q job rest (writing_resting hr hq)
  writers q q' i job job' rest rest' h h' :=
    inv.writers q q' i job job' rest rest' (writing_resting hr h) (writing_resting hr h')
  phases q := by
    by_cases hq : q = p
    · subst hq
      rw [goto_self]
      exact ok.goto
    · rw [goto_other hq]
      exact (inv.phases q).goto
  pointer i h := by
    obtain ⟨head, hlast, hv, hs, hc, hw⟩ := inv.pointer i h
    exact ⟨head, hlast, hv, hs, hc, fun q job rest hq => hw q job rest (writing_resting hr hq)⟩
  unnamed := inv.unnamed
  chain := inv.chain

theorem Inv.idle (inv : s.Inv site) (p : ℕ) : (s.goto p .idle).Inv site :=
  inv.goto (fun _ _ _ => nofun) trivial

theorem goto_goto (s : Chain) (p : ℕ) (phase phase' : Phase) :
    (s.goto p phase).goto p phase' = s.goto p phase' := by
  unfold Chain.goto
  simp only [Function.update_idem]

end

/-! ## The file operations -/

section
variable {p : ℕ}

theorem read_eq_some {n : Name} {b : Bytes} :
    s.read n = some b ↔ ∃ i, s.names n = some i ∧ s.content i = b :=
  Option.map_eq_some_iff

theorem read_congr {s' : Chain} {n : Name} (names : s'.names n = s.names n)
    (content : ∀ i, s.names n = some i → s'.content i = s.content i) : s'.read n = s.read n := by
  unfold Chain.read
  rw [names]
  cases h : s.names n with
  | none => rfl
  | some i => exact congrArg some (content i h)

theorem unlink_self (s : Chain) (n : Name) : (s.unlink n).names n = none :=
  Function.update_self ..

theorem unlink_other {n m : Name} (h : m ≠ n) : (s.unlink n).names m = s.names m :=
  Function.update_of_ne h ..

theorem unlink_some {n m : Name} {i : ℕ} (h : (s.unlink n).names m = some i) :
    m ≠ n ∧ s.names m = some i := by
  by_cases hm : m = n
  · subst hm
    rw [unlink_self] at h
    cases h
  · rw [unlink_other hm] at h
    exact ⟨hm, h⟩

theorem read_unlink {n m : Name} (h : m ≠ n) : (s.unlink n).read m = s.read m :=
  read_congr (unlink_other h) fun _ _ => rfl

/-- Names of other files than the pointer and the published ones may go, the pointer's temporary
file when its call is the one that holds the lock. -/
theorem Inv.unlink (inv : s.Inv site) {n : Name} (idle : s.phase p = .idle)
    (file : ∀ part st, n ≠ .file part st) (required : n ≠ .required)
    (held : ∀ id, n = .requiredTmp id → s.lock = some p) : (s.unlink n).Inv site := by
  have keeps : Keeps site p s (s.unlink n) := by
    refine ⟨le_rfl, fun _ _ h => h, fun h part hr _ => ?_, fun _ _ _ _ _ _ => rfl, ?_,
      fun _ _ _ => rfl⟩
    · rw [read_unlink (file part (stem h)).symm]
      exact hr
    · intro q hq hlock id
      have hne : Name.requiredTmp id ≠ n := by
        rintro rfl
        rw [held id rfl, Option.some.injEq] at hlock
        exact hq hlock.symm
      exact ⟨unlink_other hne, read_unlink hne⟩
  exact {
    fresh := fun m i h => inv.fresh m i (unlink_some h).2
    files := fun part st i h => inv.files part st i (unlink_some h).2
    tmps := fun part st suf i h => inv.tmps part st suf i (unlink_some h).2
    pointerTmps := fun id i h => inv.pointerTmps id i (unlink_some h).2
    writers := inv.writers
    phases := keeps.phases idle rfl inv.phases
    pointer := fun i h => by
      obtain ⟨head, hlast, hv, hs, hc, hw⟩ := inv.pointer i (unlink_some h).2
      exact ⟨head, hlast, hv, keeps.stored_all hv hs, hc, hw⟩
    unnamed := fun h => by
      rw [unlink_other required.symm] at h
      exact inv.unnamed h
    chain := inv.chain }

theorem rename_names {n m t : Name} {i : ℕ} :
    (s.rename n t i).names m = if m = n then none else if m = t then some i else s.names m := by
  unfold Chain.rename
  dsimp only
  by_cases hn : m = n
  · rw [if_pos hn, hn, Function.update_self]
  rw [if_neg hn, Function.update_of_ne hn]
  by_cases ht : m = t
  · rw [if_pos ht, ht, Function.update_self]
  · rw [if_neg ht, Function.update_of_ne ht]

theorem Inv.publish (inv : s.Inv site) {part : Part} {st suf : String} {i : ℕ}
    (idle : s.phase p = .idle) (hi : s.names (.tmp part st suf) = some i)
    (free : s.names (.file part st) = none) :
    (s.rename (.tmp part st suf) (.file part st) i).Inv site := by
  -- what has a name after the step had one before
  have names : ∀ m j, (s.rename (.tmp part st suf) (.file part st) i).names m = some j →
      m = .file part st ∧ j = i ∨ m ≠ .file part st ∧ s.names m = some j := by
    intro m j h
    rw [rename_names] at h
    split_ifs at h with h1 h2
    · exact .inl ⟨h2, (Option.some.inj h).symm⟩
    · exact .inr ⟨h2, h⟩
  have other : ∀ m, m ≠ .tmp part st suf → m ≠ .file part st →
      (s.rename (.tmp part st suf) (.file part st) i).names m = s.names m := by
    intro m h1 h2
    rw [rename_names, if_neg h1, if_neg h2]
  have keeps : Keeps site p s (s.rename (.tmp part st suf) (.file part st) i) := by
    refine ⟨le_rfl, fun _ _ h => h, fun h part' hr _ => ?_, fun _ _ _ _ _ _ => rfl, ?_,
      fun _ _ _ => rfl⟩
    · have hother : Name.file part' (stem h) ≠ .file part st := by
        intro heq
        rw [Chain.read, heq, free] at hr
        cases hr
      rw [read_congr (other (.file part' (stem h)) nofun hother) fun _ _ => rfl]
      exact hr
    · intro q _ _ id
      exact ⟨other (.requiredTmp id) nofun nofun,
        read_congr (other (.requiredTmp id) nofun nofun) fun _ _ => rfl⟩
  exact {
    fresh := fun m j h => by
      rcases names m j h with ⟨-, rfl⟩ | ⟨-, h⟩
      · exact inv.fresh _ _ hi
      · exact inv.fresh _ _ h
    files := fun part' st' j h => by
      rcases names _ _ h with ⟨heq, rfl⟩ | ⟨-, h⟩
      · injection heq with h1 h2
        subst h1 h2
        exact inv.tmps _ _ _ _ hi
      · exact inv.files _ _ _ h
    tmps := fun part' st' suf' j h => by
      rcases names _ _ h with ⟨heq, -⟩ | ⟨-, h⟩
      · cases heq
      · exact inv.tmps _ _ _ _ h
    pointerTmps := fun id j h => by
      rcases names _ _ h with ⟨heq, -⟩ | ⟨-, h⟩
      · cases heq
      · exact inv.pointerTmps _ _ h
    writers := inv.writers
    phases := keeps.phases idle rfl inv.phases
    pointer := fun j h => by
      rcases names _ _ h with ⟨heq, -⟩ | ⟨-, h⟩
      · cases heq
      · obtain ⟨head, hlast, hv, hs, hc, hw⟩ := inv.pointer j h
        exact ⟨head, hlast, hv, keeps.stored_all hv hs, hc, hw⟩
    unnamed := fun h => by
      rw [other .required nofun nofun] at h
      exact inv.unnamed h
    chain := inv.chain }

theorem Inv.point (inv : s.Inv site) {h : Head} (current : Option Bytes) {i : ℕ}
    (idle : s.phase p = .idle) (lock : s.lock = some p) (hv : Verified site h) (hs : s.Stored h)
    (hi : s.names (.requiredTmp h.headId) = some i) (hc : s.content i = frame h)
    (chain : Chained (s.history ++ [h])) :
    ((s.rename (.requiredTmp h.headId) .required i).note (.pointer h current)).Inv site := by
  have names : ∀ m j, (s.rename (.requiredTmp h.headId) .required i).names m = some j →
      m = .required ∧ j = i ∨ m ≠ .required ∧ s.names m = some j := by
    intro m j h
    rw [rename_names] at h
    split_ifs at h with h1 h2
    · exact .inl ⟨h2, (Option.some.inj h).symm⟩
    · exact .inr ⟨h2, h⟩
  have there : (s.rename (.requiredTmp h.headId) .required i).names .required = some i := by
    rw [rename_names, if_neg (by nofun), if_pos rfl]
  have file : ∀ part st, (s.rename (.requiredTmp h.headId) .required i).names (.file part st) =
      s.names (.file part st) := by
    intro part st
    rw [rename_names, if_neg (by nofun), if_neg (by nofun)]
  have held : ∀ q, q ≠ p → s.lock ≠ some q := by
    intro q hq hlock
    rw [lock, Option.some.injEq] at hlock
    exact hq hlock.symm
  have keeps : Keeps site p s
      ((s.rename (.requiredTmp h.headId) .required i).note (.pointer h current)) := by
    refine ⟨le_rfl, fun _ _ h => h, fun h part hr _ => ?_, fun _ _ _ _ _ _ => rfl,
      fun q hq hlock => absurd hlock (held q hq), fun q hq hlock => absurd hlock (held q hq)⟩
    exact (read_congr (file part (stem h)) fun _ _ => rfl).trans hr
  exact {
    fresh := fun m j h => by
      rcases names m j h with ⟨-, rfl⟩ | ⟨-, h⟩
      · exact inv.fresh _ _ hi
      · exact inv.fresh _ _ h
    files := fun part st j h => by
      rcases names (.file part st) j h with ⟨heq, -⟩ | ⟨-, h⟩
      · cases heq
      · exact inv.files _ _ _ h
    tmps := fun part st suf j h => by
      rcases names (.tmp part st suf) j h with ⟨heq, -⟩ | ⟨-, h⟩
      · cases heq
      · exact inv.tmps _ _ _ _ h
    pointerTmps := fun id j h => by
      rcases names (.requiredTmp id) j h with ⟨heq, -⟩ | ⟨-, h⟩
      · cases heq
      · exact inv.pointerTmps _ _ h
    writers := inv.writers
    phases := keeps.phases idle rfl inv.phases
    pointer := fun j h' => by
      rcases names .required j h' with ⟨-, rfl⟩ | ⟨hne, -⟩
      · refine ⟨h, List.getLast?_concat .., hv, keeps.stored_all hv hs, hc, ?_⟩
        -- who writes the pointer's temporary file holds the lock
        intro q job rest hq
        replace hq : s.phase q = .writing job j rest := hq
        obtain ⟨h', c, rfl⟩ := inv.pointerTmps _ _ hi q job rest hq
        have hok := inv.phases q
        rw [hq] at hok
        by_cases hqp : q = p
        · rw [hqp] at hq
          rw [hq] at idle
          cases idle
        · exact held q hqp hok.1.lock
      · exact absurd rfl hne
    unnamed := fun h' => by
      have hnone : (s.rename (.requiredTmp h.headId) .required i).names .required = none := h'
      rw [there] at hnone
      cases hnone
    chain := chain }

theorem Inv.acquire (inv : s.Inv site) (idle : s.phase p = .idle) (free : s.lock = none) :
    Inv site { s with lock := some p } where
  fresh := inv.fresh
  files part st i h := (inv.files part st i h).mono rfl fun _ _ _ hq => hq
  tmps part st suf i h := (inv.tmps part st suf i h).mono rfl fun _ _ _ hq => hq
  pointerTmps := inv.pointerTmps
  writers := inv.writers
  phases := by
    have keeps : Keeps site p s { s with lock := some p } := by
      refine ⟨le_rfl, fun q _ h => ?_, fun _ _ h _ => h, fun _ _ _ _ _ _ => rfl,
        fun _ _ _ _ => ⟨rfl, rfl⟩, fun _ _ _ => rfl⟩
      rw [free] at h
      cases h
    exact keeps.phases idle rfl inv.phases
  pointer := inv.pointer
  unnamed := inv.unnamed
  chain := inv.chain

theorem Inv.release (inv : s.Inv site) (idle : s.phase p = .idle) (held : s.lock = some p) :
    Inv site { s with lock := none } where
  fresh := inv.fresh
  files part st i h := (inv.files part st i h).mono rfl fun _ _ _ hq => hq
  tmps part st suf i h := (inv.tmps part st suf i h).mono rfl fun _ _ _ hq => hq
  pointerTmps := inv.pointerTmps
  writers := inv.writers
  phases := by
    have keeps : Keeps site p s { s with lock := none } := by
      refine ⟨le_rfl, fun q hq h => ?_, fun _ _ h _ => h, fun _ _ _ _ _ _ => rfl,
        fun _ _ _ _ => ⟨rfl, rfl⟩, fun _ _ _ => rfl⟩
      rw [held, Option.some.injEq] at h
      exact absurd h.symm hq
    exact keeps.phases idle rfl inv.phases
  pointer := inv.pointer
  unnamed := inv.unnamed
  chain := inv.chain

/-! ## Writing a file -/

@[simp] theorem create_names (s : Chain) (n : Name) : (s.create n).names n = some s.unused :=
  Function.update_self ..

theorem create_other {n m : Name} (h : m ≠ n) : (s.create n).names m = s.names m :=
  Function.update_of_ne h ..

theorem create_some {n m : Name} {i : ℕ} (h : (s.create n).names m = some i) :
    m = n ∧ i = s.unused ∨ m ≠ n ∧ s.names m = some i := by
  by_cases hm : m = n
  · subst hm
    rw [create_names, Option.some.injEq] at h
    exact .inl ⟨rfl, h.symm⟩
  · exact .inr ⟨hm, (create_other hm).symm.trans h⟩

theorem create_content {n : Name} {i : ℕ} (h : i < s.unused) :
    (s.create n).content i = s.content i := Function.update_of_ne h.ne ..

theorem Inv.read_create (inv : s.Inv site) {n m : Name} (h : m ≠ n) :
    (s.create n).read m = s.read m :=
  read_congr (create_other h) fun i hi => create_content (inv.fresh m i hi)

theorem Inv.writing_lt (inv : s.Inv site) {q : ℕ} {job : Job} {i : ℕ} {rest : Bytes}
    (h : s.phase q = .writing job i rest) : i < s.unused := by
  have hok := inv.phases q
  rw [h] at hok
  exact hok.2.1

theorem JobOk.held {h : Head} {current : Option Bytes} (ok : s.JobOk site p (.pointer h current)) :
    s.lock = some p := ok.lock

theorem Inv.start (inv : s.Inv site) {job : Job} (ok : s.JobOk site p job)
    (free : s.names (job.tmp site) = none) (idle : s.phase p = .idle) :
    ((s.create (job.tmp site)).goto p (.writing job s.unused job.bytes)).Inv site := by
  have required : (job.tmp site) ≠ .required := by cases job <;> nofun
  have file : ∀ part st, (job.tmp site) ≠ .file part st := by cases job <;> nofun
  have keeps : Keeps site p s (s.create (job.tmp site)) := by
    refine ⟨Nat.le_succ _, fun _ _ h => h, fun h part hr _ => ?_, fun q job' i rest _ hq => ?_, ?_,
      fun _ _ _ => rfl⟩
    · rw [inv.read_create (file part (stem h)).symm]
      exact hr
    · exact create_content (inv.writing_lt hq)
    · intro q hq hlock id
      have hne : Name.requiredTmp id ≠ job.tmp site := by
        intro heq
        cases job with
        | pair => cases heq
        | pointer h c =>
          rw [ok.held, Option.some.injEq] at hlock
          exact hq hlock.symm
      exact ⟨create_other hne, inv.read_create hne⟩
  have jobOk : (s.create (job.tmp site)).JobOk site p job := by
    cases job with
    | pair => exact ok
    | pointer h c =>
      exact ⟨ok.verified, ok.lock, keeps.stored_all ok.verified ok.stored, ok.admitted⟩
  -- what had a name before has no new writer, and the bytes it had
  have holds : ∀ {part st i}, i < s.unused → s.Holds site part st i →
      ((s.create (job.tmp site)).goto p (.writing job s.unused job.bytes)).Holds site part st i := by
    intro part st i hlt h
    have same : (s.create (job.tmp site)).content i = s.content i := create_content hlt
    refine h.mono same fun q job' rest hq => ?_
    rcases writing_goto hq with ⟨-, heq⟩ | ⟨-, hq⟩
    · injection heq with _ hi
      exact absurd hi.symm hlt.ne
    · exact hq
  exact {
    fresh := fun m i h => by
      rcases create_some h with ⟨-, rfl⟩ | ⟨-, h⟩
      · exact Nat.lt_succ_self _
      · exact Nat.lt_succ_of_lt (inv.fresh m i h)
    files := fun part st i h => by
      rcases create_some h with ⟨heq, -⟩ | ⟨-, h⟩
      · exact absurd heq.symm (file part st)
      · exact holds (inv.fresh _ _ h) (inv.files part st i h)
    tmps := fun part st suf i h => by
      rcases create_some h with ⟨heq, rfl⟩ | ⟨-, h⟩
      · cases job with
        | pointer => cases heq
        | pair head part' =>
          injection heq with h1 h2
          subst h1 h2
          refine ⟨head, ok, rfl, ?_, fun q job' rest hq => ?_⟩
          · show (Function.update s.content s.unused []) s.unused <+: _
            rw [Function.update_self]
            exact List.nil_prefix
          · rcases writing_goto hq with ⟨-, heq⟩ | ⟨-, hq⟩
            · injection heq with heq
              rw [← heq]
              rfl
            · exact absurd (inv.writing_lt hq) (lt_irrefl _)
      · exact holds (inv.fresh _ _ h) (inv.tmps part st suf i h)
    pointerTmps := fun id i h q job' rest hq => by
      rcases create_some h with ⟨heq, rfl⟩ | ⟨-, h⟩
      · rcases writing_goto hq with ⟨-, heq'⟩ | ⟨-, hq⟩
        · injection heq' with hjob
          subst hjob
          cases job with
          | pair => cases heq
          | pointer head c => exact ⟨head, c, rfl⟩
        · exact absurd (inv.writing_lt hq) (lt_irrefl _)
      · rcases writing_goto hq with ⟨-, heq'⟩ | ⟨-, hq⟩
        · injection heq' with _ hi
          exact absurd hi.symm (inv.fresh _ _ h).ne
        · exact inv.pointerTmps id i h q job' rest hq
    writers := fun q q' i job' job'' rest rest' h h' => by
      rcases writing_goto h with ⟨hq, heq⟩ | ⟨-, hw⟩ <;>
        rcases writing_goto h' with ⟨hq', heq'⟩ | ⟨-, hw'⟩
      · exact hq.trans hq'.symm
      · injection heq with _ hi
        exact absurd hi (inv.writing_lt hw').ne'
      · injection heq' with _ hi
        exact absurd hi (inv.writing_lt hw).ne'
      · exact inv.writers q q' i job' job'' rest rest' hw hw'
    phases := fun q => by
      by_cases hq : q = p
      · subst hq
        rw [goto_self]
        refine PhaseOk.goto ⟨jobOk, Nat.lt_succ_self _, ?_, fun h c heq => ?_⟩
        · show (Function.update s.content s.unused []) s.unused ++ _ = _
          rw [Function.update_self]
          rfl
        · subst heq
          exact create_names s _
      · rw [goto_other hq]
        exact (keeps.phases idle rfl inv.phases q).goto
    pointer := fun i h => by
      rcases create_some h with ⟨heq, -⟩ | ⟨-, h⟩
      · exact absurd heq.symm required
      · obtain ⟨head, hlast, hv, hs, hc, hw⟩ := inv.pointer i h
        refine ⟨head, hlast, hv, keeps.stored_all hv hs, ?_, fun q job' rest hq => ?_⟩
        · have same : (s.create (job.tmp site)).content i = s.content i :=
            create_content (inv.fresh _ _ h)
          exact same.trans hc
        · rcases writing_goto hq with ⟨-, heq⟩ | ⟨-, hq⟩
          · injection heq with _ hi
            exact absurd hi.symm (inv.fresh _ _ h).ne
          · exact hw q job' rest hq
    unnamed := fun h => by
      exact inv.unnamed ((create_other required.symm).symm.trans h)
    chain := inv.chain }

/-- The file, with more bytes at its end. -/
def wrote (s : Chain) (i : ℕ) (bytes : Bytes) : Chain :=
  { s with content := Function.update s.content i (s.content i ++ bytes) }

theorem wrote_other {i j : ℕ} {bytes : Bytes} (h : j ≠ i) : (s.wrote i bytes).content j = s.content j :=
  Function.update_of_ne h ..

@[simp] theorem wrote_self (s : Chain) (i : ℕ) (bytes : Bytes) :
    (s.wrote i bytes).content i = s.content i ++ bytes := Function.update_self ..

theorem bytes_eq_of_isPrefix {h h' : Head} {part : Part} (hv : Verified site h)
    (hv' : Verified site h') (hp : h.bytes part <+: h'.bytes part) : h.bytes part = h'.bytes part := by
  cases part with
  | payload => exact (verified_closed hv).eq_of_isPrefix (verified_closed hv') hp
  | signature =>
    have hlen := (verify_ok hv).2.2.2.1
    have hlen' := (verify_ok hv').2.2.2.1
    exact hp.eq_of_length (hlen.trans hlen'.symm)

theorem Inv.complete (inv : s.Inv site) {job : Job} {i : ℕ} {rest : Bytes}
    (hphase : s.phase p = .writing job i rest) {part : Part} {h : Head} (hv : Verified site h)
    (hi : s.names (.file part (stem h)) = some i) (hc : s.content i = h.bytes part) : rest = [] := by
  obtain ⟨h', hv', -, hprefix, hw⟩ := inv.files part _ i hi
  have hok := inv.phases p
  rw [hphase] at hok
  have hbytes : h.bytes part ++ rest = h'.bytes part := by
    rw [← hc, hok.2.2.1]
    exact hw p job rest hphase
  rw [hc] at hprefix
  rw [bytes_eq_of_isPrefix hv hv' hprefix] at hbytes
  simpa using hbytes

theorem Inv.write (inv : s.Inv site) {job : Job} {i : ℕ} {rest : Bytes}
    (hphase : s.phase p = .writing job i rest) (n : ℕ) :
    ((s.wrote i (rest.take n)).goto p (.writing job i (rest.drop n))).Inv site := by
  have hok := inv.phases p
  rw [hphase] at hok
  obtain ⟨hjob, hlt, hcontent, hname⟩ := hok
  have keeps : Keeps site p s (s.wrote i (rest.take n)) := by
    refine ⟨le_rfl, fun _ _ h => h, fun h part hr hv => ?_, fun q job' j rest' hq hw => ?_, ?_,
      fun _ _ _ => rfl⟩
    · obtain ⟨j, hj, hc⟩ := read_eq_some.mp hr
      refine read_eq_some.mpr ⟨j, hj, ?_⟩
      by_cases hji : j = i
      · subst hji
        rw [wrote_self, inv.complete hphase hv hj hc, List.take_nil, List.append_nil]
        exact hc
      · rw [wrote_other hji]
        exact hc
    · refine wrote_other fun hji => hq ?_
      rw [hji] at hw
      exact inv.writers q p i job' job rest' rest hw hphase
    · intro q hq hlock id
      refine ⟨rfl, read_congr rfl fun j hj => wrote_other fun hji => hq ?_⟩
      -- the other call holds the lock, so no other one writes its temporary file
      subst hji
      obtain ⟨h, c, rfl⟩ := inv.pointerTmps id j hj p job rest hphase
      rw [hjob.held, Option.some.injEq] at hlock
      exact hlock.symm
  have jobOk : (s.wrote i (rest.take n)).JobOk site p job := by
    cases job with
    | pair => exact hjob
    | pointer h c =>
      exact ⟨hjob.verified, hjob.lock, keeps.stored_all hjob.verified hjob.stored, hjob.admitted⟩
  have writing : ∀ q job' j rest',
      ((s.wrote i (rest.take n)).goto p (.writing job i (rest.drop n))).phase q =
        .writing job' j rest' → ∃ rest'', s.phase q = .writing job' j rest'' := by
    intro q job' j rest' hq
    rcases writing_goto hq with ⟨rfl, heq⟩ | ⟨-, hq⟩
    · injection heq with h1 h2
      subst h1 h2
      exact ⟨rest, hphase⟩
    · exact ⟨rest', hq⟩
  have holds : ∀ {part st j}, s.Holds site part st j →
      ((s.wrote i (rest.take n)).goto p (.writing job i (rest.drop n))).Holds site part st j := by
    intro part st j h
    obtain ⟨head, hv, hst, hprefix, hw⟩ := h
    refine ⟨head, hv, hst, ?_, fun q job' rest' hq => ?_⟩
    · show (s.wrote i (rest.take n)).content j <+: _
      by_cases hji : j = i
      · subst hji
        rw [wrote_self, ← hw p job rest hphase, ← hcontent]
        exact (List.prefix_append_right_inj _).mpr (List.take_prefix n rest)
      · rw [wrote_other hji]
        exact hprefix
    · obtain ⟨rest'', hq⟩ := writing q job' j rest' hq
      exact hw q job' rest'' hq
  exact {
    fresh := inv.fresh
    files := fun part st j h => holds (inv.files part st j h)
    tmps := fun part st suf j h => holds (inv.tmps part st suf j h)
    pointerTmps := fun id j h q job' rest' hq => by
      obtain ⟨rest'', hq⟩ := writing q job' j rest' hq
      exact inv.pointerTmps id j h q job' rest'' hq
    writers := fun q q' j job' job'' rest' rest'' h h' => by
      obtain ⟨r, h⟩ := writing q job' j rest' h
      obtain ⟨r', h'⟩ := writing q' job'' j rest'' h'
      exact inv.writers q q' j job' job'' r r' h h'
    phases := fun q => by
      by_cases hq : q = p
      · subst hq
        rw [goto_self]
        refine PhaseOk.goto ⟨jobOk, hlt, ?_, hname⟩
        rw [wrote_self, List.append_assoc, List.take_append_drop]
        exact hcontent
      · rw [goto_other hq]
        refine PhaseOk.goto (keeps.phaseOk hq (fun job' j rest' hw => ?_) (inv.phases q))
        exact keeps.written q job' j rest' hq hw
    pointer := fun j h => by
      obtain ⟨head, hlast, hv, hs, hc, hw⟩ := inv.pointer j h
      have hji : j ≠ i := by
        rintro rfl
        exact hw p job rest hphase
      refine ⟨head, hlast, hv, keeps.stored_all hv hs, (wrote_other hji).trans hc, ?_⟩
      intro q job' rest' hq
      obtain ⟨rest'', hq⟩ := writing q job' j rest' hq
      exact hw q job' rest'' hq
    unnamed := inv.unnamed
    chain := inv.chain }

end

end Chain

end Metnos.Ownership
