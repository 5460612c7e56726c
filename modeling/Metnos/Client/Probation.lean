import Metnos.Client.SelfUpdate

/-!
# Client.Probation — a way back at every boot

What an update leaves behind is safe in every run that keeps off three windows: the process does
not end (and the marker is written) between the rename that installs an unconfirmed binary and
its probation, it does not end between the reset of the marker and the rename that takes a failed
binary away, and an update starts from a confirmed executable only.  The last section runs into
each of them.
-/

namespace Metnos.Client.SelfUpdate

variable {follows : Bool} {s s' : Device} {b : Binary}

/-! ## Safe states -/

def Device.InPlace (s : Device) : Prop := ∃ b ∈ s.confirmed, s.files .exe = some b

/-- `.old` holds a confirmed binary. -/
def Device.Kept (s : Device) : Prop := ∃ b ∈ s.confirmed, s.files .old = some b

/-- The executable is `b`, on a trial with a way back. -/
def Device.OnTrial (s : Device) (b : Binary) : Prop :=
  s.files .exe = some b ∧ s.load.phase = .probation ∧ s.load.targetVersion = b.version ∧ s.Kept

/-- The executable is confirmed, or on a trial with a way back, or missing and can be restored. -/
def Device.Safe (s : Device) : Prop :=
  s.InPlace ∨ (∃ b, s.OnTrial b) ∨ s.files .exe = none ∧ s.Kept

/-! ## Runs that keep off the windows -/

def Device.isConfirmed (s : Device) (b : Binary) : Bool := s.confirmed.contains b

/-- The process stands between a change of the executable and of its marker. -/
def Device.exposed (s : Device) (p : Process) : Bool :=
  match p.stage with
  | .marking b _ => !s.isConfirmed b
  | .parking | .shelving =>
    decide (s.load.phase = .none) && (s.files .exe).any (fun b => !s.isConfirmed b)
  | _ => false

/-- The step does not leave an unconfirmed executable without a way back. -/
def Steady (follows : Bool) (s : Device) : Action → Bool
  | .crash => s.process.all (fun p => !s.exposed p)
  | .next ok =>
    match s.process.map Process.stage with
    | some (.marking b _) => ok || s.isConfirmed b
    | some .shelving => ok || (s.files .exe).all s.isConfirmed
    | some .confirming => (s.files .exe).isSome || decide (s.load.phase = .none)
    | _ => true
  | .poll published =>
    s.process.all (fun p => (s.maybeUpdate follows p published).isNone ||
      decide (p.image = some .exe) && (s.files .exe).any s.isConfirmed)
  | _ => true

/-! ## The invariant -/

/-- The executable is missing and can be restored. -/
def Device.Missing (s : Device) : Prop := s.files .exe = none ∧ s.Kept

/-- What holds of the files while `r` runs and stands at a stage. -/
def Device.Fits (s : Device) (r : Binary) : Stage → Prop
  | .starting | .loading => s.InPlace ∨ s.OnTrial r
  | .persisting st action =>
    (s.InPlace ∨ s.OnTrial r) ∧ s.load.phase = .probation ∧ decideBoot s.load = (st, action)
  | .parking | .shelving => s.Kept ∧ (s.Safe ∨ s.load.phase = .none)
  | .restoring => s.Missing
  | .forgetting => s.InPlace ∨ s.Missing
  | .polling _ | .confirming => s.InPlace ∨ s.OnTrial r ∨ s.Missing
  | .writing path _ _ => path = .exe ∧ s.InPlace
  | .clearing path b _ | .retiring path b _ => path = .exe ∧ s.InPlace ∧ s.files .new = some b
  | .installing path b _ => path = .exe ∧ s.Missing ∧ s.files .new = some b
  | .undoing path _ => path = .exe ∧ s.Missing
  | .marking b _ => s.files .exe = some b ∧ s.Kept
  | .sweepingOld | .sweepingFailed => s.InPlace

/-- The files fit the stage, and during a probation `.old` holds nothing unconfirmed. -/
structure Device.Sound (s : Device) : Prop where
  old : s.load.phase = .probation → ∀ b, s.files .old = some b → b ∈ s.confirmed
  down : s.process = none → s.Safe
  stage : ∀ p, s.process = some p → s.Fits p.running p.stage

/-! ### File operations -/

/-- A step of the running process that keeps what is confirmed. -/
structure Device.Runs (s s' : Device) : Prop where
  running : s'.process.map Process.running = s.process.map Process.running
  confirmed : s'.confirmed = s.confirmed

theorem Device.remove_runs (l : Location) (ok : Bool) :
    s.Runs (s.remove l ok) ∧ (s.remove l ok).marker = s.marker := by
  unfold remove
  split
  · refine ⟨⟨?_, rfl⟩, rfl⟩
    simp [moveImage, Function.comp_def]
  · exact ⟨⟨rfl, rfl⟩, rfl⟩

theorem Device.remove_files (l i : Location) (ok : Bool) :
    (s.remove l ok).files i = s.files i ∨ i = l ∧ (s.remove l ok).files i = none := by
  unfold remove
  split
  · by_cases h : i = l
    · subst h
      exact .inr ⟨rfl, by simp [moveImage]⟩
    · exact .inl (by simp [moveImage, Function.update_of_ne h])
  · exact .inl rfl

theorem Device.remove_files_ne {l i : Location} {ok : Bool} (h : i ≠ l) :
    (s.remove l ok).files i = s.files i := by
  obtain same | ⟨heq, -⟩ := s.remove_files l i ok
  · exact same
  · exact absurd heq h

/-- A rename that succeeds. -/
structure Device.Renamed (source target : Location) (s s' : Device) (b : Binary) : Prop where
  runs : s.Runs s'
  marker : s'.marker = s.marker
  found : s.files source = some b
  files : s'.files = Function.update (Function.update s.files source none) target (some b)

theorem Device.rename_some {source target : Location} {ok : Bool}
    (h : s.rename source target ok = some s') : ∃ b, Renamed source target s s' b := by
  unfold rename at h
  split at h
  · rename_i b hb
    cases h
    refine ⟨b, ⟨?_, rfl⟩, rfl, hb, rfl⟩
    simp [moveImage, Function.comp_def]
  · cases h

theorem Device.rename_none {source target : Location} {ok : Bool}
    (h : s.rename source target ok = none) : s.files source = none ∨ ok = false := by
  unfold rename at h
  split at h
  · cases h
  · rename_i hno
    by_contra hor
    push Not at hor
    obtain ⟨b, hb⟩ := Option.ne_none_iff_exists'.mp hor.1
    exact hno b hb (by simpa using hor.2)

theorem Device.Renamed.target_eq {source target : Location}
    (h : Renamed source target s s' b) : s'.files target = some b := by
  rw [h.files, Function.update_self]

theorem Device.Renamed.source_none {source target : Location}
    (h : Renamed source target s s' b) (ne : source ≠ target) : s'.files source = none := by
  rw [h.files, Function.update_of_ne ne, Function.update_self]

theorem Device.Renamed.other {source target i : Location}
    (h : Renamed source target s s' b) (hs : i ≠ source) (ht : i ≠ target) :
    s'.files i = s.files i := by
  rw [h.files, Function.update_of_ne ht, Function.update_of_ne hs]

theorem Device.load_congr (h : s'.marker = s.marker) : s'.load = s.load := by
  unfold load
  rw [h]

/-! ### Facts that carry over -/

theorem Device.InPlace.mono (h : s.InPlace) (confirmed : s.confirmed ⊆ s'.confirmed)
    (exe : s'.files .exe = s.files .exe) : s'.InPlace := by
  obtain ⟨b, hb, hexe⟩ := h
  exact ⟨b, confirmed hb, exe.trans hexe⟩

theorem Device.Kept.mono (h : s.Kept) (confirmed : s.confirmed ⊆ s'.confirmed)
    (old : s'.files .old = s.files .old) : s'.Kept := by
  obtain ⟨b, hb, hold⟩ := h
  exact ⟨b, confirmed hb, old.trans hold⟩

theorem Device.Runs.subset (h : s.Runs s') : s.confirmed ⊆ s'.confirmed := by
  rw [h.confirmed]
  exact List.Subset.refl _

theorem Device.Renamed.kept (h : Renamed .exe .old s s' b) (inPlace : s.InPlace) : s'.Missing := by
  obtain ⟨b', hb', hexe⟩ := inPlace
  rw [h.found, Option.some.injEq] at hexe
  subst hexe
  exact ⟨h.source_none (by decide), b, by rw [h.runs.confirmed]; exact hb', h.target_eq⟩

theorem Device.Renamed.inPlace (h : Renamed .old .exe s s' b) (kept : s.Kept) : s'.InPlace := by
  obtain ⟨b', hb', hold⟩ := kept
  rw [h.found, Option.some.injEq] at hold
  subst hold
  exact ⟨b, by rw [h.runs.confirmed]; exact hb', h.target_eq⟩

theorem Device.fits_goto {r : Binary} {stage stage' : Stage} :
    (s.goto stage').Fits r stage ↔ s.Fits r stage := by
  cases stage <;> exact Iff.rfl

theorem Device.Kept.old (kept : s.Kept) : ∀ b, s.files .old = some b → b ∈ s.confirmed := by
  intro b hb
  obtain ⟨b', hb', hold⟩ := kept
  rw [hb, Option.some.injEq] at hold
  exact hold ▸ hb'

/-- `r` runs, and during a probation `.old` holds nothing unconfirmed. -/
structure Device.Held (s : Device) (r : Binary) : Prop where
  old : s.load.phase = .probation → ∀ b, s.files .old = some b → b ∈ s.confirmed
  running : s.process.map Process.running = some r

namespace Device.Held

variable {r : Binary} {stage : Stage} {ok : Bool}

theorem goto (held : s.Held r) (fits : s.Fits r stage) : (s.goto stage).Sound := by
  obtain ⟨p, hp, rfl⟩ := Option.map_eq_some_iff.mp held.running
  refine ⟨held.old, fun none => ?_, fun p' hp' => ?_⟩
  · simp [Device.goto, hp] at none
  · simp only [Device.goto, hp, Option.map_some, Option.some.injEq] at hp'
    subst hp'
    exact fits_goto.mpr fits

theorem exit (held : s.Held r) (safe : s.Safe) : s.exit.Sound :=
  ⟨held.old, fun _ => safe, fun p hp => (by cases hp)⟩

theorem polled {confirmed : Bool} (held : s.Held r)
    (fits : s.InPlace ∨ s.OnTrial r ∨ s.Missing) : (s.polled confirmed).Sound := by
  unfold Device.polled
  split
  · exact held.goto fits
  · exact held.goto fits

theorem save {st : UpdateState} (held : s.Held r)
    (stable : st.phase = .probation → s.load.phase = .probation) : (s.save st ok).Held r := by
  cases ok with
  | false => exact held
  | true => exact ⟨fun phase => held.old (stable phase), held.running⟩

theorem remove {l : Location} (held : s.Held r) : (s.remove l ok).Held r := by
  obtain ⟨runs, marker⟩ := s.remove_runs l ok
  refine ⟨fun phase b hb => ?_, runs.running.trans held.running⟩
  rw [runs.confirmed]
  rw [load_congr marker] at phase
  obtain same | ⟨-, none⟩ := s.remove_files l .old ok
  · exact held.old phase b (same ▸ hb)
  · rw [none] at hb
    cases hb

theorem rename {source target : Location} (held : s.Held r)
    (renamed : Renamed source target s s' b)
    (old : s.load.phase = .probation → ∀ b, s'.files .old = some b → b ∈ s'.confirmed) :
    s'.Held r := by
  refine ⟨fun phase => ?_, renamed.runs.running.trans held.running⟩
  rw [load_congr renamed.marker] at phase
  exact old phase

theorem restore (held : s.Held r) (renamed : Renamed .old .exe s s' b) : s'.Held r := by
  refine held.rename renamed fun _ b hb => ?_
  rw [renamed.source_none (by decide)] at hb
  cases hb

/-! ### The recovery of a boot -/

theorem starting (held : s.Held r) (fits : s.InPlace ∨ s.OnTrial r)
    (h : s.next ok .starting = some s') : s'.Sound := by
  cases h
  have exe : (s.files .exe).isNone = false := by
    obtain ⟨b, -, hb⟩ | trial := fits
    · rw [hb]
      rfl
    · rw [trial.1]
      rfl
  rw [exe]
  exact held.goto fits

theorem loading (held : s.Held r) (fits : s.InPlace ∨ s.OnTrial r)
    (h : s.next ok .loading = some s') : s'.Sound := by
  simp only [Device.next] at h
  split at h
  · cases h
    exact held.goto (fits.imp_right .inl)
  · rename_i hphase
    cases h
    refine held.goto ⟨fits, ?_, rfl⟩
    cases phase : s.load.phase with
    | none => exact absurd phase hphase
    | probation => rfl

theorem proceeding {st : UpdateState} (held : s.Held r)
    (fits : s.Fits r (.persisting st .proceed))
    (h : s.next ok (.persisting st .proceed) = some s') : s'.Sound := by
  obtain ⟨trial, phase, decided⟩ := fits
  cases h
  have counted : st.phase = .probation ∧ st.targetVersion = s.load.targetVersion := by
    simp only [decideBoot, phase] at decided
    split at decided <;> cases decided
    exact ⟨rfl, rfl⟩
  refine (held.save fun _ => phase).goto ?_
  obtain inPlace | ⟨exe, -, target, kept⟩ := trial
  · cases ok <;> exact .inl inPlace
  · refine .inr (.inl ?_)
    cases ok with
    | false => exact ⟨exe, phase, target, kept⟩
    | true => exact ⟨exe, counted.1, counted.2.trans target, kept⟩

theorem abandoning {st : UpdateState} (held : s.Held r)
    (fits : s.Fits r (.persisting st .rollback))
    (h : s.next ok (.persisting st .rollback) = some s') : s'.Sound := by
  obtain ⟨trial, phase, decided⟩ := fits
  have reset : st = .default := by
    simp only [decideBoot, phase] at decided
    split at decided <;> cases decided
    rfl
  subst reset
  have held' : (s.save .default ok).Held r := held.save fun _ => phase
  simp only [Device.next] at h
  split at h
  · rename_i none
    cases h
    refine held'.goto (.inl ?_)
    obtain inPlace | ⟨-, -, -, b, -, hb⟩ := trial
    · cases ok <;> exact inPlace
    · rw [hb] at none
      cases none
  · rename_i hsome
    cases h
    obtain ⟨b, hb⟩ : ∃ b, s.files .old = some b := by
      simpa [Option.isNone_iff_eq_none, Option.ne_none_iff_exists'] using hsome
    have kept : s.Kept := ⟨b, held.old phase b hb, hb⟩
    refine held'.goto ?_
    cases ok with
    | false => exact ⟨kept, .inl (trial.imp_right fun trial => .inl ⟨r, trial⟩)⟩
    | true => exact ⟨kept, .inr rfl⟩

/-! ### The rollback -/

theorem parking (held : s.Held r) (fits : s.Fits r .parking)
    (h : s.next ok .parking = some s') : s'.Sound := by
  obtain ⟨kept, safe⟩ := fits
  have runs := s.remove_runs .failed ok
  have exe : (s.remove .failed ok).files .exe = s.files .exe := remove_files_ne (by decide)
  have old : (s.remove .failed ok).files .old = s.files .old := remove_files_ne (by decide)
  have kept' := kept.mono runs.1.subset old
  simp only [Device.next] at h
  split at h
  · cases h
    refine held.remove.goto ⟨kept', ?_⟩
    obtain (inPlace | ⟨b, hexe, phase, target, -⟩ | ⟨none, -⟩) | reset := safe
    · exact .inl (.inl (inPlace.mono runs.1.subset exe))
    · refine .inl (.inr (.inl ⟨b, exe.trans hexe, ?_, ?_, kept'⟩))
      · rw [load_congr runs.2, phase]
      · rw [load_congr runs.2, target]
    · exact .inl (.inr (.inr ⟨exe.trans none, kept'⟩))
    · refine .inr ?_
      rw [load_congr runs.2, reset]
  · rename_i hnone
    cases h
    exact held.remove.goto ⟨exe.trans (by simpa using hnone), kept'⟩

theorem shelving (held : s.Held r) (kept : s.Kept)
    (steady : (ok || (s.files .exe).all s.isConfirmed) = true)
    (h : s.next ok .shelving = some s') : s'.Sound := by
  simp only [Device.next] at h
  split at h
  · rename_i s₁ hren
    cases h
    obtain ⟨b, renamed⟩ := rename_some hren
    have old : s₁.files .old = s.files .old := renamed.other (by decide) (by decide)
    have kept' := kept.mono renamed.runs.subset old
    exact (held.rename renamed fun _ => kept'.old).goto ⟨renamed.source_none (by decide), kept'⟩
  · rename_i hren
    cases h
    refine held.goto ?_
    cases hexe : s.files .exe with
    | none => exact .inr ⟨hexe, kept⟩
    | some b =>
      obtain none | rfl := rename_none hren
      · rw [hexe] at none
        cases none
      · refine .inl ⟨b, ?_, hexe⟩
        simpa [hexe, isConfirmed] using steady

theorem restoring (held : s.Held r) (missing : s.Missing)
    (h : s.next ok .restoring = some s') : s'.Sound := by
  simp only [Device.next] at h
  split at h
  · rename_i s₁ hren
    cases h
    obtain ⟨b, renamed⟩ := rename_some hren
    exact (held.restore renamed).exit (.inl (renamed.inPlace missing.2))
  · cases h
    exact held.goto (.inr missing)

theorem forgetting (held : s.Held r) (fits : s.InPlace ∨ s.Missing)
    (h : s.next ok .forgetting = some s') : s'.Sound := by
  cases h
  refine (held.save (fun phase => (by cases phase))).goto ?_
  cases ok <;> exact fits.imp_right .inr

/-! ### The swap -/

theorem writing {confirmed : Bool} (held : s.Held r) (inPlace : s.InPlace)
    (h : s.next ok (.writing .exe b confirmed) = some s') : s'.Sound := by
  have written : ∀ x : Option Binary,
      ({ s with files := Function.update s.files .new x } : Device).Held r := by
    intro x
    refine ⟨fun phase b hb => held.old phase b ?_, held.running⟩
    simpa using hb
  have inPlace' : ∀ x : Option Binary,
      ({ s with files := Function.update s.files .new x } : Device).InPlace := by
    intro x
    exact inPlace.mono (List.Subset.refl _) (by simp)
  simp only [Device.next] at h
  split at h
  · cases h
    exact (written _).goto ⟨rfl, inPlace' _, by simp⟩
  · cases h
    exact (written _).polled (.inl (inPlace' _))

theorem clearing {confirmed : Bool} (held : s.Held r) (inPlace : s.InPlace)
    (new : s.files .new = some b) (h : s.next ok (.clearing .exe b confirmed) = some s') : s'.Sound := by
  cases h
  have runs := (s.remove_runs .old ok).1
  exact held.remove.goto ⟨rfl, inPlace.mono runs.subset (remove_files_ne (by decide)),
    (remove_files_ne (by decide)).trans new⟩

theorem retiring {confirmed : Bool} (held : s.Held r) (inPlace : s.InPlace)
    (new : s.files .new = some b) (h : s.next ok (.retiring .exe b confirmed) = some s') : s'.Sound := by
  simp only [Device.next] at h
  split at h
  · rename_i s₁ hren
    cases h
    obtain ⟨b, renamed⟩ := rename_some hren
    have missing := renamed.kept inPlace
    exact (held.rename renamed fun _ => missing.2.old).goto
      ⟨rfl, missing, (renamed.other (by decide) (by decide)).trans new⟩
  · cases h
    exact held.polled (.inl inPlace)

theorem installing {confirmed : Bool} (held : s.Held r) (missing : s.Missing)
    (new : s.files .new = some b) (h : s.next ok (.installing .exe b confirmed) = some s') :
    s'.Sound := by
  simp only [Device.next] at h
  split at h
  · rename_i s₁ hren
    cases h
    obtain ⟨b', renamed⟩ := rename_some hren
    have old : s₁.files .old = s.files .old := renamed.other (by decide) (by decide)
    have kept := missing.2.mono renamed.runs.subset old
    have same : b' = b := by
      rw [← Option.some.injEq, ← renamed.found, new]
    exact (held.rename renamed fun _ => kept.old).goto ⟨same ▸ renamed.target_eq, kept⟩
  · cases h
    exact held.goto ⟨rfl, missing⟩

theorem undoing {confirmed : Bool} (held : s.Held r) (missing : s.Missing)
    (h : s.next ok (.undoing .exe confirmed) = some s') : s'.Sound := by
  cases h
  cases hren : s.rename .old .exe ok with
  | none => exact held.polled (.inr (.inr missing))
  | some s₁ =>
    obtain ⟨b, renamed⟩ := rename_some hren
    exact (held.restore renamed).polled (.inl (renamed.inPlace missing.2))

theorem marking {confirmed : Bool} (held : s.Held r) (fits : s.Fits r (.marking b confirmed))
    (steady : (ok || s.isConfirmed b) = true)
    (h : s.next ok (.marking b confirmed) = some s') : s'.Sound := by
  obtain ⟨exe, kept⟩ := fits
  simp only [Device.next] at h
  split at h
  · cases h
    have held' : (s.save (.enterProbation b.version) true).Held r :=
      ⟨fun _ => kept.old, held.running⟩
    exact held'.exit (.inr (.inl ⟨b, exe, rfl, rfl, kept⟩))
  · rename_i failed
    cases h
    refine held.polled (.inl ⟨b, ?_, exe⟩)
    simpa [isConfirmed, failed] using steady

/-! ### The confirmation -/

theorem confirm (held : s.Held r) : s.confirm.Held r ∧ r ∈ s.confirm.confirmed ∧
    s.confirmed ⊆ s.confirm.confirmed := by
  obtain ⟨p, hp, rfl⟩ := Option.map_eq_some_iff.mp held.running
  have subset : s.confirmed ⊆ s.confirm.confirmed := List.subset_append_right _ _
  refine ⟨⟨fun phase b hb => subset (held.old phase b hb), held.running⟩, ?_, subset⟩
  simp [Device.confirm, hp]

theorem confirming (held : s.Held r) (fits : s.InPlace ∨ s.OnTrial r ∨ s.Missing)
    (steady : ((s.files .exe).isSome || decide (s.load.phase = .none)) = true)
    (h : s.next ok .confirming = some s') : s'.Sound := by
  simp only [Device.next] at h
  split at h
  · rename_i stable
    cases h
    obtain ⟨held', -, subset⟩ := held.confirm
    refine held'.goto ?_
    obtain inPlace | ⟨-, phase, -⟩ | missing := fits
    · exact .inl (inPlace.mono subset rfl)
    · rw [stable] at phase
      cases phase
    · exact .inr (.inr ⟨missing.1, missing.2.mono subset rfl⟩)
  · rename_i probation
    split at h
    · cases h
      have saved : (s.save .default true).Held r := held.save (fun phase => (by cases phase))
      obtain ⟨held', running, subset⟩ := saved.confirm
      refine held'.goto ?_
      obtain inPlace | ⟨exe, -⟩ | ⟨none, -⟩ := fits
      · exact inPlace.mono subset rfl
      · exact ⟨r, running, exe⟩
      · simp [none, probation] at steady
    · cases h
      exact held.goto fits

theorem sweeping {l : Location} {stage : Stage} (held : s.Held r) (inPlace : s.InPlace)
    (ne : .exe ≠ l) (fits : (s.remove l ok).InPlace → (s.remove l ok).Fits r stage) :
    ((s.remove l ok).goto stage).Sound :=
  held.remove.goto (fits (inPlace.mono (s.remove_runs l ok).1.subset
    (remove_files_ne ne)))

end Device.Held

/-! ### Runs -/

theorem Device.Sound.next {p : Process} {ok : Bool} (sound : s.Sound) (hp : s.process = some p)
    (steady : Steady follows s (.next ok) = true) (h : s.next ok p.stage = some s') :
    s'.Sound := by
  have fits := sound.stage p hp
  have held : s.Held p.running := ⟨sound.old, by rw [hp, Option.map_some]⟩
  simp only [Steady, hp, Option.map_some] at steady
  generalize p.stage = stage at fits h steady
  cases stage with
  | starting => exact held.starting fits h
  | loading => exact held.loading fits h
  | persisting st action =>
    cases action with
    | proceed => exact held.proceeding fits h
    | rollback => exact held.abandoning fits h
  | parking => exact held.parking fits h
  | shelving => exact held.shelving fits.1 steady h
  | restoring => exact held.restoring fits h
  | forgetting => exact held.forgetting fits h
  | polling confirmed => cases h
  | writing path b confirmed =>
    obtain ⟨rfl, inPlace⟩ := fits
    exact held.writing inPlace h
  | clearing path b confirmed =>
    obtain ⟨rfl, inPlace, new⟩ := fits
    exact held.clearing inPlace new h
  | retiring path b confirmed =>
    obtain ⟨rfl, inPlace, new⟩ := fits
    exact held.retiring inPlace new h
  | installing path b confirmed =>
    obtain ⟨rfl, missing, new⟩ := fits
    exact held.installing missing new h
  | undoing path confirmed =>
    obtain ⟨rfl, missing⟩ := fits
    exact held.undoing missing h
  | marking b confirmed => exact held.marking fits steady h
  | confirming => exact held.confirming fits steady h
  | sweepingOld =>
    cases h
    exact held.sweeping fits (by decide) (fun inPlace => inPlace)
  | sweepingFailed =>
    cases h
    exact held.sweeping fits (by decide) .inl

theorem Device.Sound.safe {p : Process} (sound : s.Sound) (hp : s.process = some p)
    (steady : s.exposed p = false) : s.Safe := by
  have fits := sound.stage p hp
  obtain ⟨running, image, stage⟩ := p
  dsimp only at fits
  have reset : s.Kept → (s.Safe ∨ s.load.phase = .none) →
      (decide (s.load.phase = .none) && (s.files .exe).any (fun b => !s.isConfirmed b)) = false →
      s.Safe := by
    intro kept safe closed
    obtain safe | phase := safe
    · exact safe
    · cases hexe : s.files .exe with
      | none => exact .inr (.inr ⟨hexe, kept⟩)
      | some b =>
        refine .inl ⟨b, ?_, hexe⟩
        simpa [phase, hexe, isConfirmed] using closed
  cases stage with
  | starting | loading => exact fits.imp_right fun trial => .inl ⟨_, trial⟩
  | persisting st action => exact fits.1.imp_right fun trial => .inl ⟨_, trial⟩
  | parking | shelving => exact reset fits.1 fits.2 steady
  | restoring => exact .inr (.inr fits)
  | forgetting => exact fits.imp_right .inr
  | polling confirmed | confirming => exact fits.imp_right (Or.imp_left fun trial => ⟨_, trial⟩)
  | writing path b confirmed => exact .inl fits.2
  | clearing path b confirmed | retiring path b confirmed => exact .inl fits.2.1
  | installing path b confirmed => exact .inr (.inr fits.2.1)
  | undoing path confirmed => exact .inr (.inr fits.2)
  | marking b confirmed =>
    refine .inl ⟨b, ?_, fits.1⟩
    simpa [exposed, isConfirmed] using steady
  | sweepingOld | sweepingFailed => exact .inl fits

theorem Device.maybeUpdate_path {p : Process} {published : Option Binary} {path : Location}
    (h : s.maybeUpdate follows p published = some (path, b)) (image : p.image = some .exe) :
    path = .exe := by
  simp only [maybeUpdate, Option.bind_eq_bind, Option.bind_eq_some_iff, Option.pure_def,
    Option.some.injEq, Prod.mk.injEq] at h
  obtain ⟨b', -, -, -, path', hpath, own, -, -, -, rfl, rfl⟩ := h
  unfold currentExe at hpath
  split at hpath
  · rw [image, Option.some.injEq] at hpath
    exact hpath.symm
  · exact (Option.some.inj hpath).symm

theorem Device.Sound.step {action : Action} (sound : s.Sound)
    (steady : Steady follows s action = true) (h : s.step follows action = some s') :
    s'.Sound := by
  cases action with
  | boot =>
    simp only [Device.step] at h
    split at h
    · rename_i down hexe
      cases h
      refine ⟨sound.old, fun up => (by cases up), fun p hp => ?_⟩
      cases hp
      obtain inPlace | ⟨b, trial⟩ | ⟨none, -⟩ := sound.down down
      · exact .inl inPlace
      · have same := trial.1
        rw [hexe, Option.some.injEq] at same
        exact .inr (same ▸ trial)
      · rw [hexe] at none
        cases none
    · cases h
  | supervise ok =>
    simp only [Device.step] at h
    split at h
    · rename_i hdown
      simp only [Bool.and_eq_true, Option.isNone_iff_eq_none] at hdown
      obtain ⟨down, hexe⟩ := hdown
      obtain ⟨b, renamed⟩ := rename_some h
      have kept : s.Kept := by
        obtain ⟨b', -, hb'⟩ | ⟨b', hb', -⟩ | missing := sound.down down
        · rw [hexe] at hb'
          cases hb'
        · rw [hexe] at hb'
          cases hb'
        · exact missing.2
      have down' : s'.process = none := by
        rw [← Option.map_eq_none_iff, renamed.runs.running, down, Option.map_none]
      refine ⟨fun _ b hb => ?_, fun _ => .inl (renamed.inPlace kept), fun p hp => ?_⟩
      · rw [renamed.source_none (by decide)] at hb
        cases hb
      · rw [down'] at hp
        cases hp
    · cases h
  | next ok =>
    obtain ⟨p, hp, hnext⟩ := Option.bind_eq_some_iff.mp h
    exact sound.next hp steady hnext
  | poll published =>
    simp only [Device.step] at h
    split at h
    · rename_i p hp
      have fits := sound.stage p hp
      have held : s.Held p.running := ⟨sound.old, by rw [hp, Option.map_some]⟩
      split at h
      · rename_i confirmed hstage
        rw [hstage] at fits
        split at h
        · rename_i path b hupdate
          cases h
          simp only [Steady, hp, hupdate, Option.all_some, Option.isNone_some, Bool.false_or,
            Bool.and_eq_true, decide_eq_true_eq] at steady
          obtain ⟨image, hexe⟩ := steady
          refine held.goto ⟨maybeUpdate_path hupdate image, ?_⟩
          obtain ⟨b', hb', hconf⟩ := (Option.any_eq_true ..).mp hexe
          exact ⟨b', by simpa [isConfirmed] using hconf, hb'⟩
        · cases h
          exact held.polled fits
      · cases h
    · cases h
  | crash =>
    cases h
    cases hp : s.process with
    | none => exact ⟨sound.old, fun _ => sound.down hp, fun p hp => (by cases hp)⟩
    | some p =>
      refine ⟨sound.old, fun _ => sound.safe hp ?_, fun p hp => (by cases hp)⟩
      simpa [Steady, hp] using steady

theorem Device.Sound.transition {action : Action} (sound : s.Sound)
    (steady : Steady follows s action = true) (h : s.transition follows action = .ok s') :
    s'.Sound := by
  unfold Device.transition at h
  cases hstep : s.step follows action with
  | none =>
    rw [hstep] at h
    cases h
  | some s₁ =>
    rw [hstep] at h
    cases h
    exact sound.step steady hstep

/-- From a confirmed executable with a stable marker, in every run that keeps off the windows: at
every boot the executable is confirmed, or on a trial with a confirmed binary in `.old`, or
missing with a confirmed binary in `.old`. -/
theorem update_safe {actions : List Action} (down : s.process = none)
    (stable : s.load.phase = .none) (confirmed : s.InPlace)
    (steady : Transaction.Meets (Device.transition follows)
      (fun s action => Steady follows s action = true) s actions)
    (boot : (s.run follows actions).process = none) : (s.run follows actions).Safe := by
  have start : s.Sound := by
    refine ⟨fun phase => ?_, fun _ => .inl confirmed, fun p hp => ?_⟩
    · rw [stable] at phase
      cases phase
    · rw [down] at hp
      cases hp
  have sound : (s.run follows actions).Sound :=
    Transaction.run_invariant (fun ok h sound => Device.Sound.transition sound ok h) steady start
  exact sound.down boot

/-! ## The windows -/

def v (n : ℕ) : Binary := ⟨[n], n⟩

/-- A device whose first version is confirmed. -/
def confirmedDevice : Device where
  files := fun l => if l = .exe then some (v 1) else none
  marker := none
  process := none
  confirmed := [v 1]

/-- The first version boots, confirms nothing new and updates to the second one. -/
def updateToSecond : List Action :=
  [.boot, .next true, .next true, .poll none, .next true, .poll (some (v 2))] ++
    List.replicate 5 (.next true)

theorem update_safe_sample :
    ∃ s, confirmedDevice.run true (updateToSecond ++ [.boot, .next true, .crash]) = s ∧
      s.files .exe = some (v 2) ∧ s.Safe :=
  ⟨_, rfl, by decide +kernel, update_safe rfl rfl ⟨v 1, by decide, rfl⟩ (by decide +kernel)
    (by decide +kernel)⟩

/-- The process ends after the swap, before the marker is written. -/
def endedUnmarked : List Action := updateToSecond.dropLast ++ [.crash]

/-- The second version does not come up, and the process that gives it up ends after it has reset
the marker. -/
def endedReset : List Action :=
  updateToSecond ++ [.boot, .next true, .next true, .next true, .crash, .boot, .next true,
    .next true, .next true, .crash]

/-- A third version is published before the first poll of the second one returns. -/
def updatedUnconfirmed : List Action :=
  updateToSecond ++ [.boot, .next true, .next true, .next true, .poll (some (v 3))] ++
    List.replicate 5 (.next true)

theorem Device.not_safe (exe : s.files .exe = some b) (unconfirmed : b ∉ s.confirmed)
    (lost : s.load.phase = .none ∨ ∀ o ∈ s.files .old, o ∉ s.confirmed) : ¬s.Safe := by
  rintro (⟨b', hb', hexe⟩ | ⟨b', -, phase, -, o, ho, hold⟩ | ⟨none, -⟩)
  · rw [exe, Option.some.injEq] at hexe
    exact unconfirmed (hexe ▸ hb')
  · obtain stable | lost := lost
    · rw [stable] at phase
      cases phase
    · exact lost o hold ho
  · rw [exe] at none
    cases none

/-- The run leaves every device safe whose executable was confirmed. -/
def LeavesSafe (actions : List Action) : Prop :=
  ∀ s : Device, s.process = none → s.load.phase = .none → s.InPlace →
    (s.run true actions).process = none → (s.run true actions).Safe

/-- Each of the three runs leaves an unconfirmed executable without a recorded way back. -/
theorem update_stranded :
    ¬LeavesSafe endedUnmarked ∧ ¬LeavesSafe endedReset ∧ ¬LeavesSafe updatedUnconfirmed := by
  have down : ∀ actions ∈ [endedUnmarked, endedReset, updatedUnconfirmed],
      (confirmedDevice.run true actions).process = none := by decide +kernel
  have lost : ∀ actions ∈ [endedUnmarked, endedReset, updatedUnconfirmed],
      ¬(confirmedDevice.run true actions).Safe → ¬LeavesSafe actions :=
    fun actions hmem bad leaves =>
      bad (leaves confirmedDevice rfl rfl ⟨v 1, by decide, rfl⟩ (down actions hmem))
  refine ⟨lost _ (by simp) ?_, lost _ (by simp) ?_, lost _ (by simp) ?_⟩
  · exact Device.not_safe (b := v 2) (by decide +kernel) (by decide +kernel)
      (.inl (by decide +kernel))
  · exact Device.not_safe (b := v 2) (by decide +kernel) (by decide +kernel)
      (.inl (by decide +kernel))
  · exact Device.not_safe (b := v 3) (by decide +kernel) (by decide +kernel)
      (.inr (by decide +kernel))

end Metnos.Client.SelfUpdate
