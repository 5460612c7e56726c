import Mathlib.Data.List.Chain
import Metnos.Ownership.Required

/-!
# Ownership.Forward — every step keeps the invariant, and the required head moves forward
-/

namespace Metnos.Ownership.Chain

variable {site : Site} {s s' : Chain} {p : ℕ} {phase : Phase}

/-! ## Where a call goes next -/

theorem Inv.thenGoto (inv : (s.goto p .idle).Inv site) (hr : Resting phase)
    (ok : s.PhaseOk site p phase) : (s.goto p phase).Inv site := by
  rw [← goto_goto s p .idle phase]
  exact inv.goto hr ok.goto

theorem JobOk.raised {job : Job} (ok : s.JobOk site p job) : s.PhaseOk site p job.raised := by
  cases job with
  | pair => exact ok
  | pointer => exact ⟨ok.verified, ok.lock⟩

theorem JobOk.complete {job : Job} (ok : s.JobOk site p job)
    (h : s.read (job.tmp site) = some job.bytes) : s.PhaseOk site p job.complete := by
  cases job with
  | pair => exact ⟨ok, nofun⟩
  | pointer => exact ⟨ok, h⟩

theorem JobOk.done {job : Job} (ok : s.JobOk site p job) : s.PhaseOk site p job.done := by
  cases job with
  | pair h part => cases part <;> exact ok
  | pointer => exact ⟨ok.verified, ok.lock⟩

theorem resting_raised (job : Job) : Resting job.raised := by
  cases job <;> exact nofun

theorem resting_complete (job : Job) : Resting job.complete := by
  cases job <;> exact nofun

theorem resting_done (job : Job) : Resting job.done := by
  rcases job with ⟨h, _ | _⟩ | _ <;> exact nofun

theorem resting_raise (phase : Phase) : Resting (raise phase) := by
  unfold raise
  split
  all_goals first | exact resting_raised _ | exact nofun

theorem PhaseOk.raise (ok : s.PhaseOk site p phase) : s.PhaseOk site p (Chain.raise phase) := by
  cases phase with
  | idle => trivial
  | testing => trivial
  | dropping => trivial
  | waiting => trivial
  | looking => exact JobOk.raised ok
  | opening => exact JobOk.raised ok
  | comparing => exact JobOk.raised ok
  | writing => exact JobOk.raised ok.1
  | publishing => exact JobOk.raised ok.1
  | found => exact JobOk.raised ok.1
  | pairFirst => exact ok.lock
  | pairSecond => exact ok.lock
  | pairThird => exact ok.lock
  | pairFourth => exact ok.lock
  | reading h expected part =>
    cases part with
    | payload => exact ok.lock
    | signature => exact ok.1.lock
  | pointerThere => exact ok.1.lock
  | pointerRead => exact ok.1.lock
  | rechecking => exact ⟨ok.1.verified, ok.1.lock⟩
  | replacing => exact ok.1
  | cleaning => exact ok.lock
  | rereading => exact ok.lock
  | unlocking => exact ok

theorem stored_of_parts {h : Head} (payload : s.read (.file .payload (stem h)) = some h.encoded)
    (signature : s.read (.file .signature (stem h)) = some h.signature) : s.Stored h := by
  intro part
  cases part with
  | payload => exact payload
  | signature => exact signature

theorem test_ok {h : Head} (hv : Verified site h) (t : Test) :
    Resting (s.test h t) ∧ s.PhaseOk site p (s.test h t) := by
  cases t <;> unfold test <;> dsimp only <;> split_ifs <;> exact ⟨nofun, by first | exact hv | trivial⟩

theorem compare_ok {h : Head} (hu : s.Updating site p h) (hs : s.Stored h) (expected : Option String)
    (framed : Bytes) : Resting (compare site h expected framed) ∧
      s.PhaseOk site p (compare site h expected framed) := by
  unfold compare
  split
  · exact ⟨nofun, hu.lock⟩
  · rename_i current hdecode
    split_ifs with h1 h2 h3
    · exact ⟨nofun, hu.lock⟩
    · exact ⟨nofun, hu.lock⟩
    · exact ⟨nofun, hu.lock⟩
    · rw [not_or, not_not, not_not] at h3
      exact ⟨nofun, hu.verified, hu.lock, hs, current, hdecode, h3⟩

/-! ## The steps -/

theorem Inv.decoded (inv : s.Inv site) {framed : Bytes} (h : s.read .required = some framed) :
    ∃ c, s.history.getLast? = some c ∧ Verified site c ∧ s.Stored c ∧
      decodeRequiredHead site framed = .ok c := by
  obtain ⟨i, hi, rfl⟩ := read_eq_some.mp h
  obtain ⟨c, hlast, hv, hs, hc, -⟩ := inv.pointer i hi
  refine ⟨c, hlast, hv, hs, ?_⟩
  obtain ⟨framed, hencode, hdecode⟩ := decode_frame hv
  rw [hc, frame, hencode]
  exact hdecode

theorem chained_first {h : Head} (hf : First h) : Chained ([] ++ [h]) := by
  refine ⟨fun c hc => ?_, .singleton h⟩
  cases hc
  exact hf

theorem chained_concat {history : List Head} (hc : Chained history) {c h : Head}
    (hlast : history.getLast? = some c) (hs : Succeeds h c) : Chained (history ++ [h]) := by
  refine ⟨fun d hd => ?_, List.isChain_append.mpr ⟨hc.2, .singleton h, ?_⟩⟩
  · cases history with
    | nil => cases hlast
    | cons first rest => exact hc.1 d hd
  · intro d hd e he
    cases he
    rw [hlast] at hd
    cases hd
    exact hs

theorem not_there {n : Name} (h : ¬s.there n = true) : s.names n = none := by
  unfold there at h
  cases hn : s.names n with
  | none => rfl
  | some i =>
    rw [hn] at h
    exact absurd rfl h

theorem Inv.next_publishing (inv : s.Inv site) {job : Job} (hphase : s.phase p = .publishing job)
    (h : s.next site p (.publishing job) = some s') : s'.Inv site := by
  have ok := inv.phases p
  rw [hphase] at ok
  simp only [Chain.next] at h
  split at h
  · cases h
    exact inv.goto (resting_raised job) ok.1.raised
  · rename_i i hi
    split_ifs at h with ht
    · cases h
      exact inv.goto nofun ok
    · cases h
      have free := not_there ht
      cases job with
      | pair head part =>
        have hv : Verified site head := ok.1
        have inv' := (inv.idle p).publish (goto_self ..) hi free
        refine inv'.thenGoto (resting_done _) ?_
        exact JobOk.done hv
      | pointer head c =>
        obtain ⟨hready, hframed⟩ := ok
        obtain ⟨rfl, hread⟩ := hframed head c rfl
        obtain ⟨j, hj, hc⟩ := read_eq_some.mp hread
        cases hi.symm.trans hj
        have chain : Chained (s.history ++ [head]) := by
          rw [inv.unnamed free]
          exact chained_first hready.admitted
        have inv' := (inv.idle p).point none (goto_self ..) hready.lock hready.verified hready.stored hi hc
          chain
        exact inv'.thenGoto nofun ⟨hready.verified, hready.lock⟩

theorem Inv.next_rechecking (inv : s.Inv site) {head : Head} {current : Option Bytes}
    (ready : s.Ready site p head current) (framed : s.Framed head)
    (h : s.next site p (.rechecking head current) = some s') : s'.Inv site := by
  have updating : s.Updating site p head := ⟨ready.verified, ready.lock⟩
  simp only [Chain.next] at h
  by_cases hread : s.read .required = current
  · rw [if_pos hread] at h
    cases h
    cases current with
    | none =>
      refine inv.goto nofun ⟨ready, fun h c heq => ?_⟩
      cases heq
      exact ⟨rfl, framed⟩
    | some b =>
      obtain ⟨c, hlast, -, -, hdecode⟩ := inv.decoded hread
      obtain ⟨c', hdecode', hs⟩ := ready.admitted
      cases hdecode.symm.trans hdecode'
      exact inv.goto nofun ⟨updating, ready.stored, framed, c, hlast, hs⟩
  · rw [if_neg hread] at h
    cases h
    exact inv.goto nofun updating

theorem Inv.next_replacing (inv : s.Inv site) {head : Head} (hphase : s.phase p = .replacing head)
    (h : s.next site p (.replacing head) = some s') : s'.Inv site := by
  have ok := inv.phases p
  rw [hphase] at ok
  obtain ⟨hu, hs, hframed, c, hlast, hsucc⟩ := ok
  simp only [Chain.next] at h
  split at h
  · cases h
    exact inv.goto nofun hu
  · rename_i i hi
    cases h
    obtain ⟨j, hj, hc⟩ := read_eq_some.mp hframed
    cases hi.symm.trans hj
    have inv' := (inv.idle p).point none (goto_self ..) hu.lock hu.verified hs hi hc
      (chained_concat inv.chain hlast hsucc)
    exact inv'.thenGoto nofun ⟨hu.verified, hu.lock⟩

theorem Inv.next (inv : s.Inv site) (h : s.next site p (s.phase p) = some s') : s'.Inv site := by
  have ok := inv.phases p
  cases hphase : s.phase p with
  | publishing job =>
    rw [hphase] at h
    exact inv.next_publishing hphase h
  | replacing head =>
    rw [hphase] at h
    exact inv.next_replacing hphase h
  | rechecking head current =>
    rw [hphase] at h ok
    exact inv.next_rechecking ok.1 ok.2 h
  | idle =>
    rw [hphase] at h
    cases h
  | testing head t =>
    rw [hphase] at h ok
    cases h
    obtain ⟨hr, ok⟩ := test_ok ok t
    exact inv.goto hr ok
  | looking job =>
    rw [hphase] at h ok
    cases h
    split_ifs
    · exact inv.goto nofun ok
    · exact inv.goto nofun ok
  | opening job =>
    rw [hphase] at h ok
    simp only [Chain.next] at h
    split_ifs at h with ht
    · cases h
      exact inv.goto (resting_raised job) (JobOk.raised ok)
    · cases h
      have ok' : (s.goto p .idle).PhaseOk site p (.looking job) := PhaseOk.goto ok
      have inv' := (inv.idle p).start ok' (not_there ht) (goto_self ..)
      rw [← goto_goto (s.create (job.tmp site)) p .idle]
      exact inv'
  | writing job i rest =>
    rw [hphase] at h ok
    simp only [Chain.next] at h
    split_ifs at h with hrest
    cases h
    subst hrest
    obtain ⟨hjob, -, hcontent, hname⟩ := ok
    rw [List.append_nil] at hcontent
    refine inv.goto (resting_complete job) ?_
    cases job with
    | pair head part => exact ⟨hjob, nofun⟩
    | pointer head c => exact ⟨hjob, read_eq_some.mpr ⟨i, hname head c rfl, hcontent⟩⟩
  | comparing job =>
    rw [hphase] at h ok
    cases h
    split_ifs with hread
    · exact inv.goto (resting_complete job) (JobOk.complete ok hread)
    · exact inv.goto (resting_raised job) (JobOk.raised ok)
  | found job =>
    rw [hphase] at h ok
    cases h
    split_ifs
    · exact inv.goto (resting_done job) ok.1.done
    · exact inv.goto (resting_raised job) ok.1.raised
  | dropping head part =>
    rw [hphase] at h ok
    have hv : Verified site head := ok
    have inv' : ∀ part, ((s.unlink (.tmp part (stem head) (suffix site head))).goto p
        .idle).Inv site :=
      fun part => (inv.idle p).unlink (goto_self ..) nofun nofun nofun
    cases part with
    | signature =>
      cases h
      exact (inv' .signature).thenGoto nofun hv
    | payload =>
      cases h
      exact inv' .payload
  | waiting head expected =>
    rw [hphase] at h ok
    simp only [Chain.next] at h
    split_ifs at h with hlock
    cases h
    have hv : Verified site head := ok
    have inv' := (inv.idle p).acquire (goto_self ..) (Option.isNone_iff_eq_none.mp hlock)
    exact inv'.thenGoto nofun ⟨hv, rfl⟩
  | pairFirst head expected =>
    rw [hphase] at h ok
    cases h
    split_ifs
    · exact inv.goto nofun ok
    · exact inv.goto nofun ok
  | pairSecond head expected =>
    rw [hphase] at h ok
    cases h
    split_ifs
    · exact inv.goto nofun ok
    · exact inv.goto nofun ok.lock
  | pairThird head expected =>
    rw [hphase] at h ok
    cases h
    exact inv.goto nofun ok
  | pairFourth head expected payload =>
    rw [hphase] at h ok
    cases h
    split_ifs
    · exact inv.goto nofun ok
    · exact inv.goto nofun ok.lock
  | reading head expected part =>
    rw [hphase] at h ok
    cases part with
    | payload =>
      cases h
      split_ifs with hread
      · exact inv.goto nofun ⟨ok, hread⟩
      · exact inv.goto nofun ok.lock
    | signature =>
      cases h
      split_ifs with hread
      · exact inv.goto nofun ⟨ok.1, stored_of_parts ok.2 hread⟩
      · exact inv.goto nofun ok.1.lock
  | pointerThere head expected =>
    rw [hphase] at h ok
    simp only [Chain.next] at h
    obtain ⟨hu, hs⟩ := ok
    split_ifs at h with h1 h2 h3
    · cases h
      exact inv.goto nofun ⟨hu, hs⟩
    · cases h
      exact inv.goto nofun hu.lock
    · cases h
      exact inv.goto nofun hu.lock
    · cases h
      rw [not_or, not_not, not_not] at h3
      exact inv.goto nofun ⟨hu.verified, hu.lock, hs, h3⟩
  | pointerRead head expected =>
    rw [hphase] at h ok
    simp only [Chain.next] at h
    obtain ⟨hu, hs⟩ := ok
    split at h
    · cases h
      exact inv.goto nofun hu.lock
    · rename_i framed hread
      cases h
      obtain ⟨hr, ok⟩ := compare_ok hu hs expected framed
      exact inv.goto hr ok
  | cleaning head ok' =>
    rw [hphase] at h ok
    cases h
    have inv' : ((s.unlink (.requiredTmp head.headId)).goto p .idle).Inv site :=
      (inv.idle p).unlink (goto_self ..) nofun nofun fun _ _ => ok.lock
    split_ifs
    · exact inv'.thenGoto nofun ⟨ok.verified, ok.lock⟩
    · exact inv'.thenGoto nofun ok.lock
  | rereading head =>
    rw [hphase] at h ok
    cases h
    exact inv.goto nofun ok.lock
  | unlocking =>
    rw [hphase] at h ok
    cases h
    exact (inv.idle p).release (goto_self ..) ok

theorem Inv.step (inv : s.Inv site) {action : Action} (h : s.step site action = some s') :
    s'.Inv site := by
  cases action with
  | append p encoded signature =>
    simp only [Chain.step] at h
    split at h
    · rename_i head hv
      cases h
      obtain ⟨rfl, rfl, -⟩ := verify_ok hv
      exact inv.goto nofun hv
    · cases h
  | update p encoded signature expected =>
    simp only [Chain.step] at h
    split at h
    · rename_i head hv
      cases h
      obtain ⟨rfl, rfl, -⟩ := verify_ok hv
      exact inv.goto nofun hv
    · cases h
  | next p => exact inv.next h
  | write p n =>
    simp only [Chain.step] at h
    split at h
    · rename_i job i rest hphase
      cases h
      exact inv.write hphase n
    · cases h
  | fail p =>
    cases h
    exact inv.goto (resting_raise _) (inv.phases p).raise
  | stop p =>
    cases h
    unfold Chain.stop
    split_ifs with hlock
    · exact (inv.idle p).release (goto_self ..) hlock
    · exact inv.idle p

theorem transition_ok {action : Action} (h : s.transition site action = .ok s') :
    s.step site action = some s' := by
  unfold transition at h
  split at h
  · rename_i t ht
    cases h
    exact ht
  · cases h

theorem Inv.run (inv : s.Inv site) (actions : List Action) : (s.run site actions).Inv site :=
  Transaction.run_preserves (fun h inv => inv.step (transition_ok h)) inv

/-! ## Which steps move the pointer -/

/-- The pointer has its bytes, and has named no other head. -/
def SamePointer (s s' : Chain) : Prop :=
  s'.read .required = s.read .required ∧ s'.history = s.history

/-- The call `p` has renamed its file to the pointer, under the lock, and is past that point. -/
def Moved (s s' : Chain) (p : ℕ) : Prop :=
  s.lock = some p ∧ ∃ h, s'.phase p = .cleaning h true ∧ s'.read .required = some (frame h) ∧
    s'.history = s.history ++ [h]

theorem read_rename_pair {part : Part} {st suf : String} {i : ℕ} :
    (s.rename (.tmp part st suf) (.file part st) i).read .required = s.read .required := by
  refine read_congr ?_ fun _ _ => rfl
  rw [rename_names, if_neg nofun, if_neg nofun]

theorem read_rename_pointer {id : String} {i : ℕ} {b : Bytes} (h : s.content i = b) :
    (s.rename (.requiredTmp id) .required i).read .required = some b := by
  unfold Chain.read
  rw [rename_names, if_neg nofun, if_pos rfl]
  exact congrArg some h

theorem Inv.next_pointer (inv : s.Inv site) (h : s.next site p (s.phase p) = some s') :
    SamePointer s s' ∨ Moved s s' p := by
  have ok := inv.phases p
  cases hphase : s.phase p with
  | publishing job =>
    rw [hphase] at h ok
    simp only [Chain.next] at h
    split at h
    · cases h
      exact .inl ⟨rfl, rfl⟩
    · rename_i i hi
      split_ifs at h
      · cases h
        exact .inl ⟨rfl, rfl⟩
      · cases h
        cases job with
        | pair head part =>
          have same : (s.rename (.tmp part (stem head) (suffix site head)) (.file part (stem head))
              i).read .required = s.read .required := read_rename_pair
          exact .inl ⟨same, rfl⟩
        | pointer head c =>
          obtain ⟨j, hj, hc⟩ := read_eq_some.mp (ok.2 head c rfl).2
          cases hi.symm.trans hj
          have named : (s.rename (.requiredTmp head.headId) .required i).read .required =
              some (frame head) := read_rename_pointer hc
          exact .inr ⟨ok.1.held, head, goto_self .., named, rfl⟩
  | replacing head =>
    rw [hphase] at h ok
    simp only [Chain.next] at h
    split at h
    · cases h
      exact .inl ⟨rfl, rfl⟩
    · rename_i i hi
      cases h
      obtain ⟨j, hj, hc⟩ := read_eq_some.mp ok.2.2.1
      cases hi.symm.trans hj
      have named : (s.rename (.requiredTmp head.headId) .required i).read .required =
          some (frame head) := read_rename_pointer hc
      exact .inr ⟨ok.1.lock, head, goto_self .., named, rfl⟩
  | opening job =>
    rw [hphase] at h
    simp only [Chain.next] at h
    split_ifs at h
    · cases h
      exact .inl ⟨rfl, rfl⟩
    · cases h
      have hne : Name.required ≠ job.tmp site := by cases job <;> nofun
      exact .inl ⟨inv.read_create hne, rfl⟩
  | dropping head part =>
    rw [hphase] at h
    have same : ∀ part, (s.unlink (.tmp part (stem head) (suffix site head))).read .required =
        s.read .required := fun part => read_unlink nofun
    cases part with
    | payload =>
      cases h
      exact .inl ⟨same .payload, rfl⟩
    | signature =>
      cases h
      exact .inl ⟨same .signature, rfl⟩
  | cleaning head ok' =>
    rw [hphase] at h
    have same : (s.unlink (.requiredTmp head.headId)).read .required = s.read .required :=
      read_unlink nofun
    cases h
    exact .inl ⟨same, rfl⟩
  | pointerThere head expected =>
    rw [hphase] at h
    simp only [Chain.next] at h
    split_ifs at h <;> cases h <;> exact .inl ⟨rfl, rfl⟩
  | pointerRead head expected =>
    rw [hphase] at h
    simp only [Chain.next] at h
    split at h <;> cases h <;> exact .inl ⟨rfl, rfl⟩
  | rechecking head current =>
    rw [hphase] at h
    simp only [Chain.next] at h
    split_ifs at h <;> cases h <;> exact .inl ⟨rfl, rfl⟩
  | waiting head expected =>
    rw [hphase] at h
    simp only [Chain.next] at h
    split_ifs at h
    cases h
    exact .inl ⟨rfl, rfl⟩
  | writing job i rest =>
    rw [hphase] at h
    simp only [Chain.next] at h
    split_ifs at h
    cases h
    exact .inl ⟨rfl, rfl⟩
  | reading head expected part =>
    rw [hphase] at h
    cases part <;> cases h <;> exact .inl ⟨rfl, rfl⟩
  | idle =>
    rw [hphase] at h
    cases h
  | _ =>
    rw [hphase] at h
    cases h
    exact .inl ⟨rfl, rfl⟩

theorem Inv.step_pointer (inv : s.Inv site) {action : Action}
    (h : s.step site action = some s') :
    SamePointer s s' ∨ ∃ p, action = .next p ∧ Moved s s' p := by
  cases action with
  | append p encoded signature =>
    simp only [Chain.step] at h
    split at h
    · cases h
      exact .inl ⟨rfl, rfl⟩
    · cases h
  | update p encoded signature expected =>
    simp only [Chain.step] at h
    split at h
    · cases h
      exact .inl ⟨rfl, rfl⟩
    · cases h
  | next p =>
    rcases inv.next_pointer h with same | moved
    · exact .inl same
    · exact .inr ⟨p, rfl, moved⟩
  | write p n =>
    simp only [Chain.step] at h
    split at h
    · rename_i job i rest hphase
      cases h
      refine .inl ⟨read_congr rfl fun j hj => wrote_other ?_, rfl⟩
      rintro rfl
      obtain ⟨-, -, -, -, -, hw⟩ := inv.pointer j hj
      exact hw p job rest hphase
    · cases h
  | fail p =>
    cases h
    exact .inl ⟨rfl, rfl⟩
  | stop p =>
    cases h
    exact .inl ⟨rfl, rfl⟩

/-- The required head never goes back. -/
theorem required_forward (site : Site) (actions : List Action) :
    let s := empty.run site actions
    (∀ framed, s.read .required = some framed → ∃ h, decodeRequiredHead site framed = .ok h ∧
      verifyOwnershipHead site h.encoded h.signature = .ok h ∧ s.Stored h ∧
      s.history.getLast? = some h) ∧
    (s.read .required = none → s.history = []) ∧
    Chained s.history ∧
    ∀ action s', s.step site action = some s' →
      SamePointer s s' ∨ ∃ p, action = .next p ∧ Moved s s' p := by
  intro s
  have inv : s.Inv site := inv_empty.run actions
  refine ⟨fun framed h => ?_, fun h => ?_, inv.chain, fun action s' h => inv.step_pointer h⟩
  · obtain ⟨c, hlast, hv, hs, hdecode⟩ := inv.decoded h
    exact ⟨c, hdecode, hv, hs, hlast⟩
  · exact inv.unnamed (Option.map_eq_none_iff.mp h)

end Metnos.Ownership.Chain
