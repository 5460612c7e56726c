import Metnos.Jobs.Finite

/-!
# Jobs.Honest — what the rows say about the runs

A run starts as a success and its status is overwritten where the callback fails, raises or times out.
The counters of an entry follow the recorded statuses; the end of the run and its outcome are two
statements.
-/

namespace Metnos.Jobs

open Transaction

/-- A failing `CallbackOutcome`, or a dictionary whose `ok` is false. -/
def CallbackResult.fails : CallbackResult → Bool
  | .outcome status _ _ => decide (status ≠ "success")
  | .dict fields => Dynamic.isFalse (fields.get "ok")
  | .none | .other _ => false

/-- The callback returned, and its value is no failure. -/
def Awaited.succeeds : Awaited → Bool
  | .returned result => !result.fails
  | _ => false

/-- What was awaited by the run when it ended last. -/
def lastEnd (k n : ℕ) : List Event → Option Awaited
  | [] => none
  | .ended k' n' a _ :: rest => if k' = k ∧ n' = n then a else lastEnd k n rest
  | _ :: rest => lastEnd k n rest

namespace Daemon

/-- A run with the status of a success has a callback that succeeded. -/
def Honest (w : Daemon) : Prop :=
  ∀ n r, w.storage.runs.find? n = some r → r.status = "success" →
    (lastEnd r.entryId n w.history).any Awaited.succeeds = true

/-- The condition on an act: the `await` of a callback is not left by a cancellation or another
`BaseException` that is no `Exception`, and no run is purged before it has ended. -/
def Returns (w : Daemon) : Act → Prop
  | .endRun _ .interrupted _ => False
  | .purgeNames names => ∀ x ∈ w.fires.rows, x.stage.isCalled = true → x.entry.name ∉ names
  | _ => True

instance (w : Daemon) : ∀ a, Decidable (Returns w a)
  | .endRun _ a _ => by
    cases a
    case interrupted => exact inferInstanceAs (Decidable False)
    all_goals exact inferInstanceAs (Decidable True)
  | .purgeNames names =>
    inferInstanceAs (Decidable (∀ x ∈ w.fires.rows, x.stage.isCalled = true → x.entry.name ∉ names))
  | .upsert _ | .delete _ | .enable _ _ | .disable _ | .updateNextFire _ _ | .boot _ | .fetch _
  | .cancel _ | .admitFire _ _ | .call _ _ | .record _ _ | .leave _ _ | .die =>
    inferInstanceAs (Decidable True)

/-! ## The status of a run -/

theorem succeeds_of_status (env : Environment) (e : ScheduleEntry) {a : Awaited}
    (h : (callOutcome env e a).status = "success") (returns : a ≠ .interrupted) :
    env.registered e.callbackKey = true ∧ a.succeeds = true := by
  have error : ¬ "error" = "success" := by decide
  unfold callOutcome at h
  split_ifs at h with registered
  · refine ⟨registered, ?_⟩
    cases a with
    | interrupted => exact absurd rfl returns
    | timedOut => exact absurd (show "timeout" = "success" from h) (by decide)
    | raised text => exact absurd h error
    | returned result =>
      cases result with
      | none => rfl
      | other text => rfl
      | outcome status output text =>
        simp only [awaitedOutcome, resultOutcome] at h
        split_ifs at h
        · have status : status = "success" := h
          simp [Awaited.succeeds, CallbackResult.fails, status]
        · exact absurd h error
      | dict fields =>
        simp only [awaitedOutcome, resultOutcome] at h
        split_ifs at h with failed
        · exact absurd h error
        · simp [Awaited.succeeds, CallbackResult.fails, failed]
  · exact absurd h error

/-! ## Runs under way -/

/-- The row of a run under way is there. -/
def Begun (w : Daemon) : Prop :=
  ∀ k e n t, w.fires.find? k = some ⟨e, .called n t⟩ →
    ∃ r, w.storage.runs.find? n = some r ∧ r.entryId = k ∧ r.entryName = e.name

section
variable {env : Environment} {w w' : Daemon} {a : Act}

theorem called_of_transact (h : transact env w a = .ok w') {k n : ℕ} {e : ScheduleEntry} {t : ℤ}
    (fire : w'.fires.find? k = some ⟨e, .called n t⟩) :
    w.fires.find? k = some ⟨e, .called n t⟩ ∨
      (w.fires.find? k = some ⟨e, .admitted⟩ ∧ n = w.storage.beginRunId ∧ a = .call k t) := by
  have m := transact_moves h k
  have fire : (w'.view k).fire = some ⟨e, .called n t⟩ := fire
  generalize w'.view k = v at m fire
  cases m with
  | keeps _ => exact .inl fire
  | registered _ _ => exact .inl fire
  | enabled _ _ _ _ => exact .inl fire
  | called now e admitted =>
    cases fire
    exact .inr ⟨admitted, rfl, rfl⟩
  | _ => cases fire

/-- What an act does to the rows of `runs`. -/
inductive RunsMove (env : Environment) (w w' : Daemon) : Act → Prop
  | same {b : Act} (other : ∀ k now, b ≠ .call k now) (runs : w'.storage.runs = w.storage.runs)
      (ends : ∀ k n, lastEnd k n w'.history = lastEnd k n w.history) : RunsMove env w w' b
  | purged (names) (runs : w'.storage.runs = w.storage.runs.keep fun r => r.entryName ∉ names)
      (history : w'.history = w.history) : RunsMove env w w' (.purgeNames names)
  | crashed (now) (idle : w.fires.rows.isEmpty = true)
      (runs : w'.storage.runs = (w.storage.markCrashedRuns now).runs)
      (history : w'.history = w.history) : RunsMove env w w' (.boot now)
  | began (k now e) (runs : w'.storage.runs = (w.storage.beginRun k e.name now).runs)
      (fire : w.fires.find? k = some ⟨e, .admitted⟩)
      (ends : ∀ k n, lastEnd k n w'.history = lastEnd k n w.history) :
      RunsMove env w w' (.call k now)
  | ended (k b now e n t) (fire : w.fires.find? k = some ⟨e, .called n t⟩)
      (runs : w'.storage.runs = (w.storage.endRun n (callOutcome env e b).status (now - t)
        (callOutcome env e b).output now).runs)
      (history : w'.history = .ended k n (if env.registered e.callbackKey then some b else none)
        (callOutcome env e b).status :: w.history) :
      RunsMove env w w' (.endRun k b now)

theorem lastEnd_reset (st : Storage) (j k n : ℕ) (l : List Event) :
    lastEnd k n (reset st j ++ l) = lastEnd k n l := by
  unfold reset
  split <;> rfl

theorem runs_skip (e : ScheduleEntry) (now : ℤ) :
    (w.skip env e now).storage.runs = w.storage.runs ∧ (w.skip env e now).history = w.history := by
  unfold skip
  split <;> exact ⟨rfl, rfl⟩

theorem runs_admitFire (e : ScheduleEntry) (now : ℤ) :
    (w.admitFire env e now).storage.runs = w.storage.runs ∧
      (w.admitFire env e now).history = w.history := by
  unfold admitFire
  split_ifs
  · exact runs_skip e now
  · exact ⟨rfl, rfl⟩
  · exact ⟨rfl, rfl⟩
  · exact runs_skip e now
  · exact ⟨rfl, rfl⟩
  · unfold enter
    split <;> exact ⟨rfl, rfl⟩

theorem transact_runs (h : transact env w a = .ok w') : RunsMove env w w' a := by
  cases a with
  | upsert e =>
    cases h
    exact .same (by intro _ _ he; cases he) rfl fun k n => lastEnd_reset _ _ k n _
  | enable j now =>
    cases h
    exact .same (by intro _ _ he; cases he) rfl fun k n => lastEnd_reset _ _ k n _
  | delete name =>
    cases h
    exact .same (by intro _ _ he; cases he) rfl fun _ _ => rfl
  | purgeNames names =>
    cases h
    exact .purged names rfl rfl
  | disable j =>
    cases h
    exact .same (by intro _ _ he; cases he) rfl fun _ _ => rfl
  | updateNextFire j t =>
    cases h
    exact .same (by intro _ _ he; cases he) rfl fun _ _ => rfl
  | boot now =>
    simp only [transact] at h
    split_ifs at h with idle
    cases h
    exact .crashed now idle rfl rfl
  | fetch now =>
    simp only [transact] at h
    split_ifs at h
    cases h
    exact .same (by intro _ _ he; cases he) rfl fun _ _ => rfl
  | cancel j =>
    simp only [transact] at h
    split at h <;> cases h
    exact .same (by intro _ _ he; cases he) rfl fun _ _ => rfl
  | admitFire j now =>
    simp only [transact] at h
    split at h <;> cases h
    exact .same (by intro _ _ he; cases he) (runs_admitFire _ now).1 fun _ _ => by rw [(runs_admitFire _ now).2]
  | call j now =>
    simp only [transact] at h
    split at h
    · rename_i e fire
      cases h
      obtain rfl : e.id = j := key_of_fire fire
      refine .began e.id now e rfl fire fun k n => ?_
      show lastEnd k n (if env.registered e.callbackKey then .started e.id :: w.history
        else w.history) = _
      split_ifs <;> rfl
    · cases h
  | endRun j a now =>
    simp only [transact] at h
    split at h
    · rename_i e n t fire
      cases h
      obtain rfl : e.id = j := key_of_fire fire
      exact .ended e.id a now e n t fire rfl rfl
    · cases h
  | record j now =>
    simp only [transact] at h
    split at h <;> cases h
    exact .same (by intro _ _ he; cases he) rfl fun _ _ => rfl
  | leave j cancelled =>
    simp only [transact] at h
    split at h <;> cases h
    cases cancelled <;> exact .same (by intro _ _ he; cases he) rfl fun _ _ => rfl
  | die =>
    cases h
    exact .same (by intro _ _ he; cases he) rfl fun _ _ => rfl

/-! ## One act -/

theorem Begun.transact (B : Begun w) (ok : Returns w a) (h : transact env w a = .ok w') :
    Begun w' := by
  intro k e n t fire
  have runs := transact_runs h
  rcases called_of_transact h fire with before | ⟨admitted, rfl, rfl⟩
  · obtain ⟨r, found, entryId, name⟩ := B k e n t before
    cases runs with
    | same _ runs _ => exact ⟨r, runs ▸ found, entryId, name⟩
    | purged names runs _ =>
      refine ⟨r, ?_, entryId, name⟩
      have spared := ok ⟨e, .called n t⟩ (Table.mem_of_find? before) rfl
      rw [runs, Table.find?_keep, found, Option.filter_some, if_pos]
      simpa [name] using spared
    | crashed now idle _ _ =>
      have mem := Table.mem_of_find? before
      rw [List.isEmpty_iff.mp idle] at mem
      cases mem
    | began j now e' runs _ _ =>
      refine ⟨r, ?_, entryId, name⟩
      have ne : n ≠ w.storage.beginRunId := by
        rintro rfl
        rw [Storage.find?_beginRunId] at found
        cases found
      rw [runs, Storage.find?_beginRun, if_neg ne]
      exact found
    | ended j a now e' n' t' _ runs _ =>
      rw [runs, Storage.find?_endRun, found]
      refine ⟨_, rfl, ?_, ?_⟩
      · dsimp only
        split_ifs <;> exact entryId
      · dsimp only
        split_ifs <;> exact name
  · cases runs with
    | same other _ _ => exact absurd rfl (other k t)
    | began j now e' runs fire _ =>
      obtain rfl : e = e' := by
        rw [admitted] at fire
        cases fire
        rfl
      have found := Storage.find?_beginRun w.storage k w.storage.beginRunId e.name t
      rw [if_pos rfl, ← runs] at found
      exact ⟨_, found, rfl, rfl⟩

theorem Honest.transact (H : Honest w) (B : Begun w) (ok : Returns w a)
    (h : transact env w a = .ok w') : Honest w' := by
  intro n r found success
  cases transact_runs h with
  | same _ runs ends =>
    rw [runs] at found
    rw [ends]
    exact H n r found success
  | purged names runs history =>
    rw [runs, Table.find?_keep, Option.filter_eq_some_iff] at found
    rw [history]
    exact H n r found.1 success
  | crashed now idle runs history =>
    rw [runs, Storage.find?_markCrashedRuns] at found
    obtain ⟨r₀, before, crashed⟩ := Option.map_eq_some_iff.mp found
    rw [history]
    split_ifs at crashed
    · rw [← crashed] at success
      exact absurd (show "crashed" = "success" from success) (by decide)
    · rw [← crashed] at success ⊢
      exact H n r₀ before success
  | began k now e runs _ ends =>
    rw [runs, Storage.find?_beginRun] at found
    rw [ends]
    split_ifs at found
    · cases found
      exact absurd (show "running" = "success" from success) (by decide)
    · exact H n r found success
  | ended k b now e m t fire runs history =>
    obtain ⟨begun, there, entryId, -⟩ := B k e m t fire
    rw [runs, Storage.find?_endRun] at found
    obtain ⟨r₀, before, after⟩ := Option.map_eq_some_iff.mp found
    have keyed : r₀.id = n := Table.key_of_find? before
    rw [history, lastEnd]
    by_cases own : n = m
    · subst own
      obtain rfl : begun = r₀ := Option.some.inj (there.symm.trans before)
      rw [if_pos (decide_eq_true keyed)] at after
      have same : r.entryId = k := by
        rw [← after]
        exact entryId
      have status : (callOutcome env e b).status = "success" := by
        rw [← after] at success
        exact success
      have returns : b ≠ .interrupted := by
        rintro rfl
        exact ok
      obtain ⟨registered, succeeds⟩ := succeeds_of_status env e status returns
      rw [if_pos ⟨same.symm, rfl⟩, if_pos registered]
      exact succeeds
    · rw [if_neg (by rw [keyed]; simpa using own)] at after
      rw [if_neg (fun both => own both.2.symm)]
      subst after
      exact H n r₀ before success

end

/-! ## The counters -/

/-- The counters that the entry had when it was registered or enabled last, and the statuses of its runs
that ended since, the newest first. -/
def sinceReset : List Event → Option (ℕ × ℕ × List String)
  | [] => none
  | .reset _ total failures :: _ => some (total, failures, [])
  | .ended _ _ _ status :: rest => (sinceReset rest).map fun x => (x.1, x.2.1, status :: x.2.2)
  | .started _ :: rest => sinceReset rest

/-- The newest statuses in a row that are hard failures, and those before the first of them when all
are. -/
def streak (failures : ℕ) (statuses : List String) : ℕ :=
  (statuses.takeWhile Storage.isHardFailure).length +
    if statuses.all Storage.isHardFailure then failures else 0

/-- The status of a run that has ended and is not recorded yet. -/
def inHand : Option Fire → List String
  | some ⟨_, .ended o _⟩ => [o.status]
  | _ => []

/-- The row counts the runs that ended since the last reset, without the one in hand. -/
def Counted (v : View) : Prop :=
  ∀ r, v.row = some r → ∃ total failures statuses,
    sinceReset v.events = some (total, failures, inHand v.fire ++ statuses) ∧
    r.totalRuns = total + statuses.length ∧ r.consecutiveFailures = streak failures statuses

/-- A run of the entry has ended and is not recorded yet. -/
def between (w : Daemon) (k : ℕ) : Bool := !(inHand (w.fires.find? k)).isEmpty

/-- The condition on an act: between the end of a run and its outcome the entry is neither registered
nor enabled, and the process does not die. -/
def Whole (w : Daemon) : Act → Prop
  | .upsert e => w.between (w.storage.upsertId e) = false
  | .enable k _ => w.between k = false
  | .die => ∀ x ∈ w.fires.rows, w.between x.key = false
  | _ => True

instance (w : Daemon) : ∀ a, Decidable (Whole w a)
  | .upsert e => inferInstanceAs (Decidable (w.between (w.storage.upsertId e) = false))
  | .enable k _ => inferInstanceAs (Decidable (w.between k = false))
  | .die => inferInstanceAs (Decidable (∀ x ∈ w.fires.rows, w.between x.key = false))
  | .delete _ | .purgeNames _ | .disable _ | .updateNextFire _ _ | .boot _ | .fetch _ | .cancel _
  | .admitFire _ _ | .call _ _ | .endRun _ _ _ | .record _ _ | .leave _ _ =>
    inferInstanceAs (Decidable True)

theorem streak_cons (failures : ℕ) (status : String) (statuses : List String) :
    streak failures (status :: statuses) =
      if Storage.isHardFailure status then streak failures statuses + 1 else 0 := by
  unfold streak
  rw [List.takeWhile_cons, List.all_cons]
  split_ifs with hard all both
  · rw [List.length_cons]
    omega
  · simp_all
  · simp_all
  · rw [List.length_cons]
  · simp_all
  · rfl

section
variable {env : Environment} {w w' : Daemon} {k : ℕ} {v : View}

theorem inHand_of_between (h : w.between k = false) : inHand (w.view k).fire = [] := by
  unfold between at h
  rw [Bool.not_eq_false', List.isEmpty_iff] at h
  exact h

theorem Counted.keeps (C : Counted v) {row' : Option ScheduleEntry} (keeps : Keeps v.row row')
    {fire' : Option Fire} (same : inHand fire' = inHand v.fire) :
    Counted ⟨row', fire', v.events⟩ := by
  rintro r' rfl
  obtain ⟨r, row, -, -, total, failures, -⟩ := keeps r' rfl
  obtain ⟨t, f, statuses, since, counts, streaks⟩ := C r row
  refine ⟨t, f, statuses, ?_, total.trans counts, failures.trans streaks⟩
  rw [same]
  exact since

theorem Moves.counted {a : Act} (m : Moves env k w a v) (whole : Whole w a)
    (C : Counted (w.view k)) : Counted v := by
  cases m with
  | keeps row => exact C.keeps row rfl
  | registered e target =>
    rintro r ⟨⟩
    have free : inHand (w.view k).fire = [] := inHand_of_between (target ▸ whole)
    refine ⟨e.totalRuns, e.consecutiveFailures, [], ?_, rfl, ?_⟩
    · rw [free]
      rfl
    · show e.consecutiveFailures = 0 + e.consecutiveFailures
      omega
  | enabled now next r row =>
    rintro r' ⟨⟩
    have free : inHand (w.view k).fire = [] := inHand_of_between whole
    refine ⟨r.totalRuns, 0, [], ?_, rfl, rfl⟩
    rw [free]
    rfl
  | fetched now r idle row on => exact C.keeps (Keeps.refl _) (by rw [idle]; rfl)
  | dropped x fire stage row =>
    refine C.keeps row ?_
    rw [fire]
    obtain ⟨e, s⟩ := x
    rcases stage with rfl | rfl <;> rfl
  | admitted now e fire bound => exact C.keeps (Keeps.refl _) (by rw [fire]; rfl)
  | inferred now e n e' fire bound same =>
    rintro r' row'
    obtain ⟨r, row, rfl⟩ := Option.map_eq_some_iff.mp row'
    obtain ⟨t, f, statuses, since, counts, streaks⟩ := C r row
    rw [fire] at since
    refine ⟨t, f, statuses, since, ?_, ?_⟩
    · split_ifs <;> exact counts
    · split_ifs <;> exact streaks
  | called now e fire =>
    rintro r row
    obtain ⟨t, f, statuses, since, counts, streaks⟩ := C r row
    rw [fire] at since
    refine ⟨t, f, statuses, ?_, counts, streaks⟩
    split_ifs <;> exact since
  | ended b now e runId startedAt fire =>
    rintro r row
    obtain ⟨t, f, statuses, since, counts, streaks⟩ := C r row
    rw [fire] at since
    refine ⟨t, f, statuses, ?_, counts, streaks⟩
    show (sinceReset (w.view k).events).map _ = _
    rw [since]
    rfl
  | recorded now e o durationMs fire =>
    rintro r' row'
    obtain ⟨r, row, rfl⟩ := Option.map_eq_some_iff.mp row'
    obtain ⟨t, f, statuses, since, counts, streaks⟩ := C r row
    rw [fire] at since
    refine ⟨t, f, o.status :: statuses, since, ?_, ?_⟩
    · show r.totalRuns + 1 = t + (statuses.length + 1)
      omega
    · rw [streak_cons, ← streaks]
      rfl
  | died =>
    refine C.keeps (Keeps.refl _) ?_
    rcases fire : (w.view k).fire with _ | x
    · rfl
    · have keyed : x.key = k := Table.key_of_find? fire
      have free := whole x (Table.mem_of_find? fire)
      rw [keyed] at free
      rw [← fire, inHand_of_between free]
      rfl

end

/-! ## Runs of the daemon -/

/-- **Honest runs**: a run that is stored as a success has a callback that returned no failure, in every
run of the daemon that no `await` leaves otherwise; and since an entry was registered or enabled its row
counts the runs that ended, in every run of the daemon in which the end of a run and its outcome are
not torn apart. -/
theorem honest_runs (env : Environment) (acts : List Act) :
    (Meets (transact env) Returns init acts → Honest (runFrom env init acts)) ∧
    (Meets (transact env) Whole init acts → ∀ k r,
      (runFrom env init acts).storage.entries.find? k = some r →
      ∃ total failures statuses,
        sinceReset ((runFrom env init acts).view k).events =
          some (total, failures, inHand ((runFrom env init acts).view k).fire ++ statuses) ∧
        r.totalRuns = total + statuses.length ∧
        r.consecutiveFailures = streak failures statuses) := by
  constructor
  · intro met
    have all : Begun (runFrom env init acts) ∧ Honest (runFrom env init acts) := by
      refine run_invariant (I := fun w => Begun w ∧ Honest w) ?_ met ⟨?_, ?_⟩
      · exact fun ok h both => ⟨both.1.transact ok h, both.2.transact both.1 ok h⟩
      · intro k e n t fire
        cases fire
      · intro n r found
        cases found
    exact all.2
  · intro met k r found
    have all : Counted ((runFrom env init acts).view k) := by
      refine run_invariant (I := fun w => Counted (w.view k)) ?_ met ?_
      · exact fun whole h C => (transact_moves h k).counted whole C
      · intro r found
        cases found
    exact all r found

/-! ## A run that is cancelled -/

/-- The daemon is stopped while the callback of the job is awaited. -/
def stopped : List Act :=
  [.upsert oneRun, .fetch 0, .admitFire 1 0, .call 1 0, .endRun 1 .interrupted 5000, .record 1 5000,
    .leave 1 true]

/-- The run is stored as a success. -/
theorem interrupted_run_is_a_success :
    ((runFrom everyMinute init stopped).storage.runs.find? 1).map Run.status = some "success" ∧
    ¬ Honest (runFrom everyMinute init stopped) := by
  refine ⟨rfl, fun honest => ?_⟩
  have succeeds := honest 1 _ rfl rfl
  exact absurd succeeds (by decide)

/-- Two ticks, a suspension and a resumption. -/
def resumed : List Act :=
  .upsert oneRun :: tick 1 0 ++ Client.resumeJob ranOnce.storage "report" 1000 ++ tick 1 61000

theorem resumed_runs_are_honest : Honest (runFrom everyMinute init resumed) ∧
    ∃ total failures statuses,
      sinceReset ((runFrom everyMinute init resumed).view 1).events =
        some (total, failures, inHand ((runFrom everyMinute init resumed).view 1).fire ++ statuses) ∧
      2 = total + statuses.length ∧ 0 = streak failures statuses := by
  refine ⟨(honest_runs everyMinute resumed).1 (by decide), ?_⟩
  exact (honest_runs everyMinute resumed).2 (by decide) 1 _ rfl

end Daemon

end Metnos.Jobs
