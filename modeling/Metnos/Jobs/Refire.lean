import Metnos.Jobs.Moves
import Metnos.Jobs.Triggers

/-!
# Jobs.Refire — an entry is not due again for the same instant

A fire leaves its entry disabled or with a later instant exactly where the trigger goes on after it,
or the entry has expired, or finished its runs, or failed so often that it is slowed down.  An instant
that is past never goes on: a job with such a trigger fires at every tick.
-/

namespace Metnos.Jobs

open Transaction Daemon

/-- The environment of a daemon whose triggers are read by the parser. -/
def Environment.parsing (env : Environment) (py : Python) : Environment :=
  { env with nextFire := nextFireAt py }

/-! ## Jobs -/

/-- The arguments of `add_job`. -/
structure JobRequest where
  name : String
  trigger : String
  callbackKey : String
  payload : Dynamic.Dict := []
  timeoutS : Option ℤ := none
  weekdays : String := ""
  expiresAt : String := ""
  graceWindowS : Option ℤ := none
  remainingRuns : ℤ := 0
  tzName : String := "Europe/Rome"

/-- The entry that `add_job` writes; none where the trigger is refused. -/
def addJob (py : Python) (job : JobRequest) (now : ℤ) : Option ScheduleEntry :=
  (nextFireAt py job.trigger job.tzName now).map fun next =>
    { name := job.name
      trigger := job.trigger
      nextFireAt := next
      recurring := true
      callbackKey := job.callbackKey
      payload := job.payload
      weekdays := job.weekdays
      expiresAt := job.expiresAt
      timeoutS := job.timeoutS
      graceWindowS := job.graceWindowS
      remainingRuns := max 0 job.remainingRuns }

/-- A row of a job; its counters and its instants may have changed since it was added. -/
def IsJob (py : Python) (e : ScheduleEntry) : Prop :=
  ∃ job now added, addJob py job now = some added ∧ e.trigger = added.trigger ∧
    e.recurring = added.recurring

theorem IsJob.recurring {py : Python} {e : ScheduleEntry} (h : IsJob py e) : e.recurring = true := by
  obtain ⟨job, now, added, hadded, -, same⟩ := h
  obtain ⟨next, -, rfl⟩ := Option.map_eq_some_iff.mp hadded
  exact same

/-! ## A whole fire -/

/-- The clock at the steps of a fire. -/
structure Readings where
  entry : ℤ
  call : ℤ
  endRun : ℤ
  record : ℤ
  ordered : entry ≤ call ∧ call ≤ endRun ∧ endRun ≤ record

/-- `_fire` of an entry to its end; steps behind an early return do nothing. -/
def fireActs (k : ℕ) (clock : Readings) (a : Awaited) (cancelled : Bool) : List Act :=
  [.admitFire k clock.entry, .call k clock.call, .endRun k a clock.endRun, .record k clock.record,
    .leave k cancelled]

/-- The entry is in the tick, as it is in the storage, and due. -/
structure IsDue (w : Daemon) (e : ScheduleEntry) (t : ℤ) : Prop where
  fire : w.fires.find? e.id = some ⟨e, .due⟩
  row : w.storage.entries.find? e.id = some e
  enabled : e.enabled = true
  due : e.nextFireAt ≤ t

/-- An enabled entry past its grace window, as `_recover_missed` finds it. -/
structure IsMissed (w : Daemon) (e : ScheduleEntry) (t : ℤ) : Prop where
  row : w.storage.entries.find? e.id = some e
  enabled : e.enabled = true
  past : e.graceWindowS.any (fun grace => decide (1000 * grace < t - e.nextFireAt)) = true
  due : e.nextFireAt < t

/-- The row is gone, disabled, or not due at `t` nor before. -/
def Cooled (w : Daemon) (k : ℕ) (t : ℤ) : Prop :=
  ∀ r, w.storage.entries.find? k = some r → r.enabled = false ∨ t < r.nextFireAt

section
variable (env : Environment) (w : Daemon) (e : ScheduleEntry)

def offDay (t : ℤ) : Prop := e.weekdays ≠ "" ∧ env.onAllowedDay e.weekdays t = false

def hasExpired (t : ℤ) : Prop := e.expiresAt ≠ "" ∧ env.expired e.expiresAt t = true

def overlaps : Prop := max 1 e.maxConcurrent ≤ w.running e.id

instance (t : ℤ) : Decidable (offDay env e t) := inferInstanceAs (Decidable (_ ∧ _))
instance (t : ℤ) : Decidable (hasExpired env e t) := inferInstanceAs (Decidable (_ ∧ _))
instance : Decidable (overlaps w e) := inferInstanceAs (Decidable (_ ≤ _))

/-- The entry with the bound that an old entry has in its payload only. -/
def bounded : ScheduleEntry :=
  match inferredRuns env e with
  | some inferred => { e with remainingRuns := inferred }
  | none => e

/-- A recurring entry that failed so often in a row that the next attempt is put off. -/
def slowedDown (status : String) : Bool :=
  e.recurring && Storage.isHardFailure status && decide (0 < env.circuitBreakAfter) &&
    !finishes e && decide (env.circuitBreakAfter ≤ (e.consecutiveFailures : ℤ) + 1)

/-- The reading of the clock by which the fire decides. -/
def decidedAt (clock : Readings) : ℤ :=
  if offDay env e clock.entry ∨ hasExpired env e clock.entry ∨ overlaps w e then clock.entry
  else clock.record

/-- When a fire cools its entry down, by the branch it takes. -/
def Settles (py : Python) (clock : Readings) (a : Awaited) : Prop :=
  if offDay env e clock.entry then Advances py e.trigger env.tzName clock.entry
  else if hasExpired env e clock.entry then True
  else if overlaps w e then Advances py e.trigger env.tzName clock.entry
  else finishes (bounded env e) = true ∨
    slowedDown env (bounded env e) (callOutcome env (bounded env e) a).status = true ∨
    Advances py e.trigger env.tzName clock.record

end

/-! ## The steps of a fire -/

section
variable {env : Environment} {w : Daemon} {e : ScheduleEntry} {k : ℕ} {t : ℤ}

theorem commit_ok {w w' : Daemon} {a : Act} (h : transact env w a = .ok w') :
    commit (transact env) w a = w' := by
  unfold commit
  rw [h]

theorem commit_error {w : Daemon} {a : Act} (h : transact env w a = .error ()) :
    commit (transact env) w a = w := by
  unfold commit
  rw [h]

theorem run_ended (gone : w.fires.find? k = none) (clock : Readings) (a : Awaited)
    (cancelled : Bool) :
    runFrom env w [.call k clock.call, .endRun k a clock.endRun, .record k clock.record,
      .leave k cancelled] = w := by
  have call : transact env w (.call k clock.call) = .error () := by
    simp only [transact, gone]
  have endRun : transact env w (.endRun k a clock.endRun) = .error () := by
    simp only [transact, gone]
  have record : transact env w (.record k clock.record) = .error () := by
    simp only [transact, gone]
  have leave : transact env w (.leave k cancelled) = .error () := by
    simp only [transact, gone]
  simp only [run_cons, run_nil, commit_error call, commit_error endRun, commit_error record,
    commit_error leave]

theorem commit_admitFire (due : IsDue w e t) (now : ℤ) :
    commit (transact env) w (.admitFire e.id now) = w.admitFire env e now :=
  commit_ok (by simp only [transact, due.fire])

theorem run_early (due : IsDue w e t) (clock : Readings) (a : Awaited) (cancelled : Bool)
    (gone : (w.admitFire env e clock.entry).fires.find? e.id = none) :
    runFrom env w (fireActs e.id clock a cancelled) = w.admitFire env e clock.entry := by
  show run _ (commit (transact env) w (.admitFire e.id clock.entry)) _ = _
  rw [commit_admitFire due]
  exact run_ended gone clock a cancelled

theorem find?_skip_self (row : w.storage.entries.find? e.id = some e) (now : ℤ) :
    (w.skip env e now).storage.entries.find? e.id =
      some { e with nextFireAt := (env.nextFire e.trigger env.tzName now).getD e.nextFireAt } := by
  unfold skip
  cases env.nextFire e.trigger env.tzName now with
  | none => exact row
  | some next =>
    show (w.storage.updateNextFire e.id next).entries.find? e.id = _
    unfold Storage.updateNextFire
    rw [Storage.find?_updateEntry_self, row]
    rfl

theorem find?_fires_skip (now : ℤ) : (w.skip env e now).fires.find? e.id = none := by
  unfold skip
  cases env.nextFire e.trigger env.tzName now with
  | none => exact find?_endFire_self e.id
  | some next => exact find?_endFire_self e.id

theorem find?_enter_self (due : IsDue w e t) :
    (w.enter env e).storage.entries.find? e.id = some (bounded env e) ∧
      (w.enter env e).fires.find? e.id = some ⟨bounded env e, .admitted⟩ := by
  unfold enter bounded
  cases bound : inferredRuns env e with
  | none => exact ⟨due.row, find?_setStage_self (x := ⟨e, .due⟩) due.fire _⟩
  | some inferred =>
    have zero : e.remainingRuns = 0 := by
      unfold inferredRuns at bound
      rw [Option.ite_none_right_eq_some] at bound
      simp only [Bool.and_eq_true, decide_eq_true_eq] at bound
      exact bound.1.1.2
    have stored : w.storage.uninitialized e.id = true := by
      unfold Storage.uninitialized
      rw [due.row, Option.any_some, zero]
      rfl
    constructor
    · show (w.storage.initializeRemainingRuns e.id inferred).entries.find? e.id = _
      unfold Storage.initializeRemainingRuns
      rw [Storage.find?_updateEntry_self, due.row, Option.map_some, if_pos zero]
    · dsimp only
      rw [stored]
      exact Table.find?_update_self (Fire.key_toAdmitted true inferred) due.fire

theorem bounded_id : (bounded env e).id = e.id := by
  unfold bounded
  cases inferredRuns env e <;> rfl

theorem bounded_row : (bounded env e).enabled = e.enabled ∧
    (bounded env e).nextFireAt = e.nextFireAt ∧ (bounded env e).trigger = e.trigger ∧
    (bounded env e).recurring = e.recurring := by
  unfold bounded
  cases inferredRuns env e <;> exact ⟨rfl, rfl, rfl, rfl⟩

theorem run_called (due : IsDue w e t) (clock : Readings) (a : Awaited) (cancelled : Bool)
    (entered : w.admitFire env e clock.entry = w.enter env e) :
    (runFrom env w (fireActs e.id clock a cancelled)).storage.entries.find? e.id =
      some ((report env (bounded env e) (callOutcome env (bounded env e) a)
        (clock.endRun - clock.call) clock.record).apply (bounded env e)) := by
  obtain ⟨row, fire⟩ := @find?_enter_self env _ _ _ due
  have sameId : (bounded env e).id = e.id := bounded_id
  generalize bounded env e = b at row fire sameId
  show (run _ (commit (transact env) w (.admitFire e.id clock.entry)) _).storage.entries.find? e.id = _
  rw [commit_admitFire due, entered]
  generalize w.enter env e = w1 at row fire
  -- the run begins
  have call : transact env w1 (.call e.id clock.call) = .ok (w1.call env b clock.call) := by
    simp only [transact, fire]
  have fire2 : (w1.call env b clock.call).fires.find? e.id =
      some ⟨b, .called w1.storage.beginRunId clock.call⟩ := by
    unfold Daemon.call
    rw [sameId]
    exact find?_setStage_self (x := ⟨b, .admitted⟩) fire _
  have row2 : (w1.call env b clock.call).storage.entries.find? e.id = some b := row
  rw [run_cons, commit_ok call]
  generalize w1.call env b clock.call = w2 at row2 fire2
  -- the callback ended
  have endRun : transact env w2 (.endRun e.id a clock.endRun) =
      .ok (w2.endRun env b w1.storage.beginRunId clock.call a clock.endRun) := by
    simp only [transact, fire2]
  have fire3 : (w2.endRun env b w1.storage.beginRunId clock.call a clock.endRun).fires.find? e.id =
      some ⟨b, .ended (callOutcome env b a) (clock.endRun - clock.call)⟩ := by
    unfold Daemon.endRun
    rw [sameId]
    exact find?_setStage_self (x := ⟨b, _⟩) fire2 _
  have row3 : (w2.endRun env b w1.storage.beginRunId clock.call a
      clock.endRun).storage.entries.find? e.id = some b := row2
  rw [run_cons, commit_ok endRun]
  generalize w2.endRun env b w1.storage.beginRunId clock.call a clock.endRun = w3 at row3 fire3
  -- the outcome is recorded
  have record : transact env w3 (.record e.id clock.record) =
      .ok (w3.record env b (callOutcome env b a) (clock.endRun - clock.call) clock.record) := by
    simp only [transact, fire3]
  have fire4 : (w3.record env b (callOutcome env b a) (clock.endRun - clock.call)
      clock.record).fires.find? e.id = some ⟨b, .recorded⟩ := by
    unfold Daemon.record
    rw [sameId]
    exact find?_setStage_self (x := ⟨b, _⟩) fire3 _
  have row4 : (w3.record env b (callOutcome env b a) (clock.endRun - clock.call)
      clock.record).storage.entries.find? e.id =
      some ((report env b (callOutcome env b a) (clock.endRun - clock.call)
        clock.record).apply b) := by
    have updated := @Storage.find?_updateEntry_self w3.storage e.id
      (report env b (callOutcome env b a) (clock.endRun - clock.call) clock.record).apply
      fun _ => rfl
    rw [row3] at updated
    show (w3.storage.recordOutcome b.id _).entries.find? e.id = _
    rw [sameId]
    exact updated
  rw [run_cons, commit_ok record]
  generalize w3.record env b (callOutcome env b a) (clock.endRun - clock.call) clock.record = w4
    at row4 fire4
  have leave : transact env w4 (.leave e.id cancelled) = .ok (w4.leave e.id cancelled) := by
    simp only [transact, fire4]
  rw [run_cons, commit_ok leave, run_nil]
  have kept : (w4.leave e.id cancelled).storage = w4.storage := by
    unfold Daemon.leave
    split <;> rfl
  rw [kept]
  exact row4

end

/-! ## What a fire leaves -/

section
variable {env : Environment} {py : Python} {w : Daemon} {e : ScheduleEntry} {t : ℤ}

theorem cooled_of_row {w' : Daemon} {k : ℕ} {r : ScheduleEntry}
    (row : w'.storage.entries.find? k = some r) :
    Cooled w' k t ↔ r.enabled = false ∨ t < r.nextFireAt := by
  constructor
  · exact fun h => h r row
  · intro h r' row'
    obtain rfl := Option.some.inj (row.symm.trans row')
    exact h

theorem getD_later_iff {old : ℤ} (due : old ≤ t) (trigger : String) :
    t < ((env.parsing py).nextFire trigger env.tzName t).getD old ↔
      Advances py trigger env.tzName t := by
  rw [← nextFireAt_later_iff]
  show t < (nextFireAt py trigger env.tzName t).getD old ↔ _
  cases nextFireAt py trigger env.tzName t with
  | none =>
    constructor
    · intro later
      rw [Option.getD_none] at later
      omega
    · rintro ⟨next, h, -⟩
      cases h
  | some next =>
    constructor
    · exact fun later => ⟨next, rfl, later⟩
    · rintro ⟨next', same, later⟩
      exact Option.some.inj same ▸ later

theorem retryCooldownS_pos (failures : ℤ) : 0 < retryCooldownS env failures := by
  unfold retryCooldownS
  have power : (0 : ℤ) < 2 ^ (min (max 0 (failures - env.circuitBreakAfter)) 16).toNat :=
    pow_pos (by decide) _
  refine lt_min (by decide) ?_
  omega

theorem report_nextFireAt (recurring : e.recurring = true) (o : Outcome) (durationMs now : ℤ) :
    (report env e o durationMs now).nextFireAt =
      if slowedDown env e o.status then
        some (max ((env.nextFire e.trigger env.tzName now).getD 0)
          (now + 1000 * retryCooldownS env ((e.consecutiveFailures : ℤ) + 1)))
      else env.nextFire e.trigger env.tzName now := by
  unfold report slowedDown
  rw [recurring]
  rfl

theorem cooled_report (recurring : e.recurring = true) (enabled : e.enabled = true)
    (due : e.nextFireAt ≤ t) (o : Outcome) (durationMs : ℤ) :
    ((report (env.parsing py) e o durationMs t).apply e).enabled = false ∨
        t < ((report (env.parsing py) e o durationMs t).apply e).nextFireAt ↔
      finishes e = true ∨ slowedDown env e o.status = true ∨
        Advances py e.trigger env.tzName t := by
  have disabled : ((report (env.parsing py) e o durationMs t).apply e).enabled = false ↔
      finishes e = true := by
    show (e.enabled && !finishes e) = false ↔ _
    rw [enabled, Bool.true_and, Bool.not_eq_false']
  have later : t < ((report (env.parsing py) e o durationMs t).apply e).nextFireAt ↔
      slowedDown env e o.status = true ∨ Advances py e.trigger env.tzName t := by
    show t < ((report (env.parsing py) e o durationMs t).nextFireAt).getD e.nextFireAt ↔ _
    rw [report_nextFireAt recurring]
    by_cases slowed : slowedDown env e o.status = true
    · have pos := @retryCooldownS_pos env ((e.consecutiveFailures : ℤ) + 1)
      have put_off : t < max (((env.parsing py).nextFire e.trigger env.tzName t).getD 0)
          (t + 1000 * retryCooldownS env ((e.consecutiveFailures : ℤ) + 1)) :=
        lt_max_of_lt_right (by omega)
      have slowed' : slowedDown (env.parsing py) e o.status = true := slowed
      rw [if_pos slowed', Option.getD_some]
      exact ⟨fun _ => .inl slowed, fun _ => put_off⟩
    · have slowed' : ¬slowedDown (env.parsing py) e o.status = true := slowed
      rw [if_neg slowed']
      constructor
      · exact fun h => .inr ((getD_later_iff due e.trigger).mp h)
      · exact fun h => (getD_later_iff due e.trigger).mpr (h.resolve_left slowed)
  rw [disabled, later]

theorem skip_settles (due : IsDue w e t) :
    Cooled (w.skip (env.parsing py) e t) e.id t ↔ Advances py e.trigger env.tzName t := by
  rw [cooled_of_row (find?_skip_self due.row t), ← getD_later_iff due.due]
  constructor
  · intro h
    refine h.resolve_left fun off => ?_
    rw [show e.enabled = true from due.enabled] at off
    cases off
  · exact .inr

theorem disable_settles (due : IsDue w e t) :
    Cooled ({ w with storage := w.storage.disable e.id }.endFire e.id) e.id t := by
  intro r row
  have updated : (w.storage.disable e.id).entries.find? e.id = some r := row
  unfold Storage.disable at updated
  rw [Storage.find?_updateEntry_self, due.row] at updated
  left
  rw [← Option.some.inj updated]

theorem admit_eq (env : Environment) (w : Daemon) (e : ScheduleEntry) (now : ℤ) :
    w.admitFire env e now =
      if offDay env e now then
        if e.recurring then w.skip env e now
        else { w with storage := w.storage.disable e.id }.endFire e.id
      else if hasExpired env e now then
        { w with storage := w.storage.disable e.id }.endFire e.id
      else if overlaps w e then
        if e.recurring then w.skip env e now else w.endFire e.id
      else w.enter env e := rfl

theorem fire_settles {clock : Readings} (job : e.recurring = true) (due : IsDue w e clock.entry)
    (a : Awaited) (cancelled : Bool) :
    Cooled (runFrom (env.parsing py) w (fireActs e.id clock a cancelled)) e.id
        (decidedAt env w e clock) ↔ Settles env w e py clock a := by
  unfold decidedAt Settles
  by_cases off : offDay env e clock.entry
  · have early : w.admitFire (env.parsing py) e clock.entry = w.skip (env.parsing py) e clock.entry := by
      rw [admit_eq]
      exact (if_pos off).trans (if_pos job)
    rw [if_pos (.inl off), if_pos off,
      run_early due clock a cancelled (by rw [early]; exact find?_fires_skip _), early]
    exact skip_settles due
  · by_cases expired : hasExpired env e clock.entry
    · have early : w.admitFire (env.parsing py) e clock.entry =
          { w with storage := w.storage.disable e.id }.endFire e.id := by
        rw [admit_eq]
        exact (if_neg off).trans (if_pos expired)
      rw [if_pos (.inr (.inl expired)), if_neg off, if_pos expired,
        run_early due clock a cancelled (by rw [early]; exact find?_endFire_self _), early]
      exact iff_true_intro (disable_settles due)
    · by_cases overlap : overlaps w e
      · have early : w.admitFire (env.parsing py) e clock.entry =
            w.skip (env.parsing py) e clock.entry := by
          rw [admit_eq]
          exact (if_neg off).trans ((if_neg expired).trans ((if_pos overlap).trans (if_pos job)))
        rw [if_pos (.inr (.inr overlap)), if_neg off, if_neg expired, if_pos overlap,
          run_early due clock a cancelled (by rw [early]; exact find?_fires_skip _), early]
        exact skip_settles due
      · have entered : w.admitFire (env.parsing py) e clock.entry = w.enter (env.parsing py) e := by
          rw [admit_eq]
          exact (if_neg off).trans ((if_neg expired).trans (if_neg overlap))
        have decided : ¬(offDay env e clock.entry ∨ hasExpired env e clock.entry ∨ overlaps w e) :=
          not_or.mpr ⟨off, not_or.mpr ⟨expired, overlap⟩⟩
        rw [if_neg decided, if_neg off, if_neg expired, if_neg overlap,
          cooled_of_row (run_called due clock a cancelled entered)]
        obtain ⟨enabled, next, trigger, recurring⟩ := @bounded_row env e
        have order := clock.ordered
        have := due.due
        rw [← trigger]
        exact cooled_report (recurring.trans job) (enabled.trans due.enabled) (by omega) _ _

end

/-! ## The start -/

section
variable {env : Environment} {py : Python} {w : Daemon} {e : ScheduleEntry} {k : ℕ} {t : ℤ}

/-- The statements of `_recover_missed` for one entry. -/
def recoverActs (env : Environment) (now : ℤ) (e : ScheduleEntry) : List Act :=
  let age := now - e.nextFireAt
  if e.enabled && decide (0 < age) && e.graceWindowS.any (fun grace => decide (1000 * grace < age))
  then
    if e.recurring then
      match env.nextFire e.trigger env.tzName now with
      | some next => [.updateNextFire e.id next]
      | none => []
    else [.disable e.id]
  else []

theorem recoverMissed_eq (env : Environment) (st : Storage) (now : ℤ) :
    recoverMissed env st now = st.entries.rows.flatMap (recoverActs env now) := rfl

def Elsewhere (k : ℕ) : Act → Prop
  | .updateNextFire j _ => k ≠ j
  | .disable j => k ≠ j
  | _ => False

theorem elsewhere_recoverActs (ne : k ≠ e.id) : ∀ a ∈ recoverActs env t e, Elsewhere k a := by
  intro a ha
  unfold recoverActs at ha
  dsimp only at ha
  split at ha
  · split at ha
    · split at ha
      · rw [List.mem_singleton.mp ha]
        exact ne
      · cases ha
    · rw [List.mem_singleton.mp ha]
      exact ne
  · cases ha

theorem run_elsewhere {acts : List Act} (h : ∀ a ∈ acts, Elsewhere k a) (w : Daemon) :
    (runFrom env w acts).storage.entries.find? k = w.storage.entries.find? k := by
  induction acts generalizing w with
  | nil => rfl
  | cons a acts ih =>
    show (runFrom env (commit (transact env) w a) acts).storage.entries.find? k = _
    rw [ih fun b hb => h b (List.mem_cons_of_mem _ hb)]
    have other := h a List.mem_cons_self
    cases a with
    | updateNextFire j next => exact Storage.find?_updateEntry_ne _ _ _ other
    | disable j => exact Storage.find?_updateEntry_ne _ _ _ other
    | _ => exact other.elim

theorem find?_recover (row : w.storage.entries.find? e.id = some e) (now : ℤ) :
    ∃ w0 : Daemon, w0.storage.entries.find? e.id = some e ∧
      (runFrom env w (recoverMissed env w.storage now)).storage.entries.find? e.id =
        (runFrom env w0 (recoverActs env now e)).storage.entries.find? e.id := by
  obtain ⟨before, after, rows⟩ := List.append_of_mem (Table.mem_of_find? row)
  have nodup := w.storage.entries.nodup
  rw [rows, List.map_append, List.map_cons, List.nodup_append] at nodup
  obtain ⟨-, own, cross⟩ := nodup
  have notBefore : ∀ a ∈ before.flatMap (recoverActs env now), Elsewhere e.id a := by
    intro a ha
    obtain ⟨x, hx, ha⟩ := List.mem_flatMap.mp ha
    refine elsewhere_recoverActs (fun same => ?_) a ha
    exact cross x.id (List.mem_map_of_mem hx) e.id List.mem_cons_self same.symm
  have notAfter : ∀ a ∈ after.flatMap (recoverActs env now), Elsewhere e.id a := by
    intro a ha
    obtain ⟨x, hx, ha⟩ := List.mem_flatMap.mp ha
    refine elsewhere_recoverActs (fun same => ?_) a ha
    exact (List.nodup_cons.mp own).1 (same ▸ List.mem_map_of_mem hx)
  refine ⟨runFrom env w (before.flatMap (recoverActs env now)), ?_, ?_⟩
  · rw [run_elsewhere notBefore]
    exact row
  · rw [recoverMissed_eq, rows, List.flatMap_append, List.flatMap_cons]
    show (run _ w _).storage.entries.find? e.id = _
    rw [run_append, run_append]
    exact run_elsewhere notAfter _

theorem recover_settles (job : e.recurring = true) (missed : IsMissed w e t) :
    Cooled (runFrom (env.parsing py) w (recoverMissed (env.parsing py) w.storage t)) e.id t ↔
      Advances py e.trigger env.tzName t := by
  obtain ⟨w0, row, same⟩ := @find?_recover (env.parsing py) _ _ missed.row t
  have acts : recoverActs (env.parsing py) t e =
      match (env.parsing py).nextFire e.trigger env.tzName t with
      | some next => [.updateNextFire e.id next]
      | none => [] := by
    unfold recoverActs
    dsimp only
    rw [if_pos (by simp [missed.enabled, missed.past, missed.due]), if_pos job]
    rfl
  have after : (runFrom (env.parsing py) w0 (recoverActs (env.parsing py) t e)).storage.entries.find?
      e.id = some { e with nextFireAt :=
        ((env.parsing py).nextFire e.trigger env.tzName t).getD e.nextFireAt } := by
    rw [acts]
    cases (env.parsing py).nextFire e.trigger env.tzName t with
    | none => exact row
    | some next =>
      show (w0.storage.updateNextFire e.id next).entries.find? e.id = _
      unfold Storage.updateNextFire
      rw [Storage.find?_updateEntry_self, row]
      rfl
  rw [cooled_of_row (same.trans after), ← getD_later_iff (Int.le_of_lt missed.due)]
  constructor
  · intro h
    refine h.resolve_left fun off => ?_
    rw [show e.enabled = true from missed.enabled] at off
    cases off
  · exact .inr

end

/-! ## No hot refire -/

/-- After a fire of a job, on every branch, and after `_recover_missed` behind its grace window, the
job is disabled or later exactly where it settles or its trigger goes on. -/
theorem no_hot_refire_iff (env : Environment) (py : Python) (w : Daemon) (e : ScheduleEntry)
    (job : IsJob py e) :
    (∀ (clock : Readings) (a : Awaited) (cancelled : Bool), IsDue w e clock.entry →
      (Cooled (runFrom (env.parsing py) w (fireActs e.id clock a cancelled)) e.id
        (decidedAt env w e clock) ↔ Settles env w e py clock a)) ∧
    ∀ t, IsMissed w e t →
      (Cooled (runFrom (env.parsing py) w (recoverMissed (env.parsing py) w.storage t)) e.id t ↔
        Advances py e.trigger env.tzName t) :=
  ⟨fun _ a cancelled due => fire_settles job.recurring due a cancelled,
    fun _ missed => recover_settles job.recurring missed⟩

/-! ### A job of an instant -/

/-- One instant that is written as an ISO date, and no other zones nor packages. -/
def samplePython : Python where
  otherDecimal _ := none
  isoEpoch iso :=
    if iso = "2026-01-01T00:00:00+00:00".toList then .ok 1767225600000
    else .error "Invalid isoformat string"
  repr t := String.ofList ("'".toList ++ t ++ "'".toList)
  zone _ := none
  croniter := none

def sampleEnvironment : Environment where
  nextFire _ _ _ := none
  tzName := "Europe/Rome"
  onAllowedDay _ _ := true
  expired _ _ := false
  int _ := none
  str _ := ""
  repr s := s
  registered _ := true
  circuitBreakAfter := 3

/-- The row of a job with its first instant. -/
def sampleJob (trigger : String) (next : ℤ) : ScheduleEntry :=
  { id := 1, name := "report", trigger := trigger, nextFireAt := next, recurring := true
    callbackKey := "run_user_query", graceWindowS := some 10 }

def sampleTick (trigger : String) (next : ℤ) : Daemon :=
  { storage := ⟨⟨[sampleJob trigger next], by simp⟩, .empty⟩
    running := fun _ => 0
    fires := ⟨[⟨sampleJob trigger next, .due⟩], by simp⟩
    history := [] }

def sampleClock (t : ℤ) : Readings := ⟨t, t, t + 1000, t + 1000, by omega⟩

theorem isDue_sample (trigger : String) (next : ℤ) :
    IsDue (sampleTick trigger next) (sampleJob trigger next) next :=
  ⟨rfl, rfl, rfl, Int.le_refl next⟩

theorem isJob_sample {trigger : String} {next now : ℤ}
    (h : nextFireAt samplePython trigger "Europe/Rome" now = some next) (next' : ℤ) :
    IsJob samplePython (sampleJob trigger next') := by
  refine ⟨{ name := "report", trigger := trigger, callbackKey := "run_user_query" }, now,
    { name := "report", trigger := trigger, nextFireAt := next, recurring := true
      callbackKey := "run_user_query" }, ?_, rfl, rfl⟩
  unfold addJob
  rw [h]
  rfl

theorem overlaps_sample (trigger : String) (next : ℤ) :
    ¬overlaps (sampleTick trigger next) (sampleJob trigger next) := by
  show ¬max (1 : ℤ) 1 ≤ ((0 : ℕ) : ℤ)
  decide

theorem decidedAt_sample (trigger : String) (next t : ℤ) :
    decidedAt sampleEnvironment (sampleTick trigger next) (sampleJob trigger next) (sampleClock t) =
      t + 1000 :=
  if_neg (by
    rintro (⟨h, -⟩ | ⟨h, -⟩ | h)
    · exact h rfl
    · exact h rfl
    · exact overlaps_sample trigger next h)

theorem settles_sample (trigger : String) (next t : ℤ) :
    Settles sampleEnvironment (sampleTick trigger next) (sampleJob trigger next) samplePython
        (sampleClock t) (.returned .none) ↔
      Advances samplePython trigger "Europe/Rome" (t + 1000) := by
  unfold Settles
  rw [if_neg fun h => h.1 rfl, if_neg fun h => h.1 rfl,
    if_neg (overlaps_sample trigger next)]
  constructor
  · rintro (h | h | h)
    · cases h
    · cases h
    · exact h
  · exact fun h => .inr (.inr h)

theorem every_minute_cools :
    Cooled (runFrom (sampleEnvironment.parsing samplePython) (sampleTick "every_60s" 60000)
      (fireActs 1 (sampleClock 60000) (.returned .none) false)) 1 61000 ∧
    Cooled (runFrom (sampleEnvironment.parsing samplePython) (sampleTick "every_60s" 60000)
      (recoverMissed (sampleEnvironment.parsing samplePython)
        (sampleTick "every_60s" 60000).storage 90000)) 1 90000 := by
  have parsed : parseTrigger samplePython "every_60s" = .ok (.every 60) := rfl
  have advances : ∀ t, Advances samplePython "every_60s" "Europe/Rome" t := by
    intro t
    unfold Advances
    rw [parsed]
    trivial
  have added : nextFireAt samplePython "every_60s" "Europe/Rome" 0 = some 60000 := by
    unfold nextFireAt
    rw [parsed]
    rfl
  have both := no_hot_refire_iff sampleEnvironment samplePython (sampleTick "every_60s" 60000)
    (sampleJob "every_60s" 60000) (isJob_sample added 60000)
  have fired := both.1 (sampleClock 60000) (.returned .none) false (isDue_sample _ _)
  rw [decidedAt_sample, settles_sample] at fired
  exact ⟨fired.mpr (advances _), (both.2 90000 ⟨rfl, rfl, rfl, by decide⟩).mpr (advances _)⟩

/-- A job of an instant is due again as soon as its fire ended. -/
theorem past_instant_refires :
    ¬∀ (env : Environment) (py : Python) (w : Daemon) (e : ScheduleEntry), IsJob py e →
      (∀ (clock : Readings) (a : Awaited) (cancelled : Bool), IsDue w e clock.entry →
        Cooled (runFrom (env.parsing py) w (fireActs e.id clock a cancelled)) e.id
          (decidedAt env w e clock)) ∧
      ∀ t, IsMissed w e t →
        Cooled (runFrom (env.parsing py) w (recoverMissed (env.parsing py) w.storage t)) e.id t := by
  intro h
  have parsed : parseTrigger samplePython "at:2026-01-01T00:00:00Z" = .ok (.at 1767225600000) :=
    rfl
  have added : nextFireAt samplePython "at:2026-01-01T00:00:00Z" "Europe/Rome" 0 =
      some 1767225600000 := by
    unfold nextFireAt
    rw [parsed]
  have due := isDue_sample "at:2026-01-01T00:00:00Z" 1767225600000
  have cooled := (h sampleEnvironment samplePython _ _ (isJob_sample added 1767225600000)).1
    (sampleClock 1767225600000) (.returned .none) false due
  rw [fire_settles rfl due, settles_sample] at cooled
  unfold Advances at cooled
  rw [parsed] at cooled
  exact absurd cooled (by decide)

end Metnos.Jobs
