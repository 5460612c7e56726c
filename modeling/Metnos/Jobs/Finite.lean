import Metnos.Jobs.Moves

/-!
# Jobs.Finite — the runs that an entry has left

An entry registered with a bound counts down by one when the outcome of a run is recorded, and is
disabled with the last one; a one-shot entry is disabled by every run.  A count of zero stands for no
bound as well, so an entry that is enabled when nothing is left goes on.
-/

namespace Metnos.Jobs

open Transaction

def Event.isStart : Event → Bool
  | .started _ => true
  | _ => false

def View.starts (v : View) : ℕ := v.events.countP Event.isStart

def Stage.isOpen : Stage → Bool
  | .recorded => false
  | _ => true

/-- The callback was called, and the run still counts as left. -/
def Stage.isCalled : Stage → Bool
  | .called _ _ | .ended _ _ => true
  | _ => false

namespace Daemon

def starts (w : Daemon) (k : ℕ) : ℕ := (w.view k).starts

/-- A fire of the entry has not been recorded. -/
def firing (w : Daemon) (k : ℕ) : Bool := (w.fires.find? k).any fun x => x.stage.isOpen

/-- A run of the entry began, and its outcome has not been recorded. -/
def inRun (w : Daemon) (k : ℕ) : Bool := (w.fires.find? k).any fun x => x.stage.isCalled

end Daemon

/-- The runs that a row has left; `e` is the entry that was registered. -/
def left (e r : ScheduleEntry) : ℤ :=
  if r.recurring then r.remainingRuns else e.totalRuns + e.remainingRuns - r.totalRuns

/-- The condition on an act, for the entry `e` with the identifier `k`: it is enabled only while runs are
left, and the process does not die within a run. -/
def Spares (k : ℕ) (e : ScheduleEntry) (w : Daemon) : Daemon.Act → Prop
  | .upsert e' => w.storage.upsertId e' ≠ k
  | .enable j _ => j = k → (w.storage.entries.find? k).all (fun r => decide (0 < left e r)) = true
  | .die => w.inRun k = false
  | _ => True

instance (k : ℕ) (e : ScheduleEntry) (w : Daemon) : ∀ a, Decidable (Spares k e w a)
  | .upsert e' => inferInstanceAs (Decidable (w.storage.upsertId e' ≠ k))
  | .enable j _ => inferInstanceAs (Decidable (j = k → _))
  | .die => inferInstanceAs (Decidable (w.inRun k = false))
  | .delete _ | .purgeNames _ | .disable _ | .updateNextFire _ _ | .boot _ | .fetch _ | .cancel _
  | .admitFire _ _ | .call _ _ | .endRun _ _ _ | .record _ _ | .leave _ _ =>
    inferInstanceAs (Decidable True)

/-! ## The invariant -/

/-- One for a run that began and still counts as left. -/
def pending (fire : Option Fire) : ℤ := if fire.any (fun x => x.stage.isCalled) then 1 else 0

structure Bounded (e : ScheduleEntry) (limit : ℤ) (v : View) : Prop where
  row : ∀ r, v.row = some r → v.starts + left e r ≤ limit + pending v.fire ∧ 0 ≤ left e r ∧
    (r.enabled = true → 0 < left e r)
  fire : ∀ r x, v.row = some r → v.fire = some x → x.stage.isOpen = true →
    0 < left e r ∧ x.entry.recurring = r.recurring ∧
      (r.recurring = true → x.entry.remainingRuns = r.remainingRuns)
  total : v.starts ≤ limit
  gone : ∀ x, v.row = none → v.fire = some x → x.stage.isOpen = true → x.stage.isCalled = false →
    v.starts < limit

section
variable {e : ScheduleEntry} {limit : ℤ} {v : View}

theorem pending_nonneg (fire : Option Fire) : 0 ≤ pending fire := by
  unfold pending
  split <;> decide

theorem pending_some (x : Fire) : pending (some x) = if x.stage.isCalled then 1 else 0 := rfl

theorem Bounded.spare (B : Bounded e limit v) {x : Fire} (fire : v.fire = some x)
    (opened : x.stage.isOpen = true) (before : x.stage.isCalled = false) : v.starts < limit := by
  rcases row : v.row with _ | r
  · exact B.gone x row fire opened before
  · have bound := (B.row r row).1
    have some_left := (B.fire r x row fire opened).1
    rw [fire, pending_some, before] at bound
    simp only [Bool.false_eq_true, if_false] at bound
    omega

theorem left_of_keeps {r r' : ScheduleEntry} (recurring : r'.recurring = r.recurring)
    (remaining : r'.remainingRuns = r.remainingRuns) (total : r'.totalRuns = r.totalRuns) :
    left e r' = left e r := by
  unfold left
  rw [recurring, remaining, total]

theorem Bounded.keeps (B : Bounded e limit v) {row' : Option ScheduleEntry}
    (keeps : Daemon.Keeps v.row row') : Bounded e limit ⟨row', v.fire, v.events⟩ where
  row := by
    rintro r' rfl
    obtain ⟨r, row, recurring, remaining, total, -, on⟩ := keeps r' rfl
    have same := left_of_keeps (e := e) recurring remaining total
    obtain ⟨bound, nonneg, enabled⟩ := B.row r row
    rw [same]
    exact ⟨bound, nonneg, fun h => enabled (on h)⟩
  fire := by
    rintro r' x rfl fire opened
    obtain ⟨r, row, recurring, remaining, total, -, -⟩ := keeps r' rfl
    rw [left_of_keeps recurring remaining total, recurring, remaining]
    exact B.fire r x row fire opened
  total := B.total
  gone x _ fire opened before := B.spare fire opened before

theorem Bounded.drop (B : Bounded e limit v) (free : pending v.fire = 0) :
    Bounded e limit ⟨v.row, none, v.events⟩ where
  row r row := by
    have bound := B.row r row
    rw [free] at bound
    exact bound
  fire r x _ fire := by cases fire
  total := B.total
  gone x _ fire := by cases fire

end

/-! ## One act -/

theorem isCalled_of_stage {x : Fire} (h : x.stage = .due ∨ x.stage = .recorded) :
    pending (some x) = 0 := by
  rcases h with h | h <;> simp [pending_some, h, Stage.isCalled]

section
variable {env : Environment} {k : ℕ} {e : ScheduleEntry} {limit : ℤ} {w w' : Daemon}

theorem Bounded.call {v : View} (B : Bounded e limit v) {x : ScheduleEntry}
    (fire : v.fire = some ⟨x, .admitted⟩) (runId : ℕ) (now : ℤ) (registered : Bool) :
    Bounded e limit ⟨v.row, some ⟨x, .called runId now⟩,
      if registered then .started k :: v.events else v.events⟩ := by
  have spare := B.spare fire rfl rfl
  have starts : (if registered then Event.started k :: v.events else v.events).countP Event.isStart ≤
      v.starts + 1 := by
    cases registered
    · exact Nat.le_succ _
    · exact (List.countP_cons_of_pos rfl).le
  refine ⟨fun r row => ?_, fun r y row fire' opened => ?_, ?_, fun y _ fire' _ before => ?_⟩
  · obtain ⟨bound, nonneg, enabled⟩ := B.row r row
    rw [fire, pending_some] at bound
    refine ⟨?_, nonneg, enabled⟩
    simp only [View.starts, pending_some, Stage.isCalled, Bool.false_eq_true, if_false, if_true]
      at bound starts ⊢
    omega
  · cases fire'
    exact B.fire r ⟨x, .admitted⟩ row fire rfl
  · simp only [View.starts] at spare starts ⊢
    omega
  · cases fire'
    cases before

theorem left_report {r x : ScheduleEntry} (some_left : 0 < left e r)
    (recurring : x.recurring = r.recurring)
    (remaining : r.recurring = true → x.remainingRuns = r.remainingRuns) (o : Outcome)
    (durationMs now : ℤ) :
    left e ((report env x o durationMs now).apply r) = left e r - 1 ∧
      (((report env x o durationMs now).apply r).enabled = true → 0 < left e r - 1) := by
  rcases kind : r.recurring with _ | _
  · have once : finishes x = true := by
      unfold finishes
      rw [recurring, kind]
      rfl
    have after : left e ((report env x o durationMs now).apply r) =
        e.totalRuns + e.remainingRuns - (r.totalRuns + 1 : ℕ) := by
      unfold left
      rw [show ((report env x o durationMs now).apply r).recurring = false from kind]
      rfl
    have before : left e r = e.totalRuns + e.remainingRuns - r.totalRuns := by
      unfold left
      rw [if_neg (by rw [kind]; decide)]
    refine ⟨by rw [after, before]; omega, fun on => ?_⟩
    have on : (r.enabled && !finishes x) = true := on
    rw [once, Bool.not_true, Bool.and_false] at on
    cases on
  · have before : left e r = r.remainingRuns := by
      unfold left
      rw [if_pos kind]
    have counts : countsDown x = true := by
      unfold countsDown
      rw [recurring, kind, remaining kind, ← before, Bool.true_and]
      exact decide_eq_true some_left
    have after : left e ((report env x o durationMs now).apply r) =
        if countsDown x then max 0 (r.remainingRuns - 1) else r.remainingRuns := by
      unfold left
      rw [show ((report env x o durationMs now).apply r).recurring = true from kind]
      rfl
    rw [counts, if_pos rfl] at after
    rw [before] at some_left
    refine ⟨by rw [after, before]; omega, fun on => ?_⟩
    have on : (r.enabled && !finishes x) = true := on
    rw [Bool.and_eq_true, Bool.not_eq_true'] at on
    have more := on.2
    unfold finishes at more
    rw [recurring, kind, counts, remaining kind, Bool.not_true, Bool.false_or, Bool.true_and,
      decide_eq_false_iff_not] at more
    rw [before]
    omega

theorem Bounded.record {v : View} (B : Bounded e limit v) {x : ScheduleEntry} {o : Outcome}
    {durationMs : ℤ} (fire : v.fire = some ⟨x, .ended o durationMs⟩) (now : ℤ) :
    Bounded e limit ⟨v.row.map (report env x o durationMs now).apply, some ⟨x, .recorded⟩,
      v.events⟩ := by
  refine ⟨fun r' row => ?_, fun r' y _ fire' opened => ?_, B.total, fun y _ fire' opened => ?_⟩
  · obtain ⟨r, found, rfl⟩ := Option.map_eq_some_iff.mp row
    obtain ⟨bound, -, -⟩ := B.row r found
    obtain ⟨some_left, recurring, remaining⟩ := B.fire r _ found fire rfl
    obtain ⟨one_less, on⟩ := left_report some_left recurring remaining o durationMs now
    rw [fire] at bound
    have bound : v.starts + left e r ≤ limit + 1 := bound
    rw [one_less]
    refine ⟨?_, by omega, on⟩
    show (v.starts : ℤ) + (left e r - 1) ≤ limit + 0
    omega
  · cases fire'
    cases opened
  · cases fire'
    cases opened

theorem Daemon.Moves.bounded {a : Daemon.Act} {v : View} (m : Daemon.Moves env k w a v)
    (spares : Spares k e w a) (B : Bounded e limit (w.view k)) : Bounded e limit v := by
  cases m with
  | keeps row => exact B.keeps row
  | registered e' target => exact absurd target spares
  | enabled now next r row =>
    have some_left : 0 < left e r := by
      have all := spares rfl
      rw [show w.storage.entries.find? k = some r from row] at all
      exact of_decide_eq_true all
    obtain ⟨bound, nonneg, -⟩ := B.row r row
    refine ⟨fun r' row' => ?_, fun r' x row' fire opened => ?_, B.total, fun x row' => ?_⟩
    · cases row'
      exact ⟨bound, nonneg, fun _ => some_left⟩
    · cases row'
      exact B.fire r x row fire opened
    · cases row'
  | fetched now r idle row on =>
    obtain ⟨bound, nonneg, enabled⟩ := B.row r row
    refine ⟨fun r' row' => ?_, fun r' x row' fire _ => ?_, B.total, fun x row' => ?_⟩
    · rw [idle] at bound
      obtain rfl : r = r' := Option.some.inj (row.symm.trans row')
      exact ⟨bound, nonneg, enabled⟩
    · obtain rfl : r = r' := Option.some.inj (row.symm.trans row')
      cases fire
      exact ⟨enabled on, rfl, fun _ => rfl⟩
    · rw [show (w.view k).row = none from row'] at row
      cases row
  | dropped x fire stage row =>
    have free : pending (w.view k).fire = 0 := by
      rw [fire]
      exact isCalled_of_stage stage
    exact (B.drop free).keeps row
  | admitted now x fire bound =>
    refine ⟨fun r row => ?_, fun r y row fire' _ => ?_, B.total, fun y row fire' _ _ => ?_⟩
    · have bound := B.row r row
      rw [fire] at bound
      exact bound
    · cases fire'
      exact B.fire r ⟨x, .due⟩ row fire rfl
    · exact B.spare fire rfl rfl
  | inferred now x n x' fire bound same =>
    have zero : x.recurring = true ∧ x.remainingRuns = 0 := by
      unfold Daemon.inferredRuns at bound
      split_ifs at bound with h
      rw [Bool.and_eq_true, Bool.and_eq_true, decide_eq_true_eq] at h
      exact h.1
    have missing : (w.view k).row = none := by
      rcases row : (w.view k).row with _ | r
      · rfl
      · obtain ⟨some_left, recurring, remaining⟩ := B.fire r _ row fire rfl
        have kind : r.recurring = true := recurring ▸ zero.1
        rw [left, if_pos kind, ← remaining kind] at some_left
        rw [zero.2] at some_left
        exact absurd some_left (lt_irrefl 0)
    rw [missing]
    refine ⟨fun r row => ?_, fun r y row => ?_, B.total, fun y _ fire' _ _ => B.spare fire rfl rfl⟩
    · cases row
    · cases row
  | called now x fire => exact B.call fire _ now _
  | ended a now x runId startedAt fire =>
    have starts : ∀ (y : Option Awaited) (s : String),
        ((Event.ended k runId y s) :: (w.view k).events).countP Event.isStart = (w.view k).starts :=
      fun y s => List.countP_cons_of_neg (by simp [Event.isStart])
    refine ⟨fun r row => ?_, fun r y row fire' _ => ?_, ?_, fun y _ fire' _ before => ?_⟩
    · have bound := B.row r row
      rw [fire] at bound
      rw [View.starts, starts]
      exact bound
    · cases fire'
      exact B.fire r ⟨x, .called runId startedAt⟩ row fire rfl
    · rw [View.starts, starts]
      exact B.total
    · cases fire'
      cases before
  | recorded now x o durationMs fire => exact B.record fire now
  | died =>
    have free : pending (w.view k).fire = 0 := by
      have none : w.inRun k = false := spares
      unfold Daemon.inRun at none
      unfold pending
      rw [show (w.view k).fire = w.fires.find? k from rfl, none]
      rfl
    exact B.drop free

end

/-! ## Runs of the daemon -/

theorem bounded_registered (env : Environment) (w : Daemon) (e : ScheduleEntry)
    (bound : 0 < e.remainingRuns) (idle : w.firing (w.storage.upsertId e) = false) :
    Bounded e ((Daemon.runFrom env w [.upsert e]).starts (w.storage.upsertId e) + e.remainingRuns)
      ((Daemon.runFrom env w [.upsert e]).view (w.storage.upsertId e)) := by
  have row : ((Daemon.runFrom env w [.upsert e]).view (w.storage.upsertId e)).row =
      some { e with id := w.storage.upsertId e } :=
    (Storage.find?_upsert w.storage e _).trans (if_pos rfl)
  have fire : ((Daemon.runFrom env w [.upsert e]).view (w.storage.upsertId e)).fire =
      w.fires.find? (w.storage.upsertId e) := rfl
  have all : left e { e with id := w.storage.upsertId e } = e.remainingRuns := by
    unfold left
    dsimp only
    split_ifs <;> omega
  have closed : ∀ x, w.fires.find? (w.storage.upsertId e) = some x → x.stage.isOpen = false := by
    intro x hx
    unfold Daemon.firing at idle
    rw [hx] at idle
    exact idle
  refine ⟨fun r hr => ?_, fun r x _ hx opened => ?_, ?_, fun x hr => ?_⟩
  · rw [row, Option.some.injEq] at hr
    subst hr
    rw [all]
    refine ⟨?_, bound.le, fun _ => bound⟩
    exact le_add_of_nonneg_right (pending_nonneg _)
  · rw [closed x (fire ▸ hx)] at opened
    cases opened
  · exact le_add_of_nonneg_right bound.le
  · rw [row] at hr
    cases hr

/-- **Finite jobs**: after an entry is registered with a bound, while none of its fires is under way,
its callback is called no more often than that in any run whose acts spare it. -/
theorem finite_jobs (env : Environment) (before after : List Daemon.Act) (e : ScheduleEntry)
    (bound : 0 < e.remainingRuns) :
    let w := Daemon.runFrom env Daemon.init before
    let registered := Daemon.runFrom env w [.upsert e]
    let k := w.storage.upsertId e
    w.firing k = false → Meets (Daemon.transact env) (Spares k e) registered after →
    ((Daemon.runFrom env registered after).starts k : ℤ) ≤ registered.starts k + e.remainingRuns := by
  intro w registered k idle met
  have start := bounded_registered env w e bound idle
  have all : Bounded e (registered.starts k + e.remainingRuns)
      ((Daemon.runFrom env registered after).view k) :=
    run_invariant (I := fun w' => Bounded e (registered.starts k + e.remainingRuns) (w'.view k))
      (fun spares h B => (Daemon.transact_moves h k).bounded spares B) met start
  exact all.total

/-! ## A job that is resumed -/

def everyMinute : Environment where
  nextFire _ _ now := some (now + 60000)
  tzName := "Europe/Rome"
  onAllowedDay _ _ := true
  expired _ _ := false
  int _ := none
  str _ := ""
  repr s := s
  registered _ := true
  circuitBreakAfter := 3

def oneRun : ScheduleEntry :=
  { name := "report", trigger := "every_60s", nextFireAt := 0, recurring := true
    callbackKey := "run_user_query", remainingRuns := 1 }

/-- A tick in which the fire of the entry runs to its end. -/
def tick (k : ℕ) (now : ℤ) : List Daemon.Act :=
  [.fetch now, .admitFire k now, .call k now, .endRun k (.returned .none) now, .record k now,
    .leave k false]

/-- The job ran, and the client resumes it. -/
def ranOnce : Daemon := Daemon.runFrom everyMinute Daemon.init (.upsert oneRun :: tick 1 0)

/-- A job of one run that is resumed is run again. -/
theorem resumed_job_runs_again :
    oneRun.remainingRuns = 1 ∧ ranOnce.starts 1 = 1 ∧
    (Daemon.runFrom everyMinute ranOnce
      (Client.resumeJob ranOnce.storage "report" 1000 ++ tick 1 61000)).starts 1 = 2 := by
  decide

/-- The job is suspended behind its run, and the process starts again. -/
def suspended : List Daemon.Act := tick 1 0 ++ [.disable 1, .die, .boot 5000] ++ tick 1 61000

theorem one_run_is_kept :
    ((Daemon.runFrom everyMinute (Daemon.runFrom everyMinute Daemon.init [.upsert oneRun])
      suspended).starts (Daemon.init.storage.upsertId oneRun) : ℤ) ≤
    (Daemon.runFrom everyMinute Daemon.init [.upsert oneRun]).starts
      (Daemon.init.storage.upsertId oneRun) + oneRun.remainingRuns :=
  finite_jobs everyMinute [] suspended oneRun (by decide) (by decide) (by decide)

end Metnos.Jobs
