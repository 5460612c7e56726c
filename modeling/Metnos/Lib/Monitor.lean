import Mathlib.Logic.Function.Basic
import Mathlib.Data.Int.Order.Basic
import Metnos.Lib.Transaction

/-!
# Monitor — threads that wait on one condition variable

A monitor is a state behind a mutex.  A call announces what it asks for, waits while the state
blocks it, and gives up at its deadline; between two sections of a call any others may run.  Only
giving back notifies, and it notifies everybody.
-/

namespace Monitor

/-- Where a thread stands with its call for `R`. -/
inductive Phase (R : Type)
  | idle
  /-- At the head of the loop, or notified and on the way back to it. -/
  | awake (r : R) (deadline : ℤ)
  /-- In the wait. -/
  | waiting (r : R) (deadline : ℤ)
  /-- Out of time, and not yet back in the mutex. -/
  | expired (r : R)
  | holding (r : R)
deriving DecidableEq

/-- `notify_all`, at one thread. -/
def Phase.notify {R : Type} : Phase R → Phase R
  | .waiting r deadline => .awake r deadline
  | p => p

theorem Phase.notify_ne_waiting {R : Type} (p : Phase R) (r : R) (deadline : ℤ) :
    p.notify ≠ .waiting r deadline := by
  cases p <;> nofun

/-- What the sections of a call do to the state behind the mutex. -/
structure Discipline (R σ : Type) where
  blocks : R → σ → Bool
  announce : R → σ → σ
  withdraw : R → σ → σ
  take : R → σ → σ
  give : R → σ → σ

structure System (T R σ : Type) where
  now : ℤ
  shared : σ
  threads : T → Phase R

inductive Event (T R : Type)
  | acquire (t : T) (r : R) (deadline : ℤ)
  /-- A notified thread is back in the mutex. -/
  | resume (t : T)
  /-- The time of a wait is over. -/
  | expire (t : T)
  /-- A thread whose time is over is back in the mutex. -/
  | giveUp (t : T)
  | release (t : T)
  | elapse (time : ℕ)

variable {T R σ : Type} [DecidableEq T] (D : Discipline R σ)

namespace System

/-- The thread goes on in another phase. -/
def move (X : System T R σ) (s : σ) (t : T) (p : Phase R) : System T R σ :=
  { X with shared := s, threads := Function.update X.threads t p }

section

variable (X : System T R σ) (s : σ) (t : T) (p : Phase R)

@[simp] theorem move_self : (X.move s t p).threads t = p := Function.update_self ..

@[simp] theorem move_other {t' : T} (h : t' ≠ t) : (X.move s t p).threads t' = X.threads t' :=
  Function.update_of_ne h ..

@[simp] theorem move_shared : (X.move s t p).shared = s := rfl

@[simp] theorem move_now : (X.move s t p).now = X.now := rfl

end

def notifyAll (X : System T R σ) : System T R σ :=
  { X with threads := fun t => (X.threads t).notify }

/-- One turn of the loop, and what the call returns if it ends there. -/
def turn (X : System T R σ) (t : T) (r : R) (deadline : ℤ) : System T R σ × Option (R × Bool) :=
  if D.blocks r X.shared = true then
    if deadline ≤ X.now then (X.move (D.withdraw r X.shared) t .idle, some (r, false))
    else (X.move X.shared t (.waiting r deadline), none)
  else (X.move (D.take r X.shared) t (.holding r), some (r, true))

/-- One section; an event for which there is nothing to do is refused. -/
def proceed (X : System T R σ) : Event T R → Except Unit (System T R σ × Option (R × Bool))
  | .acquire t r deadline =>
    match X.threads t with
    | .idle => .ok ((X.move (D.announce r X.shared) t (.awake r deadline)).turn D t r deadline)
    | _ => .error ()
  | .resume t =>
    match X.threads t with
    | .awake r deadline => .ok (X.turn D t r deadline)
    | _ => .error ()
  | .expire t =>
    match X.threads t with
    | .waiting r deadline =>
      if deadline ≤ X.now then .ok (X.move X.shared t (.expired r), none) else .error ()
    | _ => .error ()
  | .giveUp t =>
    match X.threads t with
    | .expired r => .ok (X.move (D.withdraw r X.shared) t .idle, some (r, false))
    | _ => .error ()
  | .release t =>
    match X.threads t with
    | .holding r => .ok ((X.move (D.give r X.shared) t .idle).notifyAll, none)
    | _ => .error ()
  | .elapse time => .ok ({ X with now := X.now + time }, none)

def step (X : System T R σ) (e : Event T R) : Except Unit (System T R σ) :=
  (X.proceed D e).map Prod.fst

/-- What the call that runs in this event returns, if it returns. -/
def answer (X : System T R σ) (e : Event T R) : Option (R × Bool) :=
  match X.proceed D e with
  | .ok (_, a) => a
  | .error _ => none

abbrev run (X : System T R σ) (events : List (Event T R)) : System T R σ :=
  Transaction.run (step D) X events

end System

open Monitor.System

/-- The sections of a run, one constructor for each kind. -/
inductive Proceeds (X : System T R σ) : Event T R → System T R σ × Option (R × Bool) → Prop
  | acquire {t r deadline} (idle : X.threads t = .idle) : Proceeds X (.acquire t r deadline)
      ((X.move (D.announce r X.shared) t (.awake r deadline)).turn D t r deadline)
  | resume {t r deadline} (awake : X.threads t = .awake r deadline) :
      Proceeds X (.resume t) (X.turn D t r deadline)
  | expire {t r deadline} (waiting : X.threads t = .waiting r deadline) (late : deadline ≤ X.now) :
      Proceeds X (.expire t) (X.move X.shared t (.expired r), none)
  | giveUp {t r} (expired : X.threads t = .expired r) :
      Proceeds X (.giveUp t) (X.move (D.withdraw r X.shared) t .idle, some (r, false))
  | release {t r} (holding : X.threads t = .holding r) :
      Proceeds X (.release t) ((X.move (D.give r X.shared) t .idle).notifyAll, none)
  | elapse {time} : Proceeds X (.elapse time) ({ X with now := X.now + time }, none)

variable {D} {X X' : System T R σ} {e : Event T R}

theorem proceeds {out : System T R σ × Option (R × Bool)} (h : X.proceed D e = .ok out) :
    Proceeds D X e out := by
  cases e with
  | acquire t r deadline =>
    simp only [proceed] at h
    split at h
    · cases h
      exact .acquire ‹_›
    · cases h
  | resume t =>
    simp only [proceed] at h
    split at h
    · cases h
      exact .resume ‹_›
    · cases h
  | expire t =>
    simp only [proceed] at h
    split at h
    · split_ifs at h with late
      cases h
      exact .expire ‹_› late
    · cases h
  | giveUp t =>
    simp only [proceed] at h
    split at h
    · cases h
      exact .giveUp ‹_›
    · cases h
  | release t =>
    simp only [proceed] at h
    split at h
    · cases h
      exact .release ‹_›
    · cases h
  | elapse time =>
    cases h
    exact .elapse

theorem step_proceeds (h : step D X e = .ok X') : ∃ a, Proceeds D X e (X', a) := by
  unfold step at h
  cases out : X.proceed D e with
  | error u =>
    rw [out] at h
    cases h
  | ok out' =>
    rw [out] at h
    cases h
    exact ⟨_, proceeds out⟩

/-! ## No wake-up is lost -/

/-- Nobody waits for what the state would let through. -/
def Served (D : Discipline R σ) (X : System T R σ) : Prop :=
  ∀ t r deadline, X.threads t = .waiting r deadline → D.blocks r X.shared = true

/-- A call is refused only what the state blocks. -/
def Honest (D : Discipline R σ) (X : System T R σ) (e : Event T R) : Prop :=
  ∀ r, X.answer D e = some (r, false) → D.blocks r X.shared = true

/-- Announcing and taking unblock nobody; to announce and withdraw changes nothing. -/
structure Discipline.Steady (D : Discipline R σ) : Prop where
  announce : ∀ r r' s, D.blocks r s = true → D.blocks r (D.announce r' s) = true
  announce_self : ∀ r s, D.blocks r (D.announce r s) = D.blocks r s
  withdraw_announce : ∀ r s, D.withdraw r (D.announce r s) = s
  take : ∀ r r' s, D.blocks r s = true → D.blocks r' s = false → D.blocks r (D.take r' s) = true

/-- Who withdraws leaves those blocked who wait. -/
def Leaves (D : Discipline R σ) (X : System T R σ) (r : R) : Prop :=
  ∀ t r' deadline, X.threads t = .waiting r' deadline →
    D.blocks r' (D.withdraw r X.shared) = true

/-- A thread out of time finds its request blocked, and leaves those blocked who wait; so does one
that was notified in vain. -/
def Orderly (D : Discipline R σ) (X : System T R σ) : Event T R → Prop
  | .resume t => ∀ r deadline, X.threads t = .awake r deadline → D.blocks r X.shared = true →
    deadline ≤ X.now → Leaves D X r
  | .giveUp t => ∀ r, X.threads t = .expired r → D.blocks r X.shared = true ∧ Leaves D X r
  | _ => True

variable {t : T} {r : R} {deadline : ℤ}

theorem served_move {s : σ} {p : Phase R}
    (others : ∀ (t' : T) (r' : R) (deadline : ℤ), t' ≠ t → X.threads t' = .waiting r' deadline →
      D.blocks r' s = true)
    (self : ∀ r' deadline, p = .waiting r' deadline → D.blocks r' s = true) :
    Served D (X.move s t p) := by
  intro t' r' deadline waiting
  by_cases same : t' = t
  · subst same
    rw [System.move_self] at waiting
    exact self r' deadline waiting
  · rw [System.move_other _ _ _ _ same] at waiting
    exact others t' r' deadline same waiting

theorem Served.withdraw (leaves : Leaves D X r) :
    Served D (X.move (D.withdraw r X.shared) t .idle) := by
  refine served_move ?_ nofun
  intro t' r' deadline _ waiting
  exact leaves t' r' deadline waiting

theorem Served.turn (steady : D.Steady) (h : Served D X)
    (leaves : D.blocks r X.shared = true → deadline ≤ X.now → Leaves D X r) :
    Served D (X.turn D t r deadline).1 := by
  unfold System.turn
  by_cases blocked : D.blocks r X.shared = true
  · rw [if_pos blocked]
    by_cases late : deadline ≤ X.now
    · rw [if_pos late]
      exact .withdraw (leaves blocked late)
    · rw [if_neg late]
      refine served_move (fun t' r' deadline _ waiting => h t' r' deadline waiting) ?_
      intro r' deadline' same
      cases same
      exact blocked
  · rw [if_neg blocked]
    refine served_move (fun t' r' deadline _ waiting => ?_) nofun
    exact steady.take r' r _ (h t' r' deadline waiting) (Bool.not_eq_true _ ▸ blocked)

theorem Served.announce (steady : D.Steady) (h : Served D X) :
    Served D (X.move (D.announce r X.shared) t (.awake r deadline)) :=
  served_move (fun t' r' deadline _ waiting =>
    steady.announce r' r _ (h t' r' deadline waiting)) nofun

/-- What an orderly section leaves behind. -/
theorem Served.proceed (steady : D.Steady) (orderly : Orderly D X e)
    {out : System T R σ × Option (R × Bool)} (h : Proceeds D X e out) (served : Served D X) :
    Served D out.1 := by
  cases h with
  | @acquire t r deadline idle =>
    refine (served.announce steady).turn steady fun blocked late => ?_
    intro t' r' deadline' waiting
    have other : t' ≠ t := by
      rintro rfl
      rw [System.move_self] at waiting
      cases waiting
    rw [System.move_other _ _ _ _ other] at waiting
    show D.blocks r' (D.withdraw r (D.announce r X.shared)) = true
    rw [steady.withdraw_announce]
    exact served t' r' deadline' waiting
  | @resume t r deadline awake => exact served.turn steady (orderly r deadline awake)
  | expire waiting late =>
    exact served_move (fun t' r' deadline _ waiting => served t' r' deadline waiting) nofun
  | @giveUp t r expired => exact .withdraw (orderly r expired).2
  | release holding =>
    intro t' r' deadline waiting
    exact absurd waiting (Phase.notify_ne_waiting _ r' deadline)
  | elapse => exact served

theorem turn_refuses {r' : R} (h : (X.turn D t r deadline).2 = some (r', false)) :
    r' = r ∧ D.blocks r X.shared = true := by
  unfold System.turn at h
  split_ifs at h with blocked late
  · cases h
    exact ⟨rfl, blocked⟩
  · cases h

theorem answer_proceeds {a : R × Bool} (h : X.answer D e = some a) :
    ∃ X', Proceeds D X e (X', some a) := by
  unfold System.answer at h
  split at h
  · subst h
    exact ⟨_, proceeds ‹_›⟩
  · cases h

/-- An orderly section refuses only what is blocked. -/
theorem honest_of_orderly (steady : D.Steady) (orderly : Orderly D X e) : Honest D X e := by
  intro r refused
  obtain ⟨X', refuses⟩ := answer_proceeds refused
  generalize out : (X', some (r, false)) = o at refuses
  have answered : o.2 = some (r, false) := by rw [← out]
  cases refuses with
  | acquire idle =>
    obtain ⟨rfl, blocked⟩ := turn_refuses answered
    rw [System.move_shared, steady.announce_self] at blocked
    exact blocked
  | resume awake =>
    obtain ⟨rfl, blocked⟩ := turn_refuses answered
    exact blocked
  | giveUp expired =>
    cases answered
    exact (orderly r expired).1
  | expire => cases answered
  | release => cases answered
  | elapse => cases answered

/-- A section that is not orderly refuses what is not blocked, or leaves somebody behind. -/
theorem not_orderly (h : ¬ Orderly D X e) :
    ¬ Honest D X e ∨ ¬ Served D (Transaction.commit (step D) X e) := by
  -- who waits goes on waiting when another thread withdraws
  have left : ∀ {t : T} {r : R}, (∀ r' deadline, X.threads t ≠ .waiting r' deadline) →
      ¬ Leaves D X r → ¬ Served D (X.move (D.withdraw r X.shared) t .idle) := by
    intro t r notWaiting leaves served
    refine leaves fun t' r' deadline waiting => served t' r' deadline ?_
    have other : t' ≠ t := by
      rintro rfl
      exact notWaiting r' deadline waiting
    rw [System.move_other _ _ _ _ other]
    exact waiting
  cases e with
  | resume t =>
    simp only [Orderly, not_forall] at h
    obtain ⟨r, deadline, awake, blocked, late, leaves⟩ := h
    right
    have next : step D X (.resume t) = .ok (X.move (D.withdraw r X.shared) t .idle) := by
      simp only [step, proceed, awake, turn, if_pos blocked, if_pos late]
      rfl
    unfold Transaction.commit
    rw [next]
    exact left (fun r' d waiting => by rw [awake] at waiting; cases waiting) leaves
  | giveUp t =>
    simp only [Orderly, not_forall] at h
    obtain ⟨r, expired, broken⟩ := h
    by_cases blocked : D.blocks r X.shared = true
    · right
      have next : step D X (.giveUp t) = .ok (X.move (D.withdraw r X.shared) t .idle) := by
        simp only [step, proceed, expired]
        rfl
      unfold Transaction.commit
      rw [next]
      refine left (fun r' d waiting => by rw [expired] at waiting; cases waiting) fun leaves => ?_
      exact broken ⟨blocked, leaves⟩
    · left
      intro honest
      refine blocked (honest r ?_)
      simp only [answer, proceed, expired]
  | acquire t r deadline => exact absurd trivial h
  | expire t => exact absurd trivial h
  | release t => exact absurd trivial h
  | elapse time => exact absurd trivial h

/-- **No wake-up is lost**, and no call is refused what it could have, in exactly the runs whose
sections are all orderly; under the invariant `I`, orderly means `ok`. -/
theorem orderly_iff {I : System T R σ → Prop} {ok : System T R σ → Event T R → Prop}
    (steady : D.Steady) (keeps : ∀ {X e X'}, step D X e = .ok X' → I X → I X')
    (means : ∀ {X e}, I X → Served D X → (ok X e ↔ Orderly D X e)) (init : I X)
    (start : Served D X) (events : List (Event T R)) :
    (∀ n, Served D (X.run D (events.take n)) ∧
      ∀ e, events[n]? = some e → Honest D (X.run D (events.take n)) e) ↔
    Transaction.Meets (step D) ok X events := by
  have steps : ∀ {X : System T R σ} {e : Event T R}, I X → Orderly D X e → Served D X →
      I (Transaction.commit (step D) X e) ∧ Served D (Transaction.commit (step D) X e) := by
    intro X e init orderly served
    unfold Transaction.commit
    cases h : step D X e with
    | error u => exact ⟨init, served⟩
    | ok X' =>
      obtain ⟨a, proceeds⟩ := step_proceeds h
      exact ⟨keeps h init, served.proceed steady orderly proceeds⟩
  induction events generalizing X with
  | nil =>
    refine ⟨fun _ => trivial, fun _ n => ⟨?_, nofun⟩⟩
    rw [List.take_nil]
    exact start
  | cons e events ih =>
    constructor
    · intro always
      have orderly : Orderly D X e := by
        by_contra broken
        rcases not_orderly broken with dishonest | left
        · exact dishonest ((always 0).2 e rfl)
        · exact left (always 1).1
      obtain ⟨init', start'⟩ := steps init orderly start
      exact ⟨(means init start).mpr orderly, (ih init' start').mp fun n => always (n + 1)⟩
    · rintro ⟨met, rest⟩ n
      have orderly : Orderly D X e := (means init start).mp met
      cases n with
      | zero =>
        refine ⟨start, fun e' first => ?_⟩
        cases first
        exact honest_of_orderly steady orderly
      | succ n =>
        obtain ⟨init', start'⟩ := steps init orderly start
        exact (ih init' start').mpr rest n

end Monitor
