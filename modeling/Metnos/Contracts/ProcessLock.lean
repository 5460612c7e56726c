import Mathlib.Data.Fintype.Basic
import Metnos.Lib.Count
import Metnos.Lib.Monitor

/-!
# Contracts.ProcessLock — the in-process half of a store lock

Readers are admitted together, a writer excludes everybody, and waiting writers hold back new
readers.  A writer that gives up takes its announcement back and notifies nobody, and a wait that
runs out of time is not followed by another look at the lock.
-/

namespace Metnos.Contracts

open Monitor

inductive Access
  | shared | exclusive
deriving DecidableEq

/-- `_ProcessRWLock`; `_LocalRWLock` has the same text. -/
structure ProcessRWLock where
  readers : ℕ
  writer : Bool
  waitingWriters : ℕ
deriving DecidableEq

namespace ProcessRWLock

def unlocked : ProcessRWLock := ⟨0, false, 0⟩

/-- The condition of the loop of `acquire`. -/
def blocks : Access → ProcessRWLock → Bool
  | .exclusive, L => L.writer || decide (L.readers ≠ 0)
  | .shared, L => L.writer || decide (L.waitingWriters ≠ 0)

def announce : Access → ProcessRWLock → ProcessRWLock
  | .exclusive, L => { L with waitingWriters := L.waitingWriters + 1 }
  | .shared, L => L

/-- The `finally` of `acquire`. -/
def withdraw : Access → ProcessRWLock → ProcessRWLock
  | .exclusive, L => { L with waitingWriters := L.waitingWriters - 1 }
  | .shared, L => L

def take : Access → ProcessRWLock → ProcessRWLock
  | .exclusive, L => withdraw .exclusive { L with writer := true }
  | .shared, L => { L with readers := L.readers + 1 }

/-- `release`, up to its `notify_all`. -/
def give : Access → ProcessRWLock → ProcessRWLock
  | .exclusive, L => { L with writer := false }
  | .shared, L => { L with readers := L.readers - 1 }

def discipline : Discipline Access ProcessRWLock := ⟨blocks, announce, withdraw, take, give⟩

theorem discipline_steady : discipline.Steady where
  announce := by
    intro r r' L blocked
    cases r' with
    | shared => exact blocked
    | exclusive => cases r with
      | exclusive => exact blocked
      | shared => exact Bool.or_eq_true_iff.mpr (.inr (decide_eq_true (Nat.succ_ne_zero _)))
  announce_self := by
    intro r L
    cases r <;> rfl
  withdraw_announce := by
    intro r L
    cases r <;> rfl
  take := by
    intro r r' L blocked free
    cases r' with
    | exclusive => cases r <;> rfl
    | shared => cases r with
      | exclusive => exact Bool.or_eq_true_iff.mpr (.inr (decide_eq_true (Nat.succ_ne_zero _)))
      | shared => exact absurd blocked (Bool.eq_false_iff.mp free)

/-! ## Threads and counters -/

variable {T : Type} [Fintype T] [DecidableEq T]

def reads (p : Phase Access) : Bool := decide (p = .holding .shared)

def writes (p : Phase Access) : Bool := decide (p = .holding .exclusive)

/-- The thread waits for exclusive access. -/
def announced : Phase Access → Bool
  | .awake .exclusive _ => true
  | .waiting .exclusive _ => true
  | .expired .exclusive => true
  | _ => false

def tally (p : Phase Access → Bool) (threads : T → Phase Access) : ℕ :=
  (Finset.univ.filter fun t => p (threads t) = true).card

theorem tally_update (p : Phase Access → Bool) (threads : T → Phase Access) (t : T)
    (q : Phase Access) : tally p (Function.update threads t q) + (p (threads t)).toNat =
      tally p threads + (p q).toNat := Count.card_filter_update p threads t q

omit [DecidableEq T] in
theorem tally_pos {p : Phase Access → Bool} {threads : T → Phase Access} :
    tally p threads ≠ 0 ↔ ∃ t, p (threads t) = true := by
  unfold tally
  rw [Finset.card_ne_zero]
  constructor
  · rintro ⟨t, mem⟩
    exact ⟨t, (Finset.mem_filter.mp mem).2⟩
  · rintro ⟨t, holds⟩
    exact ⟨t, Finset.mem_filter.mpr ⟨Finset.mem_univ t, holds⟩⟩

/-- The counters count what the threads do, and a writer is alone. -/
structure Sound (X : System T Access ProcessRWLock) : Prop where
  readers : X.shared.readers = tally reads X.threads
  writer : X.shared.writer.toNat = tally writes X.threads
  waitingWriters : X.shared.waitingWriters = tally announced X.threads
  alone : X.shared.writer = true → X.shared.readers = 0

variable {X X' : System T Access ProcessRWLock}

theorem Sound.move (h : Sound X) {L : ProcessRWLock} {t : T} {p : Phase Access}
    (readers : L.readers + (reads (X.threads t)).toNat = X.shared.readers + (reads p).toNat)
    (writer : L.writer.toNat + (writes (X.threads t)).toNat =
      X.shared.writer.toNat + (writes p).toNat)
    (waiting : L.waitingWriters + (announced (X.threads t)).toNat =
      X.shared.waitingWriters + (announced p).toNat)
    (alone : L.writer = true → L.readers = 0) : Sound (X.move L t p) where
  readers := by
    have count := tally_update reads X.threads t p
    have before := h.readers
    show L.readers = tally reads (Function.update X.threads t p)
    omega
  writer := by
    have count := tally_update writes X.threads t p
    have before := h.writer
    show L.writer.toNat = tally writes (Function.update X.threads t p)
    omega
  waitingWriters := by
    have count := tally_update announced X.threads t p
    have before := h.waitingWriters
    show L.waitingWriters = tally announced (Function.update X.threads t p)
    omega
  alone := alone

omit [DecidableEq T] in
theorem tally_notify {p : Phase Access → Bool} (same : ∀ q, p q.notify = p q)
    (threads : T → Phase Access) : tally p (fun t => (threads t).notify) = tally p threads := by
  unfold tally
  congr 1
  ext t
  rw [Finset.mem_filter, Finset.mem_filter, same]

omit [DecidableEq T] in
theorem Sound.notifyAll (h : Sound X) : Sound X.notifyAll where
  readers := by
    rw [show tally reads X.notifyAll.threads = tally reads X.threads from
      tally_notify (fun q => by cases q <;> rfl) _]
    exact h.readers
  writer := by
    rw [show tally writes X.notifyAll.threads = tally writes X.threads from
      tally_notify (fun q => by cases q <;> rfl) _]
    exact h.writer
  waitingWriters := by
    have same : ∀ q, announced q.notify = announced q := by
      rintro (_ | ⟨_ | _, _⟩ | ⟨_ | _, _⟩ | _ | _) <;> rfl
    rw [show tally announced X.notifyAll.threads = tally announced X.threads from
      tally_notify same _]
    exact h.waitingWriters
  alone := h.alone

theorem Sound.withdraw (h : Sound X) {t : T} {r : Access}
    (phase : (∃ deadline, X.threads t = .awake r deadline) ∨ X.threads t = .expired r) :
    Sound (X.move (ProcessRWLock.withdraw r X.shared) t .idle) := by
  have reading : reads (X.threads t) = false := by
    obtain ⟨deadline, awake⟩ | expired := phase
    · rw [awake]; rfl
    · rw [expired]; rfl
  have writing : writes (X.threads t) = false := by
    obtain ⟨deadline, awake⟩ | expired := phase
    · rw [awake]; rfl
    · rw [expired]; rfl
  have asked : announced (X.threads t) = decide (r = .exclusive) := by
    obtain ⟨deadline, awake⟩ | expired := phase
    · rw [awake]; cases r <;> rfl
    · rw [expired]; cases r <;> rfl
  cases r with
  | shared =>
    refine h.move ?_ ?_ ?_ h.alone
    · rw [reading]; rfl
    · rw [writing]; rfl
    · rw [asked]; rfl
  | exclusive =>
    have some_waits : X.shared.waitingWriters ≠ 0 := by
      rw [h.waitingWriters]
      exact tally_pos.mpr ⟨t, asked⟩
    refine h.move ?_ ?_ ?_ h.alone
    · rw [reading]; rfl
    · rw [writing]; rfl
    · rw [asked]
      show X.shared.waitingWriters - 1 + 1 = X.shared.waitingWriters + 0
      omega

theorem Sound.turn (h : Sound X) {t : T} {r : Access} {deadline : ℤ}
    (awake : X.threads t = .awake r deadline) : Sound (X.turn discipline t r deadline).1 := by
  unfold System.turn
  by_cases blocked : discipline.blocks r X.shared = true
  · rw [if_pos blocked]
    by_cases late : deadline ≤ X.now
    · rw [if_pos late]
      exact h.withdraw (.inl ⟨deadline, awake⟩)
    · rw [if_neg late]
      refine h.move ?_ ?_ ?_ h.alone
      · rw [awake]; rfl
      · rw [awake]; rfl
      · rw [awake]; cases r <;> rfl
  · rw [if_neg blocked]
    cases r with
    | shared =>
      have free : X.shared.writer = false := by
        cases writer : X.shared.writer with
        | false => rfl
        | true => exact absurd (Bool.or_eq_true_iff.mpr (.inl writer)) blocked
      refine h.move ?_ ?_ ?_ ?_
      · rw [awake]; rfl
      · rw [awake]; rfl
      · rw [awake]; rfl
      · intro writer
        rw [show X.shared.writer = true from writer] at free
        cases free
    | exclusive =>
      have free : X.shared.writer = false ∧ X.shared.readers = 0 := by
        simpa [discipline, blocks] using blocked
      have some_waits : X.shared.waitingWriters ≠ 0 := by
        rw [h.waitingWriters]
        exact tally_pos.mpr ⟨t, by rw [awake]; rfl⟩
      refine h.move ?_ ?_ ?_ ?_
      · rw [awake]; rfl
      · rw [awake, free.1]; rfl
      · rw [awake]
        show X.shared.waitingWriters - 1 + 1 = X.shared.waitingWriters + 0
        omega
      · exact fun _ => free.2

theorem Sound.proceed {e : Event T Access}
    {out : System T Access ProcessRWLock × Option (Access × Bool)}
    (h : Proceeds discipline X e out) (sound : Sound X) : Sound out.1 := by
  cases h with
  | @acquire t r deadline idle =>
    have announced : Sound (X.move (announce r X.shared) t (.awake r deadline)) := by
      refine sound.move ?_ ?_ ?_ ?_
      · rw [idle]; cases r <;> rfl
      · rw [idle]; cases r <;> rfl
      · rw [idle]; cases r <;> rfl
      · cases r <;> exact sound.alone
    exact announced.turn (System.move_self ..)
  | @resume t r deadline awake => exact sound.turn awake
  | @expire t r deadline waiting late =>
    refine sound.move ?_ ?_ ?_ sound.alone
    · rw [waiting]; rfl
    · rw [waiting]; rfl
    · rw [waiting]; cases r <;> rfl
  | @giveUp t r expired => exact sound.withdraw (.inr expired)
  | @release t r holding =>
    refine Sound.notifyAll ?_
    cases r with
    | shared =>
      have some_reads : X.shared.readers ≠ 0 := by
        rw [sound.readers]
        exact tally_pos.mpr ⟨t, by rw [holding]; rfl⟩
      refine sound.move ?_ ?_ ?_ ?_
      · rw [holding]
        show X.shared.readers - 1 + 1 = X.shared.readers + 0
        omega
      · rw [holding]; rfl
      · rw [holding]; rfl
      · intro writer
        exact absurd (sound.alone writer) some_reads
    | exclusive =>
      have writer : X.shared.writer = true := by
        have some_writes : X.shared.writer.toNat ≠ 0 := by
          rw [sound.writer]
          exact tally_pos.mpr ⟨t, by rw [holding]; rfl⟩
        cases h : X.shared.writer with
        | true => rfl
        | false => rw [h] at some_writes; exact absurd rfl some_writes
      refine sound.move ?_ ?_ ?_ nofun
      · rw [holding]; rfl
      · rw [holding, writer]; rfl
      · rw [holding]; rfl
  | elapse => exact ⟨sound.readers, sound.writer, sound.waitingWriters, sound.alone⟩

theorem Sound.step {e : Event T Access} (h : System.step discipline X e = .ok X')
    (sound : Sound X) : Sound X' := by
  obtain ⟨a, proceeds⟩ := step_proceeds h
  exact sound.proceed proceeds

/-! ## What the claims of a call are worth -/

/-- Some thread holds the lock against an exclusive request; a writer holds it or waits for it
against a shared one. -/
def Blocked (threads : T → Phase Access) : Access → Prop
  | .exclusive => ∃ t r, threads t = .holding r
  | .shared => ∃ t, writes (threads t) = true ∨ announced (threads t) = true

omit [DecidableEq T] in
theorem Sound.blocks (h : Sound X) (r : Access) :
    discipline.blocks r X.shared = true ↔ Blocked X.threads r := by
  have writer : X.shared.writer = true ↔ ∃ t, writes (X.threads t) = true := by
    rw [← tally_pos, ← h.writer]
    cases X.shared.writer <;> decide
  cases r with
  | shared =>
    show (X.shared.writer || decide (X.shared.waitingWriters ≠ 0)) = true ↔ _
    rw [Bool.or_eq_true, decide_eq_true_iff, writer, h.waitingWriters, tally_pos, ← exists_or]
    rfl
  | exclusive =>
    show (X.shared.writer || decide (X.shared.readers ≠ 0)) = true ↔ _
    rw [Bool.or_eq_true, decide_eq_true_iff, writer, h.readers, tally_pos, ← exists_or]
    constructor
    · rintro ⟨t, writes | reads⟩
      · exact ⟨t, .exclusive, of_decide_eq_true writes⟩
      · exact ⟨t, .shared, of_decide_eq_true reads⟩
    · rintro ⟨t, _ | _, holding⟩
      · exact ⟨t, .inr (decide_eq_true holding)⟩
      · exact ⟨t, .inl (decide_eq_true holding)⟩

/-- What the lock promises in a state, and of its next section. -/
structure Proper (X : System T Access ProcessRWLock) (next : Option (Event T Access)) : Prop where
  alone : ∀ t t' r, X.threads t = .holding .exclusive → X.threads t' = .holding r → t' = t
  readers : X.shared.readers = tally reads X.threads
  waitingWriters : X.shared.waitingWriters = tally announced X.threads
  refused : ∀ e r, next = some e → X.answer discipline e = some (r, false) → Blocked X.threads r
  served : ∀ t r deadline, X.threads t = .waiting r deadline → Blocked X.threads r

omit [DecidableEq T] in
theorem Sound.exclusive (h : Sound X) {t t' : T} {r : Access}
    (writing : X.threads t = .holding .exclusive) (holding : X.threads t' = .holding r) :
    t' = t := by
  have writer : X.shared.writer = true := by
    have blocked : X.shared.writer.toNat ≠ 0 := by
      rw [h.writer]
      exact tally_pos.mpr ⟨t, by rw [writing]; rfl⟩
    cases w : X.shared.writer with
    | true => rfl
    | false => rw [w] at blocked; exact absurd rfl blocked
  cases r with
  | shared =>
    have nobody : tally reads X.threads = 0 := by
      rw [← h.readers]
      exact h.alone writer
    exact absurd nobody (tally_pos.mpr ⟨t', by rw [holding]; rfl⟩)
  | exclusive =>
    have one : tally writes X.threads ≤ 1 := by
      rw [← h.writer]
      exact Bool.toNat_le _
    refine Finset.card_le_one.mp one t' ?_ t ?_
    · exact Finset.mem_filter.mpr ⟨Finset.mem_univ _, by rw [holding]; rfl⟩
    · exact Finset.mem_filter.mpr ⟨Finset.mem_univ _, by rw [writing]; rfl⟩

omit [DecidableEq T] in
theorem sound_initial (now : ℤ) : Sound (⟨now, unlocked, fun _ : T => .idle⟩) where
  readers := (Finset.card_eq_zero.mpr (Finset.filter_eq_empty_iff.mpr fun _ _ => nofun)).symm
  writer := (Finset.card_eq_zero.mpr (Finset.filter_eq_empty_iff.mpr fun _ _ => nofun)).symm
  waitingWriters := (Finset.card_eq_zero.mpr (Finset.filter_eq_empty_iff.mpr fun _ _ => nofun)).symm
  alone := fun _ => rfl

/-- A writer that leaves without the lock leaves it to a writer, is not the last that waits, or
leaves no reader in its wait. -/
def Yields (X : System T Access ProcessRWLock) : Access → Prop
  | .shared => True
  | .exclusive => X.shared.writer = true ∨ 1 < X.shared.waitingWriters ∨
    ∀ t deadline, X.threads t ≠ .waiting .shared deadline

/-- The condition on a section: a thread that is out of time finds the condition of its loop as it
was, and a writer that leaves without the lock yields. -/
def InTurn (X : System T Access ProcessRWLock) : Event T Access → Prop
  | .resume t => ∀ r deadline, X.threads t = .awake r deadline → blocks r X.shared = true →
    deadline ≤ X.now → Yields X r
  | .giveUp t => ∀ r, X.threads t = .expired r → blocks r X.shared = true ∧ Yields X r
  | _ => True

omit [Fintype T] [DecidableEq T] in
theorem leaves_iff (served : Served discipline X) (r : Access) :
    Leaves discipline X r ↔ Yields X r := by
  cases r with
  | shared => exact ⟨fun _ => trivial, fun _ => served⟩
  | exclusive =>
    constructor
    · intro leaves
      by_cases reader : ∃ t deadline, X.threads t = .waiting .shared deadline
      · obtain ⟨t, deadline, waiting⟩ := reader
        have blocked := leaves t .shared deadline waiting
        rcases Bool.or_eq_true_iff.mp blocked with writer | others
        · exact .inl writer
        · have more : X.shared.waitingWriters - 1 ≠ 0 := of_decide_eq_true others
          exact .inr (.inl (by omega))
      · push Not at reader
        exact .inr (.inr reader)
    · intro yields t r deadline waiting
      cases r with
      | exclusive => exact served t .exclusive deadline waiting
      | shared =>
        rcases yields with writer | more | nobody
        · exact Bool.or_eq_true_iff.mpr (.inl writer)
        · have others : X.shared.waitingWriters - 1 ≠ 0 := by omega
          exact Bool.or_eq_true_iff.mpr (.inr (decide_eq_true others))
        · exact absurd waiting (nobody t deadline)

omit [Fintype T] [DecidableEq T] in
theorem inTurn_iff (served : Served discipline X) (e : Event T Access) :
    InTurn X e ↔ Orderly discipline X e := by
  cases e with
  | resume t =>
    constructor
    · intro inTurn r deadline awake blocked late
      exact (leaves_iff served r).mpr (inTurn r deadline awake blocked late)
    · intro orderly r deadline awake blocked late
      exact (leaves_iff served r).mp (orderly r deadline awake blocked late)
  | giveUp t =>
    constructor
    · intro inTurn r expired
      obtain ⟨blocked, yields⟩ := inTurn r expired
      exact ⟨blocked, (leaves_iff served r).mpr yields⟩
    · intro orderly r expired
      obtain ⟨blocked, leaves⟩ := orderly r expired
      exact ⟨blocked, (leaves_iff served r).mp leaves⟩
  | acquire t r deadline => exact Iff.rfl
  | expire t => exact Iff.rfl
  | release t => exact Iff.rfl
  | elapse time => exact Iff.rfl

theorem Sound.run (h : Sound X) (events : List (Event T Access)) :
    Sound (X.run discipline events) :=
  Transaction.run_preserves (fun step sound => sound.step step) h

/-- **The lock keeps its promises in exactly the runs whose sections are all in turn.**  In every
run a writer is alone and the counters are right. -/
theorem process_rw_lock_iff (now : ℤ) (events : List (Event T Access)) :
    let X : System T Access ProcessRWLock := ⟨now, unlocked, fun _ => .idle⟩
    (∀ n, Sound (X.run discipline (events.take n))) ∧
    ((∀ n, Proper (X.run discipline (events.take n)) events[n]?) ↔
      Transaction.Meets (System.step discipline) InTurn X events) := by
  intro X
  have sound : ∀ n, Sound (X.run discipline (events.take n)) := fun n =>
    (sound_initial now).run _
  refine ⟨sound, ?_⟩
  rw [← orderly_iff (I := Sound) discipline_steady (fun step sound => sound.step step)
    (fun _ served => inTurn_iff served _) (sound_initial now) (fun _ _ _ => nofun) events]
  refine forall_congr' fun n => ?_
  constructor
  · intro proper
    constructor
    · intro t r deadline waiting
      exact ((sound n).blocks r).mpr (proper.served t r deadline waiting)
    · intro e next r refused
      exact ((sound n).blocks r).mpr (proper.refused e r next refused)
  · rintro ⟨served, honest⟩
    exact
      { alone := fun t t' r writing holding => (sound n).exclusive writing holding
        readers := (sound n).readers
        waitingWriters := (sound n).waitingWriters
        refused := fun e r next refused => ((sound n).blocks r).mp (honest e next r refused)
        served := fun t r deadline waiting =>
          ((sound n).blocks r).mp (served t r deadline waiting) }

/-- A reader holds the lock, a writer waits for it behind the reader, and a second reader behind
the writer; the writer is out of time. -/
def leftReader : List (Event (Fin 3) Access) :=
  [.acquire 0 .shared 10, .acquire 1 .exclusive 10, .acquire 2 .shared 20, .elapse 10, .expire 1,
    .giveUp 1]

/-- The second reader goes on waiting, although nobody writes or waits to write. -/
theorem reader_left_waiting : ¬ ∀ n, Proper (System.run discipline
    ⟨0, unlocked, fun _ => .idle⟩ (leftReader.take n)) leftReader[n]? := by
  intro proper
  have waiting : (System.run discipline ⟨0, unlocked, fun _ => .idle⟩ leftReader).threads 2 =
      .waiting .shared 20 := by decide
  obtain ⟨t, holds⟩ := (proper 6).served 2 .shared 20 waiting
  revert t
  decide

/-- A writer out of time is refused the lock that the reader has given back meanwhile. -/
example :
    let X : System (Fin 3) Access ProcessRWLock := System.run discipline
      ⟨0, unlocked, fun _ => .idle⟩
      [.acquire 0 .shared 10, .acquire 1 .exclusive 10, .elapse 10, .expire 1, .release 0]
    X.answer discipline (.giveUp 1) = some (.exclusive, false) ∧
      X.shared.writer = false ∧ X.shared.readers = 0 := by decide

end ProcessRWLock

end Metnos.Contracts
