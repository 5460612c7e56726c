import Mathlib.Logic.Function.Basic
import Mathlib.Data.List.Basic
import Metnos.Lib.Transaction

/-!
# ProcessTable — processes that start, exit, are reaped and end with their boot

A process identifier comes back after its process was reaped; together with the boot and the ticks
at the start it does not.
-/

namespace ProcessTable

structure Identity where
  bootId : String
  pid : ℕ
  startTicks : String
deriving DecidableEq

structure Proc where
  startTicks : String
  /-- A process that has exited stays in the table until it is reaped. -/
  exited : Bool

/-- The table, and the identities that were given out. -/
structure Kernel where
  bootId : String
  proc : ℕ → Option Proc
  past : List Identity

inductive Event
  | start (pid : ℕ) (startTicks : String)
  | exit (pid : ℕ)
  | reap (pid : ℕ)
  | reboot (bootId : String)

namespace Kernel

variable (k : Kernel)

def step : Event → Except Unit Kernel
  | .start pid startTicks =>
    if pid = 0 ∨ (k.proc pid).isSome = true ∨ ⟨k.bootId, pid, startTicks⟩ ∈ k.past then .error ()
    else .ok { k with
      proc := Function.update k.proc pid (some ⟨startTicks, false⟩)
      past := ⟨k.bootId, pid, startTicks⟩ :: k.past }
  | .exit pid => .ok { k with
      proc := Function.update k.proc pid ((k.proc pid).map fun p => { p with exited := true }) }
  | .reap pid =>
    if (k.proc pid).all Proc.exited then .ok { k with proc := Function.update k.proc pid none }
    else .error ()
  | .reboot bootId =>
    if k.past.any fun c => c.bootId = bootId then .error ()
    else .ok { k with bootId := bootId, proc := fun _ => none }

/-- The identity of the process that has the identifier. -/
def identity (pid : ℕ) : Identity :=
  ⟨k.bootId, pid, ((k.proc pid).map Proc.startTicks).getD ""⟩

/-- A process with the identity is in the table. -/
def listed (c : Identity) : Bool :=
  decide (c.bootId = k.bootId) && (k.proc c.pid).any fun p => decide (p.startTicks = c.startTicks)

def runs (c : Identity) : Bool :=
  decide (c.bootId = k.bootId) &&
    (k.proc c.pid).any fun p => decide (p.startTicks = c.startTicks) && !p.exited

/-- Who is in the table has got an identity. -/
def Known : Prop :=
  ∀ pid p, k.proc pid = some p → pid ≠ 0 ∧ ⟨k.bootId, pid, p.startTicks⟩ ∈ k.past

/-- The process has run, and does not any more. -/
def Gone (c : Identity) : Prop := c ∈ k.past ∧ k.runs c = false

variable {k} {k' : Kernel} {c : Identity} {e : Event}

theorem runs_iff : k.runs c = true ↔ c.bootId = k.bootId ∧
    ∃ p, k.proc c.pid = some p ∧ p.startTicks = c.startTicks ∧ p.exited = false := by
  unfold runs
  rw [Bool.and_eq_true, decide_eq_true_iff, Option.any_eq_true]
  simp only [Bool.and_eq_true, decide_eq_true_iff, Bool.not_eq_true']

theorem listed_of_runs (h : k.runs c = true) : k.listed c = true := by
  obtain ⟨boot, p, found, ticks, -⟩ := runs_iff.mp h
  unfold listed
  rw [found, decide_eq_true boot]
  exact decide_eq_true ticks

theorem identity_of_proc {pid : ℕ} {p : Proc} (found : k.proc pid = some p) :
    k.identity pid = ⟨k.bootId, pid, p.startTicks⟩ := by
  unfold identity
  rw [found]
  rfl

theorem past_step (h : k.step e = .ok k') (past : c ∈ k.past) : c ∈ k'.past := by
  cases e with
  | start q ticks =>
    simp only [step] at h
    split_ifs at h
    cases h
    exact List.mem_cons_of_mem _ past
  | exit q =>
    cases h
    exact past
  | reap q =>
    simp only [step] at h
    split_ifs at h
    cases h
    exact past
  | reboot bootId =>
    simp only [step] at h
    split_ifs at h
    cases h
    exact past

/-- Who is in the table after a step has started in it, under a new identity, or was there. -/
theorem found_step {pid : ℕ} {p : Proc} (h : k.step e = .ok k') (found : k'.proc pid = some p) :
    k'.bootId = k.bootId ∧
    ((pid ≠ 0 ∧ ⟨k.bootId, pid, p.startTicks⟩ ∉ k.past ∧
        ⟨k.bootId, pid, p.startTicks⟩ ∈ k'.past) ∨
      ∃ p₀, k.proc pid = some p₀ ∧ p₀.startTicks = p.startTicks ∧
        (p.exited = false → p₀.exited = false)) := by
  cases e with
  | start q ticks =>
    simp only [step] at h
    split_ifs at h with taken
    cases h
    rw [not_or, not_or] at taken
    refine ⟨rfl, ?_⟩
    dsimp only at found
    by_cases same : pid = q
    · subst same
      rw [Function.update_self] at found
      cases found
      exact .inl ⟨taken.1, taken.2.2, List.mem_cons_self ..⟩
    · rw [Function.update_of_ne same] at found
      exact .inr ⟨p, found, rfl, id⟩
  | exit q =>
    cases h
    refine ⟨rfl, .inr ?_⟩
    dsimp only at found
    by_cases same : pid = q
    · subst same
      rw [Function.update_self, Option.map_eq_some_iff] at found
      obtain ⟨p₀, found, rfl⟩ := found
      exact ⟨p₀, found, rfl, nofun⟩
    · rw [Function.update_of_ne same] at found
      exact ⟨p, found, rfl, id⟩
  | reap q =>
    simp only [step] at h
    split_ifs at h
    cases h
    refine ⟨rfl, .inr ?_⟩
    dsimp only at found
    by_cases same : pid = q
    · subst same
      rw [Function.update_self] at found
      cases found
    · rw [Function.update_of_ne same] at found
      exact ⟨p, found, rfl, id⟩
  | reboot bootId =>
    simp only [step] at h
    split_ifs at h
    cases h
    cases found

theorem Known.step (h : k.step e = .ok k') (known : k.Known) : k'.Known := by
  intro pid p found
  obtain ⟨boot, ⟨positive, -, past⟩ | ⟨p₀, before, same, -⟩⟩ := found_step h found
  · rw [boot]
    exact ⟨positive, past⟩
  · obtain ⟨positive, past⟩ := known pid p₀ before
    rw [boot, ← same]
    exact ⟨positive, past_step h past⟩

/-- **Who is gone stays gone.** -/
theorem Gone.step (h : k.step e = .ok k') (gone : k.Gone c) : k'.Gone c := by
  obtain ⟨past, stopped⟩ := gone
  refine ⟨past_step h past, ?_⟩
  rw [Bool.eq_false_iff] at stopped ⊢
  intro runs
  obtain ⟨bootId, p, found, ticks, up⟩ := runs_iff.mp runs
  obtain ⟨boot, ⟨-, new, -⟩ | ⟨p₀, before, same, ran⟩⟩ := found_step h found
  · -- the identity would have been given out twice
    have again : c = ⟨k.bootId, c.pid, p.startTicks⟩ := by
      rw [ticks, ← boot, ← bootId]
    exact new (again ▸ past)
  · exact stopped (runs_iff.mpr ⟨bootId.trans boot, p₀, before, same.trans ticks, ran up⟩)

end Kernel

end ProcessTable
