import Mathlib.Logic.Relation
import Mathlib.Data.List.Forall2

/-!
# Transaction — computations that may roll back, and runs of a system

A transaction is an `Except` computation over a state.  The lemmas here take a successful
computation apart, one `bind` at a time, and lift what one step does to a loop (`foldlM`) or to
a run of the system (a fold that keeps the old state when a transaction raises).
-/

namespace Transaction

variable {ε α β σ : Type}

@[simp] theorem bind_eq_ok {x : Except ε α} {f : α → Except ε β} {b : β} :
    (x >>= f) = .ok b ↔ ∃ a, x = .ok a ∧ f a = .ok b := by
  cases x with
  | error e => simp [bind, Except.bind]
  | ok a => simp [bind, Except.bind]

@[simp] theorem pure_eq_ok {a b : α} : (pure a : Except ε α) = .ok b ↔ a = b := by
  simp [pure, Except.pure]

/-- What every step of a loop preserves holds at its end. -/
theorem foldlM_invariant {I : σ → Prop} {f : σ → α → Except ε σ} :
    ∀ {l : List α} {s s' : σ}, (∀ x ∈ l, ∀ {a b}, f a x = .ok b → I a → I b) →
      l.foldlM f s = .ok s' → I s → I s'
  | [], s, s', _, h, hs => by
    simp only [List.foldlM_nil, pure_eq_ok] at h
    exact h ▸ hs
  | x :: l, s, s', hf, h, hs => by
    simp only [List.foldlM_cons, bind_eq_ok] at h
    obtain ⟨m, h1, h2⟩ := h
    exact foldlM_invariant (fun y hy => hf y (List.mem_cons_of_mem _ hy)) h2
      (hf x (List.mem_cons_self ..) h1 hs)

/-- A loop that does not raise gives one value for each element. -/
theorem mapM_forall₂ {f : α → Except ε β} {l : List α} {r : List β} (h : l.mapM f = .ok r) :
    List.Forall₂ (fun a b => f a = .ok b) l r := by
  induction l generalizing r with
  | nil =>
    rw [List.mapM_nil, pure_eq_ok] at h
    rw [← h]
    exact .nil
  | cons a l ih =>
    simp only [List.mapM_cons, bind_eq_ok, pure_eq_ok] at h
    obtain ⟨b, head, rest, tail, rfl⟩ := h
    exact .cons head (ih tail)

/-- The values of a loop that collects them: one for each element, and no others. -/
theorem mapM_mem {f : α → Option β} {l : List α} {r : List β} (h : l.mapM f = some r) :
    (∀ b ∈ r, ∃ a ∈ l, f a = some b) ∧ ∀ a ∈ l, ∃ b ∈ r, f a = some b := by
  induction l generalizing r with
  | nil =>
    simp only [List.mapM_nil, Option.pure_def, Option.some.injEq] at h
    subst h
    exact ⟨fun b hb => (by cases hb), fun a ha => (by cases ha)⟩
  | cons a l ih =>
    simp only [List.mapM_cons, Option.bind_eq_bind, Option.bind_eq_some_iff, Option.pure_def,
      Option.some.injEq] at h
    obtain ⟨b, hb, rest, hrest, rfl⟩ := h
    obtain ⟨back, forth⟩ := ih hrest
    constructor
    · intro b' hb'
      rcases List.mem_cons.mp hb' with rfl | hb'
      · exact ⟨a, List.mem_cons_self .., hb⟩
      · obtain ⟨a', ha', heq⟩ := back b' hb'
        exact ⟨a', List.mem_cons_of_mem _ ha', heq⟩
    · intro a' ha'
      rcases List.mem_cons.mp ha' with rfl | ha'
      · exact ⟨b, List.mem_cons_self .., hb⟩
      · obtain ⟨b', hb', heq⟩ := forth a' ha'
        exact ⟨b', List.mem_cons_of_mem _ hb', heq⟩

/-! ### Numbered loops -/

/-- A loop over `enumerate(l, n)`. -/
def enumerate (f : σ → ℕ → α → Except ε σ) : σ → ℕ → List α → Except ε σ
  | s, _, [] => .ok s
  | s, n, x :: l => f s n x >>= fun s' => enumerate f s' (n + 1) l

/-- What every step extends by its element holds, at the end, of the whole list. -/
theorem enumerate_invariant {I : List α → σ → Prop} {f : σ → ℕ → α → Except ε σ} {m : ℕ}
    (step : ∀ {xs s x s'}, f s (m + xs.length) x = .ok s' → I xs s → I (xs ++ [x]) s')
    {l xs : List α} {s s' : σ} (h : enumerate f s (m + xs.length) l = .ok s') (hs : I xs s) :
    I (xs ++ l) s' := by
  induction l generalizing xs s with
  | nil =>
    cases h
    rwa [List.append_nil]
  | cons x l ih =>
    obtain ⟨mid, h1, h2⟩ := bind_eq_ok.mp h
    rw [← List.singleton_append, ← List.append_assoc]
    refine ih ?_ (step h1 hs)
    rw [List.length_append, List.length_singleton, ← Nat.add_assoc]
    exact h2

/-- The rule for a whole loop. -/
theorem enumerate_holds {I : List α → σ → Prop} {f : σ → ℕ → α → Except ε σ} {n : ℕ}
    (step : ∀ {xs s x s'}, f s (n + xs.length) x = .ok s' → I xs s → I (xs ++ [x]) s')
    {l : List α} {s s' : σ} (h : enumerate f s n l = .ok s') (hs : I [] s) : I l s' :=
  enumerate_invariant step h hs

variable {op : Type}

/-- The state after a transaction; one that raises leaves the state as it was. -/
def commit (t : σ → op → Except ε σ) (s : σ) (o : op) : σ :=
  match t s o with
  | .ok s' => s'
  | .error _ => s

/-- Where a writer transaction can be interrupted. -/
inductive Boundary
  | beforeBegin | afterBegin | beforeCommit | beforeRollback | afterRollback | afterCommit
deriving DecidableEq

/-- One writer transaction with its fault boundaries: what the caller sees, and the state left
behind.  Whatever is raised before the commit is rolled back. -/
def immediateTransaction (checkpoint : Boundary → Except ε Unit) (body : σ → Except ε σ) (s : σ) :
    Except ε Unit × σ :=
  match checkpoint .beforeBegin with
  | .error e => (.error e, s)
  | .ok _ =>
    let outcome := do
      checkpoint .afterBegin
      let s' ← body s
      checkpoint .beforeCommit
      return s'
    match outcome with
    | .ok s' => (checkpoint .afterCommit, s')
    | .error e =>
      let raised := do
        checkpoint .beforeRollback
        checkpoint .afterRollback
        Except.error e
      (raised, s)

/-- A transaction that raises before its commit leaves the state as it was. -/
theorem immediateTransaction_rollback {checkpoint : Boundary → Except ε Unit}
    {body : σ → Except ε σ} {s : σ} {e : ε} (committed : checkpoint .afterCommit = .ok ())
    (h : (immediateTransaction checkpoint body s).1 = .error e) :
    (immediateTransaction checkpoint body s).2 = s := by
  unfold immediateTransaction at h ⊢
  split
  · rfl
  · rename_i h0
    rw [h0] at h
    dsimp only at h ⊢
    split
    · rename_i s' h1
      rw [h1] at h
      dsimp only at h
      rw [committed] at h
      cases h
    · rfl

/-- The state after a sequence of transactions. -/
def run (t : σ → op → Except ε σ) (s : σ) (ops : List op) : σ := ops.foldl (commit t) s

variable {t : σ → op → Except ε σ}

@[simp] theorem run_nil (s : σ) : run t s [] = s := rfl

@[simp] theorem run_cons (s : σ) (o : op) (ops : List op) :
    run t s (o :: ops) = run t (commit t s o) ops := rfl

theorem run_append (s : σ) (xs ys : List op) : run t s (xs ++ ys) = run t (run t s xs) ys :=
  List.foldl_append ..

/-- Every step of a run meets `ok`, a condition on the state before it. -/
def Meets (t : σ → op → Except ε σ) (ok : σ → op → Prop) : σ → List op → Prop
  | _, [] => True
  | s, o :: ops => ok s o ∧ Meets t ok (commit t s o) ops

instance decidableMeets {t : σ → op → Except ε σ} {ok : σ → op → Prop}
    [∀ s o, Decidable (ok s o)] : ∀ s ops, Decidable (Meets t ok s ops)
  | _, [] => inferInstanceAs (Decidable True)
  | s, o :: ops =>
    have : Decidable (Meets t ok (commit t s o) ops) := decidableMeets _ _
    inferInstanceAs (Decidable (ok s o ∧ Meets t ok (commit t s o) ops))

theorem meets_append {ok : σ → op → Prop} {s : σ} {xs ys : List op} :
    Meets t ok s (xs ++ ys) ↔ Meets t ok s xs ∧ Meets t ok (run t s xs) ys := by
  induction xs generalizing s with
  | nil => simp [Meets]
  | cons o xs ih => simp [Meets, ih, and_assoc]

theorem Meets.imp {ok ok' : σ → op → Prop} (h : ∀ s o, ok s o → ok' s o) {s : σ} {ops : List op}
    (hm : Meets t ok s ops) : Meets t ok' s ops := by
  induction ops generalizing s with
  | nil => trivial
  | cons o ops ih => exact ⟨h s o hm.1, ih hm.2⟩

theorem meets_of_mem {ok : σ → op → Prop} {ops : List op} (h : ∀ o ∈ ops, ∀ s, ok s o) (s : σ) :
    Meets t ok s ops := by
  induction ops generalizing s with
  | nil => trivial
  | cons o ops ih =>
    exact ⟨h o (List.mem_cons_self ..) s, ih (fun o' ho => h o' (List.mem_cons_of_mem _ ho)) _⟩

theorem meets_of_forall {ok : σ → op → Prop} (h : ∀ s o, ok s o) (s : σ) (ops : List op) :
    Meets t ok s ops := meets_of_mem (fun o _ s => h s o) s

/-- **Invariant rule.**  What every step that meets `ok` preserves holds after every run whose
steps meet `ok`. -/
theorem run_invariant {ok : σ → op → Prop} {I : σ → Prop}
    (step : ∀ {s o s'}, ok s o → t s o = .ok s' → I s → I s') {s : σ} {ops : List op}
    (hm : Meets t ok s ops) (hs : I s) : I (run t s ops) := by
  induction ops generalizing s with
  | nil => exact hs
  | cons o ops ih =>
    obtain ⟨ho, hops⟩ := hm
    refine ih hops ?_
    unfold commit
    cases h : t s o with
    | error e => exact hs
    | ok s' => exact step ho h hs

/-- The rule for what every step preserves. -/
theorem run_preserves {I : σ → Prop} (step : ∀ {s o s'}, t s o = .ok s' → I s → I s') {s : σ}
    {ops : List op} (hs : I s) : I (run t s ops) :=
  run_invariant (fun _ h hI => step h hI)
    (meets_of_forall (fun _ _ => trivial : ∀ (_ : σ) (_ : op), True) s ops) hs

/-! ### The last step that mattered -/

/-- `o` is a step of the run that succeeded, and `f` is the same in every state since. -/
def Undisturbed {γ : Type} (t : σ → op → Except ε σ) (f : σ → γ) (s : σ) (ops : List op) (o : op) :
    Prop :=
  ∃ xs ys s', ops = xs ++ o :: ys ∧ t (run t s xs) o = .ok s' ∧
    ∀ zs, zs <+: ys → f (run t s' zs) = f (run t s ops)

section
variable {γ : Type} {f : σ → γ} {s s' : σ} {ops : List op} {o p : op}

theorem run_append_one (s : σ) (ops : List op) (o : op) :
    run t s (ops ++ [o]) = commit t (run t s ops) o := run_append s ops [o]

theorem commit_of_ok (h : t s o = .ok s') : commit t s o = s' := by
  unfold commit
  rw [h]

theorem undisturbed_last (h : t (run t s ops) o = .ok s') :
    Undisturbed t f s (ops ++ [o]) o := by
  refine ⟨ops, [], s', rfl, h, fun zs hzs => ?_⟩
  rw [List.prefix_nil.mp hzs, run_append_one, commit_of_ok h]
  rfl

theorem Undisturbed.snoc (h : Undisturbed t f s ops p)
    (same : f (run t s (ops ++ [o])) = f (run t s ops)) : Undisturbed t f s (ops ++ [o]) p := by
  obtain ⟨xs, ys, s', heq, hok, since⟩ := h
  refine ⟨xs, ys ++ [o], s', by rw [heq]; simp, hok, fun zs hzs => ?_⟩
  rcases List.prefix_concat_iff.mp hzs with rfl | hzs
  · -- the whole of what came after is the rest of the run
    rw [heq, List.append_assoc, List.cons_append, run_append s, run_cons, commit_of_ok hok]
  · rw [since zs hzs, same]

/-- The last step was another one, so it did not change `f`. -/
theorem Undisturbed.before (h : Undisturbed t f s (ops ++ [o]) p) (other : p ≠ o) :
    f (run t s ops) = f (run t s (ops ++ [o])) := by
  obtain ⟨xs, ys, s', heq, hok, since⟩ := h
  rcases List.eq_nil_or_concat ys with rfl | ⟨zs, q, rfl⟩
  · exact absurd (List.append_inj_right' heq rfl) (by simpa using Ne.symm other)
  · rw [List.concat_eq_append] at heq since
    rw [← List.cons_append, ← List.append_assoc] at heq
    obtain ⟨hops, -⟩ := List.append_inj' heq rfl
    rw [← since zs (List.prefix_append ..), hops, run_append, run_cons, commit_of_ok hok]

end

/-- The relational form: a preorder that holds along every step holds along every run. -/
theorem run_rel {ok : σ → op → Prop} {R : σ → σ → Prop} (refl : ∀ s, R s s)
    (trans : ∀ {a b c}, R a b → R b c → R a c)
    (step : ∀ {s o s'}, ok s o → t s o = .ok s' → R s s') {s : σ} {ops : List op}
    (hm : Meets t ok s ops) : R s (run t s ops) := by
  induction ops generalizing s with
  | nil => exact refl s
  | cons o ops ih =>
    obtain ⟨ho, hops⟩ := hm
    refine trans ?_ (ih hops)
    unfold commit
    cases h : t s o with
    | error e => exact refl s
    | ok s' => exact step ho h

end Transaction
