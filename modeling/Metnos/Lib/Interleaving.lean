import Metnos.Lib.Transaction

/-!
# Interleaving — programs that share a state, one atomic statement at a time

A program is its next statement and how it goes on from the reply; between two statements of a
program any others may run.  `wp` is about a program that nobody interrupts, `run_shared` and
`guarded_iff` about every interleaving.
-/

namespace Interleaving

/-- A program over the statements `S`: what it returned or raised, or its next statement. -/
inductive Program (S : Type) (Reply : S → Type) (ε α : Type) : Type
  | done (result : Except ε α)
  | exec (s : S) (next : Except ε (Reply s) → Program S Reply ε α)

variable {S : Type} {Reply : S → Type} {ε α β : Type}

namespace Program

def bind (p : Program S Reply ε α) (f : α → Program S Reply ε β) : Program S Reply ε β :=
  match p with
  | .done (.ok a) => f a
  | .done (.error e) => .done (.error e)
  | .exec s next => .exec s fun r => (next r).bind f

/-- `try .. except`. -/
def handle (p : Program S Reply ε α) (h : ε → Program S Reply ε α) : Program S Reply ε α :=
  match p with
  | .done (.ok a) => .done (.ok a)
  | .done (.error e) => h e
  | .exec s next => .exec s fun r => (next r).handle h

instance : Monad (Program S Reply ε) where
  pure a := .done (.ok a)
  bind := bind

instance : MonadExceptOf ε (Program S Reply ε) where
  throw e := .done (.error e)
  tryCatch := handle

def statement (s : S) : Program S Reply ε (Reply s) := .exec s .done

end Program

/-- What a statement does to the shared state, and which surroundings it can meet there. -/
structure Semantics (S : Type) (Reply : S → Type) (ε E σ : Type) where
  act : E → (s : S) → σ → Except ε (Reply s) × σ
  admits : σ → E → Bool

/-- The shared state, and the programs under way. -/
structure System (S : Type) (Reply : S → Type) (ε σ : Type) where
  shared : σ
  programs : List (Program S Reply ε Unit)

/-- A call starts, or the program at a place executes its next statement. -/
inductive Event (C E : Type)
  | start (c : C)
  | step (i : ℕ) (env : E)

variable {C E σ : Type} (M : Semantics S Reply ε E σ) (body : C → Program S Reply ε Unit)

/-- One step; an event for which there is nothing to do is refused. -/
def System.step (X : System S Reply ε σ) : Event C E → Except Unit (System S Reply ε σ)
  | .start c => .ok { X with programs := X.programs ++ [body c] }
  | .step i env =>
    match X.programs[i]? with
    | some (.exec s next) =>
      if M.admits X.shared env then
        .ok ⟨(M.act env s X.shared).2, X.programs.set i (next (M.act env s X.shared).1)⟩
      else .error ()
    | _ => .error ()

abbrev System.run (X : System S Reply ε σ) (events : List (Event C E)) : System S Reply ε σ :=
  Transaction.run (System.step M body) X events

/-- The statement of a step meets `ok` in the state that it finds. -/
def Guarded (ok : σ → E → S → Prop) (X : System S Reply ε σ) : Event C E → Prop
  | .start _ => True
  | .step i env => M.admits X.shared env = true →
    ∀ s next, X.programs[i]? = some (.exec s next) → ok X.shared env s

variable {M body} {X X' : System S Reply ε σ} {e : Event C E} {ok : σ → E → S → Prop}

/-! ## Steps and runs -/

/-- A step leaves the shared state as it was, or executes one statement. -/
theorem step_cases (h : System.step M body X e = .ok X') : X'.shared = X.shared ∨
    ∃ i env s next, e = .step i env ∧ X.programs[i]? = some (.exec s next) ∧
      M.admits X.shared env = true ∧ X'.shared = (M.act env s X.shared).2 := by
  cases e with
  | start c =>
    cases h
    exact .inl rfl
  | step i env =>
    simp only [System.step] at h
    split at h
    · rename_i s next found
      split_ifs at h with admitted
      cases h
      exact .inr ⟨i, env, s, next, rfl, found, admitted, rfl⟩
    · cases h

/-- **Invariant rule.**  What every statement preserves that meets `ok` holds after every run whose
steps meet `ok`. -/
theorem run_shared {I : σ → Prop}
    (keeps : ∀ x env s, M.admits x env = true → ok x env s → I x → I (M.act env s x).2)
    {events : List (Event C E)}
    (met : Transaction.Meets (System.step M body) (Guarded M ok) X events) (init : I X.shared) :
    I (X.run M body events).shared := by
  refine Transaction.run_invariant (I := fun X => I X.shared) ?_ met init
  intro X e X' guarded h inv
  rcases step_cases h with same | ⟨i, env, s, next, rfl, found, admitted, shared⟩
  · exact same ▸ inv
  · rw [shared]
    exact keeps _ _ _ admitted (guarded admitted s next found) inv

/-- A step that does not meet `ok` executes a statement that does not. -/
theorem not_guarded (body : C → Program S Reply ε Unit) (h : ¬ Guarded M ok X e) : ∃ env s, M.admits X.shared env = true ∧
    ¬ ok X.shared env s ∧
    (Transaction.commit (System.step M body) X e).shared = (M.act env s X.shared).2 := by
  cases e with
  | start c => exact absurd trivial h
  | step i env =>
    unfold Guarded at h
    push Not at h
    obtain ⟨admitted, s, next, found, broken⟩ := h
    refine ⟨env, s, admitted, broken, ?_⟩
    unfold Transaction.commit
    simp only [System.step, found, admitted, if_true]

/-- Where a statement that does not meet `ok` breaks `Q` at once, and the others keep it, the runs
that stay in `Q` are those whose steps all meet `ok`. -/
theorem guarded_iff {I Q : σ → Prop}
    (keeps : ∀ x env s, M.admits x env = true → ok x env s → I x → I (M.act env s x).2)
    (sound : ∀ x, I x → Q x)
    (breaks : ∀ x env s, M.admits x env = true → ¬ ok x env s → I x → ¬ Q (M.act env s x).2)
    {events : List (Event C E)} (init : I X.shared) :
    (∀ n, Q (X.run M body (events.take n)).shared) ↔
      Transaction.Meets (System.step M body) (Guarded M ok) X events := by
  constructor
  · intro always
    induction events generalizing X with
    | nil => trivial
    | cons e events ih =>
      have guarded : Guarded M ok X e := by
        by_contra broken
        obtain ⟨env, s, admitted, hs, shared⟩ := not_guarded body broken
        refine breaks _ _ _ admitted hs init ?_
        rw [← shared]
        exact always 1
      have inv : I (Transaction.commit (System.step M body) X e).shared :=
        run_shared keeps (show Transaction.Meets _ _ X [e] from ⟨guarded, trivial⟩) init
      exact ⟨guarded, ih inv fun n => always (n + 1)⟩
  · intro met n
    rw [← List.take_append_drop n events, Transaction.meets_append] at met
    exact sound _ (run_shared keeps met.1 init)

theorem length_step {i : ℕ} {env : E} (h : System.step M body X (.step i env) = .ok X') :
    X'.programs.length = X.programs.length := by
  simp only [System.step] at h
  split at h
  · split_ifs at h
    obtain rfl := Except.ok.inj h
    exact List.length_set
  · cases h

/-- A call that starts takes one place, and its steps take none. -/
theorem length_run_start (M : Semantics S Reply ε E σ) (body : C → Program S Reply ε Unit)
    (X : System S Reply ε σ) (c : C) (i : ℕ) (envs : List E) :
    (X.run M body (.start c :: envs.map (.step i))).programs.length = X.programs.length + 1 := by
  have steps : ∀ (envs : List E) (Y : System S Reply ε σ),
      (Y.run M body (envs.map (.step i))).programs.length = Y.programs.length := by
    intro envs
    induction envs with
    | nil => exact fun Y => rfl
    | cons env envs ih =>
      intro Y
      show ((Transaction.commit (System.step M body) Y (.step i env)).run M body _).programs.length
        = _
      rw [ih]
      unfold Transaction.commit
      cases h : System.step M body Y (.step i env) with
      | ok Y' => exact length_step h
      | error e => rfl
  show (System.run M body ⟨X.shared, X.programs ++ [body c]⟩ _).programs.length = _
  rw [steps]
  exact List.length_append

/-! ## Programs that nobody interrupts -/

namespace Program

variable (M) (ok)

/-- Executed on its own from `x`, the program meets `ok` at every statement, and ends with `Q`. -/
def wp : Program S Reply ε α → σ → (Except ε α → σ → Prop) → Prop
  | .done r, x, Q => Q r x
  | .exec s next, x, Q => ∀ env, M.admits x env = true →
    ok x env s ∧ (next (M.act env s x).1).wp (M.act env s x).2 Q

variable {M} {ok} {p : Program S Reply ε α} {x : σ}

theorem wp_mono {Q Q' : Except ε α → σ → Prop} (h : p.wp M ok x Q) (hQ : ∀ r y, Q r y → Q' r y) :
    p.wp M ok x Q' := by
  induction p generalizing x with
  | done r => exact hQ r x h
  | exec s next ih => exact fun env admitted => ⟨(h env admitted).1, ih _ (h env admitted).2⟩

theorem wp_bind {f : α → Program S Reply ε β} {Q : Except ε β → σ → Prop}
    (h : p.wp M ok x fun r y => match r with
      | .ok a => (f a).wp M ok y Q
      | .error e => Q (.error e) y) : (p >>= f).wp M ok x Q := by
  show (p.bind f).wp M ok x Q
  induction p generalizing x with
  | done r => cases r with
    | ok a => exact h
    | error e => exact h
  | exec s next ih => exact fun env admitted => ⟨(h env admitted).1, ih _ (h env admitted).2⟩

theorem wp_handle {f : ε → Program S Reply ε α} {Q : Except ε α → σ → Prop}
    (h : p.wp M ok x fun r y => match r with
      | .ok a => Q (.ok a) y
      | .error e => (f e).wp M ok y Q) : (tryCatch p f).wp M ok x Q := by
  show (p.handle f).wp M ok x Q
  induction p generalizing x with
  | done r => cases r with
    | ok a => exact h
    | error e => exact h
  | exec s next ih => exact fun env admitted => ⟨(h env admitted).1, ih _ (h env admitted).2⟩

/-- The steps of a program between which no other program runs. -/
theorem wp_meets {X : System S Reply ε σ} {p : Program S Reply ε Unit} {i : ℕ}
    (found : X.programs[i]? = some p) {Q : Except ε Unit → σ → Prop} (h : p.wp M ok X.shared Q)
    (envs : List E) :
    Transaction.Meets (System.step M body) (Guarded M ok) X (envs.map (Event.step i)) := by
  induction envs generalizing X p with
  | nil => trivial
  | cons env envs ih =>
    rw [List.map_cons]
    refine ⟨fun admitted s next here => ?_, ?_⟩
    · rw [found] at here
      obtain rfl := Option.some.inj here
      exact (h env admitted).1
    · unfold Transaction.commit
      cases p with
      | done r =>
        simp only [System.step, found]
        exact ih found h
      | exec s next =>
        simp only [System.step, found]
        by_cases admitted : M.admits X.shared env = true
        · rw [if_pos admitted]
          refine ih ?_ (h env admitted).2
          obtain ⟨inside, -⟩ := List.getElem?_eq_some_iff.mp found
          exact List.getElem?_set_self inside
        · rw [if_neg admitted]
          exact ih found h

end Program

end Interleaving
