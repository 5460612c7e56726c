import Mathlib
import Metnos.Lib.Count
import Metnos.Scheduler.Admission

/-!
# Scheduler.Conservation — what running calls hold

For every primitive, what is available and what the calls hold add up to its capacity.  The flags of
an admission say what was taken, the error path releases exactly that, and when every step was taken
so does the completion path.
-/

namespace Metnos.Scheduler

open Transaction

/-! ## Claims -/

/-- How much of a primitive a list of claims is worth. -/
def claimed (p : Primitive) (claims : List Claim) : ℕ :=
  (claims.map (fun c => if c.1 = p then c.2 else 0)).sum

@[simp] theorem claimed_nil (p : Primitive) : claimed p [] = 0 := rfl

theorem claimed_cons (p : Primitive) (c : Claim) (claims : List Claim) :
    claimed p (c :: claims) = (if c.1 = p then c.2 else 0) + claimed p claims := by
  simp [claimed]

@[simp] theorem claimed_append (p : Primitive) (a b : List Claim) :
    claimed p (a ++ b) = claimed p a + claimed p b := by
  simp [claimed]

theorem claimed_ite (p : Primitive) (flag : Bool) (a b : List Claim) :
    claimed p (if flag then a else b) = bif flag then claimed p a else claimed p b := by
  cases flag <;> rfl

theorem claimed_perm {p : Primitive} {a b : List Claim} (h : a.Perm b) :
    claimed p a = claimed p b := (h.map _).sum_eq

theorem claimed_reverse (p : Primitive) (claims : List (String × ℕ)) :
    claimed p (vectorClaims claims.reverse) = claimed p (vectorClaims claims) :=
  claimed_perm ((List.reverse_perm claims).map _)

theorem claimed_of_notMem {p : Primitive} {claims : List Claim} (h : p ∉ claims.map Prod.fst) :
    claimed p claims = 0 := by
  refine List.sum_eq_zero fun x hx => ?_
  obtain ⟨c, hc, rfl⟩ := List.mem_map.mp hx
  refine if_neg ?_
  rintro rfl
  exact h (List.mem_map_of_mem hc)

/-! ## Acquiring and releasing -/

theorem foldl_take {claims : List Claim} {slots : Slots} (nodup : (claims.map Prod.fst).Nodup)
    (enough : ∀ c ∈ claims, c.2 ≤ (slots c.1).available) (p : Primitive) :
    (claims.foldl take slots p).available + claimed p claims = (slots p).available ∧
    (claims.foldl take slots p).capacity = (slots p).capacity := by
  induction claims generalizing slots with
  | nil => simp
  | cons c claims ih =>
    rw [List.map_cons, List.nodup_cons] at nodup
    rw [List.foldl_cons, claimed_cons]
    have hne : ∀ d ∈ claims, d.1 ≠ c.1 := fun d hd heq =>
      nodup.1 (heq ▸ List.mem_map_of_mem hd)
    have enough' : ∀ d ∈ claims, d.2 ≤ (take slots c d.1).available := by
      intro d hd
      rw [take, Function.update_of_ne (hne d hd)]
      exact enough d (List.mem_cons_of_mem _ hd)
    obtain ⟨havailable, hcapacity⟩ := ih nodup.2 enough'
    rw [hcapacity]
    by_cases hp : c.1 = p
    · subst hp
      have hc := enough c (List.mem_cons_self ..)
      rw [claimed_of_notMem nodup.1, take, Function.update_self] at havailable
      rw [claimed_of_notMem nodup.1, take, Function.update_self]
      simp only [if_true]
      simp only at havailable
      exact ⟨by omega, trivial⟩
    · rw [take, Function.update_of_ne (Ne.symm hp)] at havailable
      rw [if_neg hp, take, Function.update_of_ne (Ne.symm hp)]
      exact ⟨by omega, rfl⟩

theorem acquireClaims_ok {claims : List Claim} {slots slots' : Slots}
    (nodup : (claims.map Prod.fst).Nodup) (h : acquireClaims slots claims = some slots')
    (p : Primitive) : (slots' p).available + claimed p claims = (slots p).available ∧
    (slots' p).capacity = (slots p).capacity := by
  unfold acquireClaims at h
  split at h
  · cases h
  · rename_i hany
    cases h
    refine foldl_take nodup (fun c hc => ?_) p
    simp only [List.any_eq_true, decide_eq_true_eq, not_exists, not_and] at hany
    exact Nat.le_of_not_lt (hany c hc)

theorem release_ok {slot slot' : CapacitySlot} {n : ℕ} (h : slot.release n = .ok slot') :
    slot'.available = slot.available + n ∧ slot'.capacity = slot.capacity := by
  unfold CapacitySlot.release at h
  split at h
  · cases h
  · cases h
    exact ⟨rfl, rfl⟩

/-! ## What a call holds -/

/-- What the flags say was taken, in the order of the steps. -/
def Request.taken (r : Request) (number : ℕ) (l : Locals) : List Claim :=
  (if l.fairAcquired then [(.fair, 1)] else []) ++
  (if l.globalAcquired then [(.global, 1)] else []) ++
  (if l.executorAcquired then r.executorClaims else []) ++
  (if l.identityToken then [(.isolation number, 1)] else []) ++
  (if l.resourceAcquired then r.resourceClaims else vectorClaims l.acquiredResources)

theorem Request.claimed_taken (r : Request) (number : ℕ) (l : Locals) (p : Primitive) :
    claimed p (r.taken number l) =
      (bif l.fairAcquired then claimed p [(.fair, 1)] else 0) +
      (bif l.globalAcquired then claimed p [(.global, 1)] else 0) +
      (bif l.executorAcquired then claimed p r.executorClaims else 0) +
      (bif l.identityToken then claimed p [(.isolation number, 1)] else 0) +
      (bif l.resourceAcquired then claimed p r.resourceClaims
        else claimed p (vectorClaims l.acquiredResources)) := by
  simp only [Request.taken, claimed_append, claimed_ite, claimed_nil]

/-- What a call has taken and not yet given back. -/
def Call.holdings (c : Call) : List Claim :=
  match c.phase with
  | .admitting _ l => c.request.taken c.number l
  | .running l => c.request.taken c.number l
  | .unwinding todo => todo
  | .ended => []

def Call.held (p : Primitive) (c : Call) : ℕ := claimed p c.holdings

def ExecutorScheduler.held (S : ExecutorScheduler) (p : Primitive) : ℕ :=
  (S.calls.map (Call.held p)).sum

/-- The flags that a request never sets. -/
structure Request.Owns (r : Request) (l : Locals) : Prop where
  plain : ∀ name e s, r = .plain name e s → l.fairAcquired = false ∧ l.acquiredResources = []
  context : ∀ name e claims, r = .context name e claims → l.resourceAcquired = false

theorem Request.exceptPath_taken {r : Request} {l : Locals} (owns : r.Owns l) (number : ℕ)
    (p : Primitive) : claimed p (r.exceptPath number l) = claimed p (r.taken number l) := by
  cases r with
  | plain name e s =>
    obtain ⟨hfair, hresources⟩ := owns.plain name e s rfl
    simp only [Request.exceptPath, Request.taken, claimed_append, hfair, hresources,
      vectorClaims, List.map_nil, Bool.false_eq_true, if_false, claimed_nil]
    omega
  | context name e claims =>
    have hresource := owns.context name e claims rfl
    simp only [Request.exceptPath, Request.taken, claimed_append, hresource, Bool.false_eq_true,
      if_false, claimed_reverse]
    omega

def Request.complete (r : Request) : Locals := r.steps.foldl r.mark {}

theorem Request.releaseSlots_taken (r : Request) (number : ℕ) (p : Primitive) :
    claimed p (r.releaseSlots number r.complete) = claimed p (r.taken number r.complete) := by
  cases r with
  | plain name e s =>
    cases e <;> cases s <;>
      simp [Request.complete, Request.steps, Request.mark, Request.releaseSlots, Request.taken,
        Request.executorClaims, Request.resourceClaims, vectorClaims, claimed_cons] <;> omega
  | context name e claims =>
    simp only [Request.complete, Request.steps, List.foldl_cons, List.foldl_nil, Request.mark,
      Request.releaseSlots, Request.taken, claimed_append, claimed_reverse, if_true,
      Bool.false_eq_true, if_false]
    omega

/-! ## Admissions -/

def Unmarked (l : Locals) : AdmissionStep → Prop
  | .fair => l.fairAcquired = false
  | .global => l.globalAcquired = false
  | .executor => l.executorAcquired = false
  | .identity => l.identityToken = false
  | .resources => l.resourceAcquired = false ∧ l.acquiredResources = []

theorem Unmarked.mark {r : Request} {l : Locals} {s t : AdmissionStep} (h : Unmarked l s)
    (hne : s ≠ t) : Unmarked (r.mark l t) s := by
  cases s <;> cases t <;> first | exact absurd rfl hne | exact h | (cases r <;> exact h)

theorem Unmarked.foldl {r : Request} {done : List AdmissionStep} {l : Locals} {s : AdmissionStep}
    (h : Unmarked l s) (hs : s ∉ done) : Unmarked (done.foldl r.mark l) s := by
  induction done generalizing l with
  | nil => exact h
  | cons t done ih =>
    rw [List.mem_cons, not_or] at hs
    exact ih (h.mark hs.1) hs.2

theorem Request.taken_mark {r : Request} {l : Locals} {s : AdmissionStep} (h : Unmarked l s)
    (number : ℕ) (p : Primitive) :
    claimed p (r.taken number (r.mark l s)) =
      claimed p (r.taken number l) + claimed p (r.stepClaims number s) := by
  rw [Request.claimed_taken, Request.claimed_taken]
  cases s with
  | fair | global | executor | identity =>
    simp only [Unmarked] at h
    simp only [Request.mark, Request.stepClaims, h, cond_true, cond_false]
    omega
  | resources =>
    obtain ⟨hresource, hacquired⟩ := h
    cases r <;>
      simp only [Request.mark, Request.stepClaims, hresource, hacquired, cond_true, cond_false,
        vectorClaims, List.map_nil, claimed_nil, Request.resourceClaims] <;> omega

theorem Request.steps_nodup (r : Request) : r.steps.Nodup := by
  cases r with
  | plain name e s => cases e <;> cases s <;> simp [Request.steps]
  | context name e claims => simp [Request.steps]

theorem Request.owns_foldl {r : Request} {done : List AdmissionStep}
    (hdone : ∀ s ∈ done, s ∈ r.steps) : r.Owns (done.foldl r.mark {}) := by
  have fair : .fair ∉ done ∨ ∃ name e claims, r = .context name e claims := by
    cases r with
    | plain name e s =>
      refine .inl fun h => ?_
      have hmem := hdone _ h
      cases e <;> cases s <;> simp [Request.steps] at hmem
    | context name e claims => exact .inr ⟨name, e, claims, rfl⟩
  constructor
  · rintro name e s rfl
    have hfair := fair.resolve_right (by simp)
    refine ⟨Unmarked.foldl (s := .fair) rfl hfair, ?_⟩
    have keep : ∀ (steps : List AdmissionStep) (l : Locals),
        (steps.foldl (Request.mark (.plain name e s)) l).acquiredResources =
          l.acquiredResources := by
      intro steps
      induction steps with
      | nil => exact fun _ => rfl
      | cons t steps ih =>
        intro l
        rw [List.foldl_cons, ih]
        cases t <;> rfl
    exact keep done {}
  · rintro name e claims rfl
    have keep : ∀ (steps : List AdmissionStep) (l : Locals),
        (steps.foldl (Request.mark (.context name e claims)) l).resourceAcquired =
          l.resourceAcquired := by
      intro steps
      induction steps with
      | nil => exact fun _ => rfl
      | cons t steps ih =>
        intro l
        rw [List.foldl_cons, ih]
        cases t <;> rfl
    exact keep done {}

/-! ## Sound calls -/

/-- A vector names each resource once, and claims some of it. -/
def Request.Valid : Request → Prop
  | .plain _ _ _ => True
  | .context _ _ claims => (claims.map Prod.fst).Nodup ∧ ∀ x ∈ claims, 1 ≤ x.2

/-- The primitives of which a call holds at most one. -/
def Primitive.isSlot : Primitive → Bool
  | .resource _ => false
  | _ => true

/-- The flags of a call say how far its admission is; its releases are of claims it holds. -/
def Call.Sound (c : Call) : Prop :=
  match c.phase with
  | .admitting todo l => todo ≠ [] ∧
      ∃ done, done ++ todo = c.request.steps ∧ l = done.foldl c.request.mark {}
  | .running l => l = c.request.complete
  | .unwinding todo => (∀ x ∈ todo, 1 ≤ x.2) ∧ ∀ p : Primitive, p.isSlot = true → claimed p todo ≤ 1
  | .ended => True

theorem mem_vectorClaims {claims : List (String × ℕ)} {c : Claim} (h : c ∈ vectorClaims claims) :
    ∃ x ∈ claims, c = (.resource x.1, x.2) := by
  obtain ⟨x, hx, rfl⟩ := List.mem_map.mp h
  exact ⟨x, hx, rfl⟩

theorem claimed_vector {p : Primitive} (hp : p.isSlot = true) (claims : List (String × ℕ)) :
    claimed p (vectorClaims claims) = 0 := by
  refine claimed_of_notMem fun h => ?_
  obtain ⟨c, hc, rfl⟩ := List.mem_map.mp h
  obtain ⟨x, -, rfl⟩ := mem_vectorClaims hc
  cases hp

theorem Request.stepClaims_nodup {r : Request} (valid : r.Valid) (number : ℕ)
    (s : AdmissionStep) : ((r.stepClaims number s).map Prod.fst).Nodup := by
  cases r with
  | plain name e res =>
    cases s <;> cases e <;> cases res <;>
      simp [Request.stepClaims, Request.executorClaims, Request.resourceClaims]
  | context name e claims =>
    cases s with
    | resources =>
      have hmap : (vectorClaims claims).map Prod.fst =
          (claims.map Prod.fst).map Primitive.resource := by
        simp [vectorClaims]
      simp only [Request.stepClaims, Request.resourceClaims, hmap]
      exact valid.1.map (fun _ _ h => Primitive.resource.inj h)
    | _ => simp [Request.stepClaims, Request.executorClaims]

theorem Request.claimed_executor (r : Request) (p : Primitive) :
    claimed p r.executorClaims ≤ 1 ∧
    ((∀ name n, p ≠ .executor name n) → claimed p r.executorClaims = 0) := by
  have single : ∀ name n, claimed p [(.executor name n, 1)] ≤ 1 ∧
      ((∀ name n, p ≠ .executor name n) → claimed p [(.executor name n, 1)] = 0) := by
    intro name n
    rw [claimed_cons, claimed_nil]
    by_cases h : Primitive.executor name n = p
    · exact ⟨by simp [h], fun hne => absurd h.symm (hne name n)⟩
    · simp [h]
  cases r with
  | plain name e s =>
    cases e with
    | none => exact ⟨Nat.zero_le 1, fun _ => rfl⟩
    | some n => exact single name n
  | context name n claims => exact single name n

theorem Request.taken_le_one {r : Request} (number : ℕ) (l : Locals) {p : Primitive}
    (hp : p.isSlot = true) : claimed p (r.taken number l) ≤ 1 := by
  have hresource : claimed p r.resourceClaims = 0 := by
    cases r with
    | plain name e s =>
      cases s with
      | none => rfl
      | some s =>
        refine claimed_of_notMem fun h => ?_
        obtain rfl : p = .resource s := by simpa [Request.resourceClaims] using h
        cases hp
    | context name e claims => exact claimed_vector hp claims
  obtain ⟨hone, hzero⟩ := r.claimed_executor p
  have flag : ∀ (b : Bool) (n : ℕ), (bif b then n else 0) ≤ n := fun b n => by cases b <;> simp
  have hfair := flag l.fairAcquired (claimed p [(.fair, 1)])
  have hglobal := flag l.globalAcquired (claimed p [(.global, 1)])
  have hexecutor := flag l.executorAcquired (claimed p r.executorClaims)
  have hidentity := flag l.identityToken (claimed p [(.isolation number, 1)])
  have single : ∀ q : Primitive, claimed p [(q, 1)] = if q = p then 1 else 0 := fun q => by
    rw [claimed_cons, claimed_nil, Nat.add_zero]
  have h1 := single .fair
  have h2 := single .global
  have h3 := single (.isolation number)
  rw [Request.claimed_taken, hresource, claimed_vector hp, Bool.cond_self]
  cases p with
  | resource name => cases hp
  | executor name n =>
    simp only [reduceCtorEq, if_false] at h1 h2 h3
    omega
  | fair | global =>
    have h0 := hzero (by simp)
    simp only [reduceCtorEq, if_false, if_true] at h1 h2 h3
    omega
  | isolation n =>
    have h0 := hzero (by simp)
    simp only [reduceCtorEq, if_false] at h1 h2
    split at h3 <;> omega

/-! ## The invariant -/

def Call.runs (name : String) (c : Call) : Bool :=
  match c.phase with
  | .running _ => c.request.name = name
  | _ => false

/-- What is available and what the calls hold are the capacity the scheduler started with. -/
structure Conserved (S₀ S : ExecutorScheduler) : Prop where
  available : ∀ p, (S.slots p).available + S.held p = (S.slots p).capacity
  capacity : ∀ p, (S.slots p).capacity = (S₀.slots p).capacity
  valid : ∀ c ∈ S.calls, c.request.Valid
  sound : ∀ c ∈ S.calls, c.Sound
  inFlight : ∀ name, S.inFlight name = S.calls.countP (Call.runs name)

section
variable {S₀ S S' : ExecutorScheduler}

theorem Conserved.change (C : Conserved S₀ S) {i : ℕ} {c : Call} {phase : CallPhase}
    (hc : S.calls[i]? = some c)
    (calls : S'.calls = S.calls.modify i (fun c => { c with phase := phase }))
    (sound : Call.Sound { c with phase := phase })
    (slots : ∀ p, (S'.slots p).available + Call.held p { c with phase := phase } =
      (S.slots p).available + c.held p)
    (capacity : ∀ p, (S'.slots p).capacity = (S.slots p).capacity)
    (inFlight : ∀ name, S'.inFlight name + (c.runs name).toNat =
      S.inFlight name + (Call.runs name { c with phase := phase }).toNat) : Conserved S₀ S' := by
  have hmem : c ∈ S.calls := List.mem_of_getElem? hc
  refine ⟨fun p => ?_, fun p => (capacity p).trans (C.capacity p), fun d hd => ?_, fun d hd => ?_,
    fun name => ?_⟩
  · have hsum := Count.sum_modify (w := Call.held p)
      (f := fun c => ({ c with phase := phase } : Call)) hc
    have hold := C.available p
    have hslot := slots p
    rw [capacity, ExecutorScheduler.held, calls]
    rw [ExecutorScheduler.held] at hold
    omega
  · rw [calls] at hd
    rcases Count.mem_modify hc hd with rfl | ⟨j, -, hj⟩
    · exact C.valid c hmem
    · exact C.valid d (List.mem_of_getElem? hj)
  · rw [calls] at hd
    rcases Count.mem_modify hc hd with rfl | ⟨j, -, hj⟩
    · exact sound
    · exact C.sound d (List.mem_of_getElem? hj)
  · have hcount := Count.countP_modify (p := Call.runs name)
      (f := fun c => ({ c with phase := phase } : Call)) hc
    have hflight := inFlight name
    have hold := C.inFlight name
    rw [calls]
    omega

theorem Conserved.enter (C : Conserved S₀ S) {r : Request} (valid : r.Valid) :
    Conserved S₀ (S.enter r) := by
  have hheld : ∀ p, (S.enter r).held p = S.held p := by
    intro p
    simp only [ExecutorScheduler.held, ExecutorScheduler.enter, List.map_append, List.sum_append,
      List.map_cons, List.map_nil, List.sum_cons, List.sum_nil]
    have hnew : Call.held p ⟨S.calls.length, r, .admitting r.steps {}⟩ = 0 := by
      rw [Call.held, Call.holdings, Request.claimed_taken]
      rfl
    omega
  refine ⟨fun p => ?_, C.capacity, fun c hc => ?_, fun c hc => ?_, fun name => ?_⟩
  · rw [hheld]
    exact C.available p
  · rcases List.mem_append.mp hc with hc | hc
    · exact C.valid c hc
    · rw [List.mem_singleton] at hc
      subst hc
      exact valid
  · rcases List.mem_append.mp hc with hc | hc
    · exact C.sound c hc
    · rw [List.mem_singleton] at hc
      subst hc
      refine ⟨?_, [], rfl, rfl⟩
      cases r with
      | plain name e s => cases e <;> cases s <;> simp [Request.steps]
      | context name e claims => simp [Request.steps]
  · rw [ExecutorScheduler.enter, List.countP_append, ← C.inFlight name]
    rfl

/-! ## Steps -/

theorem Call.advance_held {c : Call} {step : AdmissionStep} {todo : List AdmissionStep}
    {l : Locals} (hphase : c.phase = .admitting (step :: todo) l) (sound : c.Sound)
    (p : Primitive) : claimed p (c.request.taken c.number (c.request.mark l step)) =
      c.held p + claimed p (c.request.stepClaims c.number step) := by
  rw [Call.Sound, hphase] at sound
  obtain ⟨-, done, hsteps, rfl⟩ := sound
  have hnot : step ∉ done := by
    have hnodup := c.request.steps_nodup
    rw [← hsteps, List.nodup_append] at hnodup
    exact fun h => hnodup.2.2 step h step (List.mem_cons_self ..) rfl
  have hunmarked : Unmarked (done.foldl c.request.mark {}) step :=
    Unmarked.foldl (by cases step <;> simp [Unmarked]) hnot
  rw [Request.taken_mark hunmarked, Call.held, Call.holdings, hphase]

theorem Conserved.advance (C : Conserved S₀ S) {i : ℕ} {c : Call} (hc : S.calls[i]? = some c)
    (h : S.advance i c = .ok S') : Conserved S₀ S' := by
  have hmem : c ∈ S.calls := List.mem_of_getElem? hc
  have hsound := C.sound c hmem
  unfold ExecutorScheduler.advance at h
  split at h
  · rename_i step todo l hphase
    split at h
    · cases h
    rename_i slots hslots
    have taken := acquireClaims_ok
      (c.request.stepClaims_nodup (C.valid c hmem) c.number step) hslots
    have hidle : ∀ name, c.runs name = false := fun name => by rw [Call.runs, hphase]
    have adds := Call.advance_held hphase hsound
    rw [Call.Sound, hphase] at hsound
    obtain ⟨-, done, hsteps, hl⟩ := hsound
    have hmark : c.request.mark l step = (done ++ [step]).foldl c.request.mark {} := by
      rw [List.foldl_append, ← hl]
      rfl
    split at h
    · rename_i hempty
      rw [List.isEmpty_iff] at hempty
      subst hempty
      cases h
      refine C.change hc rfl ?_ (fun p => ?_) (fun p => (taken p).2) fun name => ?_
      · rw [Call.Sound, hmark, hsteps]
        rfl
      · have := (taken p).1
        have := adds p
        change (slots p).available + claimed p (c.request.taken c.number (c.request.mark l step)) = _
        omega
      · rw [hidle name]
        change Function.update S.inFlight c.request.name _ name + 0 = _
        simp only [Call.runs]
        by_cases hname : name = c.request.name
        · subst hname
          simp
        · rw [Function.update_of_ne hname]
          simp [Ne.symm hname]
    · rename_i hne
      cases h
      refine C.change hc rfl ?_ (fun p => ?_) (fun p => (taken p).2) fun name => ?_
      · refine ⟨by simpa using hne, done ++ [step], ?_, hmark⟩
        rw [List.append_assoc]
        exact hsteps
      · have := (taken p).1
        have := adds p
        change (slots p).available + claimed p (c.request.taken c.number (c.request.mark l step)) = _
        omega
      · rw [hidle name]
        rfl
  · cases h

theorem Request.acquired_pos {r : Request} (valid : r.Valid) {done : List AdmissionStep}
    {l : Locals} (hl : ∀ x ∈ l.acquiredResources, 1 ≤ x.2) :
    ∀ x ∈ (done.foldl r.mark l).acquiredResources, 1 ≤ x.2 := by
  induction done generalizing l with
  | nil => exact hl
  | cons step done ih =>
    rw [List.foldl_cons]
    refine ih ?_
    cases step with
    | resources =>
      cases r with
      | plain name e s => exact hl
      | context name e claims => exact valid.2
    | _ => exact hl

theorem Request.executorClaims_pos (r : Request) : ∀ x ∈ r.executorClaims, 1 ≤ x.2 := by
  cases r with
  | plain name e s => cases e <;> simp [Request.executorClaims]
  | context name e claims => simp [Request.executorClaims]

theorem vectorClaims_pos {claims : List (String × ℕ)} (h : ∀ x ∈ claims, 1 ≤ x.2) :
    ∀ x ∈ vectorClaims claims, 1 ≤ x.2 := by
  intro x hx
  obtain ⟨y, hy, rfl⟩ := mem_vectorClaims hx
  exact h y hy

theorem Request.resourceClaims_pos {r : Request} (valid : r.Valid) :
    ∀ x ∈ r.resourceClaims, 1 ≤ x.2 := by
  cases r with
  | plain name e s => cases s <;> simp [Request.resourceClaims]
  | context name e claims => exact vectorClaims_pos valid.2

theorem Request.paths_pos {r : Request} (valid : r.Valid) {l : Locals}
    (hl : ∀ x ∈ l.acquiredResources, 1 ≤ x.2) (number : ℕ) :
    (∀ x ∈ r.exceptPath number l, 1 ≤ x.2) ∧ ∀ x ∈ r.releaseSlots number l, 1 ≤ x.2 := by
  have hexecutor := r.executorClaims_pos
  have hresource := Request.resourceClaims_pos valid
  have hvector : ∀ x ∈ vectorClaims l.acquiredResources.reverse, 1 ≤ x.2 :=
    vectorClaims_pos fun x hx => hl x (List.mem_reverse.mp hx)
  have flag : ∀ (b : Bool) (claims : List Claim), (∀ x ∈ claims, 1 ≤ x.2) →
      ∀ x ∈ (if b then claims else []), 1 ≤ x.2 := by
    intro b claims h
    cases b
    · simp
    · exact h
  have one : ∀ (p : Primitive), ∀ x ∈ [((p, 1) : Claim)], 1 ≤ x.2 := by simp
  constructor <;> intro x hx
  · simp only [Request.exceptPath, List.mem_append] at hx
    rcases hx with (((hx | hx) | hx) | hx) | hx
    · exact flag _ _ (one _) x hx
    · exact flag _ _ hexecutor x hx
    · cases r with
      | plain name e s => exact flag _ _ hresource x hx
      | context name e claims => exact hvector x hx
    · exact flag _ _ (one _) x hx
    · cases r with
      | plain name e s => cases hx
      | context name e claims => exact flag _ _ (one _) x hx
  · simp only [Request.releaseSlots, List.mem_append] at hx
    rcases hx with (((hx | hx) | hx) | hx) | hx
    · exact flag _ _ (one _) x hx
    · exact hexecutor x hx
    · cases r with
      | plain name e s => exact hresource x hx
      | context name e claims => exact hvector x hx
    · exact one _ x hx
    · cases r with
      | plain name e s => cases hx
      | context name e claims => exact one _ x hx

theorem Conserved.abort (C : Conserved S₀ S) {i : ℕ} {c : Call} {todo : List AdmissionStep}
    {l : Locals} (hc : S.calls[i]? = some c) (hphase : c.phase = .admitting todo l) :
    Conserved S₀ (S.setPhase i (.unwinding (c.request.exceptPath c.number l))) := by
  have hmem : c ∈ S.calls := List.mem_of_getElem? hc
  have hsound := C.sound c hmem
  rw [Call.Sound, hphase] at hsound
  obtain ⟨-, done, hsteps, rfl⟩ := hsound
  have owns : c.request.Owns (done.foldl c.request.mark {}) :=
    Request.owns_foldl fun s hs => by rw [← hsteps]; exact List.mem_append_left _ hs
  have releases := Request.exceptPath_taken owns c.number
  refine C.change hc rfl ⟨?_, fun p hp => ?_⟩ (fun p => ?_) (fun _ => rfl) fun name => ?_
  · refine (Request.paths_pos (C.valid c hmem) ?_ c.number).1
    exact Request.acquired_pos (C.valid c hmem) (by simp)
  · rw [releases]
    exact Request.taken_le_one _ _ hp
  · rw [Call.held, Call.held, Call.holdings, Call.holdings, hphase, releases]
    rfl
  · simp only [Call.runs, hphase]
    rfl

theorem Conserved.finish (C : Conserved S₀ S) {i : ℕ} {c : Call} {l : Locals}
    (hc : S.calls[i]? = some c) (hphase : c.phase = .running l) :
    Conserved S₀ ((S.finished c.request.name).setPhase i
      (.unwinding (c.request.releaseSlots c.number l))) := by
  have hmem : c ∈ S.calls := List.mem_of_getElem? hc
  have hsound := C.sound c hmem
  rw [Call.Sound, hphase] at hsound
  dsimp only at hsound
  subst hsound
  have releases := c.request.releaseSlots_taken c.number
  refine C.change hc rfl ⟨?_, fun p hp => ?_⟩ (fun p => ?_) (fun _ => rfl) fun name => ?_
  · refine (Request.paths_pos (C.valid c hmem) ?_ c.number).2
    exact Request.acquired_pos (C.valid c hmem) (by simp)
  · rw [releases]
    exact Request.taken_le_one _ _ hp
  · rw [Call.held, Call.held, Call.holdings, Call.holdings, hphase, releases]
    rfl
  · change Function.update S.inFlight c.request.name _ name + _ = _
    simp only [Call.runs, hphase, Bool.toNat_false, Nat.add_zero]
    by_cases hname : name = c.request.name
    · subst hname
      -- the call itself is counted
      have hpos : 0 < S.inFlight c.request.name := by
        rw [C.inFlight, List.countP_pos_iff]
        exact ⟨c, hmem, by simp [Call.runs, hphase]⟩
      rw [Function.update_self]
      simp only [decide_true, Bool.toNat_true]
      omega
    · rw [Function.update_of_ne hname]
      simp [Ne.symm hname]

theorem held_le (p : Primitive) {c : Call} (hmem : c ∈ S.calls) : c.held p ≤ S.held p :=
  List.single_le_sum (fun _ _ => Nat.zero_le _) _ (List.mem_map_of_mem hmem)

theorem Conserved.release_ok (C : Conserved S₀ S) {c : Call} {claim : Claim} {todo : List Claim}
    (hmem : c ∈ S.calls) (hphase : c.phase = .unwinding (claim :: todo)) :
    ∃ slot, (S.slots claim.1).release claim.2 = .ok slot := by
  have hsound := C.sound c hmem
  rw [Call.Sound, hphase] at hsound
  have hpos := hsound.1 claim (List.mem_cons_self ..)
  have hheld : claim.2 ≤ c.held claim.1 := by
    rw [Call.held, Call.holdings, hphase]
    dsimp only
    rw [claimed_cons, if_pos rfl]
    exact Nat.le_add_right ..
  have hle := Nat.le_trans hheld (held_le claim.1 hmem)
  have htotal := C.available claim.1
  rw [CapacitySlot.release, if_neg (by omega)]
  exact ⟨_, rfl⟩

theorem Conserved.unwind (C : Conserved S₀ S) {i : ℕ} {c : Call} (hc : S.calls[i]? = some c)
    (h : S.unwind i c = .ok S') : Conserved S₀ S' := by
  have hmem : c ∈ S.calls := List.mem_of_getElem? hc
  have hsound := C.sound c hmem
  unfold ExecutorScheduler.unwind at h
  split at h
  · rename_i hphase
    cases h
    refine C.change hc rfl trivial (fun p => ?_) (fun _ => rfl) fun name => ?_
    · rw [Call.held, Call.held, Call.holdings, Call.holdings, hphase]
      rfl
    · simp only [Call.runs, hphase]
      rfl
  · rename_i claim todo hphase
    simp only [bind_eq_ok, pure_eq_ok] at h
    obtain ⟨slot, hslot, rfl⟩ := h
    obtain ⟨havailable, hcapacity⟩ := Scheduler.release_ok hslot
    rw [Call.Sound, hphase] at hsound
    refine C.change hc rfl ⟨fun x hx => hsound.1 x (List.mem_cons_of_mem _ hx), fun p hp => ?_⟩
      (fun p => ?_) (fun p => ?_) fun name => ?_
    · have hone := hsound.2 p hp
      rw [claimed_cons] at hone
      omega
    · rw [Call.held, Call.held, Call.holdings, Call.holdings, hphase]
      dsimp only
      rw [claimed_cons]
      change (Function.update S.slots claim.1 slot p).available + _ = _
      by_cases hp : claim.1 = p
      · subst hp
        rw [Function.update_self, if_pos rfl, havailable]
        omega
      · rw [Function.update_of_ne (Ne.symm hp), if_neg hp]
        omega
    · change (Function.update S.slots claim.1 slot p).capacity = _
      by_cases hp : claim.1 = p
      · subst hp
        rw [Function.update_self, hcapacity]
      · rw [Function.update_of_ne (Ne.symm hp)]
    · simp only [Call.runs, hphase]
      rfl
  · cases h

theorem contextClaims_valid {limits resources claims : List (String × ℕ)}
    (h : ExecutorScheduler.contextClaims limits resources = .ok claims) :
    (claims.map Prod.fst).Nodup ∧ ∀ x ∈ claims, 1 ≤ x.2 := by
  unfold ExecutorScheduler.contextClaims at h
  split at h
  · cases h
  rename_i hcanonical
  dsimp only at h
  split at h
  · cases h
    rw [not_or, ne_eq, not_not] at hcanonical
    constructor
    · have hnodup : (resources.map Prod.fst).Nodup := by
        rw [hcanonical.1]
        decide
      exact hnodup.sublist (List.filter_sublist.map _)
    · intro x hx
      have hne := (List.mem_filter.mp hx).2
      rw [decide_eq_true_eq] at hne
      omega
  · cases h

theorem Conserved.transact (C : Conserved S₀ S) {event : SchedulerEvent}
    (h : S.transact event = .ok S') : Conserved S₀ S' := by
  have call : ∀ {i body}, S.withCall i body = .ok S' →
      ∃ c, S.calls[i]? = some c ∧ body c = .ok S' := by
    intro i body h
    unfold ExecutorScheduler.withCall at h
    split at h
    · cases h
    · rename_i c hc
      exact ⟨c, hc, h⟩
  cases event with
  | invoke name e resourceClass =>
    cases h
    exact C.enter trivial
  | invokeWithContext name e resources =>
    simp only [ExecutorScheduler.transact, bind_eq_ok, pure_eq_ok] at h
    obtain ⟨claims, hclaims, rfl⟩ := h
    exact C.enter (contextClaims_valid hclaims)
  | advance i =>
    obtain ⟨c, hc, h⟩ := call h
    exact C.advance hc h
  | abort i =>
    obtain ⟨c, hc, h⟩ := call h
    split at h
    · rename_i todo l hphase
      cases h
      exact C.abort hc hphase
    · cases h
  | finish i =>
    obtain ⟨c, hc, h⟩ := call h
    split at h
    · rename_i l hphase
      cases h
      exact C.finish hc hphase
    · cases h
  | unwind i =>
    obtain ⟨c, hc, h⟩ := call h
    exact C.unwind hc h

theorem conserved_init (maxInFlight : ℕ) (limits : List (String × ℕ)) :
    Conserved (ExecutorScheduler.init maxInFlight limits)
      (ExecutorScheduler.init maxInFlight limits) := by
  refine ⟨fun p => ?_, fun _ => rfl, by simp [ExecutorScheduler.init],
    by simp [ExecutorScheduler.init], fun _ => rfl⟩
  cases p <;> rfl

/-! ## What the invariant says -/

def Call.holds (p : Primitive) (c : Call) : Bool := 0 < c.held p

theorem Call.held_slot {c : Call} (sound : c.Sound) {p : Primitive} (hp : p.isSlot = true) :
    c.held p = (c.holds p).toNat := by
  have hone : c.held p ≤ 1 := by
    rw [Call.held, Call.holdings]
    rw [Call.Sound] at sound
    cases hphase : c.phase with
    | admitting todo l => exact Request.taken_le_one _ _ hp
    | running l => exact Request.taken_le_one _ _ hp
    | unwinding todo =>
      rw [hphase] at sound
      exact sound.2 p hp
    | ended => exact Nat.zero_le 1
  unfold Call.holds
  by_cases hzero : c.held p = 0
  · rw [hzero]
    rfl
  · have h : c.held p = 1 := by omega
    rw [h]
    rfl

theorem Conserved.held_slots (C : Conserved S₀ S) {p : Primitive} (hp : p.isSlot = true) :
    S.held p = S.calls.countP (Call.holds p) := by
  rw [ExecutorScheduler.held]
  have sound := C.sound
  generalize S.calls = l at sound
  induction l with
  | nil => rfl
  | cons c l ih =>
    rw [List.map_cons, List.sum_cons, List.countP_cons,
      ih fun d hd => sound d (List.mem_cons_of_mem _ hd),
      Call.held_slot (sound c (List.mem_cons_self ..)) hp]
    cases c.holds p <;> simp [Nat.add_comm]

/-- Whether a call is being admitted or runs. -/
def Call.admitted (c : Call) : Bool :=
  match c.phase with
  | .admitting _ _ => true
  | .running _ => true
  | _ => false

theorem Call.vector_held {c : Call} (sound : c.Sound) {name : String} {limit : ℕ}
    {claims : List (String × ℕ)} (hr : c.request = .context name limit claims)
    (hc : c.admitted = true) : (∀ resource, c.held (.resource resource) = 0) ∨
      ∀ resource, c.held (.resource resource) = claimed (.resource resource) (vectorClaims claims) := by
  have flags : ∃ l : Locals, c.holdings = c.request.taken c.number l ∧
      ∃ done : List AdmissionStep, (∀ s ∈ done, s ∈ c.request.steps) ∧ l = done.foldl c.request.mark {} := by
    rw [Call.Sound] at sound
    rw [Call.admitted] at hc
    rw [Call.holdings]
    cases hphase : c.phase with
    | admitting todo l =>
      rw [hphase] at sound
      obtain ⟨-, done, hsteps, hl⟩ := sound
      exact ⟨l, rfl, done, fun s hs => by rw [← hsteps]; exact List.mem_append_left _ hs, hl⟩
    | running l =>
      rw [hphase] at sound
      exact ⟨l, rfl, c.request.steps, fun _ hs => hs, sound⟩
    | unwinding todo | ended =>
      rw [hphase] at hc
      cases hc
  obtain ⟨l, hholdings, done, hdone, hl⟩ := flags
  have hflag := (Request.owns_foldl hdone).context name limit claims hr
  have hacquired : ∀ (steps : List AdmissionStep) (l : Locals),
      (l.acquiredResources = [] ∨ l.acquiredResources = claims) →
      (steps.foldl (Request.mark (.context name limit claims)) l).acquiredResources = [] ∨
      (steps.foldl (Request.mark (.context name limit claims)) l).acquiredResources = claims := by
    intro steps
    induction steps with
    | nil => exact fun _ h => h
    | cons t steps ih =>
      intro l h
      rw [List.foldl_cons]
      refine ih _ ?_
      cases t with
      | resources => exact .inr rfl
      | _ => exact h
  have held : ∀ resource, c.held (.resource resource) =
      claimed (.resource resource) (vectorClaims l.acquiredResources) := by
    intro resource
    have hexecutor := (c.request.claimed_executor (.resource resource)).2 (by simp)
    have hcond : ∀ b : Bool, (bif b then 0 else 0) = 0 := fun b => by cases b <;> rfl
    rw [Call.held, hholdings, Request.claimed_taken, hexecutor, hl, hflag, cond_false, ← hl]
    simp only [claimed_cons, reduceCtorEq, if_false, claimed_nil, Nat.add_zero, hcond, Nat.zero_add]
  rw [hr] at hl
  rcases hacquired done {} (.inl rfl) with h | h
  · refine .inl fun resource => ?_
    rw [held, hl, h]
    rfl
  · refine .inr fun resource => ?_
    rw [held, hl, h]

end

/-- **Conservation.**  In every state of every run: for every resource the amounts held by the calls
and what is available are its capacity; a context call that has not begun to give back holds its
whole vector or nothing of it; the fair, global and executor slots in use are as many as the calls
that hold one; no release raises; and when every call has ended every counter is as it was. -/
theorem scheduler_conserves_capacity (maxInFlight : ℕ) (limits : List (String × ℕ))
    (events : List SchedulerEvent) :
    let S₀ := ExecutorScheduler.init maxInFlight limits
    let S := schedulerRun maxInFlight limits events
    (∀ p, (S.slots p).capacity = (S₀.slots p).capacity ∧ S.held p ≤ (S.slots p).capacity ∧
      S.held p = (S.slots p).capacity - (S.slots p).available) ∧
    (∀ c ∈ S.calls, ∀ name limit claims, c.request = .context name limit claims →
      c.admitted = true → (∀ resource, c.held (.resource resource) = 0) ∨
        ∀ resource, c.held (.resource resource) =
          claimed (.resource resource) (vectorClaims claims)) ∧
    (∀ p, p.isSlot = true → S.held p = S.calls.countP (Call.holds p)) ∧
    (∀ name, S.inFlight name = S.calls.countP (Call.runs name)) ∧
    (∀ c ∈ S.calls, ∀ claim todo, c.phase = .unwinding (claim :: todo) →
      ∃ slot, (S.slots claim.1).release claim.2 = .ok slot) ∧
    ((∀ c ∈ S.calls, c.phase = .ended) →
      S.slots = S₀.slots ∧ ∀ name, S.inFlight name = S₀.inFlight name) := by
  intro S₀ S
  have C : Conserved S₀ S :=
    run_preserves (fun h C => C.transact h) (conserved_init maxInFlight limits)
  refine ⟨fun p => ⟨C.capacity p, ?_, ?_⟩, fun c hc name limit claims hr => ?_, fun p => C.held_slots,
    C.inFlight, fun c hc claim todo => C.release_ok hc, fun ended => ⟨funext fun p => ?_, fun name => ?_⟩⟩
  · have := C.available p
    omega
  · have := C.available p
    omega
  · exact Call.vector_held (C.sound c hc) hr
  · have hheld : S.held p = 0 := by
      refine List.sum_eq_zero fun x hx => ?_
      obtain ⟨c, hc, rfl⟩ := List.mem_map.mp hx
      rw [Call.held, Call.holdings, ended c hc]
      rfl
    have hfull : (S₀.slots p).available = (S₀.slots p).capacity := by cases p <;> rfl
    have havailable := C.available p
    have hcapacity := C.capacity p
    rw [hheld, Nat.add_zero] at havailable
    cases hS : S.slots p with
    | mk capacity available =>
      cases hS₀ : S₀.slots p with
      | mk capacity₀ available₀ =>
        simp_all
  · rw [C.inFlight, List.countP_eq_zero.mpr]
    · rfl
    · intro c hc
      rw [Call.runs, ended c hc]
      exact Bool.false_ne_true

/-- A plain call runs; a context call holds everything but the resources, is aborted and gives
back. -/
def abortedRun : List SchedulerEvent :=
  [.invoke "read" (some 2) "cpu", .advance 0, .advance 0, .advance 0, .advance 0,
    .invokeWithContext "read" 2
      [("cpu", 2), ("device", 0), ("llm", 0), ("local_io", 1), ("network_io", 0), ("vlm", 0)],
    .advance 1, .advance 1, .advance 1, .advance 1, .abort 1, .unwind 1, .unwind 1]

/-- One cpu of two and both global slots are in use: the aborted call has not yet released its own. -/
theorem scheduler_conserves_capacity_sample :
    let S := schedulerRun 2 [("cpu", 2), ("local_io", 2)] abortedRun
    S.held (.resource "cpu") = 1 ∧ (S.slots (.resource "cpu")).available = 1 ∧
      S.held .global = 2 ∧ S.calls.countP (Call.holds .global) = 2 ∧
      S.calls.countP (Call.holds (.executor "read" 2)) = 1 := by
  intro S
  obtain ⟨held, -, slots, -⟩ :=
    scheduler_conserves_capacity 2 [("cpu", 2), ("local_io", 2)] abortedRun
  have hcpu : (S.slots (.resource "cpu")).available = 1 ∧
      (S.slots (.resource "cpu")).capacity = 2 := by decide +kernel
  have hglobal : S.calls.countP (Call.holds .global) = 2 := by decide +kernel
  have hexecutor : S.calls.countP (Call.holds (.executor "read" 2)) = 1 := by decide +kernel
  refine ⟨?_, hcpu.1, (slots .global rfl).trans hglobal, hglobal, hexecutor⟩
  rw [(held (.resource "cpu")).2.2]
  change (S.slots (.resource "cpu")).capacity - (S.slots (.resource "cpu")).available = 1
  rw [hcpu.1, hcpu.2]

end Metnos.Scheduler
