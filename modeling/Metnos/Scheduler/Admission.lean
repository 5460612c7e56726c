import Metnos.Lib.Transaction
import Mathlib.Logic.Function.Basic

/-!
# Scheduler.Admission — admitting a call to the executors

`ExecutorScheduler.invoke` and `_invoke_with_context`: a call takes the admission primitives one
after the other, runs, and gives them back, on the error path or on the completion path.  Every
acquisition and every release is one event, so that the calls interleave in any order; a timeout or
an exception may end any admission.  Primitives are counters, taken as correct; why one has to wait
(the order of the fair gate, conflicting targets) does not matter here.
-/

namespace Metnos.Scheduler

open Transaction

/-- What a call takes a share of.  The isolation ticket of a call is a primitive of its own. -/
inductive Primitive
  | fair
  | global
  | executor (name : String) (limit : ℕ)
  | isolation (call : ℕ)
  | resource (name : String)
deriving DecidableEq

/-- `_CapacitySlot`; the semaphores and the fair gate only see amounts of one. -/
structure CapacitySlot where
  capacity : ℕ
  available : ℕ
deriving DecidableEq

def CapacitySlot.full (capacity : ℕ) : CapacitySlot := ⟨capacity, capacity⟩

inductive SchedulerError
  | contextError | wouldBlock | releasedBeyondCapacity | noSuchCall
deriving DecidableEq

def CapacitySlot.release (slot : CapacitySlot) (amount : ℕ) : Except SchedulerError CapacitySlot :=
  if amount < 1 ∨ slot.capacity < slot.available + amount then .error .releasedBeyondCapacity
  else .ok { slot with available := slot.available + amount }

abbrev Claim := Primitive × ℕ

abbrev Slots := Primitive → CapacitySlot

def take (slots : Slots) (c : Claim) : Slots :=
  Function.update slots c.1 { slots c.1 with available := (slots c.1).available - c.2 }

/-- `_acquire_resource_claims`, and with one claim every other acquisition: all at once, as soon as
all are available. -/
def acquireClaims (slots : Slots) (claims : List Claim) : Option Slots :=
  if claims.any (fun c => decide ((slots c.1).available < c.2)) then none
  else some (claims.foldl take slots)

/-! ## Calls -/

/-- A call after its facts were validated: the slots it uses. -/
inductive Request
  | plain (name : String) (executorSlot : Option ℕ) (resourceSlot : Option String)
  | context (name : String) (executorSlot : ℕ) (claims : List (String × ℕ))
deriving DecidableEq

def Request.name : Request → String
  | .plain name _ _ => name
  | .context name _ _ => name

inductive AdmissionStep
  | fair | global | executor | identity | resources
deriving DecidableEq

/-- The local variables that say what was acquired. -/
structure Locals where
  fairAcquired : Bool := false
  globalAcquired : Bool := false
  executorAcquired : Bool := false
  identityToken : Bool := false
  resourceAcquired : Bool := false
  acquiredResources : List (String × ℕ) := []
deriving DecidableEq

inductive CallPhase
  | admitting (todo : List AdmissionStep) (locals : Locals)
  | running (locals : Locals)
  /-- The releases that are left. -/
  | unwinding (todo : List Claim)
  | ended
deriving DecidableEq

structure Call where
  number : ℕ
  request : Request
  phase : CallPhase
deriving DecidableEq

def vectorClaims (claims : List (String × ℕ)) : List Claim :=
  claims.map (fun c => (.resource c.1, c.2))

/-- The acquisitions, in the order of the source. -/
def Request.steps : Request → List AdmissionStep
  | .plain _ executorSlot resourceSlot =>
    [.global] ++ (if executorSlot.isSome then [.executor] else []) ++ [.identity] ++
      (if resourceSlot.isSome then [.resources] else [])
  | .context _ _ _ => [.fair, .global, .executor, .identity, .resources]

def Request.executorClaims : Request → List Claim
  | .plain name executorSlot _ => (executorSlot.map (fun n => (.executor name n, 1))).toList
  | .context name limit _ => [(.executor name limit, 1)]

def Request.resourceClaims : Request → List Claim
  | .plain _ _ resourceSlot => (resourceSlot.map (fun r => (.resource r, 1))).toList
  | .context _ _ claims => vectorClaims claims

/-- What an acquisition takes, for the call of the given number. -/
def Request.stepClaims (r : Request) (number : ℕ) : AdmissionStep → List Claim
  | .fair => [(.fair, 1)]
  | .global => [(.global, 1)]
  | .executor => r.executorClaims
  | .identity => [(.isolation number, 1)]
  | .resources => r.resourceClaims

/-- What an acquisition that succeeded assigns. -/
def Request.mark (r : Request) (l : Locals) : AdmissionStep → Locals
  | .fair => { l with fairAcquired := true }
  | .global => { l with globalAcquired := true }
  | .executor => { l with executorAcquired := true }
  | .identity => { l with identityToken := true }
  | .resources => match r with
    | .plain _ _ _ => { l with resourceAcquired := true }
    | .context _ _ claims => { l with acquiredResources := claims }

/-- The releases under `except BaseException`. -/
def Request.exceptPath (r : Request) (number : ℕ) (l : Locals) : List Claim :=
  (if l.identityToken then [(.isolation number, 1)] else []) ++
  (if l.executorAcquired then r.executorClaims else []) ++
  (match r with
    | .plain _ _ _ => if l.resourceAcquired then r.resourceClaims else []
    | .context _ _ _ => vectorClaims l.acquiredResources.reverse) ++
  (if l.globalAcquired then [(.global, 1)] else []) ++
  (match r with
    | .plain _ _ _ => []
    | .context _ _ _ => if l.fairAcquired then [(.fair, 1)] else [])

/-- `release_slots`, after the call. -/
def Request.releaseSlots (r : Request) (number : ℕ) (l : Locals) : List Claim :=
  (if l.identityToken then [(.isolation number, 1)] else []) ++ r.executorClaims ++
  (match r with
    | .plain _ _ _ => r.resourceClaims
    | .context _ _ _ => vectorClaims l.acquiredResources.reverse) ++
  [(.global, 1)] ++
  (match r with
    | .plain _ _ _ => []
    | .context _ _ _ => [(.fair, 1)])

/-! ## The scheduler -/

structure ExecutorScheduler where
  resourceLimits : List (String × ℕ)
  slots : Slots
  calls : List Call
  /-- `in_flight` of the metrics, by executor name. -/
  inFlight : String → ℕ

namespace ExecutorScheduler

def init (maxInFlight : ℕ) (limits : List (String × ℕ)) : ExecutorScheduler :=
  let limits := limits.map (fun x => (x.1, max 1 x.2))
  { resourceLimits := limits
    slots := fun
      | .fair => .full (max 1 (maxInFlight - 1))
      | .global => .full maxInFlight
      | .executor _ limit => .full limit
      | .isolation _ => .full 1
      | .resource name => .full ((limits.lookup name).getD 0)
    calls := []
    inFlight := fun _ => 0 }

/-- `_CONTEXT_RESOURCE_KEYS`. -/
def contextResourceKeys : List String := ["cpu", "device", "llm", "local_io", "network_io", "vlm"]

/-- The largest claim of a resource that a context may state. -/
def contextMaximum (key : String) : ℕ := if key = "llm" ∨ key = "vlm" then 32 else 64

/-- The claims of a context: its vector is canonical and fits the host. -/
def contextClaims (limits resources : List (String × ℕ)) :
    Except SchedulerError (List (String × ℕ)) :=
  if resources.map Prod.fst ≠ contextResourceKeys ∨
      resources.any (fun x => decide (contextMaximum x.1 < x.2)) then .error .contextError
  else
    let claims := resources.filter (fun x => x.2 ≠ 0)
    if claims.all (fun x => (limits.lookup x.1).any (fun limit => decide (x.2 ≤ limit))) then
      .ok claims
    else .error .contextError

/-- The resource slot of a plain call: its class, or the default one. -/
def resourceSlot (limits : List (String × ℕ)) (resourceClass : String) : Option String :=
  if (limits.lookup resourceClass).isSome then some resourceClass
  else if (limits.lookup "default").isSome then some "default"
  else none

def enter (S : ExecutorScheduler) (r : Request) : ExecutorScheduler :=
  { S with calls := S.calls ++ [⟨S.calls.length, r, .admitting r.steps {}⟩] }

def setPhase (S : ExecutorScheduler) (i : ℕ) (phase : CallPhase) : ExecutorScheduler :=
  { S with calls := S.calls.modify i (fun c => { c with phase := phase }) }

/-- `metrics.started`. -/
def started (S : ExecutorScheduler) (name : String) : ExecutorScheduler :=
  { S with inFlight := Function.update S.inFlight name (S.inFlight name + 1) }

/-- `metrics.finished`. -/
def finished (S : ExecutorScheduler) (name : String) : ExecutorScheduler :=
  { S with inFlight := Function.update S.inFlight name (S.inFlight name - 1) }

end ExecutorScheduler

inductive SchedulerEvent
  /-- `invoke` without a context: the limit of the executor slot, when the policy has one. -/
  | invoke (name : String) (executorSlot : Option ℕ) (resourceClass : String)
  | invokeWithContext (name : String) (executorSlot : ℕ) (resources : List (String × ℕ))
  /-- The next acquisition of the call succeeds. -/
  | advance (call : ℕ)
  /-- It times out, or raises. -/
  | abort (call : ℕ)
  /-- The call itself returns, or raises. -/
  | finish (call : ℕ)
  /-- The next release of the call. -/
  | unwind (call : ℕ)
deriving DecidableEq

namespace ExecutorScheduler

/-- An acquisition: the next step of the admission, or the start of the call after the last one. -/
def advance (S : ExecutorScheduler) (i : ℕ) (c : Call) : Except SchedulerError ExecutorScheduler :=
  match c.phase with
  | .admitting (step :: todo) l =>
    match acquireClaims S.slots (c.request.stepClaims c.number step) with
    | none => .error .wouldBlock
    | some slots =>
      let S := { S with slots := slots }
      let l := c.request.mark l step
      if todo.isEmpty then .ok ((S.started c.request.name).setPhase i (.running l))
      else .ok (S.setPhase i (.admitting todo l))
  | _ => .error .noSuchCall

def unwind (S : ExecutorScheduler) (i : ℕ) (c : Call) : Except SchedulerError ExecutorScheduler :=
  match c.phase with
  | .unwinding [] => .ok (S.setPhase i .ended)
  | .unwinding (claim :: todo) => do
    let slot ← (S.slots claim.1).release claim.2
    return ({ S with slots := Function.update S.slots claim.1 slot } : ExecutorScheduler).setPhase i
      (.unwinding todo)
  | _ => .error .noSuchCall

def withCall (S : ExecutorScheduler) (i : ℕ)
    (body : Call → Except SchedulerError ExecutorScheduler) :
    Except SchedulerError ExecutorScheduler :=
  match S.calls[i]? with
  | none => .error .noSuchCall
  | some c => body c

def transact (S : ExecutorScheduler) : SchedulerEvent → Except SchedulerError ExecutorScheduler
  | .invoke name executorSlot resourceClass =>
    .ok (S.enter (.plain name executorSlot (resourceSlot S.resourceLimits resourceClass)))
  | .invokeWithContext name executorSlot resources => do
    let claims ← contextClaims S.resourceLimits resources
    return S.enter (.context name executorSlot claims)
  | .advance i => S.withCall i (S.advance i)
  | .abort i => S.withCall i fun c =>
    match c.phase with
    | .admitting _ l => .ok (S.setPhase i (.unwinding (c.request.exceptPath c.number l)))
    | _ => .error .noSuchCall
  | .finish i => S.withCall i fun c =>
    match c.phase with
    | .running l => .ok ((S.finished c.request.name).setPhase i
        (.unwinding (c.request.releaseSlots c.number l)))
    | _ => .error .noSuchCall
  | .unwind i => S.withCall i (S.unwind i)

end ExecutorScheduler

/-- The scheduler after a sequence of events. -/
def schedulerRun (maxInFlight : ℕ) (limits : List (String × ℕ)) (events : List SchedulerEvent) :
    ExecutorScheduler :=
  run ExecutorScheduler.transact (ExecutorScheduler.init maxInFlight limits) events

end Metnos.Scheduler
