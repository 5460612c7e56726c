import Metnos.Dialogs.Calls
import Metnos.Lib.ProcessTable

/-!
# Dialogs.Delivery — the delivery of a committed receipt to its channel

A process claims the delivery, sends, and completes the claim.  Telegram has no key against
repetitions: a sender that died after its claim may have sent, and the delivery ends in doubt.
-/

namespace Metnos.Dialogs.Delivery

open ProcessTable

/-- The acknowledgement of a provider. -/
structure Ack (J : Type) where
  ok : Bool
  deliveryAmbiguous : Bool
  terminal : Bool
  error : Option String
  /-- Its other fields. -/
  rest : Option J

/-- The fields of a record that its delivery reads. -/
structure Outbox (J : Type) where
  ownerUserId : String
  nonce : String
  conversationId : String
  receipt : Option J
  deliveryState : DeliveryState
  deliveryAttempts : ℕ
  /-- Empty when it is no object. -/
  deliveryProcess : Option Identity
  deliveryAck : Option (Ack J)

/-- What `begin_callback_delivery` returns. -/
inductive Begun (J : Type)
  | invalid
  | delivered (ack : Option (Ack J))
  | ambiguous (ack : Option (Ack J))
  | failed (ack : Option (Ack J))
  | inProgress
  | claimed (receipt : J) (originRecipient : String)

variable {J : Type}

/-- `_claim_is_live`. -/
def claimIsLive (k : Kernel) : Option Identity → Bool
  | none => true
  | some c => if c.pid = 0 then false else k.listed c

def diedBeforeAck : Ack J := ⟨false, true, false, some "sender_process_died_before_ack", none⟩

/-- `load_pending` finds the record; owners come without blanks around them. -/
def Outbox.ownedBy (o : Outbox J) (owner : String) : Bool :=
  decide (owner ≠ "" ∧ o.ownerUserId = owner)

/-- `begin_callback_delivery`, by the process with the identifier. -/
def beginCallbackDelivery (k : Kernel) (pid : ℕ) (owner nonce : String) (o : Outbox J) :
    Begun J × Outbox J :=
  if !o.ownedBy owner then (.invalid, o)
  else match o.receipt with
  | none => (.invalid, o)
  | some receipt =>
    if o.nonce = "" ∨ o.nonce ≠ nonce then (.invalid, o)
    else match o.deliveryState with
    | .delivered => (.delivered o.deliveryAck, o)
    | .ambiguous => (.ambiguous o.deliveryAck, o)
    | .failed => (.failed o.deliveryAck, o)
    | .running =>
      if claimIsLive k o.deliveryProcess = true then (.inProgress, o)
      else (.ambiguous (some diedBeforeAck),
        { o with deliveryState := .ambiguous, deliveryAck := some diedBeforeAck })
    | .absent | .pending =>
      (.claimed receipt o.conversationId,
        { o with
          deliveryState := .running
          deliveryAttempts := o.deliveryAttempts + 1
          deliveryProcess := some (k.identity pid) })

/-- Where a completion leaves the delivery. -/
def completedState (attempts : ℕ) (ack : Ack J) (delivered : Bool) : DeliveryState :=
  if delivered then .delivered
  else if ack.deliveryAmbiguous then .ambiguous
  else if ack.terminal ∨ maxDeliveries ≤ attempts then .failed
  else .pending

/-- `complete_callback_delivery`; `dumps` says which acknowledgements `json.dumps` accepts. -/
def completeCallbackDelivery (dumps : Ack J → Bool) (owner nonce : String) (ack : Ack J)
    (delivered : Bool) (o : Outbox J) : Bool × Outbox J :=
  if !dumps ack then (false, o)
  else if !o.ownedBy owner then (false, o)
  else if o.nonce = "" ∨ o.nonce ≠ nonce then (false, o)
  else (true, { o with
    deliveryState := completedState o.deliveryAttempts ack delivered
    deliveryAck := some ack })

/-! ## Processes and their calls -/

inductive Entry (J : Type)
  | claimed (n : ℕ) (who : Identity)
  | completed (n : ℕ) (ack : Ack J) (delivered : Bool)

def Entry.isClaim : Entry J → Bool
  | .claimed .. => true
  | .completed .. => false

structure World (J : Type) where
  kernel : Kernel
  outbox : Outbox J
  /-- The claims that were not completed, with their processes. -/
  claims : List (ℕ × Identity)
  log : List (Entry J)

inductive Act (J : Type)
  | kernel (e : ProcessTable.Event)
  | begin (pid : ℕ) (owner nonce : String)
  /-- The process of the claim completes it. -/
  | complete (n : ℕ) (owner nonce : String) (ack : Ack J) (delivered : Bool)

namespace World

def given (w : World J) : ℕ := w.log.countP Entry.isClaim

/-- Every claim is completed once at most, by its process. -/
def step (dumps : Ack J → Bool) (w : World J) : Act J → Except Unit (World J)
  | .kernel e => (w.kernel.step e).map fun k => { w with kernel := k }
  | .begin pid owner nonce =>
    if w.kernel.runs (w.kernel.identity pid) = true then
      match beginCallbackDelivery w.kernel pid owner nonce w.outbox with
      | (.claimed .., o) => .ok { w with
          outbox := o
          claims := w.claims ++ [(w.given, w.kernel.identity pid)]
          log := w.log ++ [.claimed w.given (w.kernel.identity pid)] }
      | (_, o) => .ok { w with outbox := o }
    else .error ()
  | .complete n owner nonce ack delivered =>
    match w.claims.find? fun x => decide (x.1 = n) with
    | none => .error ()
    | some (_, who) =>
      if w.kernel.runs who = true then
        match completeCallbackDelivery dumps owner nonce ack delivered w.outbox with
        | (true, o) => .ok { w with
            outbox := o
            claims := w.claims.filter fun x => decide (x.1 ≠ n)
            log := w.log ++ [.completed n ack delivered] }
        | (false, o) => .ok { w with
            outbox := o
            claims := w.claims.filter fun x => decide (x.1 ≠ n) }
      else .error ()

abbrev run (dumps : Ack J → Bool) (w : World J) (acts : List (Act J)) : World J :=
  Transaction.run (step dumps) w acts

/-- A committed receipt, before any process has started. -/
def committed (bootId owner nonce conversation : String) (receipt : J) (frozenOnTelegram : Bool) :
    World J where
  kernel := ⟨bootId, fun _ => none, []⟩
  outbox := ⟨owner, nonce, conversation, some receipt,
    if frozenOnTelegram then .pending else .absent, 0, none, none⟩
  claims := []
  log := []

end World

/-! ## What one call can do -/

inductive Begins (k : Kernel) (pid : ℕ) (o : Outbox J) : Begun J → Outbox J → Prop
  | kept {b : Begun J} (unclaimed : ∀ receipt recipient, b ≠ .claimed receipt recipient) :
      Begins k pid o b o
  | doubted (running : o.deliveryState = .running)
      (dead : claimIsLive k o.deliveryProcess = false) :
      Begins k pid o (.ambiguous (some diedBeforeAck))
        { o with deliveryState := .ambiguous, deliveryAck := some diedBeforeAck }
  | claimed {receipt : J} (idle : o.deliveryState = .absent ∨ o.deliveryState = .pending)
      (named : o.ownerUserId ≠ "" ∧ o.nonce ≠ "") :
      Begins k pid o (.claimed receipt o.conversationId)
        { o with
          deliveryState := .running
          deliveryAttempts := o.deliveryAttempts + 1
          deliveryProcess := some (k.identity pid) }

variable {k : Kernel} {pid : ℕ} {owner nonce : String} {o : Outbox J}

theorem begins (k : Kernel) (pid : ℕ) (owner nonce : String) (o : Outbox J) :
    Begins k pid o (beginCallbackDelivery k pid owner nonce o).1
      (beginCallbackDelivery k pid owner nonce o).2 := by
  obtain ⟨ownerUserId, nonce', conversationId, receipt, state, attempts, process, ack⟩ := o
  unfold beginCallbackDelivery
  by_cases owned : (!Outbox.ownedBy ⟨ownerUserId, nonce', conversationId, receipt, state, attempts,
      process, ack⟩ owner) = true
  · rw [if_pos owned]
    exact .kept nofun
  · rw [if_neg owned]
    cases receipt with
    | none => exact .kept nofun
    | some receipt =>
      dsimp only
      by_cases wrong : nonce' = "" ∨ nonce' ≠ nonce
      · rw [if_pos wrong]
        exact .kept nofun
      · rw [if_neg wrong]
        have named : ownerUserId ≠ "" ∧ nonce' ≠ "" := by
          rw [Bool.not_eq_true', Bool.not_eq_false, Outbox.ownedBy, decide_eq_true_iff] at owned
          exact ⟨fun none => owned.1 (owned.2.symm.trans none), (not_or.mp wrong).1⟩
        cases state with
        | delivered => exact .kept nofun
        | ambiguous => exact .kept nofun
        | failed => exact .kept nofun
        | running =>
          dsimp only
          by_cases live : claimIsLive k process = true
          · rw [if_pos live]
            exact .kept nofun
          · rw [if_neg live]
            exact .doubted rfl (Bool.not_eq_true _ ▸ live)
        | absent => exact .claimed (.inl rfl) named
        | pending => exact .claimed (.inr rfl) named

/-- The steps of the processes, one constructor for each kind. -/
inductive Steps (dumps : Ack J → Bool) (w : World J) : World J → Prop
  | kernel {e : ProcessTable.Event} {k : Kernel} (moved : w.kernel.step e = .ok k) :
      Steps dumps w { w with kernel := k }
  | kept : Steps dumps w w
  | doubted (running : w.outbox.deliveryState = .running)
      (dead : claimIsLive w.kernel w.outbox.deliveryProcess = false) :
      Steps dumps w { w with outbox :=
        { w.outbox with deliveryState := .ambiguous, deliveryAck := some diedBeforeAck } }
  | claimed {pid : ℕ} (runs : w.kernel.runs (w.kernel.identity pid) = true)
      (idle : w.outbox.deliveryState = .absent ∨ w.outbox.deliveryState = .pending)
      (named : w.outbox.ownerUserId ≠ "" ∧ w.outbox.nonce ≠ "") :
      Steps dumps w { w with
        outbox := { w.outbox with
          deliveryState := .running
          deliveryAttempts := w.outbox.deliveryAttempts + 1
          deliveryProcess := some (w.kernel.identity pid) }
        claims := w.claims ++ [(w.given, w.kernel.identity pid)]
        log := w.log ++ [.claimed w.given (w.kernel.identity pid)] }
  | completed {n : ℕ} {who : Identity} {ack : Ack J} {delivered : Bool}
      (open_ : (n, who) ∈ w.claims) (runs : w.kernel.runs who = true) :
      Steps dumps w { w with
        outbox := { w.outbox with
          deliveryState := completedState w.outbox.deliveryAttempts ack delivered
          deliveryAck := some ack }
        claims := w.claims.filter fun x => decide (x.1 ≠ n)
        log := w.log ++ [.completed n ack delivered] }
  | refused {n : ℕ} : Steps dumps w { w with claims := w.claims.filter fun x => decide (x.1 ≠ n) }

variable {dumps : Ack J → Bool} {w w' : World J} {a : Act J}

theorem steps (h : w.step dumps a = .ok w') : Steps dumps w w' := by
  cases a with
  | kernel e =>
    unfold World.step at h
    dsimp only at h
    cases moved : w.kernel.step e with
    | error u =>
      rw [moved] at h
      cases h
    | ok k =>
      rw [moved] at h
      cases h
      exact .kernel moved
  | begin pid owner nonce =>
    unfold World.step at h
    dsimp only at h
    split_ifs at h with runs
    have begun := begins w.kernel pid owner nonce w.outbox
    generalize beginCallbackDelivery w.kernel pid owner nonce w.outbox = out at h begun
    obtain ⟨b, o⟩ := out
    cases begun with
    | kept unclaimed =>
      cases b with
      | claimed receipt recipient => exact absurd rfl (unclaimed receipt recipient)
      | _ => cases h; exact .kept
    | doubted running dead =>
      cases h
      exact .doubted running dead
    | claimed idle named =>
      cases h
      exact .claimed runs idle named
  | complete n owner nonce ack delivered =>
    unfold World.step at h
    dsimp only at h
    split at h
    · cases h
    · rename_i m who found
      split_ifs at h with runs
      have same := List.find?_some found
      obtain rfl : m = n := of_decide_eq_true same
      have open_ : (m, who) ∈ w.claims := List.mem_of_find?_eq_some found
      unfold completeCallbackDelivery at h
      split_ifs at h
      · cases h; exact .refused
      · cases h; exact .refused
      · cases h; exact .refused
      · cases h; exact .completed open_ runs

/-! ## The log -/

/-- Between the places `i` and `j` of a log the claim `n` is completed, and the delivery was neither
made nor in doubt nor over. -/
def RetryBetween (log : List (Entry J)) (n i j : ℕ) : Prop :=
  ∃ l ack delivered, i < l ∧ l < j ∧ log[l]? = some (.completed n ack delivered) ∧
    delivered = false ∧ ack.deliveryAmbiguous = false ∧ ack.terminal = false

/-- Between two claims, the first is completed for another try. -/
def Alternates (log : List (Entry J)) : Prop :=
  ∀ i j n m p q, i < j → log[i]? = some (.claimed n p) → log[j]? = some (.claimed m q) →
    RetryBetween log n i j

theorem getElem?_concat_cases {α : Type} {l : List α} {x y : α} {i : ℕ}
    (h : (l ++ [x])[i]? = some y) : l[i]? = some y ∨ (i = l.length ∧ y = x) := by
  by_cases inside : i < l.length
  · rw [List.getElem?_append_left inside] at h
    exact .inl h
  · obtain ⟨within, -⟩ := List.getElem?_eq_some_iff.mp h
    rw [List.length_append, List.length_singleton] at within
    have last : i = l.length := by omega
    subst last
    rw [List.getElem?_concat_length] at h
    exact .inr ⟨rfl, (Option.some.inj h).symm⟩

theorem lt_of_getElem? {α : Type} {l : List α} {x : α} {i : ℕ} (h : l[i]? = some x) :
    i < l.length := (List.getElem?_eq_some_iff.mp h).1

theorem RetryBetween.grow {log : List (Entry J)} {n i j j' : ℕ} (h : RetryBetween log n i j)
    (le : j ≤ j') (x : Entry J) : RetryBetween (log ++ [x]) n i j' := by
  obtain ⟨l, ack, delivered, after, before, found, retry⟩ := h
  refine ⟨l, ack, delivered, after, Nat.lt_of_lt_of_le before le, ?_, retry⟩
  rw [List.getElem?_append_left (lt_of_getElem? found)]
  exact found

/-! ## The invariant -/

def Idle (state : DeliveryState) : Prop := state = .absent ∨ state = .pending

/-- A completion leaves the delivery for another try only when it was not made, is not in doubt and
not over, and tries are left. -/
theorem idle_completedState {attempts : ℕ} {ack : Ack J} {delivered : Bool}
    (idle : Idle (completedState attempts ack delivered)) : delivered = false ∧
      ack.deliveryAmbiguous = false ∧ ack.terminal = false ∧ attempts < maxDeliveries := by
  unfold completedState at idle
  split_ifs at idle with made doubt ended
  · rcases idle with e | e <;> cases e
  · rcases idle with e | e <;> cases e
  · rcases idle with e | e <;> cases e
  · rw [not_or, Nat.not_le] at ended
    exact ⟨Bool.eq_false_iff.mpr made, Bool.eq_false_iff.mpr doubt, Bool.eq_false_iff.mpr ended.1,
      ended.2⟩

theorem completedState_ne_running (attempts : ℕ) (ack : Ack J) (delivered : Bool) :
    completedState attempts ack delivered ≠ .running := by
  unfold completedState
  split_ifs <;> nofun

/-- What holds of a committed receipt in every run. -/
structure Inv (owner nonce : String) (receipt : J) (w : World J) : Prop where
  record : w.outbox.ownerUserId = owner ∧ w.outbox.nonce = nonce ∧ w.outbox.receipt = some receipt
  known : w.kernel.Known
  given : w.outbox.deliveryAttempts = w.given
  bound : w.given ≤ maxDeliveries
  idle : Idle w.outbox.deliveryState → w.given < maxDeliveries
  sender : w.outbox.deliveryState = .running → owner ≠ "" ∧ nonce ≠ "" ∧
    ∃ who ∈ w.kernel.past, w.outbox.deliveryProcess = some who
  claims : ∀ x ∈ w.claims, x.1 + 1 = w.given ∧ w.outbox.deliveryProcess = some x.2 ∧
    x.2 ∈ w.kernel.past ∧
    (w.outbox.deliveryState = .running ∨
      (w.outbox.deliveryState = .ambiguous ∧ w.kernel.Gone x.2))
  alternates : Alternates w.log
  settled : ∀ i n p, w.log[i]? = some (.claimed n p) →
    (n + 1 = w.given ∧ ¬ Idle w.outbox.deliveryState) ∨ RetryBetween w.log n i w.log.length

section

variable {receipt : J}

theorem identity_past (known : w.kernel.Known) {pid : ℕ}
    (runs : w.kernel.runs (w.kernel.identity pid) = true) : w.kernel.identity pid ∈ w.kernel.past := by
  obtain ⟨-, p, found, -, -⟩ := Kernel.runs_iff.mp runs
  have listed : w.kernel.proc pid = some p := found
  rw [Kernel.identity_of_proc listed]
  exact (known pid p listed).2

theorem gone_of_not_live (known : w.kernel.Known) {who : Identity} (past : who ∈ w.kernel.past)
    (dead : claimIsLive w.kernel (some who) = false) : w.kernel.Gone who := by
  refine ⟨past, ?_⟩
  rw [Bool.eq_false_iff]
  intro runs
  obtain ⟨-, p, found, -, -⟩ := Kernel.runs_iff.mp runs
  have positive := (known who.pid p found).1
  unfold claimIsLive at dead
  dsimp only at dead
  rw [if_neg positive, Kernel.listed_of_runs runs] at dead
  cases dead

theorem Inv.step (h : Steps dumps w w') (inv : Inv owner nonce receipt w) :
    Inv owner nonce receipt w' := by
  cases h with
  | @kernel e k moved =>
    exact
      { record := inv.record
        known := inv.known.step moved
        given := inv.given
        bound := inv.bound
        idle := inv.idle
        sender := fun running => by
          obtain ⟨named, nonempty, who, past, process⟩ := inv.sender running
          exact ⟨named, nonempty, who, Kernel.past_step moved past, process⟩
        claims := fun x mem => by
          obtain ⟨last, process, past, state⟩ := inv.claims x mem
          refine ⟨last, process, Kernel.past_step moved past, ?_⟩
          obtain running | ⟨ambiguous, gone⟩ := state
          · exact .inl running
          · exact .inr ⟨ambiguous, gone.step moved⟩
        alternates := inv.alternates
        settled := inv.settled }
  | kept => exact inv
  | doubted running dead =>
    obtain ⟨-, -, who, past, process⟩ := inv.sender running
    rw [process] at dead
    have gone := gone_of_not_live inv.known past dead
    have busy : ¬ Idle DeliveryState.ambiguous := by
      rintro (e | e) <;> cases e
    exact
      { record := inv.record
        known := inv.known
        given := inv.given
        bound := inv.bound
        idle := fun idle => absurd idle busy
        sender := nofun
        claims := fun x mem => by
          obtain ⟨last, process', past', -⟩ := inv.claims x mem
          refine ⟨last, process', past', .inr ⟨rfl, ?_⟩⟩
          rw [process] at process'
          exact Option.some.inj process' ▸ gone
        alternates := inv.alternates
        settled := fun i n p claim => by
          obtain ⟨last, -⟩ | retry := inv.settled i n p claim
          · exact .inl ⟨last, busy⟩
          · exact .inr retry }
  | @claimed pid runs idle named =>
    have past := identity_past inv.known runs
    have fewer := inv.idle idle
    have busy : ¬ Idle DeliveryState.running := by
      rintro (e | e) <;> cases e
    have closed : ∀ x ∈ w.claims, False := by
      intro x mem
      obtain ⟨-, -, -, running | ⟨ambiguous, -⟩⟩ := inv.claims x mem
      · rw [running] at idle
        exact busy idle
      · rw [ambiguous] at idle
        rcases idle with e | e <;> cases e
    have settled : ∀ i n p, w.log[i]? = some (.claimed n p) →
        RetryBetween w.log n i w.log.length := by
      intro i n p claim
      obtain ⟨-, notIdle⟩ | retry := inv.settled i n p claim
      · exact absurd idle notIdle
      · exact retry
    have count : (w.log ++ [Entry.claimed w.given (w.kernel.identity pid)]).countP Entry.isClaim =
        w.given + 1 := by
      rw [List.countP_append]
      rfl
    refine
      { record := inv.record
        known := inv.known
        given := ?_
        bound := ?_
        idle := fun idle => absurd idle busy
        sender := fun _ => ?_
        claims := fun x mem => ?_
        alternates := ?_
        settled := ?_ }
    · show w.outbox.deliveryAttempts + 1 = List.countP _ _
      rw [count, inv.given]
    · show List.countP _ _ ≤ _
      rw [count]
      exact fewer
    · rw [← inv.record.1, ← inv.record.2.1]
      exact ⟨named.1, named.2, w.kernel.identity pid, past, rfl⟩
    · rcases List.mem_append.mp mem with old | new
      · exact absurd (closed x old) id
      · obtain rfl := List.mem_singleton.mp new
        refine ⟨?_, rfl, past, .inl rfl⟩
        show w.given + 1 = List.countP _ _
        rw [count]
    · intro i j n m p q before first second
      obtain second | ⟨rfl, -⟩ := getElem?_concat_cases second
      · obtain first | ⟨rfl, -⟩ := getElem?_concat_cases first
        · exact (inv.alternates i j n m p q before first second).grow (Nat.le_refl _) _
        · have inside := lt_of_getElem? second
          omega
      · obtain first | ⟨rfl, -⟩ := getElem?_concat_cases first
        · exact (settled i n p first).grow (Nat.le_refl _) _
        · omega
    · intro i n p claim
      obtain claim | ⟨rfl, new⟩ := getElem?_concat_cases claim
      · refine .inr ((settled i n p claim).grow ?_ _)
        rw [List.length_append]
        exact Nat.le_add_right _ _
      · cases new
        refine .inl ⟨?_, busy⟩
        show w.given + 1 = List.countP _ _
        rw [count]
  | @completed n who ack delivered open_ runs =>
    obtain ⟨last, process, past, state⟩ := inv.claims (n, who) open_
    have running : w.outbox.deliveryState = .running := by
      obtain running | ⟨-, -, stopped⟩ := state
      · exact running
      · rw [runs] at stopped
        cases stopped
    have count : (w.log ++ [Entry.completed n ack delivered]).countP Entry.isClaim = w.given := by
      rw [List.countP_append]
      rfl
    refine
      { record := inv.record
        known := inv.known
        given := ?_
        bound := ?_
        idle := fun idle => ?_
        sender := fun again => absurd again (completedState_ne_running _ _ _)
        claims := fun x mem => ?_
        alternates := ?_
        settled := ?_ }
    · show w.outbox.deliveryAttempts = List.countP _ _
      rw [count, inv.given]
    · show List.countP _ _ ≤ _
      rw [count]
      exact inv.bound
    · show List.countP _ _ < _
      rw [count, ← inv.given]
      exact (idle_completedState idle).2.2.2
    · -- no other claim is open
      obtain ⟨mem, other⟩ := List.mem_filter.mp mem
      have same := (inv.claims x mem).1
      have differs : x.1 ≠ n := of_decide_eq_true other
      dsimp only at last
      omega
    · intro i j m m' p q before first second
      obtain second | ⟨-, new⟩ := getElem?_concat_cases second
      · obtain first | ⟨-, new⟩ := getElem?_concat_cases first
        · exact (inv.alternates i j m m' p q before first second).grow (Nat.le_refl _) _
        · cases new
      · cases new
    · intro i m p claim
      obtain earlier | ⟨-, new⟩ := getElem?_concat_cases claim
      · have longer : w.log.length < (w.log ++ [Entry.completed n ack delivered]).length := by
          rw [List.length_append]
          exact Nat.lt_succ_self _
        obtain ⟨newest, -⟩ | retry := inv.settled i m p earlier
        · by_cases idle : Idle (completedState w.outbox.deliveryAttempts ack delivered)
          · obtain ⟨unmade, sure, more, -⟩ := idle_completedState idle
            dsimp only at last
            obtain rfl : m = n := by omega
            exact .inr ⟨w.log.length, ack, delivered, lt_of_getElem? earlier, longer,
              List.getElem?_concat_length, unmade, sure, more⟩
          · refine .inl ⟨?_, idle⟩
            show m + 1 = List.countP _ _
            rw [count]
            exact newest
        · exact .inr (retry.grow (Nat.le_of_lt longer) _)
      · cases new
  | @refused n =>
    exact
      { record := inv.record
        known := inv.known
        given := inv.given
        bound := inv.bound
        idle := inv.idle
        sender := inv.sender
        claims := fun x mem => inv.claims x (List.mem_of_mem_filter mem)
        alternates := inv.alternates
        settled := inv.settled }

theorem inv_committed (bootId owner nonce conversation : String) (receipt : J) (frozen : Bool) :
    Inv owner nonce receipt (World.committed bootId owner nonce conversation receipt frozen) where
  record := ⟨rfl, rfl, rfl⟩
  known := nofun
  given := rfl
  bound := Nat.zero_le _
  idle := fun _ => show 0 < maxDeliveries by decide
  sender := by
    cases frozen <;> nofun
  claims := nofun
  alternates := nofun
  settled := nofun

theorem Inv.run (inv : Inv owner nonce receipt w) (acts : List (Act J)) :
    Inv owner nonce receipt (w.run dumps acts) :=
  Transaction.run_preserves (fun h inv => inv.step (steps h)) inv

/-! ## The end of a delivery -/

def Final (state : DeliveryState) : Prop :=
  state = .delivered ∨ state = .ambiguous ∨ state = .failed

theorem Inv.final_step (inv : Inv owner nonce receipt w) (h : Steps dumps w w')
    (final : Final w.outbox.deliveryState) :
    w'.outbox.deliveryState = w.outbox.deliveryState := by
  have busy : ¬ (w.outbox.deliveryState = .running ∨ Idle w.outbox.deliveryState) := by
    rintro (e | e | e) <;> rw [e] at final <;> rcases final with e | e | e <;> cases e
  cases h with
  | kernel moved => rfl
  | kept => rfl
  | doubted running dead => exact absurd (.inl running) busy
  | claimed runs idle named => exact absurd (.inr idle) busy
  | completed open_ runs =>
    obtain ⟨-, -, -, running | ⟨-, -, stopped⟩⟩ := inv.claims _ open_
    · exact absurd (.inl running) busy
    · rw [runs] at stopped
      cases stopped
  | refused => rfl

/-- The sender has died while it was sending. -/
def Bereft (w : World J) : Prop := w.outbox.deliveryState = .running ∧
  ∃ who, w.outbox.deliveryProcess = some who ∧ w.kernel.Gone who

/-- The delivery is left to a sender that has died, or in doubt. -/
def Forsaken (w : World J) : Prop := Bereft w ∨ w.outbox.deliveryState = .ambiguous

theorem Inv.forsaken_step (inv : Inv owner nonce receipt w) (h : Steps dumps w w')
    (forsaken : Forsaken w) : Forsaken w' ∧ w'.given = w.given := by
  cases h with
  | kernel moved =>
    refine ⟨?_, rfl⟩
    obtain ⟨running, who, process, gone⟩ | ambiguous := forsaken
    · exact .inl ⟨running, who, process, gone.step moved⟩
    · exact .inr ambiguous
  | kept => exact ⟨forsaken, rfl⟩
  | doubted running dead => exact ⟨.inr rfl, rfl⟩
  | claimed runs idle named =>
    obtain ⟨running, -⟩ | ambiguous := forsaken
    · rw [running] at idle
      rcases idle with e | e <;> cases e
    · rw [ambiguous] at idle
      rcases idle with e | e <;> cases e
  | @completed n claimant ack delivered open_ runs =>
    -- who could complete the claim has died
    obtain ⟨-, process, -, state⟩ := inv.claims _ open_
    have gone : w.kernel.Gone claimant := by
      obtain ⟨running, who, sender, gone⟩ | ambiguous := forsaken
      · rw [process] at sender
        obtain rfl : claimant = who := Option.some.inj sender
        exact gone
      · obtain running | ⟨-, gone⟩ := state
        · rw [ambiguous] at running
          cases running
        · exact gone
    rw [gone.2] at runs
    cases runs
  | refused =>
    refine ⟨?_, rfl⟩
    obtain ⟨running, who, process, gone⟩ | ambiguous := forsaken
    · exact .inl ⟨running, who, process, gone⟩
    · exact .inr ambiguous

theorem Inv.begin_forsaken (inv : Inv owner nonce receipt w) (forsaken : Forsaken w)
    (named : owner ≠ "" ∧ nonce ≠ "")
    (dead : w.outbox.deliveryState = .ambiguous ∨
      claimIsLive w.kernel w.outbox.deliveryProcess = false) (pid : ℕ) :
    ∃ ack, (beginCallbackDelivery w.kernel pid owner nonce w.outbox).1 = .ambiguous ack ∧
      (beginCallbackDelivery w.kernel pid owner nonce w.outbox).2.deliveryState = .ambiguous := by
  obtain ⟨own, key, kept⟩ := inv.record
  have owned : ¬ (!w.outbox.ownedBy owner) = true := by
    rw [Bool.not_eq_true', Bool.not_eq_false]
    exact decide_eq_true ⟨named.1, own⟩
  have right : ¬ (w.outbox.nonce = "" ∨ w.outbox.nonce ≠ nonce) := by
    rw [key]
    exact not_or.mpr ⟨named.2, not_not.mpr rfl⟩
  unfold beginCallbackDelivery
  rw [if_neg owned, kept]
  dsimp only
  rw [if_neg right]
  by_cases ambiguous : w.outbox.deliveryState = .ambiguous
  · rw [ambiguous]
    exact ⟨_, rfl, ambiguous⟩
  · obtain ⟨running, -⟩ | doubt := forsaken
    · have gone := dead.resolve_left ambiguous
      rw [running]
      dsimp only
      rw [if_neg (Bool.eq_false_iff.mp gone)]
      exact ⟨_, rfl, rfl⟩
    · exact absurd doubt ambiguous

theorem Inv.final_run (inv : Inv owner nonce receipt w) (final : Final w.outbox.deliveryState)
    (acts : List (Act J)) :
    (w.run dumps acts).outbox.deliveryState = w.outbox.deliveryState := by
  refine (Transaction.run_preserves (I := fun x => Inv owner nonce receipt x ∧
    x.outbox.deliveryState = w.outbox.deliveryState) ?_ ⟨inv, rfl⟩).2
  rintro x a x' h ⟨inv, same⟩
  refine ⟨inv.step (steps h), ?_⟩
  rw [inv.final_step (steps h) (same ▸ final)]
  exact same

theorem Inv.forsaken_run (inv : Inv owner nonce receipt w) (forsaken : Forsaken w)
    (acts : List (Act J)) : Forsaken (w.run dumps acts) ∧ (w.run dumps acts).given = w.given := by
  refine (Transaction.run_preserves (I := fun x => Inv owner nonce receipt x ∧ Forsaken x ∧
    x.given = w.given) ?_ ⟨inv, forsaken, rfl⟩).2
  rintro x a x' h ⟨inv, forsaken, same⟩
  obtain ⟨forsaken', same'⟩ := inv.forsaken_step (steps h) forsaken
  exact ⟨inv.step (steps h), forsaken', same'.trans same⟩

end

/-- **Callback delivery is at most once.**  After any run on a committed receipt: between two claims
the first is completed for another try; there are at most twelve claims; and however the run goes
on, a delivery that was made, is in doubt or over stays so, and one whose sender has died gets no
other claim, stays as it is or in doubt, and is found in doubt once the sender is not in the table
of processes any more. -/
theorem callback_delivery_at_most_once (dumps : Ack J → Bool)
    (bootId owner nonce conversation : String) (receipt : J) (frozen : Bool)
    (before after : List (Act J)) :
    let w := (World.committed bootId owner nonce conversation receipt frozen).run dumps before
    let w' := w.run dumps after
    Alternates w.log ∧ w.given ≤ maxDeliveries ∧
    (Final w.outbox.deliveryState → w'.outbox.deliveryState = w.outbox.deliveryState) ∧
    (Bereft w → w'.given = w.given ∧
      (w'.outbox.deliveryState = .running ∨ w'.outbox.deliveryState = .ambiguous) ∧
      (w'.outbox.deliveryState = .ambiguous ∨
          claimIsLive w'.kernel w'.outbox.deliveryProcess = false →
        ∀ pid, ∃ ack,
          (beginCallbackDelivery w'.kernel pid owner nonce w'.outbox).1 = .ambiguous ack ∧
          (beginCallbackDelivery w'.kernel pid owner nonce w'.outbox).2.deliveryState =
            .ambiguous)) := by
  intro w w'
  have inv : Inv owner nonce receipt w :=
    (inv_committed bootId owner nonce conversation receipt frozen).run before
  refine ⟨inv.alternates, inv.bound, fun final => inv.final_run final after, fun bereft => ?_⟩
  obtain ⟨forsaken, same⟩ := @Inv.forsaken_run J owner nonce dumps w receipt inv (.inl bereft) after
  obtain ⟨ownerNamed, nonceNamed, -⟩ := inv.sender bereft.1
  refine ⟨same, ?_, fun dead pid => ?_⟩
  · obtain ⟨running, -⟩ | ambiguous := forsaken
    · exact .inl running
    · exact .inr ambiguous
  · exact (inv.run after).begin_forsaken forsaken ⟨ownerNamed, nonceNamed⟩ dead pid

/-- The first sender dies; the process that comes after it has the same identifier. -/
example : ((World.committed "b" "owner" "nonce" "chat" () true).run (fun _ => true)
    [.kernel (.start 7 "100"), .begin 7 "owner" "nonce", .kernel (.exit 7), .kernel (.reap 7),
      .kernel (.start 7 "200"), .begin 7 "owner" "nonce"]).outbox.deliveryState = .ambiguous := by
  decide

end Metnos.Dialogs.Delivery
