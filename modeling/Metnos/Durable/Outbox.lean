import Metnos.Durable.Models
import Metnos.Lib.Transaction

/-!
# Durable.Outbox — notifications and their delivery

The outbox rows of the store with their delivery leases, and `TelegramOutboxAdapter.deliver_once`
cut at every point where a worker can be interrupted.  A store operation is one transaction; a
compare-and-set that matches no row is an error here, and leaves the rows as they are.
-/

namespace Metnos.Durable

open Transaction

/-! ## Rows -/

inductive OutboxState
  | pending | leased | sent | failed | cancelled
deriving DecidableEq

inductive OutboxChannel
  | ownerEvent | telegram
deriving DecidableEq

/-- `_OUTBOX_CANCEL_REASONS`. -/
inductive CancelReason
  | deliveryAmbiguous | eventNotSupported | providerRejected | recipientUnavailable | retryExhausted
deriving DecidableEq

/-- `ack_json`, by its `delivery` field. -/
inductive Acknowledgement
  | recorded
  | started
  | sent (messageId : Option ℕ)
  | cancelled (reason : CancelReason)
  | other (digest : ℕ)
deriving DecidableEq

structure OutboxRow where
  id : Key
  workloadId : Key
  eventId : ℕ
  channel : OutboxChannel
  recipientKey : ℕ
  state : OutboxState
  attemptCount : ℕ
  nextAttemptAt : Option ℕ
  leaseWorkerId : Option ℕ
  leaseExpiresAt : Option ℕ
  fence : ℕ
  ack : Option Acknowledgement
  coalesceKey : Option ℕ
  createdAt : ℕ
  updatedAt : ℕ
deriving DecidableEq

structure Outbox where
  rows : Table OutboxRow Key OutboxRow.id
  /-- The identifiers `_new_id` has returned; it returns none twice. -/
  issued : List Key

def Outbox.empty : Outbox := ⟨.empty, []⟩

inductive OutboxError
  | integrity | durableStore | notOwner | valueError
deriving DecidableEq

/-- `UPDATE … WHERE id=? AND p`, for one row. -/
def casRow (ob : Outbox) (k : Key) (p : OutboxRow → Bool) (f : OutboxRow → OutboxRow)
    (hf : ∀ r, (f r).id = r.id) : Except OutboxError Outbox :=
  match ob.rows.cas k p f hf with
  | some rows => .ok { ob with rows := rows }
  | none => .error .notOwner

/-! ## Enqueueing -/

/-- The unique columns of a notification. -/
def OutboxRow.target (r : OutboxRow) : ℕ × Key × ℕ × OutboxChannel × ℕ :=
  (r.id.owner, r.workloadId, r.eventId, r.channel, r.recipientKey)

/-- `outbox_pending_coalesce_idx`: two pending rows under one key. -/
def coalesceConflict (a b : OutboxRow) : Bool :=
  decide (b.state = .pending) && a.coalesceKey.isSome && decide (b.coalesceKey = a.coalesceKey) &&
  decide (b.id.owner = a.id.owner) && decide (b.workloadId = a.workloadId) &&
  decide (b.channel = a.channel) && decide (b.recipientKey = a.recipientKey)

def OutboxRow.coalesce (eventId : ℕ) (due : Option ℕ) (now : ℕ) (r : OutboxRow) : OutboxRow :=
  { r with eventId := eventId, nextAttemptAt := due, updatedAt := now }

theorem OutboxRow.coalesce_id (eventId : ℕ) (due : Option ℕ) (now : ℕ) (r : OutboxRow) :
    (r.coalesce eventId due now).id = r.id := rfl

/-- What a notification asks for. -/
structure Notification where
  workloadId : Key
  eventId : ℕ
  channel : OutboxChannel
  recipientKey : ℕ
  coalesceKey : Option ℕ
  due : Option ℕ
  delivered : Bool

def makeOutboxRow (id : Key) (n : Notification) (now : ℕ) : OutboxRow :=
  { id := id
    workloadId := n.workloadId
    eventId := n.eventId
    channel := n.channel
    recipientKey := n.recipientKey
    state := if n.delivered then .sent else .pending
    attemptCount := 0
    nextAttemptAt := n.due
    leaseWorkerId := none
    leaseExpiresAt := none
    fence := 0
    ack := if n.delivered then some .recorded else none
    coalesceKey := n.coalesceKey
    createdAt := now
    updatedAt := now }

/-- `enqueue_outbox_in_transaction`: replace pending progress, or insert a row. -/
def enqueueOutbox (ob : Outbox) (id : Key) (n : Notification) (now : ℕ) :
    Except OutboxError Outbox :=
  let row := makeOutboxRow id n now
  let existing := if n.delivered then none else ob.rows.rows.find? (coalesceConflict row)
  match existing with
  | some old =>
    let moved := old.coalesce n.eventId n.due now
    if ob.rows.rows.any (fun x => decide (x.id ≠ old.id) && decide (x.target = moved.target)) then
      .error .integrity
    else casRow ob old.id (fun x => x.state = .pending)
      (OutboxRow.coalesce n.eventId n.due now) (OutboxRow.coalesce_id n.eventId n.due now)
  | none =>
    if ob.issued.contains id || ob.rows.rows.any (fun x => decide (x.target = row.target)) then
      .error .integrity
    else match ob.rows.insert? row with
      | some rows => .ok { rows := rows, issued := id :: ob.issued }
      | none => .error .integrity

/-! ## Leases -/

/-- A due row, or one whose lease has expired. -/
def outboxDue (now : ℕ) (r : OutboxRow) : Bool :=
  ((r.state = .pending || r.state = .failed) && r.nextAttemptAt.all (fun t => decide (t ≤ now))) ||
  (r.state = .leased && r.leaseExpiresAt.any (fun t => decide (t ≤ now)))

/-- A lease under which the provider may have been called. -/
def OutboxRow.deliveryStarted (r : OutboxRow) : Bool :=
  r.state = .leased && decide (r.ack = some .started)

def OutboxRow.finish (state : OutboxState) (ack : Acknowledgement) (now : ℕ) (r : OutboxRow) :
    OutboxRow :=
  { r with
    state := state
    ack := some ack
    leaseWorkerId := none
    leaseExpiresAt := none
    nextAttemptAt := none
    updatedAt := now }

theorem OutboxRow.finish_id (state : OutboxState) (ack : Acknowledgement) (now : ℕ)
    (r : OutboxRow) : (r.finish state ack now).id = r.id := rfl

def OutboxRow.lease (worker expiry now : ℕ) (r : OutboxRow) : OutboxRow :=
  { r with
    state := .leased
    attemptCount := r.attemptCount + 1
    leaseWorkerId := some worker
    leaseExpiresAt := some expiry
    fence := r.fence + 1
    updatedAt := now }

theorem OutboxRow.lease_id (worker expiry now : ℕ) (r : OutboxRow) :
    (r.lease worker expiry now).id = r.id := rfl

/-- One candidate of `claim_outbox`: a started delivery is cancelled, any other row is leased. -/
def claimRow (worker expiry now : ℕ) (acc : List OutboxRow × Outbox) (candidate : OutboxRow) :
    Except OutboxError (List OutboxRow × Outbox) :=
  if candidate.deliveryStarted then do
    let ob ← casRow acc.2 candidate.id
      (fun x => x.state = .leased && x.leaseExpiresAt.any (fun t => decide (t ≤ now)))
      (OutboxRow.finish .cancelled (.cancelled .deliveryAmbiguous) now)
      (OutboxRow.finish_id .cancelled (.cancelled .deliveryAmbiguous) now)
    return (acc.1, ob)
  else match casRow acc.2 candidate.id (outboxDue now) (OutboxRow.lease worker expiry now)
      (OutboxRow.lease_id worker expiry now) with
    | .ok ob => .ok (acc.1 ++ (ob.rows.find? candidate.id).toList, ob)
    | .error _ => .ok acc

/-- `ORDER BY created_at, id`. -/
def outboxOrder (a b : OutboxRow) : Bool :=
  Table.orderBy [a.createdAt, a.id.owner, a.id.id] [b.createdAt, b.id.owner, b.id.id]

/-- `_MAX_OUTBOX_LEASE_SECONDS`. -/
def maxOutboxLeaseSeconds : ℕ := 300

def claimOutbox (ob : Outbox) (channel : OutboxChannel) (worker limit duration now : ℕ) :
    Except OutboxError (List OutboxRow × Outbox) :=
  if limit = 0 ∨ 200 < limit ∨ duration = 0 ∨ 1000000 * maxOutboxLeaseSeconds < duration then
    .error .valueError
  else
    (ob.rows.select (fun r => decide (r.channel = channel) && outboxDue now r) outboxOrder
      limit).foldlM (claimRow worker (now + duration) now) ([], ob)

/-- The worker and fence that own the lease. -/
def ownsDelivery (worker fence : ℕ) (r : OutboxRow) : Bool :=
  r.state = .leased && decide (r.leaseWorkerId = some worker) && decide (r.fence = fence)

def OutboxRow.start (now : ℕ) (r : OutboxRow) : OutboxRow :=
  { r with ack := some .started, updatedAt := now }

theorem OutboxRow.start_id (now : ℕ) (r : OutboxRow) : (r.start now).id = r.id := rfl

def markOutboxDeliveryStarted (ob : Outbox) (k : Key) (fence worker now : ℕ) :
    Except OutboxError Outbox :=
  casRow ob k (fun r => ownsDelivery worker fence r && (r.ack.isNone || decide (r.ack = some .started)))
    (OutboxRow.start now) (OutboxRow.start_id now)

def confirmOutbox (ob : Outbox) (k : Key) (fence worker : ℕ) (ack : Acknowledgement) (now : ℕ) :
    Except OutboxError Outbox :=
  casRow ob k (ownsDelivery worker fence) (OutboxRow.finish .sent ack now)
    (OutboxRow.finish_id .sent ack now)

def OutboxRow.release (retryAt now : ℕ) (r : OutboxRow) : OutboxRow :=
  { r with
    state := .pending
    leaseWorkerId := none
    leaseExpiresAt := none
    nextAttemptAt := some retryAt
    ack := none
    updatedAt := now }

theorem OutboxRow.release_id (retryAt now : ℕ) (r : OutboxRow) :
    (r.release retryAt now).id = r.id := rfl

/-- `release_outbox`; the pending row must not share its coalescing key with another. -/
def releaseOutbox (ob : Outbox) (k : Key) (fence worker retryAt now : ℕ) :
    Except OutboxError Outbox :=
  match ob.rows.find? k with
  | none => .error .notOwner
  | some r =>
    if ownsDelivery worker fence r && ob.rows.rows.any (coalesceConflict r) then .error .integrity
    else casRow ob k (ownsDelivery worker fence) (OutboxRow.release retryAt now)
      (OutboxRow.release_id retryAt now)

def cancelOutbox (ob : Outbox) (k : Key) (fence worker : ℕ) (reason : CancelReason) (now : ℕ) :
    Except OutboxError Outbox :=
  casRow ob k (ownsDelivery worker fence) (OutboxRow.finish .cancelled (.cancelled reason) now)
    (OutboxRow.finish_id .cancelled (.cancelled reason) now)

/-- The states that no operation leaves. -/
def OutboxState.terminal : OutboxState → Bool
  | .sent | .cancelled => true
  | _ => false

/-- `prune_outbox`: a batch of old terminal rows is deleted. -/
def pruneOutbox (ob : Outbox) (cutoff limit : ℕ) : Outbox :=
  let old := ob.rows.select (fun r => r.state.terminal && decide (r.updatedAt < cutoff))
    (fun a b => Table.orderBy [a.updatedAt, a.id.owner, a.id.id] [b.updatedAt, b.id.owner, b.id.id])
    limit
  { ob with rows := ob.rows.keep (fun r => !(old.map OutboxRow.id).contains r.id) }

/-! ## Store operations -/

inductive OutboxOp
  | enqueue (id : Key) (n : Notification) (now : ℕ)
  | claim (channel : OutboxChannel) (worker limit duration now : ℕ)
  | markDeliveryStarted (id : Key) (fence worker now : ℕ)
  | confirm (id : Key) (fence worker : ℕ) (ack : Acknowledgement) (now : ℕ)
  | release (id : Key) (fence worker retryAt now : ℕ)
  | cancel (id : Key) (fence worker : ℕ) (reason : CancelReason) (now : ℕ)
  | prune (cutoff limit : ℕ)

def Outbox.transact (ob : Outbox) : OutboxOp → Except OutboxError Outbox
  | .enqueue id n now => enqueueOutbox ob id n now
  | .claim channel worker limit duration now => do
    let (_, ob) ← claimOutbox ob channel worker limit duration now
    return ob
  | .markDeliveryStarted id fence worker now => markOutboxDeliveryStarted ob id fence worker now
  | .confirm id fence worker ack now => confirmOutbox ob id fence worker ack now
  | .release id fence worker retryAt now => releaseOutbox ob id fence worker retryAt now
  | .cancel id fence worker reason now => cancelOutbox ob id fence worker reason now
  | .prune cutoff limit => .ok (pruneOutbox ob cutoff limit)

/-- The rows after a sequence of store operations. -/
def outboxRun (ops : List OutboxOp) : Outbox := run Outbox.transact Outbox.empty ops

/-! ## The adapter -/

/-- What `sender.send` does: it raises, returns something that is no mapping, or answers, with the
boolean values of the fields that are read. -/
inductive ProviderOutcome
  | raised
  | malformed
  | answer (ok : Bool) (deliveryAmbiguous retryable : Option Bool) (messageId : Option ℕ)
deriving DecidableEq

inductive Disposition
  | confirm (ack : Acknowledgement)
  | cancel (reason : CancelReason)
  | retry
deriving DecidableEq

def ProviderOutcome.disposition : ProviderOutcome → Disposition
  | .raised => .cancel .deliveryAmbiguous
  | .malformed => .cancel .deliveryAmbiguous
  | .answer true _ _ messageId => .confirm (.sent messageId)
  | .answer false ambiguous retryable _ =>
    if ambiguous = some true then .cancel .deliveryAmbiguous
    else if retryable = some false then .cancel .providerRejected
    else if ambiguous = some false then .retry
    else .cancel .deliveryAmbiguous

inductive DeliveryStage
  | claimed
  | started
  | answered (outcome : ProviderOutcome)
deriving DecidableEq

/-- One record that a worker is delivering; `now` is the time its batch was claimed at. -/
structure OutboxDelivery where
  record : OutboxRow
  worker : ℕ
  now : ℕ
  stage : DeliveryStage

/-- Why a record is not sent at all. -/
inductive Refusal
  | associationUnavailable | recipientUnavailable | eventNotSupported
deriving DecidableEq

structure Adapter where
  maxAttempts : ℕ
  /-- The bounded exponential delay after the given number of attempts. -/
  retryDelay : ℕ → ℕ

namespace OutboxDelivery

def cancelOp (d : OutboxDelivery) (reason : CancelReason) : OutboxOp :=
  .cancel d.record.id d.record.fence d.worker reason d.now

/-- `_retry_or_cancel`. -/
def retryOp (a : Adapter) (d : OutboxDelivery) : OutboxOp :=
  if a.maxAttempts ≤ d.record.attemptCount then d.cancelOp .retryExhausted
  else .release d.record.id d.record.fence d.worker (d.now + a.retryDelay d.record.attemptCount)
    d.now

def refuseOp (a : Adapter) (d : OutboxDelivery) : Refusal → OutboxOp
  | .associationUnavailable => d.retryOp a
  | .recipientUnavailable => d.cancelOp .recipientUnavailable
  | .eventNotSupported => d.cancelOp .eventNotSupported

def settleOp (a : Adapter) (d : OutboxDelivery) : Disposition → OutboxOp
  | .confirm ack => .confirm d.record.id d.record.fence d.worker ack d.now
  | .cancel reason => d.cancelOp reason
  | .retry => d.retryOp a

/-- The handler around a record, for whatever else is raised. -/
def faultOp (a : Adapter) (d : OutboxDelivery) : OutboxOp :=
  match d.stage with
  | .claimed => d.retryOp a
  | _ => d.cancelOp .deliveryAmbiguous

end OutboxDelivery

/-- A call of the provider. -/
structure ProviderCall where
  row : Key
  fence : ℕ
  outcome : ProviderOutcome
deriving DecidableEq

structure DeliverySystem where
  outbox : Outbox
  deliveries : List OutboxDelivery
  calls : List ProviderCall

def DeliverySystem.empty : DeliverySystem := ⟨.empty, [], []⟩

inductive DeliveryEvent
  | enqueue (id : Key) (n : Notification) (now : ℕ)
  | prune (cutoff limit : ℕ)
  /-- A worker claims a batch. -/
  | claim (worker limit duration now : ℕ)
  | refuse (delivery : ℕ) (why : Refusal)
  | mark (delivery : ℕ)
  | send (delivery : ℕ) (outcome : ProviderOutcome)
  | settle (delivery : ℕ)
  | fault (delivery : ℕ)
  /-- The worker is gone. -/
  | crash (delivery : ℕ)

namespace DeliverySystem

/-- A store operation of a worker: if it matches no row, or raises, nothing changes. -/
def store (S : DeliverySystem) (op : OutboxOp) : DeliverySystem :=
  { S with outbox := commit Outbox.transact S.outbox op }

def drop (S : DeliverySystem) (i : ℕ) : DeliverySystem :=
  { S with deliveries := S.deliveries.eraseIdx i }

def setStage (S : DeliverySystem) (i : ℕ) (stage : DeliveryStage) : DeliverySystem :=
  { S with deliveries := S.deliveries.modify i (fun d => { d with stage := stage }) }

def markOp (d : OutboxDelivery) : OutboxOp :=
  .markDeliveryStarted d.record.id d.record.fence d.worker d.now

/-- One event at the delivery `d`. -/
def deliver (a : Adapter) (S : DeliverySystem) (i : ℕ) (d : OutboxDelivery) :
    DeliveryEvent → DeliverySystem
  | .refuse _ why => if d.stage = .claimed then (S.store (d.refuseOp a why)).drop i else S
  | .mark _ =>
    if d.stage = .claimed then
      match S.outbox.transact (markOp d) with
      | .ok ob => ({ S with outbox := ob }).setStage i .started
      | .error _ => S.drop i
    else S
  | .send _ outcome =>
    if d.stage = .started then
      { S.setStage i (.answered outcome) with
        calls := S.calls ++ [⟨d.record.id, d.record.fence, outcome⟩] }
    else S
  | .settle _ =>
    match d.stage with
    | .answered outcome => (S.store (d.settleOp a outcome.disposition)).drop i
    | _ => S
  | .fault _ => (S.store (d.faultOp a)).drop i
  | .crash _ => S.drop i
  | _ => S

def step (a : Adapter) (S : DeliverySystem) (e : DeliveryEvent) : DeliverySystem :=
  let at_ := fun i => match S.deliveries[i]? with
    | some d => S.deliver a i d e
    | none => S
  match e with
  | .enqueue id n now => S.store (.enqueue id n now)
  | .prune cutoff limit => S.store (.prune cutoff limit)
  | .claim worker limit duration now =>
    match claimOutbox S.outbox .telegram worker limit duration now with
    | .ok (records, ob) => { S with
        outbox := ob
        deliveries := S.deliveries ++ records.map (fun r => ⟨r, worker, now, .claimed⟩) }
    | .error _ => S
  | .refuse i _ => at_ i
  | .mark i => at_ i
  | .send i _ => at_ i
  | .settle i => at_ i
  | .fault i => at_ i
  | .crash i => at_ i

end DeliverySystem

/-- The deliveries after a sequence of events. -/
def deliveryRun (a : Adapter) (events : List DeliveryEvent) : DeliverySystem :=
  events.foldl (DeliverySystem.step a) .empty

end Metnos.Durable
