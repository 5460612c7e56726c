import Mathlib.Algebra.BigOperators.Ring.Finset
import Mathlib.Algebra.BigOperators.Ring.List
import Mathlib.Data.List.Dedup
import Metnos.Durable.Delivery
import Metnos.Durable.Store
import Metnos.Lib.Count

/-!
# Durable.Lanes — pending rows under a coalescing key

At most one pending row has a coalescing key.  A leased row is outside the index, so that another
row can be enqueued under its key; the lease is then only released when no such row is pending.
-/

namespace Metnos.Durable

open Transaction

/-! ## The key of a row -/

/-- The columns of `outbox_pending_coalesce_idx`, for a row with a coalescing key. -/
def OutboxRow.slot (r : OutboxRow) : Option (ℕ × Key × OutboxChannel × ℕ × ℕ) :=
  r.coalesceKey.map (fun key => (r.id.owner, r.workloadId, r.channel, r.recipientKey, key))

theorem coalesceConflict_iff {a b : OutboxRow} :
    coalesceConflict a b = true ↔ b.state = .pending ∧ a.slot.isSome ∧ b.slot = a.slot := by
  unfold coalesceConflict OutboxRow.slot
  rcases ha : a.coalesceKey with _ | x
  · simp
  · rcases hb : b.coalesceKey with _ | y
    · simp
    · simp only [Option.isSome_some, Option.map_some, Bool.and_true, Bool.and_eq_true,
        decide_eq_true_eq, Option.some.injEq, Prod.mk.injEq, true_and]
      tauto

/-- At most one pending row under every key. -/
def UniquePending (ob : Outbox) : Prop :=
  ∀ a ∈ ob.rows.rows, ∀ b ∈ ob.rows.rows, a.state = .pending → coalesceConflict a b = true → a = b

/-- The row was there, pending under the same key. -/
def WasPending (ob : Outbox) (r' : OutboxRow) : Prop :=
  ∃ r, ob.rows.find? r'.id = some r ∧ r.state = .pending ∧ r.slot = r'.slot

section
variable {ob ob' : Outbox}

theorem UniquePending.carried (U : UniquePending ob) {a b : OutboxRow} (ha : WasPending ob a)
    (hb : WasPending ob b) (h : coalesceConflict a b = true) : a.id = b.id := by
  obtain ⟨x, hx, hxp, hxs⟩ := ha
  obtain ⟨y, hy, hyp, hys⟩ := hb
  obtain ⟨-, some, same⟩ := coalesceConflict_iff.mp h
  have one : x = y := by
    refine U x (Table.mem_of_find? hx) y (Table.mem_of_find? hy) hxp ?_
    exact coalesceConflict_iff.mpr ⟨hyp, hxs ▸ some, by rw [hxs, hys, same]⟩
  rw [← Table.key_of_find? hx, ← Table.key_of_find? hy, one]

theorem UniquePending.mono (U : UniquePending ob)
    (old : ∀ r ∈ ob'.rows.rows, r.state = .pending → WasPending ob r) : UniquePending ob' := by
  intro a ha b hb pending h
  have id := U.carried (old a ha pending) (old b hb (coalesceConflict_iff.mp h).1) h
  exact Option.some.inj ((Table.find?_of_mem ha).symm.trans (id ▸ Table.find?_of_mem hb))

theorem UniquePending.one (U : UniquePending ob) {x : OutboxRow}
    (old : ∀ r ∈ ob'.rows.rows, r.state = .pending → r ≠ x → WasPending ob r)
    (free : ∀ r ∈ ob.rows.rows, ¬ coalesceConflict x r = true) : UniquePending ob' := by
  have other : ∀ r, WasPending ob r → r.slot.isSome → r.slot ≠ x.slot := by
    rintro r ⟨y, hy, hyp, hys⟩ some same
    exact free y (Table.mem_of_find? hy)
      (coalesceConflict_iff.mpr ⟨hyp, same ▸ some, hys.trans same⟩)
  intro a ha b hb pending h
  obtain ⟨pending', some, same⟩ := coalesceConflict_iff.mp h
  by_cases hax : a = x
  · by_cases hbx : b = x
    · rw [hax, hbx]
    · exact absurd (hax ▸ same) (other b (old b hb pending' hbx) (same ▸ some))
  · by_cases hbx : b = x
    · exact absurd (hbx ▸ same.symm) (other a (old a ha pending hax) some)
    · have id := U.carried (old a ha pending hax) (old b hb pending' hbx) h
      exact Option.some.inj ((Table.find?_of_mem ha).symm.trans (id ▸ Table.find?_of_mem hb))

/-! ## Every operation -/

theorem casRow_carried {k : Key} {p : OutboxRow → Bool} {f : OutboxRow → OutboxRow}
    {hf : ∀ r, (f r).id = r.id} (h : casRow ob k p f hf = .ok ob') {r : OutboxRow}
    (hr : r ∈ ob'.rows.rows) (pending : r.state = .pending) :
    WasPending ob r ∨ ∃ x, ob.rows.find? k = some x ∧ p x = true ∧ r = f x := by
  obtain ⟨-, ⟨x, hx, hp, hx'⟩, others⟩ := casRow_ok h
  have found := Table.find?_of_mem hr
  by_cases hk : r.id = k
  · rw [hk, hx', Option.some.injEq] at found
    exact .inr ⟨x, hx, hp, found.symm⟩
  · rw [others _ hk] at found
    exact .inl ⟨r, found, pending, rfl⟩

theorem UniquePending.casRow (U : UniquePending ob) {k : Key} {p : OutboxRow → Bool}
    {f : OutboxRow → OutboxRow} {hf : ∀ r, (f r).id = r.id} (h : casRow ob k p f hf = .ok ob')
    (keeps : ∀ r, p r = true → (f r).state = .pending → r.state = .pending ∧ r.slot = (f r).slot) :
    UniquePending ob' := by
  refine U.mono fun r hr pending => ?_
  rcases casRow_carried h hr pending with old | ⟨x, hx, hp, rfl⟩
  · exact old
  · refine ⟨x, ?_, keeps x hp pending⟩
    rw [hf x, Table.key_of_find? hx]
    exact hx

theorem UniquePending.enqueue (U : UniquePending ob) {id : Key} {n : Notification} {now : ℕ}
    (h : enqueueOutbox ob id n now = .ok ob') : UniquePending ob' := by
  unfold enqueueOutbox at h
  dsimp only at h
  split at h
  · split at h
    · cases h
    · refine U.casRow h fun r hr _ => ⟨by simpa using hr, rfl⟩
  · rename_i absent
    split at h
    · cases h
    split at h
    · rename_i rows hins
      cases h
      obtain ⟨-, eq⟩ := Table.insert?_some hins
      have old : ∀ r ∈ rows.rows, r.state = .pending → r ≠ makeOutboxRow id n now →
          WasPending ob r := by
        intro r hr pending ne
        rw [eq, List.mem_append, List.mem_singleton] at hr
        exact ⟨r, Table.find?_of_mem (hr.resolve_right ne), pending, rfl⟩
      by_cases delivered : n.delivered = true
      · refine U.mono fun r hr pending => old r hr pending ?_
        rintro rfl
        simp [makeOutboxRow, delivered] at pending
      · rw [if_neg delivered] at absent
        exact U.one old fun r hr => by simpa using List.find?_eq_none.mp absent r hr
    · cases h

theorem UniquePending.claim (U : UniquePending ob) {channel : OutboxChannel}
    {worker limit duration now : ℕ} {records : List OutboxRow}
    (h : claimOutbox ob channel worker limit duration now = .ok (records, ob')) :
    UniquePending ob' := by
  obtain ⟨-, -, claimed, others⟩ := claimOutbox_ok h
  refine U.mono fun r hr pending => ?_
  have found := Table.find?_of_mem hr
  by_cases hk : r.id ∈ (outboxCandidates ob channel limit now).map OutboxRow.id
  · obtain ⟨c, hc, same⟩ := List.mem_map.mp hk
    rw [← same, claimed c hc, Option.some.injEq] at found
    rw [← found] at pending
    unfold claimedRow at pending
    split at pending <;> cases pending
  · rw [others _ hk] at found
    exact ⟨r, found, pending, rfl⟩

theorem UniquePending.release (U : UniquePending ob) {k : Key} {fence worker retryAt now : ℕ}
    (h : releaseOutbox ob k fence worker retryAt now = .ok ob') : UniquePending ob' := by
  unfold releaseOutbox at h
  split at h
  · cases h
  · rename_i r hr
    split at h
    · cases h
    · rename_i free
      obtain ⟨-, ⟨x, hx, owns, -⟩, -⟩ := casRow_ok h
      obtain rfl : x = r := Option.some.inj (hx.symm.trans hr)
      refine U.one (x := x.release retryAt now) (fun y hy pending ne => ?_) fun y hy conflict => ?_
      · rcases casRow_carried h hy pending with old | ⟨z, hz, -, rfl⟩
        · exact old
        · obtain rfl : z = x := Option.some.inj (hz.symm.trans hx)
          exact absurd rfl ne
      · have conflict : coalesceConflict x y = true := conflict
        refine free ?_
        rw [owns, Bool.true_and]
        exact List.any_eq_true.mpr ⟨y, hy, conflict⟩

theorem UniquePending.transact (U : UniquePending ob) {op : OutboxOp}
    (h : ob.transact op = .ok ob') : UniquePending ob' := by
  cases op with
  | enqueue id n now => exact U.enqueue h
  | claim channel worker limit duration now =>
    simp only [Outbox.transact, bind_eq_ok, pure_eq_ok] at h
    obtain ⟨⟨records, ob₁⟩, h, rfl⟩ := h
    exact U.claim h
  | markDeliveryStarted id fence worker now =>
    refine U.casRow h fun r hr pending => ?_
    have leased := (ownsDelivery_iff.mp (Bool.and_eq_true_iff.mp hr).1).1
    have pending : r.state = .pending := pending
    rw [leased] at pending
    cases pending
  | confirm id fence worker ack now =>
    refine U.casRow h fun r _ pending => ?_
    cases pending
  | release id fence worker retryAt now => exact U.release h
  | cancel id fence worker reason now =>
    refine U.casRow h fun r _ pending => ?_
    cases pending
  | prune cutoff limit =>
    cases h
    refine U.mono fun r hr pending => ?_
    exact ⟨r, Table.find?_of_mem (List.mem_of_mem_filter hr), pending, rfl⟩

theorem unique_pending_run (ops : List OutboxOp) : UniquePending (outboxRun ops) :=
  run_preserves (I := UniquePending) (fun h U => U.transact h) (fun a ha => by cases ha)

/-! ## Releasing a lease -/

/-- The release returns the row to pending. -/
def Releases (ob : Outbox) (k : Key) (fence worker retryAt now : ℕ) : Prop :=
  ∃ ob' r, releaseOutbox ob k fence worker retryAt now = .ok ob' ∧
    ob'.rows.find? k = some r ∧ r.state = .pending

theorem releases_iff {k : Key} {fence worker : ℕ} {r : OutboxRow} (hr : ob.rows.find? k = some r)
    (owns : ownsDelivery worker fence r = true) (retryAt now : ℕ) :
    Releases ob k fence worker retryAt now ↔
      ∀ x ∈ ob.rows.rows, ¬ coalesceConflict r x = true := by
  unfold Releases releaseOutbox
  rw [hr]
  dsimp only
  rw [owns, Bool.true_and]
  constructor
  · rintro ⟨ob', x, h, -, -⟩ y hy conflict
    rw [if_pos (List.any_eq_true.mpr ⟨y, hy, conflict⟩)] at h
    cases h
  · intro free
    have none : ob.rows.rows.any (coalesceConflict r) = false :=
      List.any_eq_false.mpr free
    rw [none]
    have hit : ∃ rows, ob.rows.cas k (ownsDelivery worker fence) (OutboxRow.release retryAt now)
        (OutboxRow.release_id retryAt now) = some rows := by
      unfold Table.cas
      rw [hr]
      exact ⟨_, if_pos owns⟩
    obtain ⟨rows, hrows⟩ := hit
    have done : Durable.casRow ob k (ownsDelivery worker fence) (OutboxRow.release retryAt now)
        (OutboxRow.release_id retryAt now) = .ok { ob with rows := rows } := by
      unfold Durable.casRow
      rw [hrows]
    obtain ⟨-, ⟨x, -, -, hx⟩, -⟩ := casRow_ok done
    exact ⟨{ ob with rows := rows }, x.release retryAt now, done, hx, rfl⟩

end

/-- In every run the pending rows are unique under their keys, and the holder of a lease returns
its row to pending exactly when no other row is pending under the row's key. -/
theorem outbox_release (ops : List OutboxOp) :
    UniquePending (outboxRun ops) ∧
    ∀ k fence worker retryAt now r, (outboxRun ops).rows.find? k = some r →
      ownsDelivery worker fence r = true →
      (Releases (outboxRun ops) k fence worker retryAt now ↔
        ∀ x ∈ (outboxRun ops).rows.rows, ¬ coalesceConflict r x = true) :=
  ⟨unique_pending_run ops, fun _ _ _ retryAt now _ hr owns => releases_iff hr owns retryAt now⟩

/-- Progress of one workload, event by event. -/
def progress (event : ℕ) : Notification :=
  { workloadId := ⟨0, 0⟩
    eventId := event
    channel := .telegram
    recipientKey := 5
    coalesceKey := some 9
    due := none
    delivered := false }

/-- The first progress is leased, and the next one enqueued behind it. -/
def overtakenLease : List OutboxOp :=
  [.enqueue ⟨0, 1⟩ (progress 1) 0, .claim .telegram 7 10 5 0, .enqueue ⟨0, 2⟩ (progress 2) 1]

/-- The holder of the lease cannot release it. -/
theorem overtaken_lease_stays :
    ((outboxRun overtakenLease).rows.find? ⟨0, 1⟩).any (ownsDelivery 7 1) = true ∧
    releaseOutbox (outboxRun overtakenLease) ⟨0, 1⟩ 1 7 3 2 = .error .integrity ∧
    ¬ Releases (outboxRun overtakenLease) ⟨0, 1⟩ 1 7 3 2 := by
  have error : releaseOutbox (outboxRun overtakenLease) ⟨0, 1⟩ 1 7 3 2 = .error .integrity := rfl
  refine ⟨rfl, error, ?_⟩
  rintro ⟨ob', r, h, -, -⟩
  rw [error] at h
  cases h

/-- Before the next progress is enqueued the holder can. -/
theorem lone_lease_returns : Releases (outboxRun (overtakenLease.take 2)) ⟨0, 1⟩ 1 7 3 2 :=
  ((outbox_release (overtakenLease.take 2)).2 ⟨0, 1⟩ 1 7 3 2 _ rfl rfl).mpr (by decide)

end Metnos.Durable

/-!
## How many worker lanes the store asks for

`service_lane_demand` reads the stages that have candidate units and bounds, from their resource
claims alone, how many of these units can run together.  Nothing else is promised: the demand is
an upper bound on every selection of candidates that the limits admit.  A quiet database is
remembered by its version, and nothing that happens to a quiet database short of a write makes a
unit a candidate.
-/

namespace Metnos.Durable

/-! ## Claims -/

/-- `RESOURCE_KEYS`. -/
def resourceKeys : List String := ["cpu", "device", "llm", "local_io", "network_io", "vlm"]

/-- `claims.get(key, 0)`. -/
def Resources.amount (r : Resources) (key : String) : ℕ :=
  (([("cpu", r.cpu), ("device", r.device), ("llm", r.llm), ("local_io", r.localIo),
    ("network_io", r.networkIo), ("vlm", r.vlm)] : List (String × ℕ)).lookup key).getD 0

/-- `claimed`: the keys with a positive amount. -/
def Resources.claimed (r : Resources) : List String :=
  resourceKeys.filter (fun key => decide (0 < r.amount key))

/-! ## Profiles -/

/-- A row of the candidate query: a stage of a workload and its candidate units. -/
structure LaneProfile where
  workloadId : Key
  stageId : Key
  resources : Resources
  concurrencyLimit : ℕ
  candidateCount : ℕ
deriving DecidableEq

/-- `resource_limits`. -/
abbrev ResourceLimits := List (String × ℤ)

/-- `limits[key]`, for a key of the map. -/
def ResourceLimits.capacity (limits : ResourceLimits) (key : String) : ℤ :=
  (limits.lookup key).getD 0

namespace LaneProfile

/-- `claimed and claimed.issubset(limits)`. -/
def constrained (limits : ResourceLimits) (p : LaneProfile) : Bool :=
  !p.resources.claimed.isEmpty && p.resources.claimed.all (fun key => (limits.lookup key).isSome)

/-- The units of a stage that could run at once: its bottleneck. -/
def slots (limit : ℕ) (limits : ResourceLimits) (p : LaneProfile) : ℤ :=
  let slots : ℤ := min (min (p.candidateCount : ℤ) limit) p.concurrencyLimit
  if p.constrained limits then
    min slots (((p.resources.claimed.map (fun key =>
      limits.capacity key / (p.resources.amount key : ℤ))).min?).getD slots)
  else slots

end LaneProfile

/-! ## The demand -/

section
variable (limit : ℕ) (limits : ResourceLimits) (candidates : List LaneProfile)

/-- `workload_limits[key]`: the last assignment. -/
def workloadLimit (workload : Key) : ℕ :=
  ((candidates.reverse.find? (fun p => decide (p.workloadId = workload))).map
    LaneProfile.concurrencyLimit).getD 0

/-- `per_workload[key]`. -/
def perWorkload (workload : Key) : ℤ :=
  ((candidates.filter (fun p => p.workloadId = workload)).map (LaneProfile.slots limit limits)).sum

/-- The keys of `per_workload`. -/
def laneWorkloads : List Key := (candidates.map LaneProfile.workloadId).dedup

/-- The bound on the lanes and on every workload. -/
def workloadDemand : ℤ :=
  min limit (((laneWorkloads candidates).map
    (fun w => min (perWorkload limit limits candidates w) (workloadLimit candidates w : ℤ))).sum)

/-- `amounts`: what the stages with a lane take of a resource. -/
def laneAmounts (key : String) : List ℕ :=
  (candidates.filter (fun p => decide (p.slots limit limits ≠ 0) &&
    decide (0 < p.resources.amount key))).map (fun p => p.resources.amount key)

/-- `non_users`: the lanes of the stages that do not take a resource. -/
def nonUsers (key : String) : ℤ :=
  ((candidates.filter (fun p => p.resources.amount key = 0)).map
    (LaneProfile.slots limit limits)).sum

/-- One turn of the loop over the limits. -/
def boundUsers (demand : ℤ) (x : String × ℤ) : ℤ :=
  match (laneAmounts limit limits candidates x.1).min? with
  | none => demand
  | some least => min demand (nonUsers limit limits candidates x.1 + x.2 / (least : ℤ))

/-- `resources`: every claimed key. -/
def laneResources : List String :=
  (candidates.flatMap (fun p => p.resources.claimed)).dedup

def laneDemand : ℤ :=
  if limit < candidates.length then limit else
  let demand := limits.foldl (boundUsers limit limits candidates)
    (workloadDemand limit limits candidates)
  let demand :=
    if !limits.isEmpty && candidates.all (LaneProfile.constrained limits) then
      min demand (((laneResources candidates).map limits.capacity).sum)
    else demand
  max 1 demand

/-! ## Selections -/

def selected (taken : LaneProfile → ℕ) : ℕ := (candidates.map taken).sum

/-- A selection of candidate units that the limits admit. -/
structure Selects (taken : LaneProfile → ℕ) : Prop where
  /-- At most the candidates of every stage. -/
  count : ∀ p ∈ candidates, taken p ≤ p.candidateCount
  /-- At most `max_concurrency` of every workload. -/
  concurrency : ∀ p ∈ candidates,
    selected (candidates.filter (fun q => q.workloadId = p.workloadId)) taken ≤ p.concurrencyLimit
  lanes : selected candidates taken ≤ limit
  /-- Together within the limit of every limited key. -/
  resources : ∀ x ∈ limits,
    ((candidates.map (fun p => taken p * p.resources.amount x.1)).sum : ℤ) ≤ x.2

end

/-! ## Every bound holds -/

section
variable {limit : ℕ} {limits : ResourceLimits} {candidates : List LaneProfile}
  {taken : LaneProfile → ℕ}

theorem amount_of_claimed {r : Resources} {key : String} (h : key ∈ r.claimed) :
    0 < r.amount key := by
  have claimed := (List.mem_filter.mp h).2
  exact of_decide_eq_true claimed

theorem capacity_mem {key : String} (h : (limits.lookup key).isSome) :
    (key, limits.capacity key) ∈ limits := by
  obtain ⟨n, hn⟩ := Option.isSome_iff_exists.mp h
  have capacity : limits.capacity key = n := by
    unfold ResourceLimits.capacity
    rw [hn, Option.getD_some]
  rw [capacity]
  obtain ⟨l₁, l₂, rfl, -⟩ := List.lookup_eq_some_iff.mp hn
  exact List.mem_append_right _ (List.mem_cons_self ..)

theorem taken_le_selected {p : LaneProfile} (hp : p ∈ candidates) :
    taken p ≤ selected candidates taken :=
  List.le_sum_of_mem (List.mem_map_of_mem hp)

theorem Selects.limited (S : Selects limit limits candidates taken) {key : String}
    (h : (limits.lookup key).isSome) :
    ((candidates.map (fun p => taken p * p.resources.amount key)).sum : ℤ) ≤
      limits.capacity key :=
  S.resources _ (capacity_mem h)

theorem Selects.bottleneck (S : Selects limit limits candidates taken) {p : LaneProfile}
    (hp : p ∈ candidates) {key : String} (claimed : key ∈ p.resources.claimed)
    (h : (limits.lookup key).isSome) :
    (taken p : ℤ) ≤ limits.capacity key / (p.resources.amount key : ℤ) := by
  have positive := amount_of_claimed claimed
  refine (Int.le_ediv_iff_mul_le (by exact_mod_cast positive)).mpr ?_
  have one : taken p * p.resources.amount key ≤
      (candidates.map (fun p => taken p * p.resources.amount key)).sum :=
    List.le_sum_of_mem (List.mem_map_of_mem (f := fun p => taken p * p.resources.amount key) hp)
  exact le_trans (by exact_mod_cast one) (S.limited h)

theorem Selects.slots (S : Selects limit limits candidates taken) {p : LaneProfile}
    (hp : p ∈ candidates) : (taken p : ℤ) ≤ p.slots limit limits := by
  have count := S.count p hp
  have lanes : taken p ≤ limit := (taken_le_selected hp).trans S.lanes
  have concurrency : taken p ≤ p.concurrencyLimit := by
    refine le_trans ?_ (S.concurrency p hp)
    exact taken_le_selected (List.mem_filter.mpr ⟨hp, decide_eq_true rfl⟩)
  have basic : (taken p : ℤ) ≤
      min (min (p.candidateCount : ℤ) limit) p.concurrencyLimit := by omega
  unfold LaneProfile.slots
  split
  · rename_i hc
    have within := (Bool.and_eq_true_iff.mp hc).2
    refine le_min basic ?_
    rcases hmin : (p.resources.claimed.map (fun key =>
        limits.capacity key / (p.resources.amount key : ℤ))).min? with _ | least
    · exact basic
    · rw [Option.getD_some]
      obtain ⟨key, claimed, rfl⟩ := List.mem_map.mp (List.min?_mem hmin)
      exact S.bottleneck hp claimed (List.all_eq_true.mp within key claimed)
  · exact basic

theorem Selects.filter_slots (S : Selects limit limits candidates taken) (q : LaneProfile → Bool) :
    (selected (candidates.filter q) taken : ℤ) ≤
      ((candidates.filter q).map (LaneProfile.slots limit limits)).sum := by
  unfold selected
  rw [Nat.cast_list_sum, List.map_map]
  refine List.sum_le_sum fun p hp => ?_
  exact S.slots (List.mem_filter.mp hp).1

theorem workloadLimit_of_mem {p : LaneProfile} (hp : p ∈ candidates) :
    ∃ q ∈ candidates, q.workloadId = p.workloadId ∧
      workloadLimit candidates p.workloadId = q.concurrencyLimit := by
  unfold workloadLimit
  rcases h : candidates.reverse.find? (fun q => decide (q.workloadId = p.workloadId)) with _ | q
  · have none := List.find?_eq_none.mp h p (List.mem_reverse.mpr hp)
    exact absurd (decide_eq_true rfl) none
  · have same : q.workloadId = p.workloadId := by simpa using List.find?_some h
    exact ⟨q, List.mem_reverse.mp (List.mem_of_find?_eq_some h), same, by rw [h]; rfl⟩

theorem Selects.workloadDemand (S : Selects limit limits candidates taken) :
    (selected candidates taken : ℤ) ≤ workloadDemand limit limits candidates := by
  refine le_min (by exact_mod_cast S.lanes) ?_
  have parts := Count.sum_by_key LaneProfile.workloadId taken
    (List.nodup_dedup (candidates.map LaneProfile.workloadId)) candidates
    (fun p hp => List.mem_dedup.mpr (List.mem_map_of_mem hp))
  unfold selected laneWorkloads
  rw [parts, Nat.cast_list_sum, List.map_map]
  refine List.sum_le_sum fun w hw => ?_
  obtain ⟨p, hp, rfl⟩ := List.mem_map.mp (List.mem_dedup.mp hw)
  refine le_min (S.filter_slots _) ?_
  obtain ⟨q, hq, same, limit⟩ := workloadLimit_of_mem hp
  have concurrency := S.concurrency q hq
  rw [same, ← limit] at concurrency
  exact Int.ofNat_le.mpr concurrency

theorem Selects.users (S : Selects limit limits candidates taken) {x : String × ℤ}
    (hx : x ∈ limits) {least : ℕ}
    (hl : (laneAmounts limit limits candidates x.1).min? = some least) :
    (selected candidates taken : ℤ) ≤ nonUsers limit limits candidates x.1 + x.2 / (least : ℤ) := by
  have parts := Count.sum_by_key (fun p : LaneProfile => decide (p.resources.amount x.1 = 0)) taken
    (show [true, false].Nodup by decide) candidates (fun p _ => by
      cases decide (p.resources.amount x.1 = 0) <;> decide)
  have others := S.filter_slots (fun p => decide (p.resources.amount x.1 = 0))
  obtain ⟨user, hu, positive⟩ := List.mem_map.mp (List.min?_mem hl)
  have least_pos : 0 < least := by
    have claim := (Bool.and_eq_true_iff.mp (List.mem_filter.mp hu).2).2
    exact positive ▸ of_decide_eq_true claim
  -- every user that takes a unit takes at least the least amount
  have shares : ((candidates.filter (fun p => decide (p.resources.amount x.1 = 0) = false)).map
      taken).sum * least ≤ (candidates.map (fun p => taken p * p.resources.amount x.1)).sum := by
    rw [← List.sum_map_mul_right]
    refine le_trans (List.sum_le_sum fun p hp => ?_)
      ((List.filter_sublist.map (fun p => taken p * p.resources.amount x.1)).sum_le_sum (by simp))
    obtain ⟨hp, user⟩ := List.mem_filter.mp hp
    by_cases idle : p.slots limit limits = 0
    · have none : taken p = 0 := by have := S.slots hp; omega
      simp [none]
    · refine Nat.mul_le_mul_left _ ((List.min?_eq_some_iff.mp hl).2 _ ?_)
      refine List.mem_map_of_mem (f := fun p => p.resources.amount x.1) (List.mem_filter.mpr ⟨hp, ?_⟩)
      simp only [decide_eq_false_iff_not, decide_eq_true_eq] at user
      simp only [Bool.and_eq_true, decide_eq_true_eq]
      exact ⟨idle, Nat.pos_of_ne_zero user⟩
  have capacity := S.resources x hx
  have bounded : (((candidates.filter
      (fun p => decide (p.resources.amount x.1 = 0) = false)).map taken).sum : ℤ) ≤ x.2 / least :=
    (Int.le_ediv_iff_mul_le (by exact_mod_cast least_pos)).mpr
      (le_trans (by exact_mod_cast shares) capacity)
  unfold selected nonUsers at *
  simp only [List.map_cons, List.map_nil, List.sum_cons, List.sum_nil, add_zero, decide_eq_true_eq] at parts
  rw [parts, Nat.cast_add]
  exact add_le_add others bounded

theorem Selects.boundUsers (S : Selects limit limits candidates taken) {x : String × ℤ}
    (hx : x ∈ limits) {demand : ℤ} (h : (selected candidates taken : ℤ) ≤ demand) :
    (selected candidates taken : ℤ) ≤ boundUsers limit limits candidates demand x := by
  unfold Durable.boundUsers
  split
  · exact h
  · rename_i least hl
    exact le_min h (S.users hx hl)

theorem Selects.capacities (S : Selects limit limits candidates taken)
    (constrained : candidates.all (LaneProfile.constrained limits) = true) :
    (selected candidates taken : ℤ) ≤
      ((laneResources candidates).map limits.capacity).sum := by
  have claims : selected candidates taken ≤ (candidates.map (fun p =>
      ((laneResources candidates).map (fun key => taken p * p.resources.amount key)).sum)).sum := by
    refine List.sum_le_sum fun p hp => ?_
    have hc := List.all_eq_true.mp constrained p hp
    obtain ⟨key, claimed⟩ := List.exists_mem_of_ne_nil p.resources.claimed (by
      simpa using (Bool.and_eq_true_iff.mp hc).1)
    have listed : key ∈ laneResources candidates :=
      List.mem_dedup.mpr (List.mem_flatMap.mpr ⟨p, hp, claimed⟩)
    exact (Nat.le_mul_of_pos_right _ (amount_of_claimed claimed)).trans
      (List.le_sum_of_mem (List.mem_map_of_mem (f := fun key => taken p * p.resources.amount key)
        listed))
  rw [Count.sum_swap] at claims
  refine le_trans (Int.ofNat_le.mpr claims) ?_
  rw [Nat.cast_list_sum, List.map_map]
  refine List.sum_le_sum fun key listed => ?_
  obtain ⟨p, hp, claimed⟩ := List.mem_flatMap.mp (List.mem_dedup.mp listed)
  have hc := List.all_eq_true.mp constrained p hp
  exact S.limited (List.all_eq_true.mp (Bool.and_eq_true_iff.mp hc).2 key claimed)

theorem Selects.laneDemand (S : Selects limit limits candidates taken)
    (whole : candidates.length ≤ limit) :
    (selected candidates taken : ℤ) ≤ laneDemand limit limits candidates := by
  have users : ∀ (rest : ResourceLimits), (∀ x ∈ rest, x ∈ limits) → ∀ demand : ℤ,
      (selected candidates taken : ℤ) ≤ demand →
      (selected candidates taken : ℤ) ≤ rest.foldl (Durable.boundUsers limit limits candidates) demand := by
    intro rest
    induction rest with
    | nil => exact fun _ _ h => h
    | cons x rest ih =>
      intro sub demand h
      exact ih (fun y hy => sub y (List.mem_cons_of_mem _ hy)) _
        (S.boundUsers (sub x (List.mem_cons_self ..)) h)
  have bounded := users limits (fun x hx => hx) _ S.workloadDemand
  unfold Durable.laneDemand
  rw [if_neg (by omega)]
  refine le_trans ?_ (le_max_right _ _)
  split
  · rename_i hc
    exact le_min bounded (S.capacities (Bool.and_eq_true_iff.mp hc).2)
  · exact bounded

end

/-! ## The queries -/

/-- A unit that runs, that is due, or whose retry the owner granted. -/
def laneUnit (r : Revision) (now : ℕ) (u : UnitRow) : Bool :=
  decide (u.state = .leased ∨ u.state = .running) ||
  (decide (u.state = .pending ∨ u.state = .retryWait) &&
    u.nextAttemptAt.all (fun t => decide (t ≤ now))) ||
  (decide (u.state = .needsAttention) &&
    decide (u.manualRetryGeneration < r.manualRetryGeneration))

/-- `COUNT(*)` of the group of a stage. -/
def laneCount (db : Store) (r : Revision) (s : Stage) (now : ℕ) : ℕ :=
  db.units.rows.countP (fun u => decide (u.revisionId = r.id) && decide (u.stageId = s.id) &&
    laneUnit r now u)

/-- The group of a stage, when it is not empty. -/
def laneProfile (db : Store) (w : Workload) (r : Revision) (now : ℕ) (s : Stage) :
    Option LaneProfile :=
  if s.revisionId = r.id ∧ 0 < laneCount db r s now then
    some ⟨w.id, s.id, s.resources, r.budgets.maxConcurrency, laneCount db r s now⟩
  else none

def workloadProfiles (db : Store) (now : ℕ) (w : Workload) : List LaneProfile :=
  if w.state = .queued ∨ w.state = .running then
    match w.activeRevisionId.bind db.revisions.find? with
    | some r => db.stages.rows.filterMap (laneProfile db w r now)
    | none => []
  else []

/-- The candidate query without its `LIMIT limit + 1`. -/
def laneProfiles (db : Store) (now : ℕ) : List LaneProfile :=
  db.workloads.rows.flatMap (workloadProfiles db now)

/-- A unit left over by a workload that failed or was cancelled. -/
def residualUnit (u : UnitRow) : Bool :=
  decide (u.state = .pending ∨ u.state = .retryWait ∨ u.state = .needsAttention) &&
  u.activeAttemptId.isNone

def maintenance (db : Store) : Bool :=
  db.workloads.rows.any (fun w => w.activeRevisionId.any (fun revision =>
    decide (w.state = .admitted ∨ w.state = .queued ∨ w.state = .running ∨ w.state = .paused ∨
      w.state = .pauseRequested ∨ w.state = .cancelRequested) ||
    (decide (w.state = .failed ∨ w.state = .cancelled) &&
      db.units.rows.any (fun u => decide (u.revisionId = revision) && residualUnit u)))) ||
  db.units.rows.any (fun u => decide (u.state = .leased ∨ u.state = .running))

theorem laneProfiles_of_quiet {db : Store} (h : maintenance db = false) (now : ℕ) :
    laneProfiles db now = [] := by
  refine List.flatMap_eq_nil_iff.mpr fun w hw => ?_
  unfold workloadProfiles
  split
  · rename_i active
    have none : w.activeRevisionId = none := by
      by_contra some
      obtain ⟨revision, hr⟩ := Option.ne_none_iff_exists'.mp some
      have row := List.any_eq_false.mp (Bool.or_eq_false_iff.mp h).1 w hw
      rcases active with active | active <;> simp [hr, active] at row
    rw [none]
    rfl
  · rfl

/-! ## The connection of the service -/

/-- The database, the version that the connection sees of it (`PRAGMA data_version` and
`total_changes`) and `_idle_database_version`. -/
structure LaneReader where
  db : Store
  dataVersion : ℕ
  totalChanges : ℕ
  idle : Option (ℕ × ℕ)

namespace LaneReader

def version (R : LaneReader) : ℕ × ℕ := (R.dataVersion, R.totalChanges)

def commit (R : LaneReader) (db : Store) : LaneReader :=
  { R with db := db, dataVersion := R.dataVersion + 1 }

def write (R : LaneReader) (db : Store) : LaneReader :=
  { R with db := db, totalChanges := R.totalChanges + 1 }

/-- Other connections commit between two statements. -/
def commits (R : LaneReader) (dbs : List Store) : LaneReader := dbs.foldl commit R

/-- `service_lane_demand`: the version, the candidates and the maintenance row are read one after
the other, and other connections commit in between. -/
def serviceLaneDemand (R : LaneReader) (limit : ℕ) (limits : ResourceLimits) (now : ℕ)
    (before after : List Store) : Tx ℤ × LaneReader :=
  if ¬(1 ≤ limit ∧ limit ≤ 32) then (.error .valueError, R) else
  let version := R.version
  if R.idle = some version then (.ok 0, R) else
  let R := R.commits before
  let candidates := laneProfiles R.db now
  if candidates.isEmpty then
    let R := R.commits after
    if maintenance R.db then (.ok 1, { R with idle := none })
    else (.ok 0, { R with idle := some version })
  else (.ok (laneDemand limit limits candidates), { R with idle := none })

/-- The database whose candidates a call is about. -/
def observed (R : LaneReader) (before : List Store) : Store :=
  if R.idle = some R.version then R.db else (R.commits before).db

/-! ## Runs -/

inductive Op
  | commit (db : Store)
  | write (db : Store)
  | demand (limit : ℕ) (limits : ResourceLimits) (now : ℕ) (before after : List Store)

def act (R : LaneReader) : Op → LaneReader
  | .commit db => R.commit db
  | .write db => R.write db
  | .demand limit limits now before after => (R.serviceLaneDemand limit limits now before after).2

/-- A connection just opened on a database. -/
def connect (db : Store) : LaneReader := ⟨db, 1, 0, none⟩

def run (db : Store) (ops : List Op) : LaneReader := ops.foldl act (connect db)

/-- A remembered version is no later than the present one, and the database that has it is
quiet. -/
def Idle (R : LaneReader) : Prop :=
  ∀ v, R.idle = some v → v.1 ≤ R.dataVersion ∧ v.2 ≤ R.totalChanges ∧
    (v = R.version → maintenance R.db = false)

variable {R : LaneReader}

theorem Idle.commit (I : R.Idle) (db : Store) : (R.commit db).Idle := by
  intro v hv
  obtain ⟨data, total, -⟩ := I v hv
  refine ⟨Nat.le_succ_of_le data, total, fun same => ?_⟩
  have : v.1 = R.dataVersion + 1 := congrArg Prod.fst same
  omega

theorem Idle.write (I : R.Idle) (db : Store) : (R.write db).Idle := by
  intro v hv
  obtain ⟨data, total, -⟩ := I v hv
  refine ⟨data, Nat.le_succ_of_le total, fun same => ?_⟩
  have : v.2 = R.totalChanges + 1 := congrArg Prod.snd same
  omega

theorem commits_version (dbs : List Store) (R : LaneReader) :
    (R.commits dbs).dataVersion = R.dataVersion + dbs.length ∧
      (R.commits dbs).totalChanges = R.totalChanges := by
  induction dbs generalizing R with
  | nil => exact ⟨rfl, rfl⟩
  | cons db dbs ih =>
    obtain ⟨data, total⟩ := ih (R.commit db)
    refine ⟨?_, total⟩
    show ((R.commit db).commits dbs).dataVersion = _
    rw [data, List.length_cons]
    show R.dataVersion + 1 + dbs.length = _
    omega

theorem idle_of_quiet {before after : List Store}
    (quiet : maintenance ((R.commits before).commits after).db = false) :
    ({ (R.commits before).commits after with idle := some R.version } : LaneReader).Idle := by
  rintro v ⟨⟩
  obtain ⟨data, total⟩ := commits_version before R
  obtain ⟨data', total'⟩ := commits_version after (R.commits before)
  refine ⟨?_, ?_, fun _ => quiet⟩
  · show R.dataVersion ≤ ((R.commits before).commits after).dataVersion
    omega
  · show R.totalChanges ≤ ((R.commits before).commits after).totalChanges
    omega

theorem Idle.demand (I : R.Idle) (limit : ℕ) (limits : ResourceLimits) (now : ℕ)
    (before after : List Store) : (R.serviceLaneDemand limit limits now before after).2.Idle := by
  unfold serviceLaneDemand
  split
  · exact I
  · dsimp only
    split
    · exact I
    · split
      · split
        · rintro v ⟨⟩
        · rename_i quiet
          exact idle_of_quiet (by simpa using quiet)
      · rintro v ⟨⟩

theorem Idle.act (I : R.Idle) (op : Op) : (R.act op).Idle := by
  cases op with
  | commit db => exact I.commit db
  | write db => exact I.write db
  | demand limit limits now before after => exact I.demand limit limits now before after

theorem run_idle (db : Store) (ops : List Op) : (run db ops).Idle := by
  have all : ∀ (ops : List Op) (R : LaneReader), R.Idle → (ops.foldl LaneReader.act R).Idle := by
    intro ops
    induction ops with
    | nil => exact fun _ I => I
    | cons op ops ih => exact fun R I => ih _ (I.act op)
  refine all ops _ ?_
  rintro v ⟨⟩

end LaneReader

open LaneReader in
/-- In every run, the demand bounds every selection of the candidates it was computed from. -/
theorem lane_demand_bounds (db : Store) (ops : List Op) (limit : ℕ) (limits : ResourceLimits)
    (now : ℕ) (before after : List Store) (demand : ℤ)
    (h : ((run db ops).serviceLaneDemand limit limits now before after).1 = .ok demand)
    (whole : (laneProfiles ((run db ops).observed before) now).length ≤ limit)
    (taken : LaneProfile → ℕ)
    (S : Selects limit limits (laneProfiles ((run db ops).observed before) now) taken) :
    (selected (laneProfiles ((run db ops).observed before) now) taken : ℤ) ≤ demand := by
  have I := run_idle db ops
  generalize run db ops = R at *
  unfold serviceLaneDemand at h
  unfold observed at *
  split at h
  · cases h
  · dsimp only at h
    split at h
    · rename_i idle
      rw [if_pos idle] at *
      rw [laneProfiles_of_quiet ((I _ idle).2.2 rfl) now]
      cases h
      rfl
    · rename_i fresh
      rw [if_neg fresh] at *
      split at h
      · rename_i empty
        rw [List.isEmpty_iff.mp empty]
        split at h <;> cases h <;> simp [selected]
      · cases h
        exact S.laneDemand whole

/-- A running workload whose one stage takes two cores a unit and has three due units. -/
def laneSample : Store :=
  { Store.empty with
    workloads := ⟨[⟨⟨1, 1⟩, 0, 0, .running, .normal, some ⟨1, 2⟩, 1, 1, 0, 0, none⟩], by decide⟩
    revisions := ⟨[⟨⟨1, 2⟩, ⟨1, 1⟩, 0, 0, 0, ⟨0, 0, 0, 0, 0, 0, 4⟩, 8, 0, [], false, [], false,
      false, true, 0⟩], by decide⟩
    stages := ⟨[⟨⟨1, 3⟩, ⟨1, 2⟩, "map", 0, .map, .executor, "runner", .pure, .singleton, 8, "",
      ⟨1, 0, 0, []⟩, 60, ⟨2, 0, 0, 0, 0, 0⟩, true, 0, none, none, [], false, none⟩], by decide⟩
    units := ⟨[4, 5, 6].map (fun k => ⟨⟨1, k⟩, ⟨1, 2⟩, ⟨1, 3⟩, k, none, .pending, 0, 0, none, none,
      none, 0, none, none, none, 0, 0, none, none, false, 0, 0⟩), by decide⟩ }

/-- With four cores the store asks for two lanes. -/
example : ((LaneReader.run laneSample []).serviceLaneDemand 8 [("cpu", 4)] 9 [] []).1 = .ok 2 := by
  decide

theorem lane_demand_bounds_sample :
    (selected (laneProfiles laneSample 9) (fun _ => 2) : ℤ) ≤ 2 := by
  refine lane_demand_bounds laneSample [] 8 [("cpu", 4)] 9 [] [] 2 (by decide) (by decide)
    (fun _ => 2) ⟨?_, ?_, ?_, ?_⟩
  · decide
  · decide
  · decide
  · decide

end Metnos.Durable
