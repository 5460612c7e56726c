import Metnos.Durable.Outbox

/-!
# Durable.Delivery — a notification is sent at most once

`RowStep` lists what one store operation can do to one outbox row.  A row whose delivery was
started stays sealed against every other fence until the fence that started it releases it; from this
come both the alternation of starts and releases in the store, and, for the workers with their
provider calls, that a row is only called again after calls that were answered as not sent.
-/

namespace Metnos.Durable

open Transaction

/-! ## One row -/

/-- What the operation `op` does to the row `k`. -/
inductive RowStep (issued issued' : List Key) (k : Key) (op : OutboxOp) :
    Option OutboxRow → Option OutboxRow → Prop
  | same {r} : RowStep issued issued' k op r r
  | inserted {r} : k ∉ issued → k ∈ issued' → RowStep issued issued' k op none (some r)
  | coalesced {r r'} : r.state = .pending → r'.state = .pending → r'.fence = r.fence →
      RowStep issued issued' k op (some r) (some r')
  | leased {r r'} : r.state.terminal = false → r.deliveryStarted = false →
      r'.fence = r.fence + 1 → RowStep issued issued' k op (some r) (some r')
  | started {r r'} : r.state = .leased → r'.state = .leased → r'.fence = r.fence →
      r'.ack = some .started → RowStep issued issued' k op (some r) (some r')
  | finished {r r'} : r.state = .leased → r'.state.terminal = true → r'.fence = r.fence →
      RowStep issued issued' k op (some r) (some r')
  | released {r r' worker retryAt now} : op = .release k r.fence worker retryAt now →
      r.state = .leased → r'.state = .pending → r'.fence = r.fence →
      RowStep issued issued' k op (some r) (some r')
  | pruned {r} : r.state.terminal = true → RowStep issued issued' k op (some r) none

theorem casRow_ok {ob ob' : Outbox} {j : Key} {p : OutboxRow → Bool} {f : OutboxRow → OutboxRow}
    {hf : ∀ r, (f r).id = r.id} (h : casRow ob j p f hf = .ok ob') :
    ob'.issued = ob.issued ∧
    (∃ r, ob.rows.find? j = some r ∧ p r = true ∧ ob'.rows.find? j = some (f r)) ∧
    ∀ k, k ≠ j → ob'.rows.find? k = ob.rows.find? k := by
  unfold casRow at h
  split at h
  · rename_i rows hcas
    obtain ⟨r, hr, hp, rfl⟩ := Table.cas_some hcas
    simp only [Except.ok.injEq] at h
    subst h
    exact ⟨rfl, ⟨r, hr, hp, Table.find?_update_self hf hr⟩, fun k hk => Table.find?_update_ne hf hk⟩
  · cases h

theorem casRow_step {ob ob' : Outbox} {j : Key} {p : OutboxRow → Bool}
    {f : OutboxRow → OutboxRow} {hf : ∀ r, (f r).id = r.id} {op : OutboxOp}
    (h : casRow ob j p f hf = .ok ob')
    (hstep : ∀ r, p r = true → RowStep ob.issued ob'.issued j op (some r) (some (f r))) (k : Key) :
    RowStep ob.issued ob'.issued k op (ob.rows.find? k) (ob'.rows.find? k) := by
  obtain ⟨-, ⟨r, hr, hp, hr'⟩, hother⟩ := casRow_ok h
  by_cases hk : k = j
  · rw [hk, hr, hr']
    exact hstep r hp
  · rw [hother k hk]
    exact .same

theorem ownsDelivery_iff {worker fence : ℕ} {r : OutboxRow} :
    ownsDelivery worker fence r = true ↔
      r.state = .leased ∧ r.leaseWorkerId = some worker ∧ r.fence = fence := by
  simp [ownsDelivery, and_assoc]

/-! ## The batch of a claim -/

def claimedRow (worker expiry now : ℕ) (c : OutboxRow) : OutboxRow :=
  if c.deliveryStarted then c.finish .cancelled (.cancelled .deliveryAmbiguous) now
  else c.lease worker expiry now

def leasedRows (worker expiry now : ℕ) (candidates : List OutboxRow) : List OutboxRow :=
  (candidates.filter (fun c => !c.deliveryStarted)).map (OutboxRow.lease worker expiry now)

theorem outboxDue_not_terminal {now : ℕ} {r : OutboxRow} (h : outboxDue now r = true) :
    r.state.terminal = false := by
  unfold outboxDue at h
  cases hs : r.state <;> simp [hs, OutboxState.terminal] at h ⊢

theorem claimRow_ok {worker expiry now : ℕ} {records : List OutboxRow} {ob : Outbox}
    {c : OutboxRow} {acc : List OutboxRow × Outbox}
    (hc : ob.rows.find? c.id = some c) (hdue : outboxDue now c = true)
    (h : claimRow worker expiry now (records, ob) c = .ok acc) :
    acc.1 = records ++ leasedRows worker expiry now [c] ∧ acc.2.issued = ob.issued ∧
    acc.2.rows.find? c.id = some (claimedRow worker expiry now c) ∧
    ∀ k, k ≠ c.id → acc.2.rows.find? k = ob.rows.find? k := by
  unfold claimRow at h
  by_cases hs : c.deliveryStarted = true
  · simp only [hs, if_true, bind_eq_ok, pure_eq_ok] at h
    obtain ⟨ob', hcas, rfl⟩ := h
    obtain ⟨hissued, ⟨r, hr, -, hr'⟩, hother⟩ := casRow_ok hcas
    have hrc : r = c := Option.some.inj (hr.symm.trans hc)
    refine ⟨by simp [leasedRows, hs], hissued, ?_, hother⟩
    rw [hr', hrc]
    simp [claimedRow, hs]
  · simp only [hs, Bool.false_eq_true, if_false] at h
    split at h
    · rename_i ob' hcas
      simp only [Except.ok.injEq] at h
      subst h
      obtain ⟨hissued, ⟨r, hr, -, hr'⟩, hother⟩ := casRow_ok hcas
      have hrc : r = c := Option.some.inj (hr.symm.trans hc)
      rw [hrc] at hr'
      refine ⟨by simp [leasedRows, hs, hr'], hissued, ?_, hother⟩
      rw [hr']
      simp [claimedRow, hs]
    · -- the update matches: the row still is the candidate
      rename_i e hcas
      unfold casRow Table.cas at hcas
      simp [hc, hdue] at hcas

theorem claimRow_foldlM {worker expiry now : ℕ} {candidates : List OutboxRow} :
    ∀ {records : List OutboxRow} {ob : Outbox} {acc : List OutboxRow × Outbox},
      (candidates.map OutboxRow.id).Nodup →
      (∀ c ∈ candidates, ob.rows.find? c.id = some c ∧ outboxDue now c = true) →
      candidates.foldlM (claimRow worker expiry now) (records, ob) = .ok acc →
      acc.1 = records ++ leasedRows worker expiry now candidates ∧ acc.2.issued = ob.issued ∧
      (∀ c ∈ candidates, acc.2.rows.find? c.id = some (claimedRow worker expiry now c)) ∧
      ∀ k, k ∉ candidates.map OutboxRow.id → acc.2.rows.find? k = ob.rows.find? k := by
  induction candidates with
  | nil =>
    intro records ob acc _ _ h
    simp only [List.foldlM_nil, pure_eq_ok] at h
    subst h
    exact ⟨by simp [leasedRows], rfl, by simp, fun _ _ => rfl⟩
  | cons c rest ih =>
    intro records ob acc hnodup hall h
    simp only [List.foldlM_cons, bind_eq_ok] at h
    obtain ⟨mid, h1, h2⟩ := h
    rw [List.map_cons, List.nodup_cons] at hnodup
    obtain ⟨hc, hdue⟩ := hall c (List.mem_cons_self ..)
    obtain ⟨hrec, hiss, hrow, hother⟩ := claimRow_ok hc hdue h1
    have hrest : ∀ x ∈ rest, mid.2.rows.find? x.id = some x ∧ outboxDue now x = true := by
      intro x hx
      have hne : x.id ≠ c.id := fun heq => hnodup.1 (heq ▸ List.mem_map_of_mem hx)
      rw [hother _ hne]
      exact hall x (List.mem_cons_of_mem _ hx)
    obtain ⟨hrec', hiss', hrow', hother'⟩ := ih hnodup.2 hrest h2
    refine ⟨?_, hiss'.trans hiss, ?_, ?_⟩
    · rw [hrec', hrec, List.append_assoc]
      congr 1
      by_cases hs : c.deliveryStarted = true <;> simp [leasedRows, hs]
    · intro x hx
      rcases List.mem_cons.mp hx with rfl | hx
      · rw [hother' _ hnodup.1]
        exact hrow
      · exact hrow' x hx
    · intro k hk
      rw [List.map_cons, List.mem_cons, not_or] at hk
      rw [hother' k hk.2, hother k hk.1]

def outboxCandidates (ob : Outbox) (channel : OutboxChannel) (limit now : ℕ) : List OutboxRow :=
  ob.rows.select (fun r => decide (r.channel = channel) && outboxDue now r) outboxOrder limit

theorem nodup_outboxCandidates (ob : Outbox) (channel : OutboxChannel) (limit now : ℕ) :
    ((outboxCandidates ob channel limit now).map OutboxRow.id).Nodup := by
  unfold outboxCandidates Table.select
  refine List.Nodup.sublist ((List.take_sublist _ _).map _) ?_
  rw [((List.perm_insertionSort _ _).map _).nodup_iff]
  exact ob.rows.nodup.sublist (List.filter_sublist.map _)

theorem outboxCandidates_due {ob : Outbox} {channel : OutboxChannel} {limit now : ℕ}
    {c : OutboxRow} (h : c ∈ outboxCandidates ob channel limit now) :
    ob.rows.find? c.id = some c ∧ outboxDue now c = true := by
  obtain ⟨hmem, hp⟩ := Table.mem_select h
  rw [Bool.and_eq_true] at hp
  exact ⟨Table.find?_of_mem hmem, hp.2⟩

theorem claimOutbox_ok {ob ob' : Outbox} {channel : OutboxChannel}
    {worker limit duration now : ℕ} {records : List OutboxRow}
    (h : claimOutbox ob channel worker limit duration now = .ok (records, ob')) :
    records = leasedRows worker (now + duration) now (outboxCandidates ob channel limit now) ∧
    ob'.issued = ob.issued ∧
    (∀ c ∈ outboxCandidates ob channel limit now,
      ob'.rows.find? c.id = some (claimedRow worker (now + duration) now c)) ∧
    ∀ k, k ∉ (outboxCandidates ob channel limit now).map OutboxRow.id →
      ob'.rows.find? k = ob.rows.find? k := by
  unfold claimOutbox at h
  split at h
  · cases h
  · obtain ⟨hrec, hrest⟩ := claimRow_foldlM (nodup_outboxCandidates ob channel limit now)
      (fun c hc => outboxCandidates_due hc) h
    exact ⟨by simpa using hrec, hrest⟩

theorem claimOutbox_step {ob ob' : Outbox} {channel : OutboxChannel}
    {worker limit duration now : ℕ} {records : List OutboxRow} {op : OutboxOp}
    (h : claimOutbox ob channel worker limit duration now = .ok (records, ob')) (k : Key) :
    RowStep ob.issued ob'.issued k op (ob.rows.find? k) (ob'.rows.find? k) := by
  obtain ⟨-, -, hrow, hother⟩ := claimOutbox_ok h
  by_cases hk : k ∈ (outboxCandidates ob channel limit now).map OutboxRow.id
  · obtain ⟨c, hc, rfl⟩ := List.mem_map.mp hk
    obtain ⟨hfind, hdue⟩ := outboxCandidates_due hc
    rw [hfind, hrow c hc]
    unfold claimedRow
    by_cases hs : c.deliveryStarted = true
    · rw [if_pos hs]
      have hl : c.state = .leased := by
        simp only [OutboxRow.deliveryStarted, Bool.and_eq_true, decide_eq_true_eq] at hs
        exact hs.1
      exact .finished hl rfl rfl
    · rw [if_neg hs]
      exact .leased (outboxDue_not_terminal hdue) (by simpa using hs) rfl
  · rw [hother k hk]
    exact .same

/-! ## One operation -/

theorem enqueueOutbox_step {ob ob' : Outbox} {id : Key} {n : Notification} {now : ℕ}
    {op : OutboxOp} (h : enqueueOutbox ob id n now = .ok ob') (k : Key) :
    RowStep ob.issued ob'.issued k op (ob.rows.find? k) (ob'.rows.find? k) := by
  unfold enqueueOutbox at h
  dsimp only at h
  split at h
  · split at h
    · cases h
    · refine casRow_step h (fun r hr => ?_) k
      have hp : r.state = .pending := by simpa using hr
      exact .coalesced hp hp rfl
  · split at h
    · cases h
    · rename_i hfree
      split at h
      · rename_i rows hins
        simp only [Except.ok.injEq] at h
        subst h
        have hfresh : id ∉ ob.issued := fun hmem => hfree (by simp [hmem])
        by_cases hk : k = id
        · subst hk
          have hrow := (Table.insert?_some hins).1
          rw [show ob.rows.find? k = none from hrow]
          rw [show rows.find? k = some (makeOutboxRow k n now) from Table.find?_insert?_self hins]
          exact .inserted hfresh (List.mem_cons_self ..)
        · rw [show rows.find? k = ob.rows.find? k from Table.find?_insert?_ne hins hk]
          exact .same
      · cases h

theorem pruneOutbox_step (ob : Outbox) (cutoff limit : ℕ) (op : OutboxOp) (k : Key) :
    RowStep ob.issued ob.issued k op (ob.rows.find? k) ((pruneOutbox ob cutoff limit).rows.find? k) := by
  cases hr : ob.rows.find? k with
  | none =>
    have hnone : (pruneOutbox ob cutoff limit).rows.find? k = none := by
      rw [Table.find?_eq_none] at hr ⊢
      intro r hmem
      exact hr r (List.mem_filter.mp hmem).1
    rw [hnone]
    exact .same
  | some r =>
    cases hr' : (pruneOutbox ob cutoff limit).rows.find? k with
    | some r' =>
      have hmem : r' ∈ ob.rows.rows := (List.mem_filter.mp (Table.mem_of_find? hr')).1
      have hfind : ob.rows.find? k = some r' := Table.key_of_find? hr' ▸ Table.find?_of_mem hmem
      rw [← hr, hfind]
      exact .same
    | none =>
      refine .pruned ?_
      -- the row is among the old ones, which are terminal
      by_contra hterm
      rw [Table.find?_eq_none] at hr'
      refine hr' r (List.mem_filter.mpr ⟨Table.mem_of_find? hr, ?_⟩) (Table.key_of_find? hr)
      simp only [Bool.not_eq_true', List.contains_eq_mem, decide_eq_false_iff_not, List.mem_map,
        not_exists, not_and]
      intro x hx hid
      obtain ⟨hmem, hp⟩ := Table.mem_select hx
      have hxr : x = r := List.inj_on_of_nodup_map ob.rows.nodup hmem (Table.mem_of_find? hr) hid
      rw [hxr, Bool.and_eq_true] at hp
      exact hterm hp.1

theorem transact_row {ob ob' : Outbox} {op : OutboxOp} (h : ob.transact op = .ok ob') (k : Key) :
    RowStep ob.issued ob'.issued k op (ob.rows.find? k) (ob'.rows.find? k) := by
  cases op with
  | enqueue id n now => exact enqueueOutbox_step h k
  | claim channel worker limit duration now =>
    simp only [Outbox.transact, bind_eq_ok, pure_eq_ok] at h
    obtain ⟨⟨records, ob₁⟩, hclaim, rfl⟩ := h
    exact claimOutbox_step hclaim k
  | markDeliveryStarted id fence worker now =>
    refine casRow_step h (fun r hr => ?_) k
    rw [Bool.and_eq_true, ownsDelivery_iff] at hr
    exact .started hr.1.1 hr.1.1 rfl rfl
  | confirm id fence worker ack now =>
    refine casRow_step h (fun r hr => ?_) k
    exact .finished (ownsDelivery_iff.mp hr).1 rfl rfl
  | release id fence worker retryAt now =>
    simp only [Outbox.transact, releaseOutbox] at h
    split at h
    · cases h
    · split at h
      · cases h
      · refine casRow_step h (fun r hr => ?_) k
        obtain ⟨hl, -, hf⟩ := ownsDelivery_iff.mp hr
        exact .released (by rw [hf]) hl rfl rfl
  | cancel id fence worker reason now =>
    refine casRow_step h (fun r hr => ?_) k
    exact .finished (ownsDelivery_iff.mp hr).1 rfl rfl
  | prune cutoff limit =>
    simp only [Outbox.transact, Except.ok.injEq] at h
    exact h ▸ pruneOutbox_step ob cutoff limit _ k

theorem transact_issued {ob ob' : Outbox} {op : OutboxOp} (h : ob.transact op = .ok ob') {k : Key}
    (hk : k ∈ ob.issued) : k ∈ ob'.issued := by
  cases op with
  | enqueue id n now =>
    simp only [Outbox.transact, enqueueOutbox] at h
    split at h
    · split at h
      · cases h
      · exact (casRow_ok h).1 ▸ hk
    · split at h
      · cases h
      · split at h
        · simp only [Except.ok.injEq] at h
          subst h
          exact List.mem_cons_of_mem _ hk
        · cases h
  | claim channel worker limit duration now =>
    simp only [Outbox.transact, bind_eq_ok, pure_eq_ok] at h
    obtain ⟨⟨records, ob₁⟩, hclaim, rfl⟩ := h
    exact (claimOutbox_ok hclaim).2.1 ▸ hk
  | markDeliveryStarted id fence worker now => exact (casRow_ok h).1 ▸ hk
  | confirm id fence worker ack now => exact (casRow_ok h).1 ▸ hk
  | release id fence worker retryAt now =>
    simp only [Outbox.transact, releaseOutbox] at h
    split at h
    · cases h
    · split at h
      · cases h
      · exact (casRow_ok h).1 ▸ hk
  | cancel id fence worker reason now => exact (casRow_ok h).1 ▸ hk
  | prune cutoff limit =>
    simp only [Outbox.transact, Except.ok.injEq] at h
    exact h ▸ hk

/-! ## Sealed rows -/

def Issued (ob : Outbox) : Prop := ∀ k r, ob.rows.find? k = some r → k ∈ ob.issued

theorem transact_covers {ob ob' : Outbox} {op : OutboxOp} (h : ob.transact op = .ok ob')
    (I : Issued ob) : Issued ob' := by
  intro k r hr
  have hrow := transact_row h k
  rw [hr] at hrow
  cases hold : ob.rows.find? k with
  | some r₀ => exact transact_issued h (I k r₀ hold)
  | none =>
    rw [hold] at hrow
    cases hrow with
    | inserted _ hnew => exact hnew

/-- The provider may have been called for the row `k` under the fence `f`: unless that fence
releases the row, it is never leased again. -/
structure Sealed (ob : Outbox) (k : Key) (f : ℕ) : Prop where
  issued : k ∈ ob.issued
  row : ∀ r, ob.rows.find? k = some r →
    r.state.terminal = true ∨ (r.state = .leased ∧ r.fence = f ∧ r.ack = some .started)

theorem Sealed.transact {ob ob' : Outbox} {op : OutboxOp} {k : Key} {f : ℕ}
    (C : Sealed ob k f) (h : ob.transact op = .ok ob')
    (hop : ∀ worker retryAt now, op ≠ .release k f worker retryAt now) : Sealed ob' k f := by
  refine ⟨transact_issued h C.issued, fun r' hr' => ?_⟩
  have hrow := transact_row h k
  cases hold : ob.rows.find? k with
  | none =>
    rw [hold, hr'] at hrow
    cases hrow with
    | inserted hfresh _ => exact absurd C.issued hfresh
  | some r =>
    have hr := C.row r hold
    rw [hold, hr'] at hrow
    cases hrow with
    | same => exact hr
    | coalesced hp => simp [hp, OutboxState.terminal] at hr
    | leased ht hs =>
      rcases hr with hterm | ⟨hl, -, hack⟩
      · simp [ht] at hterm
      · simp [OutboxRow.deliveryStarted, hl, hack] at hs
    | started hl hl' hf hack =>
      rcases hr with hterm | ⟨-, hfence, -⟩
      · simp [hl, OutboxState.terminal] at hterm
      · exact .inr ⟨hl', hf.trans hfence, hack⟩
    | finished _ ht => exact .inl ht
    | released heq hl =>
      rcases hr with hterm | ⟨-, hfence, -⟩
      · simp [hl, OutboxState.terminal] at hterm
      · exact absurd (hfence ▸ heq) (hop _ _ _)

theorem sealed_of_mark {ob ob' : Outbox} {k : Key} {f worker now : ℕ} (I : Issued ob)
    (h : ob.transact (.markDeliveryStarted k f worker now) = .ok ob') : Sealed ob' k f := by
  obtain ⟨hissued, ⟨r, hr, hp, hr'⟩, -⟩ := casRow_ok h
  rw [Bool.and_eq_true, ownsDelivery_iff] at hp
  refine ⟨hissued ▸ I k r hr, fun x hx => .inr ?_⟩
  rw [hr', Option.some.injEq] at hx
  subst hx
  exact ⟨hp.1.1, hp.1.2.2, rfl⟩

theorem Sealed.fence_eq {ob ob' : Outbox} {k : Key} {f g worker now : ℕ} (C : Sealed ob k f)
    (h : ob.transact (.markDeliveryStarted k g worker now) = .ok ob') : g = f := by
  obtain ⟨-, ⟨r, hr, hp, -⟩, -⟩ := casRow_ok h
  rw [Bool.and_eq_true, ownsDelivery_iff] at hp
  rcases C.row r hr with hterm | ⟨-, hfence, -⟩
  · simp [hp.1.1, OutboxState.terminal] at hterm
  · exact hp.1.2.2.symm.trans hfence

/-! ## Runs of the store -/

theorem issued_run (ops : List OutboxOp) : Issued (outboxRun ops) :=
  run_preserves (fun h I => transact_covers h I) (fun k r hr => by cases hr)

/-- The operation `o` succeeds after the operations `ops`. -/
def Succeeds (ops : List OutboxOp) (o : OutboxOp) : Prop :=
  ∃ ob, (outboxRun ops).transact o = .ok ob

theorem outboxRun_concat (ops : List OutboxOp) (o : OutboxOp) :
    outboxRun (ops ++ [o]) = commit Outbox.transact (outboxRun ops) o := by
  simp [outboxRun, run_append]

theorem sealed_or_released {k : Key} {f : ℕ} {ops₁ : List OutboxOp} (ops₂ : List OutboxOp)
    (C : Sealed (outboxRun ops₁) k f) :
    Sealed (outboxRun (ops₁ ++ ops₂)) k f ∨
    ∃ pre worker retryAt now post, ops₂ = pre ++ .release k f worker retryAt now :: post ∧
      Succeeds (ops₁ ++ pre) (.release k f worker retryAt now) := by
  induction ops₂ generalizing ops₁ with
  | nil => exact .inl (by simpa using C)
  | cons o rest ih =>
    have hstep : Sealed (outboxRun (ops₁ ++ [o])) k f ∨
        ∃ worker retryAt now, o = .release k f worker retryAt now ∧ Succeeds ops₁ o := by
      rw [outboxRun_concat, commit]
      cases h : (outboxRun ops₁).transact o with
      | error e => exact .inl C
      | ok ob =>
        by_cases hop : ∃ worker retryAt now, o = .release k f worker retryAt now
        · obtain ⟨w, t, n, heq⟩ := hop
          exact .inr ⟨w, t, n, heq, ob, h⟩
        · exact .inl (C.transact h (fun w t n heq => hop ⟨w, t, n, heq⟩))
    rcases hstep with hC | ⟨w, t, n, rfl, hs⟩
    · rcases ih hC with hc | ⟨pre, w, t, n, post, heq, hs⟩
      · exact .inl (by simpa using hc)
      · exact .inr ⟨o :: pre, w, t, n, post, by simp [heq], by simpa using hs⟩
    · exact .inr ⟨[], w, t, n, rest, rfl, by simpa using hs⟩

theorem release_between_starts {ops₁ ops₂ : List OutboxOp} {k : Key}
    {f g worker worker' now now' : ℕ}
    (h₁ : Succeeds ops₁ (.markDeliveryStarted k f worker now))
    (h₂ : Succeeds (ops₁ ++ .markDeliveryStarted k f worker now :: ops₂)
      (.markDeliveryStarted k g worker' now')) (hfg : f ≠ g) :
    ∃ pre worker'' retryAt now'' post,
      ops₂ = pre ++ .release k f worker'' retryAt now'' :: post ∧
      Succeeds (ops₁ ++ .markDeliveryStarted k f worker now :: pre)
        (.release k f worker'' retryAt now'') := by
  obtain ⟨ob, h⟩ := h₁
  have C : Sealed (outboxRun (ops₁ ++ [.markDeliveryStarted k f worker now])) k f := by
    rw [outboxRun_concat, commit, h]
    exact sealed_of_mark (issued_run ops₁) h
  rcases sealed_or_released ops₂ C with hc | ⟨pre, w, t, n, post, heq, hs⟩
  · obtain ⟨ob', h'⟩ := h₂
    rw [List.append_assoc, List.singleton_append] at hc
    exact absurd (hc.fence_eq h').symm hfg
  · exact ⟨pre, w, t, n, post, heq, by simpa using hs⟩

/-- The row `k` has been in the state `st`, and is in no other. -/
structure Rests (ob : Outbox) (k : Key) (st : OutboxState) : Prop where
  issued : k ∈ ob.issued
  row : ∀ r, ob.rows.find? k = some r → r.state = st

theorem Rests.transact {ob ob' : Outbox} {op : OutboxOp} {k : Key} {st : OutboxState}
    (R : Rests ob k st) (hst : st.terminal = true) (h : ob.transact op = .ok ob') :
    Rests ob' k st := by
  refine ⟨transact_issued h R.issued, fun r' hr' => ?_⟩
  have hrow := transact_row h k
  cases hold : ob.rows.find? k with
  | none =>
    rw [hold, hr'] at hrow
    cases hrow with
    | inserted hfresh _ => exact absurd R.issued hfresh
  | some r =>
    have hr := R.row r hold
    rw [← hr] at hst ⊢
    rw [hold, hr'] at hrow
    cases hrow with
    | same => rfl
    | coalesced hp => simp [hp, OutboxState.terminal] at hst
    | leased ht => simp [ht] at hst
    | started hl => simp [hl, OutboxState.terminal] at hst
    | finished hl => simp [hl, OutboxState.terminal] at hst
    | released _ hl => simp [hl, OutboxState.terminal] at hst

theorem terminal_run {ops₁ : List OutboxOp} (ops₂ : List OutboxOp) {k : Key} {r r' : OutboxRow}
    (hr : (outboxRun ops₁).rows.find? k = some r) (hst : r.state.terminal = true)
    (hr' : (outboxRun (ops₁ ++ ops₂)).rows.find? k = some r') : r'.state = r.state := by
  have start : Rests (outboxRun ops₁) k r.state := by
    refine ⟨issued_run ops₁ k r hr, fun x hx => ?_⟩
    rw [hr, Option.some.injEq] at hx
    rw [hx]
  have hend : Rests (run Outbox.transact (outboxRun ops₁) ops₂) k r.state :=
    run_preserves (I := fun ob => Rests ob k r.state) (fun h R => R.transact hst h) start
  rw [outboxRun, run_append] at hr'
  exact hend.row r' hr'

/-- The row `k` has been issued under the fence `f`, or under a later one. -/
structure Known (ob : Outbox) (k : Key) (f : ℕ) : Prop where
  issued : k ∈ ob.issued
  fence : ∀ r, ob.rows.find? k = some r → f ≤ r.fence

theorem Known.transact {ob ob' : Outbox} {op : OutboxOp} {k : Key} {f : ℕ} (K : Known ob k f)
    (h : ob.transact op = .ok ob') : Known ob' k f := by
  refine ⟨transact_issued h K.issued, fun r' hr' => ?_⟩
  have hrow := transact_row h k
  cases hold : ob.rows.find? k with
  | none =>
    rw [hold, hr'] at hrow
    cases hrow with
    | inserted hfresh _ => exact absurd K.issued hfresh
  | some r =>
    have hr := K.fence r hold
    rw [hold, hr'] at hrow
    cases hrow with
    | same => exact hr
    | coalesced _ _ hf => exact hf ▸ hr
    | leased _ _ hf => exact hf ▸ Nat.le_succ_of_le hr
    | started _ _ hf => exact hf ▸ hr
    | finished _ _ hf => exact hf ▸ hr
    | released _ _ _ hf => exact hf ▸ hr

end Metnos.Durable
