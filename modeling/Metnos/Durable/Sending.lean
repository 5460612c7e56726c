import Metnos.Durable.Delivery
import Metnos.Lib.Count

/-!
# Durable.Sending — the workers and their provider calls

The invariant of the delivery system: every lease in flight has a token (row and fence) of its
own, a token under which the provider may have been called keeps its row sealed, and no two such
tokens share a row.
-/

namespace Metnos.Durable

open Transaction

/-! ## Tokens -/

def OutboxDelivery.token (d : OutboxDelivery) : Key × ℕ := (d.record.id, d.record.fence)

def ProviderCall.token (c : ProviderCall) : Key × ℕ := (c.row, c.fence)

/-- The provider has been called, or may be at any moment, and not in vain. -/
def Hot (S : DeliverySystem) (t : Key × ℕ) : Prop :=
  (∃ d ∈ S.deliveries, d.token = t ∧ d.stage ≠ .claimed) ∨
  ∃ c ∈ S.calls, c.token = t ∧ c.outcome.disposition ≠ .retry

/-- A token that a delivery or a call carries. -/
def Handed (S : DeliverySystem) (t : Key × ℕ) : Prop :=
  (∃ d ∈ S.deliveries, d.token = t) ∨ ∃ c ∈ S.calls, c.token = t

structure Delivering (S : DeliverySystem) : Prop where
  issued : Issued S.outbox
  known : ∀ t, Handed S t → Known S.outbox t.1 t.2
  nodup : (S.deliveries.map OutboxDelivery.token).Nodup
  /-- A delivery whose token was called with has its answer. -/
  answered : ∀ d ∈ S.deliveries, ∀ c ∈ S.calls, c.token = d.token → d.stage = .answered c.outcome
  sealed : ∀ t, Hot S t → Sealed S.outbox t.1 t.2
  single : ∀ t u, Hot S t → Hot S u → t.1 = u.1 → t = u
  ordered : S.calls.Pairwise (fun c c' => c.row = c'.row → c.outcome.disposition = .retry)

theorem delivering_empty : Delivering .empty where
  issued k r hr := by cases hr
  known := by rintro t (⟨d, hd, -⟩ | ⟨c, hc, -⟩); cases hd; cases hc
  nodup := List.nodup_nil
  answered d hd := by cases hd
  sealed := by rintro t (⟨d, hd, -⟩ | ⟨c, hc, -⟩); cases hd; cases hc
  single := by rintro t u (⟨d, hd, -⟩ | ⟨c, hc, -⟩); cases hd; cases hc
  ordered := List.Pairwise.nil

section
variable {S : DeliverySystem} {i : ℕ} {d : OutboxDelivery}

/-! ## Workers that are gone -/

theorem Hot.drop {t : Key × ℕ} (h : Hot (S.drop i) t) : Hot S t := by
  rcases h with ⟨d, hd, h⟩ | h
  · exact .inl ⟨d, List.mem_of_mem_eraseIdx hd, h⟩
  · exact .inr h

theorem Delivering.drop (D : Delivering S) : Delivering (S.drop i) where
  issued := D.issued
  known := by
    rintro t (⟨d, hd, rfl⟩ | ⟨c, hc, rfl⟩)
    · exact D.known _ (.inl ⟨d, List.mem_of_mem_eraseIdx hd, rfl⟩)
    · exact D.known _ (.inr ⟨c, hc, rfl⟩)
  nodup := D.nodup.sublist ((List.eraseIdx_sublist _ _).map _)
  answered d hd c hc := D.answered d (List.mem_of_mem_eraseIdx hd) c hc
  sealed t ht := D.sealed t ht.drop
  single t u ht hu := D.single t u ht.drop hu.drop
  ordered := D.ordered

theorem Delivering.gone (D : Delivering S) (hd : S.deliveries[i]? = some d) {d' : OutboxDelivery}
    (h : d' ∈ (S.drop i).deliveries) : d'.token ≠ d.token := by
  obtain ⟨j, hj, hj'⟩ := List.mem_eraseIdx_iff_getElem?.mp h
  exact Count.key_ne_of_getElem? D.nodup hd hj' hj

theorem Delivering.cold (D : Delivering S) (hd : S.deliveries[i]? = some d)
    (hstage : ∀ outcome, d.stage = .answered outcome → outcome.disposition = .retry) :
    ¬ Hot (S.drop i) d.token := by
  rintro (⟨d', hd', htok, -⟩ | ⟨c, hc, htok, hne⟩)
  · exact D.gone hd hd' htok
  · exact hne (hstage c.outcome (D.answered d (List.mem_of_getElem? hd) c hc htok))

/-! ## Store operations -/

theorem Delivering.transact (D : Delivering S) {ob : Outbox} {op : OutboxOp}
    (h : S.outbox.transact op = .ok ob)
    (hop : ∀ k f worker retryAt now, op = .release k f worker retryAt now → ¬ Hot S (k, f)) :
    Delivering { S with outbox := ob } where
  issued := transact_covers h D.issued
  known t ht := (D.known t ht).transact h
  nodup := D.nodup
  answered := D.answered
  sealed t ht := (D.sealed t ht).transact h (fun w r n heq => hop t.1 t.2 w r n heq ht)
  single := D.single
  ordered := D.ordered

theorem Delivering.store (D : Delivering S) {op : OutboxOp}
    (hop : ∀ k f worker retryAt now, op = .release k f worker retryAt now → ¬ Hot S (k, f)) :
    Delivering (S.store op) := by
  unfold DeliverySystem.store commit
  cases h : S.outbox.transact op with
  | error e => exact D
  | ok ob => exact D.transact h hop

theorem retryOp_release {a : Adapter} {k : Key} {f worker retryAt now : ℕ}
    (h : d.retryOp a = .release k f worker retryAt now) : (k, f) = d.token := by
  unfold OutboxDelivery.retryOp at h
  split at h
  · cases h
  · cases h
    rfl

theorem Delivering.giveUp (D : Delivering S) (hd : S.deliveries[i]? = some d) {op : OutboxOp}
    (hop : ∀ k f worker retryAt now, op = .release k f worker retryAt now →
      (k, f) = d.token ∧ ∀ outcome, d.stage = .answered outcome → outcome.disposition = .retry) :
    Delivering ((S.store op).drop i) := by
  change Delivering ((S.drop i).store op)
  refine D.drop.store fun k f w r n heq => ?_
  obtain ⟨htok, hstage⟩ := hop k f w r n heq
  rw [htok]
  exact D.cold hd hstage

/-! ## A claim -/

theorem mem_leasedRows {worker expiry now : ℕ} {candidates : List OutboxRow} {r : OutboxRow}
    (h : r ∈ leasedRows worker expiry now candidates) :
    ∃ c ∈ candidates, c.deliveryStarted = false ∧ r = c.lease worker expiry now := by
  obtain ⟨c, hc, rfl⟩ := List.mem_map.mp h
  obtain ⟨hmem, hs⟩ := List.mem_filter.mp hc
  exact ⟨c, hmem, by simpa using hs, rfl⟩

theorem leased_fresh (D : Delivering S) {ob : Outbox} {worker limit duration now : ℕ}
    {records : List OutboxRow} {r : OutboxRow}
    (h : claimOutbox S.outbox .telegram worker limit duration now = .ok (records, ob))
    (hr : r ∈ records) :
    (∃ r₀, S.outbox.rows.find? r.id = some r₀ ∧ r₀.state.terminal = false ∧
      r₀.deliveryStarted = false ∧ r.fence = r₀.fence + 1) ∧
    ob.rows.find? r.id = some r ∧ ¬ Handed S (r.id, r.fence) := by
  obtain ⟨hrec, -, hrow, -⟩ := claimOutbox_ok h
  rw [hrec] at hr
  obtain ⟨c, hc, hs, rfl⟩ := mem_leasedRows hr
  obtain ⟨hfind, hdue⟩ := outboxCandidates_due hc
  refine ⟨⟨c, hfind, outboxDue_not_terminal hdue, hs, rfl⟩, ?_, fun ht => ?_⟩
  · have hrow' := hrow c hc
    rw [claimedRow, if_neg (by simp [hs])] at hrow'
    exact hrow'
  · have hle : c.fence + 1 ≤ c.fence := (D.known _ ht).fence c hfind
    omega

theorem nodup_leasedRows {worker expiry now : ℕ} {candidates : List OutboxRow}
    (h : (candidates.map OutboxRow.id).Nodup) :
    ((leasedRows worker expiry now candidates).map OutboxRow.id).Nodup := by
  unfold leasedRows
  rw [List.map_map]
  exact h.sublist (List.filter_sublist.map _)

theorem Delivering.claim (D : Delivering S) {ob : Outbox} {worker limit duration now : ℕ}
    {records : List OutboxRow}
    (h : claimOutbox S.outbox .telegram worker limit duration now = .ok (records, ob)) :
    Delivering { S with
      outbox := ob
      deliveries := S.deliveries ++ records.map (fun r => ⟨r, worker, now, .claimed⟩) } := by
  have hop : S.outbox.transact (.claim .telegram worker limit duration now) = .ok ob := by
    simp only [Outbox.transact, h]
    rfl
  have D' : Delivering { S with outbox := ob } := D.transact hop (fun k f w r n heq => by cases heq)
  have fresh := fun r hr => leased_fresh D (r := r) h hr
  have hot : ∀ t, Hot { S with
      outbox := ob
      deliveries := S.deliveries ++ records.map (fun r => ⟨r, worker, now, .claimed⟩) } t →
      Hot { S with outbox := ob } t := by
    rintro t (⟨d, hd, htok, hstage⟩ | hcall)
    · rcases List.mem_append.mp hd with hd | hd
      · exact .inl ⟨d, hd, htok, hstage⟩
      · obtain ⟨r, -, rfl⟩ := List.mem_map.mp hd
        exact absurd rfl hstage
    · exact .inr hcall
  refine ⟨D'.issued, ?_, ?_, ?_, fun t ht => D'.sealed t (hot t ht),
    fun t u ht hu => D'.single t u (hot t ht) (hot u hu), D'.ordered⟩
  · rintro t (⟨d, hd, rfl⟩ | hcall)
    · rcases List.mem_append.mp hd with hd | hd
      · exact D'.known _ (.inl ⟨d, hd, rfl⟩)
      · obtain ⟨r, hr, rfl⟩ := List.mem_map.mp hd
        obtain ⟨-, hrow, -⟩ := fresh r hr
        refine ⟨D'.issued r.id r hrow, fun x hx => ?_⟩
        have hxr : r = x := Option.some.inj (hrow.symm.trans hx)
        rw [← hxr]
        exact Nat.le_refl r.fence
    · exact D'.known t (.inr hcall)
  · rw [List.map_append, List.nodup_append]
    refine ⟨D'.nodup, ?_, ?_⟩
    · rw [List.map_map]
      refine List.Nodup.of_map Prod.fst ?_
      rw [List.map_map, (claimOutbox_ok h).1]
      exact nodup_leasedRows (nodup_outboxCandidates ..)
    · rintro t ht u hu rfl
      obtain ⟨d, hd, rfl⟩ := List.mem_map.mp ht
      obtain ⟨d', hd', htok⟩ := List.mem_map.mp hu
      obtain ⟨r, hr, rfl⟩ := List.mem_map.mp hd'
      exact (fresh r hr).2.2 (.inl ⟨d, hd, htok.symm⟩)
  · intro d hd c hc htok
    rcases List.mem_append.mp hd with hd | hd
    · exact D'.answered d hd c hc htok
    · obtain ⟨r, hr, rfl⟩ := List.mem_map.mp hd
      exact absurd (.inr ⟨c, hc, htok⟩) (fresh r hr).2.2

/-! ## The start of a delivery, and the call -/

theorem mem_setStage {stage : DeliveryStage} {d' : OutboxDelivery} (D : Delivering S)
    (hd : S.deliveries[i]? = some d) (h : d' ∈ (S.setStage i stage).deliveries) :
    d' = { d with stage := stage } ∨ (d' ∈ S.deliveries ∧ d'.token ≠ d.token) := by
  rcases Count.mem_modify hd h with heq | ⟨j, hj, hj'⟩
  · exact .inl heq
  · exact .inr ⟨List.mem_of_getElem? hj', Count.key_ne_of_getElem? D.nodup hd hj' hj⟩

theorem map_token_setStage (S : DeliverySystem) (i : ℕ) (stage : DeliveryStage) :
    (S.setStage i stage).deliveries.map OutboxDelivery.token =
      S.deliveries.map OutboxDelivery.token := by
  refine List.ext_getElem? fun j => ?_
  simp only [DeliverySystem.setStage, List.getElem?_map, List.getElem?_modify]
  cases S.deliveries[j]? with
  | none => rfl
  | some d => split <;> rfl

theorem Delivering.mark (D : Delivering S) (hd : S.deliveries[i]? = some d)
    (hstage : d.stage = .claimed) {ob : Outbox}
    (h : S.outbox.transact (DeliverySystem.markOp d) = .ok ob) :
    Delivering (({ S with outbox := ob }).setStage i .started) := by
  have hmem := List.mem_of_getElem? hd
  have D' : Delivering { S with outbox := ob } := D.transact h (fun k f w r n heq => by cases heq)
  have hot : ∀ t, Hot (({ S with outbox := ob }).setStage i .started) t → t = d.token ∨ Hot S t := by
    rintro t (⟨d', hd', htok, hne⟩ | hcall)
    · rcases mem_setStage D' hd hd' with rfl | ⟨hd', -⟩
      · exact .inl htok.symm
      · exact .inr (.inl ⟨d', hd', htok, hne⟩)
    · exact .inr (.inr hcall)
  -- a hot token of the row is the delivery's own
  have same : ∀ t, Hot (({ S with outbox := ob }).setStage i .started) t → t.1 = d.record.id →
      t = d.token := by
    intro t ht hrow
    rcases hot t ht with heq | hold
    · exact heq
    · have C := D.sealed t hold
      rw [hrow] at C
      exact Prod.ext hrow (C.fence_eq h).symm
  refine ⟨D'.issued, ?_, ?_, ?_, ?_, ?_, D'.ordered⟩
  · rintro t (⟨d', hd', rfl⟩ | hcall)
    · rcases mem_setStage D' hd hd' with rfl | ⟨hd', -⟩
      · exact D'.known d.token (.inl ⟨d, hmem, rfl⟩)
      · exact D'.known _ (.inl ⟨d', hd', rfl⟩)
    · exact D'.known t (.inr hcall)
  · rw [map_token_setStage]
    exact D'.nodup
  · intro d' hd' c hc htok
    rcases mem_setStage D' hd hd' with rfl | ⟨hd', -⟩
    · have hans := D.answered d hmem c hc htok
      rw [hstage] at hans
      cases hans
    · exact D'.answered d' hd' c hc htok
  · intro t ht
    rcases hot t ht with rfl | hold
    · exact sealed_of_mark D.issued h
    · exact D'.sealed t hold
  · intro t u ht hu htu
    rcases hot t ht with rfl | hold
    · exact (same u hu htu.symm).symm
    · rcases hot u hu with rfl | hold'
      · exact same t ht htu
      · exact D.single t u hold hold' htu

theorem Delivering.send (D : Delivering S) (hd : S.deliveries[i]? = some d)
    (hstage : d.stage = .started) (outcome : ProviderOutcome) :
    Delivering { S.setStage i (.answered outcome) with
      calls := S.calls ++ [⟨d.record.id, d.record.fence, outcome⟩] } := by
  have hmem := List.mem_of_getElem? hd
  have hhot : Hot S d.token := .inl ⟨d, hmem, rfl, by rw [hstage]; simp⟩
  have quiet : ∀ c ∈ S.calls, c.token ≠ d.token := by
    intro c hc htok
    have hans := D.answered d hmem c hc htok
    rw [hstage] at hans
    cases hans
  have hot : ∀ t, Hot { S.setStage i (.answered outcome) with
      calls := S.calls ++ [⟨d.record.id, d.record.fence, outcome⟩] } t → Hot S t := by
    rintro t (⟨d', hd', htok, hne⟩ | ⟨c, hc, htok, hne⟩)
    · rcases mem_setStage D hd hd' with rfl | ⟨hd', -⟩
      · exact htok ▸ hhot
      · exact .inl ⟨d', hd', htok, hne⟩
    · rcases List.mem_append.mp hc with hc | hc
      · exact .inr ⟨c, hc, htok, hne⟩
      · rw [List.mem_singleton] at hc
        subst hc
        exact htok ▸ hhot
  refine ⟨D.issued, ?_, ?_, ?_, fun t ht => D.sealed t (hot t ht),
    fun t u ht hu => D.single t u (hot t ht) (hot u hu), ?_⟩
  · rintro t (⟨d', hd', rfl⟩ | ⟨c, hc, rfl⟩)
    · rcases mem_setStage D hd hd' with rfl | ⟨hd', -⟩
      · exact D.known d.token (.inl ⟨d, hmem, rfl⟩)
      · exact D.known _ (.inl ⟨d', hd', rfl⟩)
    · rcases List.mem_append.mp hc with hc | hc
      · exact D.known _ (.inr ⟨c, hc, rfl⟩)
      · rw [List.mem_singleton] at hc
        subst hc
        exact D.known d.token (.inl ⟨d, hmem, rfl⟩)
  · exact (map_token_setStage S i (.answered outcome)) ▸ D.nodup
  · intro d' hd' c hc htok
    rcases mem_setStage D hd hd' with rfl | ⟨hd', hne⟩
    · rcases List.mem_append.mp hc with hc | hc
      · exact absurd htok (quiet c hc)
      · rw [List.mem_singleton] at hc
        rw [hc]
    · rcases List.mem_append.mp hc with hc | hc
      · exact D.answered d' hd' c hc htok
      · rw [List.mem_singleton] at hc
        subst hc
        exact absurd htok.symm hne
  · rw [List.pairwise_append]
    refine ⟨D.ordered, List.pairwise_singleton .., fun c hc c' hc' hrow => ?_⟩
    rw [List.mem_singleton] at hc'
    subst hc'
    by_contra hne
    -- both calls would be hot under one token, which the delivery has not called with
    exact quiet c hc (D.single c.token d.token (.inr ⟨c, hc, rfl, hne⟩) hhot hrow)

/-! ## Runs -/

theorem refuseOp_release {a : Adapter} {why : Refusal} {k : Key} {f worker retryAt now : ℕ}
    (h : d.refuseOp a why = .release k f worker retryAt now) : (k, f) = d.token := by
  cases why with
  | associationUnavailable => exact retryOp_release h
  | recipientUnavailable => cases h
  | eventNotSupported => cases h

theorem settleOp_release {a : Adapter} {outcome : ProviderOutcome} {k : Key}
    {f worker retryAt now : ℕ}
    (h : d.settleOp a outcome.disposition = .release k f worker retryAt now) :
    (k, f) = d.token ∧ outcome.disposition = .retry := by
  cases hdisp : outcome.disposition with
  | confirm ack => rw [hdisp] at h; cases h
  | cancel reason => rw [hdisp] at h; cases h
  | retry =>
    rw [hdisp] at h
    exact ⟨retryOp_release h, rfl⟩

theorem faultOp_release {a : Adapter} {k : Key} {f worker retryAt now : ℕ}
    (h : d.faultOp a = .release k f worker retryAt now) :
    (k, f) = d.token ∧ d.stage = .claimed := by
  unfold OutboxDelivery.faultOp at h
  split at h
  · rename_i hs
    exact ⟨retryOp_release h, hs⟩
  · cases h

theorem Delivering.deliver (D : Delivering S) (a : Adapter) (hd : S.deliveries[i]? = some d)
    (e : DeliveryEvent) : Delivering (S.deliver a i d e) := by
  have claimed : d.stage = .claimed → ∀ outcome, d.stage = .answered outcome →
      outcome.disposition = .retry := by
    intro hs outcome ho
    rw [hs] at ho
    cases ho
  cases e with
  | enqueue id n now => exact D
  | prune cutoff limit => exact D
  | claim worker limit duration now => exact D
  | refuse j why =>
    simp only [DeliverySystem.deliver]
    split
    · rename_i hs
      exact D.giveUp hd (fun k f w r n heq => ⟨refuseOp_release heq, claimed hs⟩)
    · exact D
  | mark j =>
    simp only [DeliverySystem.deliver]
    split
    · rename_i hs
      split
      · rename_i ob hob
        exact D.mark hd hs hob
      · exact D.drop
    · exact D
  | send j outcome =>
    simp only [DeliverySystem.deliver]
    split
    · rename_i hs
      exact D.send hd hs outcome
    · exact D
  | settle j =>
    simp only [DeliverySystem.deliver]
    split
    · rename_i outcome hs
      refine D.giveUp hd (fun k f w r n heq => ?_)
      obtain ⟨htok, hretry⟩ := settleOp_release heq
      refine ⟨htok, fun o ho => ?_⟩
      rw [hs, DeliveryStage.answered.injEq] at ho
      exact ho ▸ hretry
    · exact D
  | fault j =>
    refine D.giveUp hd (fun k f w r n heq => ?_)
    obtain ⟨htok, hs⟩ := faultOp_release heq
    exact ⟨htok, claimed hs⟩
  | crash j => exact D.drop

theorem Delivering.step (D : Delivering S) (a : Adapter) (e : DeliveryEvent) :
    Delivering (S.step a e) := by
  cases e with
  | enqueue id n now => exact D.store (fun k f w r n heq => by cases heq)
  | prune cutoff limit => exact D.store (fun k f w r n heq => by cases heq)
  | claim worker limit duration now =>
    simp only [DeliverySystem.step]
    split
    · rename_i records ob h
      exact D.claim h
    · exact D
  | refuse j why =>
    cases hd : S.deliveries[j]? with
    | none => simpa only [DeliverySystem.step, hd] using D
    | some d => simpa only [DeliverySystem.step, hd] using D.deliver a hd _
  | mark j =>
    cases hd : S.deliveries[j]? with
    | none => simpa only [DeliverySystem.step, hd] using D
    | some d => simpa only [DeliverySystem.step, hd] using D.deliver a hd _
  | send j outcome =>
    cases hd : S.deliveries[j]? with
    | none => simpa only [DeliverySystem.step, hd] using D
    | some d => simpa only [DeliverySystem.step, hd] using D.deliver a hd _
  | settle j =>
    cases hd : S.deliveries[j]? with
    | none => simpa only [DeliverySystem.step, hd] using D
    | some d => simpa only [DeliverySystem.step, hd] using D.deliver a hd _
  | fault j =>
    cases hd : S.deliveries[j]? with
    | none => simpa only [DeliverySystem.step, hd] using D
    | some d => simpa only [DeliverySystem.step, hd] using D.deliver a hd _
  | crash j =>
    cases hd : S.deliveries[j]? with
    | none => simpa only [DeliverySystem.step, hd] using D
    | some d => simpa only [DeliverySystem.step, hd] using D.deliver a hd _

end

theorem delivering_run (a : Adapter) (events : List DeliveryEvent) :
    Delivering (deliveryRun a events) :=
  List.foldlRecOn events _ delivering_empty (fun _ D e _ => D.step a e)

/-! ## Rows that are never sent again -/

/-- The row `k` is sealed, and no worker is left that may call the provider for it or release
it. -/
structure Spent (S : DeliverySystem) (k : Key) (f : ℕ) : Prop where
  delivering : Delivering S
  sealed : Sealed S.outbox k f
  idle : ∀ d ∈ S.deliveries, d.record.id = k → d.record.fence ≠ f ∧ d.stage ≠ .started

def callsFor (S : DeliverySystem) (k : Key) : List ProviderCall :=
  S.calls.filter (fun c => decide (c.row = k))

section
variable {S : DeliverySystem} {k : Key} {f i : ℕ} {d : OutboxDelivery}

theorem Sealed.commit {ob : Outbox} {op : OutboxOp} (C : Sealed ob k f)
    (hop : ∀ worker retryAt now, op ≠ .release k f worker retryAt now) :
    Sealed (Transaction.commit Outbox.transact ob op) k f := by
  unfold Transaction.commit
  cases h : ob.transact op with
  | error e => exact C
  | ok ob' => exact C.transact h hop

theorem Spent.deliver (P : Spent S k f) (a : Adapter) (hd : S.deliveries[i]? = some d)
    (e : DeliveryEvent) :
    Sealed (S.deliver a i d e).outbox k f ∧
    (∀ d' ∈ (S.deliver a i d e).deliveries, d'.record.id = k →
      d'.record.fence ≠ f ∧ d'.stage ≠ .started) ∧
    callsFor (S.deliver a i d e) k = callsFor S k := by
  have idle := P.idle d (List.mem_of_getElem? hd)
  -- the worker owns another fence, so that what it gives back is not the row's
  have giveUp : ∀ op : OutboxOp, (∀ j g worker retryAt now,
        op = .release j g worker retryAt now → (j, g) = d.token) →
      Sealed ((S.store op).drop i).outbox k f ∧
      (∀ d' ∈ ((S.store op).drop i).deliveries, d'.record.id = k →
        d'.record.fence ≠ f ∧ d'.stage ≠ .started) ∧
      callsFor ((S.store op).drop i) k = callsFor S k := by
    intro op hop
    refine ⟨P.sealed.commit fun w r n heq => ?_,
      fun d' hd' => P.idle d' (List.mem_of_mem_eraseIdx hd'), rfl⟩
    have htok := hop k f w r n heq
    exact (idle (Prod.mk.inj htok).1.symm).1 (Prod.mk.inj htok).2.symm
  cases e with
  | enqueue id n now => exact ⟨P.sealed, P.idle, rfl⟩
  | prune cutoff limit => exact ⟨P.sealed, P.idle, rfl⟩
  | claim worker limit duration now => exact ⟨P.sealed, P.idle, rfl⟩
  | refuse j why =>
    simp only [DeliverySystem.deliver]
    split
    · exact giveUp _ (fun j g w r n heq => refuseOp_release heq)
    · exact ⟨P.sealed, P.idle, rfl⟩
  | mark j =>
    simp only [DeliverySystem.deliver]
    split
    · split
      · rename_i ob hob
        refine ⟨P.sealed.transact hob (fun w r n heq => by cases heq), fun d' hd' hrow => ?_, rfl⟩
        rcases mem_setStage P.delivering hd hd' with rfl | ⟨hd', -⟩
        · have C := P.sealed
          rw [← hrow] at C
          exact absurd (C.fence_eq hob) (idle hrow).1
        · exact P.idle d' hd' hrow
      · exact ⟨P.sealed, fun d' hd' => P.idle d' (List.mem_of_mem_eraseIdx hd'), rfl⟩
    · exact ⟨P.sealed, P.idle, rfl⟩
  | send j outcome =>
    simp only [DeliverySystem.deliver]
    split
    · rename_i hs
      have hrow : d.record.id ≠ k := fun heq => (idle heq).2 hs
      refine ⟨P.sealed, fun d' hd' hk => ?_, by simp [callsFor, hrow]⟩
      rcases mem_setStage P.delivering hd hd' with rfl | ⟨hd', -⟩
      · exact absurd hk hrow
      · exact P.idle d' hd' hk
    · exact ⟨P.sealed, P.idle, rfl⟩
  | settle j =>
    simp only [DeliverySystem.deliver]
    split
    · exact giveUp _ (fun j g w r n heq => (settleOp_release heq).1)
    · exact ⟨P.sealed, P.idle, rfl⟩
  | fault j => exact giveUp _ (fun j g w r n heq => (faultOp_release heq).1)
  | crash j => exact ⟨P.sealed, fun d' hd' => P.idle d' (List.mem_of_mem_eraseIdx hd'), rfl⟩

theorem Spent.step (P : Spent S k f) (a : Adapter) (e : DeliveryEvent) :
    Spent (S.step a e) k f ∧ callsFor (S.step a e) k = callsFor S k := by
  suffices h : Sealed (S.step a e).outbox k f ∧
      (∀ d ∈ (S.step a e).deliveries, d.record.id = k → d.record.fence ≠ f ∧ d.stage ≠ .started) ∧
      callsFor (S.step a e) k = callsFor S k from
    ⟨⟨P.delivering.step a e, h.1, h.2.1⟩, h.2.2⟩
  cases e with
  | enqueue id n now => exact ⟨P.sealed.commit (fun w r n heq => by cases heq), P.idle, rfl⟩
  | prune cutoff limit =>
    have hop : S.outbox.transact (.prune cutoff limit) = .ok (pruneOutbox S.outbox cutoff limit) :=
      rfl
    exact ⟨P.sealed.transact hop (fun w r n heq => by cases heq), P.idle, rfl⟩
  | claim worker limit duration now =>
    simp only [DeliverySystem.step]
    split
    · rename_i records ob h
      have hop : S.outbox.transact (.claim .telegram worker limit duration now) = .ok ob := by
        simp only [Outbox.transact, h]
        rfl
      refine ⟨P.sealed.transact hop (fun w r n heq => by cases heq), fun d hd hrow => ?_, rfl⟩
      rcases List.mem_append.mp hd with hd | hd
      · exact P.idle d hd hrow
      · -- a sealed row is not leased
        obtain ⟨r, hr, rfl⟩ := List.mem_map.mp hd
        obtain ⟨⟨r₀, hr₀, hterm, hstarted, -⟩, -⟩ := leased_fresh P.delivering h hr
        rw [show r.id = k from hrow] at hr₀
        rcases P.sealed.row r₀ hr₀ with ht | ⟨hl, -, hack⟩
        · simp [hterm] at ht
        · simp [OutboxRow.deliveryStarted, hl, hack] at hstarted
    · exact ⟨P.sealed, P.idle, rfl⟩
  | refuse j why =>
    cases hd : S.deliveries[j]? with
    | none =>
      simp only [DeliverySystem.step, hd]
      exact ⟨P.sealed, P.idle, trivial⟩
    | some d => simpa only [DeliverySystem.step, hd] using P.deliver a hd _
  | mark j =>
    cases hd : S.deliveries[j]? with
    | none =>
      simp only [DeliverySystem.step, hd]
      exact ⟨P.sealed, P.idle, trivial⟩
    | some d => simpa only [DeliverySystem.step, hd] using P.deliver a hd _
  | send j outcome =>
    cases hd : S.deliveries[j]? with
    | none =>
      simp only [DeliverySystem.step, hd]
      exact ⟨P.sealed, P.idle, trivial⟩
    | some d => simpa only [DeliverySystem.step, hd] using P.deliver a hd _
  | settle j =>
    cases hd : S.deliveries[j]? with
    | none =>
      simp only [DeliverySystem.step, hd]
      exact ⟨P.sealed, P.idle, trivial⟩
    | some d => simpa only [DeliverySystem.step, hd] using P.deliver a hd _
  | fault j =>
    cases hd : S.deliveries[j]? with
    | none =>
      simp only [DeliverySystem.step, hd]
      exact ⟨P.sealed, P.idle, trivial⟩
    | some d => simpa only [DeliverySystem.step, hd] using P.deliver a hd _
  | crash j =>
    cases hd : S.deliveries[j]? with
    | none =>
      simp only [DeliverySystem.step, hd]
      exact ⟨P.sealed, P.idle, trivial⟩
    | some d => simpa only [DeliverySystem.step, hd] using P.deliver a hd _

theorem Spent.run (P : Spent S k f) (a : Adapter) (events : List DeliveryEvent) :
    callsFor (events.foldl (DeliverySystem.step a) S) k = callsFor S k := by
  induction events generalizing S with
  | nil => rfl
  | cons e rest ih =>
    obtain ⟨P', hcalls⟩ := P.step a e
    exact (ih P').trans hcalls

theorem Delivering.spent (D : Delivering S) (hd : S.deliveries[i]? = some d)
    (hstage : d.stage ≠ .claimed) {ob : Outbox} (D' : Delivering { S.drop i with outbox := ob })
    (C : Sealed ob d.record.id d.record.fence) :
    Spent { S.drop i with outbox := ob } d.record.id d.record.fence where
  delivering := D'
  sealed := C
  idle d' hd' hrow := by
    have hne := D.gone hd hd'
    refine ⟨fun hf => hne (Prod.ext hrow hf), fun hs => hne ?_⟩
    refine D.single d'.token d.token (.inl ⟨d', List.mem_of_mem_eraseIdx hd', rfl, ?_⟩)
      (.inl ⟨d, List.mem_of_getElem? hd, rfl, hstage⟩) hrow
    rw [hs]
    simp

theorem Delivering.spent_store (D : Delivering S) (hd : S.deliveries[i]? = some d)
    (hstage : d.stage ≠ .claimed) {op : OutboxOp}
    (hop : ∀ k f worker retryAt now, op ≠ .release k f worker retryAt now) :
    Spent ((S.store op).drop i) d.record.id d.record.fence :=
  D.spent hd hstage (D.giveUp hd (fun k f w r n heq => absurd heq (hop k f w r n)))
    ((D.sealed d.token (.inl ⟨d, List.mem_of_getElem? hd, rfl, hstage⟩)).commit (hop _ _))

end

/-- A worker is gone without having released a delivery that it had started: it crashed, an
exception reached its handler, or the answer was not that the message was not sent. -/
def DeliveryEvent.abandons (i : ℕ) (d : OutboxDelivery) : DeliveryEvent → Prop
  | .crash j => j = i
  | .fault j => j = i
  | .settle j => j = i ∧ ∃ outcome, d.stage = .answered outcome ∧ outcome.disposition ≠ .retry
  | _ => False

theorem never_sent_again (a : Adapter) (events later : List DeliveryEvent) (e : DeliveryEvent)
    {i : ℕ} {d : OutboxDelivery} (hd : (deliveryRun a events).deliveries[i]? = some d)
    (hstage : d.stage ≠ .claimed) (he : e.abandons i d) :
    callsFor (deliveryRun a (events ++ e :: later)) d.record.id =
      callsFor (deliveryRun a events) d.record.id := by
  have D := delivering_run a events
  obtain ⟨hspent, hcalls⟩ :
      Spent ((deliveryRun a events).step a e) d.record.id d.record.fence ∧
      callsFor ((deliveryRun a events).step a e) d.record.id =
        callsFor (deliveryRun a events) d.record.id := by
    cases e with
    | crash j =>
      obtain rfl : j = i := he
      simp only [DeliverySystem.step, hd, DeliverySystem.deliver]
      exact ⟨D.spent hd hstage D.drop
        (D.sealed d.token (.inl ⟨d, List.mem_of_getElem? hd, rfl, hstage⟩)), rfl⟩
    | fault j =>
      obtain rfl : j = i := he
      simp only [DeliverySystem.step, hd, DeliverySystem.deliver]
      exact ⟨D.spent_store hd hstage (fun k f w r n heq => hstage (faultOp_release heq).2), rfl⟩
    | settle j =>
      obtain ⟨rfl, outcome, hs, hne⟩ := he
      simp only [DeliverySystem.step, hd, DeliverySystem.deliver, hs]
      exact ⟨D.spent_store hd hstage (fun k f w r n heq => hne (settleOp_release heq).2), rfl⟩
    | enqueue | prune | claim | refuse | mark | send => exact he.elim
  rw [deliveryRun, List.foldl_append, List.foldl_cons]
  exact (hspent.run a later).trans hcalls

/-- **At most once.**  In every run of the store, a fence that has started a delivery releases the
row before any other fence starts it, and a sent or cancelled row stays so while it exists.  In
every run of the workers, the provider is called again for a row only after calls answered as not
sent, and never after a worker has left a delivery that it had started, unless it released it. -/
theorem outbox_at_most_once :
    (∀ (ops₁ ops₂ : List OutboxOp) (k : Key) (f g worker worker' now now' : ℕ),
      Succeeds ops₁ (.markDeliveryStarted k f worker now) →
      Succeeds (ops₁ ++ .markDeliveryStarted k f worker now :: ops₂)
        (.markDeliveryStarted k g worker' now') → f ≠ g →
      ∃ pre worker'' retryAt now'' post,
        ops₂ = pre ++ .release k f worker'' retryAt now'' :: post ∧
        Succeeds (ops₁ ++ .markDeliveryStarted k f worker now :: pre)
          (.release k f worker'' retryAt now'')) ∧
    (∀ (ops₁ ops₂ : List OutboxOp) (k : Key) (r r' : OutboxRow),
      (outboxRun ops₁).rows.find? k = some r → r.state.terminal = true →
      (outboxRun (ops₁ ++ ops₂)).rows.find? k = some r' → r'.state = r.state) ∧
    (∀ (a : Adapter) (events : List DeliveryEvent), (deliveryRun a events).calls.Pairwise
      (fun c c' => c.row = c'.row → c.outcome.disposition = .retry)) ∧
    ∀ (a : Adapter) (events later : List DeliveryEvent) (e : DeliveryEvent) (i : ℕ)
      (d : OutboxDelivery), (deliveryRun a events).deliveries[i]? = some d →
      d.stage ≠ .claimed → e.abandons i d →
      callsFor (deliveryRun a (events ++ e :: later)) d.record.id =
        callsFor (deliveryRun a events) d.record.id := by
  refine ⟨?_, ?_, ?_, ?_⟩
  · intro ops₁ ops₂ k f g worker worker' now now' h₁ h₂ hfg
    exact release_between_starts h₁ h₂ hfg
  · intro ops₁ ops₂ k r r' hr hst hr'
    exact terminal_run ops₂ hr hst hr'
  · intro a events
    exact (delivering_run a events).ordered
  · intro a events later e i d hd hstage he
    exact never_sent_again a events later e hd hstage he

/-! ### A retried and then abandoned delivery -/

namespace SampleOutbox

def row : Key := ⟨0, 1⟩

def notification : Notification :=
  { workloadId := ⟨0, 0⟩
    eventId := 1
    channel := .telegram
    recipientKey := 5
    coalesceKey := none
    due := none
    delivered := false }

/-- Enqueued and leased under the fence 1. -/
def leased : List OutboxOp := [.enqueue row notification 0, .claim .telegram 7 10 5 0]

/-- The first delivery is released, and the row leased again. -/
def retried : List OutboxOp := [.release row 1 7 2 1, .claim .telegram 8 10 5 3]

def adapter : Adapter := ⟨3, fun n => n⟩

/-- A first call that is answered as not sent, and a second delivery that is started. -/
def events : List DeliveryEvent :=
  [.enqueue row notification 0, .claim 7 10 5 0, .mark 0,
    .send 0 (.answer false (some false) none none), .settle 0, .claim 8 10 5 3, .mark 0]

end SampleOutbox

open SampleOutbox in
/-- The hypotheses are met by a row that is released once and then abandoned. -/
theorem outbox_at_most_once_sample :
    (∃ pre worker retryAt now post, retried = pre ++ .release row 1 worker retryAt now :: post ∧
      Succeeds (leased ++ .markDeliveryStarted row 1 7 0 :: pre)
        (.release row 1 worker retryAt now)) ∧
    callsFor (deliveryRun adapter (events ++ [.crash 0, .claim 9 10 5 100, .mark 0, .send 0 .raised]))
      row = callsFor (deliveryRun adapter events) row := by
  refine ⟨outbox_at_most_once.1 leased retried row 1 2 7 8 0 3 ⟨_, rfl⟩ ⟨_, rfl⟩ (by decide), ?_⟩
  have hd : ∃ d, (deliveryRun adapter events).deliveries[0]? = some d ∧ d.stage = .started ∧
      d.record.id = row := ⟨_, rfl, rfl, rfl⟩
  obtain ⟨d, hd, hs, hrow⟩ := hd
  rw [← hrow]
  exact outbox_at_most_once.2.2.2 adapter events _ (.crash 0) 0 d hd (by rw [hs]; simp) rfl

/-! ## What stands behind a receipt -/

/-- What the operation may have written into a row that it changed or inserted. -/
structure Wrote (op : OutboxOp) (r : OutboxRow) : Prop where
  sent : r.state = .sent → r.ack = some .recorded ∨
    ∃ f worker ack now, op = .confirm r.id f worker ack now ∧ r.ack = some ack
  cancelled : r.state = .cancelled → r.ack = some (.cancelled .deliveryAmbiguous) ∨
    ∃ f worker reason now, op = .cancel r.id f worker reason now ∧
      r.ack = some (.cancelled reason)

section
variable {ob ob' : Outbox} {op : OutboxOp} {r : OutboxRow}

theorem Wrote.of_state (sent : r.state ≠ .sent) (cancelled : r.state ≠ .cancelled) : Wrote op r :=
  ⟨fun h => absurd h sent, fun h => absurd h cancelled⟩

theorem casRow_wrote {j : Key} {p : OutboxRow → Bool} {f : OutboxRow → OutboxRow}
    {hf : ∀ r, (f r).id = r.id} (h : casRow ob j p f hf = .ok ob')
    (wrote : ∀ x, x.id = j → p x = true → Wrote op (f x)) (hr : r ∈ ob'.rows.rows) :
    r ∈ ob.rows.rows ∨ Wrote op r := by
  obtain ⟨-, ⟨x, hx, hp, hx'⟩, hother⟩ := casRow_ok h
  have found := Table.find?_of_mem hr
  by_cases hj : r.id = j
  · rw [hj, hx'] at found
    obtain rfl := Option.some.inj found
    exact .inr (wrote x (Table.key_of_find? hx) hp)
  · rw [hother _ hj] at found
    exact .inl (Table.mem_of_find? found)

theorem enqueueOutbox_wrote {id : Key} {n : Notification} {now : ℕ}
    (h : enqueueOutbox ob id n now = .ok ob') (hr : r ∈ ob'.rows.rows) :
    r ∈ ob.rows.rows ∨ Wrote op r := by
  unfold enqueueOutbox at h
  dsimp only at h
  split at h
  · split at h
    · cases h
    · refine casRow_wrote h (fun x _ hx => ?_) hr
      have pending : x.state = .pending := of_decide_eq_true hx
      apply Wrote.of_state
      · show x.state ≠ .sent
        simp [pending]
      · show x.state ≠ .cancelled
        simp [pending]
  · split at h
    · cases h
    · split at h
      · rename_i rows hins
        obtain rfl := Except.ok.inj h
        have hr : r ∈ rows.rows := hr
        rw [(Table.insert?_some hins).2, List.mem_append, List.mem_singleton] at hr
        rcases hr with hr | rfl
        · exact .inl hr
        · refine .inr ⟨fun h => .inl ?_, fun h => ?_⟩
          · cases hd : n.delivered <;> simp [makeOutboxRow, hd] at h ⊢
          · cases hd : n.delivered <;> simp [makeOutboxRow, hd] at h
      · cases h

theorem claimOutbox_wrote {channel : OutboxChannel} {worker limit duration now : ℕ}
    {records : List OutboxRow}
    (h : claimOutbox ob channel worker limit duration now = .ok (records, ob'))
    (hr : r ∈ ob'.rows.rows) : r ∈ ob.rows.rows ∨ Wrote op r := by
  obtain ⟨-, -, hrow, hother⟩ := claimOutbox_ok h
  have found := Table.find?_of_mem hr
  by_cases hk : r.id ∈ (outboxCandidates ob channel limit now).map OutboxRow.id
  · obtain ⟨c, hc, hid⟩ := List.mem_map.mp hk
    rw [← hid, hrow c hc] at found
    obtain rfl := Option.some.inj found
    right
    unfold claimedRow
    split_ifs
    · exact ⟨fun h => (by cases h), fun _ => .inl rfl⟩
    · exact .of_state (by simp [OutboxRow.lease]) (by simp [OutboxRow.lease])
  · rw [hother _ hk] at found
    exact .inl (Table.mem_of_find? found)

theorem transact_wrote (h : ob.transact op = .ok ob') (hr : r ∈ ob'.rows.rows) :
    r ∈ ob.rows.rows ∨ Wrote op r := by
  cases op with
  | enqueue id n now => exact enqueueOutbox_wrote h hr
  | claim channel worker limit duration now =>
    simp only [Outbox.transact, bind_eq_ok, pure_eq_ok] at h
    obtain ⟨⟨records, ob₁⟩, hclaim, rfl⟩ := h
    exact claimOutbox_wrote hclaim hr
  | markDeliveryStarted id fence worker now =>
    refine casRow_wrote h (fun x _ hx => ?_) hr
    rw [Bool.and_eq_true, ownsDelivery_iff] at hx
    apply Wrote.of_state
    · show x.state ≠ .sent
      simp [hx.1.1]
    · show x.state ≠ .cancelled
      simp [hx.1.1]
  | confirm id fence worker ack now =>
    refine casRow_wrote h (fun x hx _ => ?_) hr
    exact ⟨fun _ => .inr ⟨fence, worker, ack, now, by rw [← hx]; rfl, rfl⟩, fun h => by cases h⟩
  | release id fence worker retryAt now =>
    simp only [Outbox.transact, releaseOutbox] at h
    split at h
    · cases h
    · split at h
      · cases h
      · refine casRow_wrote h (fun x _ _ => ?_) hr
        exact .of_state (by simp [OutboxRow.release]) (by simp [OutboxRow.release])
  | cancel id fence worker reason now =>
    refine casRow_wrote h (fun x hx _ => ?_) hr
    exact ⟨fun h => (by cases h), fun _ => .inr ⟨fence, worker, reason, now, by rw [← hx]; rfl, rfl⟩⟩
  | prune cutoff limit =>
    obtain rfl := Except.ok.inj h
    exact .inl (List.mem_of_mem_filter hr)

end

/-- What a finished row says of its delivery is what the provider has answered. -/
structure Receipted (calls : List ProviderCall) (r : OutboxRow) : Prop where
  sent : r.state = .sent → r.ack = some .recorded ∨ ∃ f ambiguous retryable messageId,
    ⟨r.id, f, .answer true ambiguous retryable messageId⟩ ∈ calls ∧
      r.ack = some (.sent messageId)
  rejected : r.state = .cancelled → r.ack = some (.cancelled .providerRejected) →
    ∃ f ambiguous messageId, ambiguous ≠ some true ∧
      ⟨r.id, f, .answer false ambiguous (some false) messageId⟩ ∈ calls

/-- The rows are backed, and a delivery has the answer that its call was given. -/
structure Truthful (S : DeliverySystem) : Prop where
  backed : ∀ r ∈ S.outbox.rows.rows, Receipted S.calls r
  answered : ∀ d ∈ S.deliveries, ∀ outcome, d.stage = .answered outcome →
    ⟨d.record.id, d.record.fence, outcome⟩ ∈ S.calls

section
variable {S : DeliverySystem} {i : ℕ} {d : OutboxDelivery} {op : OutboxOp}

/-- Nothing that the operation writes claims more than was answered. -/
def Justified (calls : List ProviderCall) (op : OutboxOp) : Prop :=
  (∀ k f worker ack now, op = .confirm k f worker ack now → ∃ g ambiguous retryable messageId,
    ⟨k, g, .answer true ambiguous retryable messageId⟩ ∈ calls ∧ ack = .sent messageId) ∧
  ∀ k f worker now, op = .cancel k f worker .providerRejected now →
    ∃ g ambiguous messageId, ambiguous ≠ some true ∧
      ⟨k, g, .answer false ambiguous (some false) messageId⟩ ∈ calls

theorem Wrote.backed {calls : List ProviderCall} {r : OutboxRow} (h : Wrote op r)
    (just : Justified calls op) : Receipted calls r where
  sent hs := by
    rcases h.sent hs with recorded | ⟨f, worker, ack, now, hop, hack⟩
    · exact .inl recorded
    · obtain ⟨g, amb, retryable, messageId, hcall, rfl⟩ := just.1 _ _ _ _ _ hop
      exact .inr ⟨g, amb, retryable, messageId, hcall, hack⟩
  rejected hs hr := by
    rcases h.cancelled hs with ambiguous | ⟨f, worker, reason, now, hop, hack⟩
    · rw [ambiguous] at hr
      cases hr
    · rw [hack] at hr
      cases hr
      exact just.2 _ _ _ _ hop

theorem Truthful.transact {ob : Outbox} (T : Truthful S) (just : Justified S.calls op)
    (h : S.outbox.transact op = .ok ob) : Truthful { S with outbox := ob } where
  backed r hr := by
    rcases transact_wrote h hr with hr | wrote
    · exact T.backed r hr
    · exact wrote.backed just
  answered := T.answered

theorem Truthful.store (T : Truthful S) (just : Justified S.calls op) : Truthful (S.store op) := by
  unfold DeliverySystem.store commit
  cases h : S.outbox.transact op with
  | error e => exact T
  | ok ob => exact T.transact just h

theorem Truthful.drop (T : Truthful S) : Truthful (S.drop i) :=
  ⟨T.backed, fun d hd => T.answered d (List.mem_of_mem_eraseIdx hd)⟩

theorem Truthful.setStage (T : Truthful S) (hd : S.deliveries[i]? = some d) (stage : DeliveryStage)
    (ok : ∀ outcome, stage = .answered outcome →
      ⟨d.record.id, d.record.fence, outcome⟩ ∈ S.calls) : Truthful (S.setStage i stage) where
  backed := T.backed
  answered d' hd' outcome hs := by
    rcases Count.mem_modify hd hd' with rfl | ⟨j, -, hj⟩
    · exact ok outcome hs
    · exact T.answered d' (List.mem_of_getElem? hj) outcome hs

theorem justified_cancel {calls : List ProviderCall} {reason : CancelReason}
    (h : reason ≠ .providerRejected) : Justified calls (d.cancelOp reason) := by
  refine ⟨fun k f w ack n heq => (by cases heq), fun k f w n heq => ?_⟩
  unfold OutboxDelivery.cancelOp at heq
  injection heq with _ _ _ hreason
  exact absurd hreason h

theorem justified_retry (a : Adapter) (calls : List ProviderCall) :
    Justified calls (d.retryOp a) := by
  unfold OutboxDelivery.retryOp
  split_ifs
  · exact justified_cancel (by decide)
  · exact ⟨fun k f w ack n heq => (by cases heq), fun k f w n heq => (by cases heq)⟩

theorem justified_settle (a : Adapter) {calls : List ProviderCall} {outcome : ProviderOutcome}
    (called : ⟨d.record.id, d.record.fence, outcome⟩ ∈ calls) :
    Justified calls (d.settleOp a outcome.disposition) := by
  cases outcome with
  | raised => exact justified_cancel (by decide)
  | malformed => exact justified_cancel (by decide)
  | answer ok ambiguous retryable messageId =>
    cases ok with
    | true =>
      refine ⟨fun k f w ack n heq => ?_, fun k f w n heq => (by cases heq)⟩
      cases heq
      exact ⟨_, _, _, _, called, rfl⟩
    | false =>
      simp only [ProviderOutcome.disposition]
      split_ifs with h₁ h₂ h₃
      · exact justified_cancel (by decide)
      · subst h₂
        refine ⟨fun k f w ack n heq => (by cases heq), fun k f w n heq => ?_⟩
        cases heq
        exact ⟨_, _, _, h₁, called⟩
      · exact justified_retry a calls
      · exact justified_cancel (by decide)

theorem Truthful.deliver (T : Truthful S) (a : Adapter) (hd : S.deliveries[i]? = some d)
    (e : DeliveryEvent) : Truthful (S.deliver a i d e) := by
  have hmem := List.mem_of_getElem? hd
  cases e with
  | enqueue | prune | claim => exact T
  | refuse j why =>
    simp only [DeliverySystem.deliver]
    split_ifs
    · refine (T.store ?_).drop
      cases why with
      | associationUnavailable => exact justified_retry a S.calls
      | recipientUnavailable => exact justified_cancel (by decide)
      | eventNotSupported => exact justified_cancel (by decide)
    · exact T
  | mark j =>
    simp only [DeliverySystem.deliver]
    split_ifs
    · split
      · rename_i ob hob
        have T' := T.transact ⟨fun k f w ack n heq => (by cases heq),
          fun k f w n heq => (by cases heq)⟩ hob
        exact T'.setStage hd .started (fun outcome heq => by cases heq)
      · exact T.drop
    · exact T
  | send j outcome =>
    simp only [DeliverySystem.deliver]
    split_ifs
    · have grown : Truthful { S with
          calls := S.calls ++ [⟨d.record.id, d.record.fence, outcome⟩] } := by
        refine ⟨fun r hr => ⟨fun hs => ?_, fun hs hrej => ?_⟩, fun d' hd' o hs => ?_⟩
        · refine ((T.backed r hr).sent hs).imp_right ?_
          rintro ⟨f, amb, retryable, messageId, hcall, hack⟩
          exact ⟨f, amb, retryable, messageId, List.mem_append_left _ hcall, hack⟩
        · obtain ⟨f, amb, messageId, hamb, hcall⟩ := (T.backed r hr).rejected hs hrej
          exact ⟨f, amb, messageId, hamb, List.mem_append_left _ hcall⟩
        · exact List.mem_append_left _ (T.answered d' hd' o hs)
      refine grown.setStage hd (.answered outcome) fun o heq => ?_
      cases heq
      exact List.mem_append_right _ (List.mem_singleton_self _)
    · exact T
  | settle j =>
    simp only [DeliverySystem.deliver]
    split
    · rename_i outcome hs
      exact (T.store (justified_settle a (T.answered d hmem outcome hs))).drop
    · exact T
  | fault j =>
    simp only [DeliverySystem.deliver]
    refine (T.store ?_).drop
    unfold OutboxDelivery.faultOp
    split
    · exact justified_retry a S.calls
    · exact justified_cancel (by decide)
  | crash j => exact T.drop

theorem Truthful.step (T : Truthful S) (a : Adapter) (e : DeliveryEvent) :
    Truthful (S.step a e) := by
  have plain : ∀ op, (∀ k f w ack n, op ≠ .confirm k f w ack n) →
      (∀ k f w n, op ≠ .cancel k f w .providerRejected n) → Justified S.calls op :=
    fun op h₁ h₂ => ⟨fun k f w ack n heq => absurd heq (h₁ k f w ack n),
      fun k f w n heq => absurd heq (h₂ k f w n)⟩
  cases e with
  | enqueue id n now => exact T.store (plain _ (by simp) (by simp))
  | prune cutoff limit => exact T.store (plain _ (by simp) (by simp))
  | claim worker limit duration now =>
    simp only [DeliverySystem.step]
    split
    · rename_i records ob h
      have hop : S.outbox.transact (.claim .telegram worker limit duration now) = .ok ob := by
        simp only [Outbox.transact, h]
        rfl
      have T' := T.transact (plain _ (by simp) (by simp)) hop
      refine ⟨T'.backed, fun d hd outcome hs => ?_⟩
      rcases List.mem_append.mp hd with hd | hd
      · exact T.answered d hd outcome hs
      · obtain ⟨r, -, rfl⟩ := List.mem_map.mp hd
        cases hs
    · exact T
  | refuse j why =>
    cases hd : S.deliveries[j]? with
    | none => simpa only [DeliverySystem.step, hd] using T
    | some d => simpa only [DeliverySystem.step, hd] using T.deliver a hd _
  | mark j =>
    cases hd : S.deliveries[j]? with
    | none => simpa only [DeliverySystem.step, hd] using T
    | some d => simpa only [DeliverySystem.step, hd] using T.deliver a hd _
  | send j outcome =>
    cases hd : S.deliveries[j]? with
    | none => simpa only [DeliverySystem.step, hd] using T
    | some d => simpa only [DeliverySystem.step, hd] using T.deliver a hd _
  | settle j =>
    cases hd : S.deliveries[j]? with
    | none => simpa only [DeliverySystem.step, hd] using T
    | some d => simpa only [DeliverySystem.step, hd] using T.deliver a hd _
  | fault j =>
    cases hd : S.deliveries[j]? with
    | none => simpa only [DeliverySystem.step, hd] using T
    | some d => simpa only [DeliverySystem.step, hd] using T.deliver a hd _
  | crash j =>
    cases hd : S.deliveries[j]? with
    | none => simpa only [DeliverySystem.step, hd] using T
    | some d => simpa only [DeliverySystem.step, hd] using T.deliver a hd _

end

/-- **Receipts are true.**  With any number of workers that may be interrupted anywhere, a row is
only sent with the message id that the provider has answered for it, or because its notification was
delivered before it was queued; and it is only cancelled as rejected if the provider has rejected it
and has not called the delivery ambiguous. -/
theorem receipts_backed (a : Adapter) (events : List DeliveryEvent) :
    ∀ r ∈ (deliveryRun a events).outbox.rows.rows, Receipted (deliveryRun a events).calls r := by
  have T : Truthful (deliveryRun a events) := by
    refine List.foldlRecOn events _ ⟨fun r hr => ?_, fun d hd => ?_⟩ fun _ T e _ => T.step a e
    · cases hr
    · cases hd
  exact T.backed

/-- One delivery, which the provider answers with a message id. -/
def SampleOutbox.answered : List DeliveryEvent :=
  [.enqueue row notification 0, .claim 7 10 5 0, .mark 0,
    .send 0 (.answer true none none (some 42)), .settle 0]

open SampleOutbox in
theorem receipts_backed_sample : ∃ r ∈ (deliveryRun adapter answered).outbox.rows.rows,
    r.state = .sent ∧ Receipted (deliveryRun adapter answered).calls r := by
  have sent : ∃ r ∈ (deliveryRun adapter answered).outbox.rows.rows, r.state = .sent :=
    ⟨_, .head _, rfl⟩
  obtain ⟨r, hr, hs⟩ := sent
  exact ⟨r, hr, hs, receipts_backed adapter answered r hr⟩

end Metnos.Durable
