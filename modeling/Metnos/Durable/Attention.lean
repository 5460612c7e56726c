import Metnos.Durable.Shape

/-!
# Durable.Attention — a unit in attention waits for the owner

Whoever moves a unit to `needs_attention` takes over the revision's retry generation, so that only
a retry granted afterwards makes it claimable again.  The one exception is a reuse conflict, which
leaves the unit's generation as it is.
-/

namespace Metnos.Durable

open Transaction

/-- The unit `k` moves to attention, as `u`. -/
structure EntersAttention (db db' : Store) (k : Key) (u : UnitRow) : Prop where
  unit : db'.units.find? k = some u
  state : u.state = .needsAttention
  before : ∀ v, db.units.find? k = some v → v.state ≠ .needsAttention

/-- `op` is a retry decision of the owner, and it is accepted for the revision. -/
def AcceptsRetry (D : Digests) (db : Store) (op : Op) (revision : Key) : Prop :=
  ∃ workloadId note key version now w, op =
      .recordAttentionResolution workloadId .retry note key version now ∧
    db.workloads.find? workloadId = some w ∧ w.activeRevisionId = some revision ∧
    (step D db op).generation revision = (db.generation revision).map (· + 1)

def Op.isRetry : Op → Bool
  | .recordAttentionResolution _ .retry _ _ _ _ => true
  | _ => false

theorem AcceptsRetry.isRetry {D : Digests} {db : Store} {op : Op} {revision : Key}
    (h : AcceptsRetry D db op revision) : op.isRetry = true := by
  obtain ⟨w, n, k, v, t, -, rfl, -⟩ := h
  rfl

theorem Op.isRetry_iff {op : Op} : op.isRetry = true ↔
    ∃ w n k v t, op = .recordAttentionResolution w .retry n k v t := by
  constructor
  · intro h
    unfold Op.isRetry at h
    split at h
    · exact ⟨_, _, _, _, _, rfl⟩
    · cases h
  · rintro ⟨w, n, k, v, t, rfl⟩
    rfl

/-- A unit set aside for a reuse conflict has seen every retry granted so far. -/
def Op.conflictSeen (D : Digests) (db : Store) : Op → Prop
  | .adoptReusableResult _ _ _ => ∀ c, reuseCandidate? db = some c →
      (reuseConflict D db c).isSome →
      db.generation c.unit.revisionId = some c.unit.manualRetryGeneration
  | _ => True

/-! ## Entering attention -/

/-- Reuse sets aside only units that have seen every grant, and no retry is granted. -/
def Guard.seen : Guard :=
  { Guard.none with
    aside := fun db u => db.generation u.revisionId = some u.manualRetryGeneration
    grant := fun _ _ => False }

/-- A unit that was not in attention in `db₀` and is now has the generation of its revision. -/
def Seen (db₀ : Store) (_ : Stage) (g : ℕ) (c : Cell) : Prop :=
  c.unit.state = .needsAttention →
  (∀ v, db₀.units.find? c.unit.id = some v → v.state ≠ .needsAttention) →
  c.unit.manualRetryGeneration = g

theorem seen_rule (db₀ : Store) : CellRule Guard.seen (Seen db₀) := by
  refine ⟨fun h _ _ => h.generation, fun _ S => S, fun {db s g c c'} hg h S => ?_, fun h => h.elim⟩
  cases h with
  | release a state cause target next error tokens now =>
    intro hstate _
    exact if_pos hstate
  | exhaust now => exact fun _ _ => rfl
  | setAside reason now unit count active allowed =>
    exact fun _ _ => Option.some.inj (allowed.symm.trans hg)
  | extend expiry now unit =>
    intro hstate
    have hstate : c.unit.state = .needsAttention := hstate
    rcases unit with h | h <;> rw [h] at hstate <;> cases hstate
  | amend => exact S
  | lease | start | commit | promote | cancel | adopt => exact fun hstate => (by cases hstate)

section
variable {D : Digests} {P : Stage → ℕ → Cell → Prop} {db db' : Store}

theorem Linked.seen (L : Linked P db) : Linked (Seen db) db := by
  refine ⟨fun {k u} hu => ?_, L.orphans⟩
  obtain ⟨s, g, hs, hg, -⟩ := L.cells hu
  obtain rfl : u.id = k := Table.key_of_find? hu
  exact ⟨s, g, hs, hg, fun hstate hnot => absurd hstate (hnot u hu)⟩

theorem Op.conflictSeen.meets {op : Op} (h : op.conflictSeen D db)
    (hop : op.isRetry = false) : op.meets D Guard.seen db := by
  unfold Op.meets
  split
  · exact fun c hc => ⟨h c hc, fun _ _ _ => trivial⟩
  · exact fun _ _ _ _ _ _ _ _ => trivial
  · cases hop
  · exact fun _ _ _ _ _ => roundsMeet_of_forall (fun _ _ _ => trivial) _ _ _ _ _
  · trivial
  · trivial

theorem enters_generation {op : Op} (L : Linked P db) (h : op.conflictSeen D db) {k : Key}
    {u : UnitRow} (E : EntersAttention db (step D db op) k u) :
    (step D db op).generation u.revisionId = some u.manualRetryGeneration := by
  unfold step commit at E ⊢
  cases hop : transact D db op with
  | error e =>
    rw [hop] at E
    exact absurd E.state (E.before u E.unit)
  | ok db' =>
    rw [hop] at E
    cases hretry : op.isRetry with
    | true =>
      -- a retry decision changes no unit
      obtain ⟨w, n, key, v, t, rfl⟩ := Op.isRetry_iff.mp hretry
      have hunits : db'.units = db.units := by
        rcases recordAttentionResolution_retry hop with rfl | ⟨_, _, -, -, -, granted⟩
        · rfl
        · exact granted.units
      exact absurd E.state (E.before u (hunits ▸ E.unit))
    | false =>
      have L' := (transact_acts (h.meets hretry) hop).linked (seen_rule db) L.seen
      obtain ⟨s, g, -, hg, S⟩ := L'.cells E.unit
      have hk : u.id = k := Table.key_of_find? E.unit
      have hgen : u.manualRetryGeneration = g := S E.state fun v hv => E.before v (hk ▸ hv)
      rw [hgen]
      exact hg

/-! ## Waiting for a retry -/

/-- The unit `k` waits in attention, or was cancelled there, with `n` attempts and the generation
of its revision. -/
def Waits (k revision : Key) (n g : ℕ) (db : Store) : Prop :=
  ∃ u, db.units.find? k = some u ∧ u.revisionId = revision ∧ u.attemptCount = n ∧
    db.generation revision = some g ∧
    (u.state = .cancelled ∨ u.state = .needsAttention ∧ u.manualRetryGeneration = g)

/-- No retry is granted to the revision. -/
def Guard.ungranted (revision : Key) : Guard :=
  { Guard.none with grant := fun _ r => r ≠ revision }

theorem CellStep.waits {s : Stage} {g : ℕ} {aside : UnitRow → Prop}
    {result : UnitRow → ResultRow → Prop} {c c' : Cell} (h : CellStep s g aside result c c')
    (W : c.unit.state = .cancelled ∨
      c.unit.state = .needsAttention ∧ c.unit.manualRetryGeneration = g) :
    c'.unit.attemptCount = c.unit.attemptCount ∧ (c'.unit.state = .cancelled ∨
      c'.unit.state = .needsAttention ∧ c'.unit.manualRetryGeneration = g) := by
  cases h with
  | lease attempt worker expiry now ready =>
    rcases ready with ⟨hp, -⟩ | ⟨hp, hg⟩
    · rcases W with h | ⟨h, -⟩ <;> rw [hp] at h <;> cases h
    · rcases W with h | ⟨-, h⟩
      · rw [hp] at h
        cases h
      · omega
  | extend expiry now unit | release _ _ _ _ _ _ _ now _ unit =>
    rcases W with h | ⟨h, -⟩ <;> rcases unit with hu | hu <;> rw [hu] at h <;> cases h
  | start a expiry now holds unit | commit a r now holds unit | promote now unit | exhaust now unit
  | adopt attempt r now unit | setAside reason now unit =>
    rcases W with h | ⟨h, -⟩ <;> rw [unit] at h <;> cases h
  | cancel now => exact ⟨rfl, .inl rfl⟩
  | amend => exact ⟨rfl, W⟩

theorem Act.waits {k revision : Key} {n g : ℕ} (h : Act D (Guard.ungranted revision) db db')
    (L : Linked P db) (W : Waits k revision n g db) : Waits k revision n g db' := by
  obtain ⟨u, hu, rfl, hn, hg, hstate⟩ := W
  obtain ⟨u', s, g', hu', -, hg', change⟩ := h.unit_cases L hu
  obtain rfl : g' = g := Option.some.inj (hg'.symm.trans hg)
  rcases change with ⟨hgen, hcell | ⟨now, hroot⟩ | step⟩ | ⟨-, -, hgrant⟩
  · obtain rfl : u' = u := congrArg Cell.unit hcell
    exact ⟨u', hu', rfl, hn, hgen, hstate⟩
  · obtain rfl : u' = u.markRoot now := congrArg Cell.unit hroot
    exact ⟨_, hu', rfl, hn, hgen, hstate⟩
  · obtain ⟨hcount, hstate'⟩ := step.waits hstate
    exact ⟨u', hu', revisionId_of_identity step.identity_eq, hcount.trans hn, hgen, hstate'⟩
  · exact absurd rfl hgrant

theorem Acts.waits {k revision : Key} {n g : ℕ} (h : Acts D (Guard.ungranted revision) db db')
    (L : Linked (fun _ _ _ => True) db) (W : Waits k revision n g db) :
    Waits k revision n g db' := by
  induction h with
  | refl => exact W
  | tail acts act ih => exact act.waits (Acts.linked (any_rule _) acts L) ih

theorem step_waits {op : Op} {k revision : Key} {n g : ℕ} (L : Linked (fun _ _ _ => True) db)
    (hop : ¬ AcceptsRetry D db op revision) (W : Waits k revision n g db) :
    Waits k revision n g (step D db op) := by
  unfold step commit
  cases hdb : transact D db op with
  | error e => exact W
  | ok db' =>
    cases hretry : op.isRetry with
    | true =>
      obtain ⟨workloadId, note, key, version, now, rfl⟩ := Op.isRetry_iff.mp hretry
      rcases recordAttentionResolution_retry hdb with rfl | ⟨w, r, hw, hr, -, granted⟩
      · exact W
      · have hne : r ≠ revision := by
          rintro rfl
          refine hop ⟨workloadId, note, key, version, now, w, rfl, hw, hr, ?_⟩
          unfold step commit
          rw [hdb]
          simpa using granted.generation r
        refine Acts.waits (D := D) (recordAttentionResolution_acts (fun _ w' r' hw' hr' => ?_) hdb) L W
        rw [hw] at hw'
        cases hw'
        rw [hr] at hr'
        cases hr'
        exact hne
    | false =>
      refine Acts.waits (transact_acts ?_ hdb) L W
      unfold Op.meets
      split
      · exact fun _ _ => ⟨fun _ => trivial, fun _ _ _ => trivial⟩
      · exact fun _ _ _ _ _ _ _ _ => trivial
      · cases hretry
      · exact fun _ _ _ _ _ => roundsMeet_of_forall (fun _ _ _ => trivial) _ _ _ _ _
      · trivial
      · trivial

end

theorem run_waits (D : Digests) (ops later : List Op) {k revision : Key} {n g : ℕ}
    (W : Waits k revision n g (run D Store.empty ops))
    (none : ∀ mid op rest, later = mid ++ op :: rest →
      ¬ AcceptsRetry D (run D Store.empty (ops ++ mid)) op revision) :
    Waits k revision n g (run D Store.empty (ops ++ later)) := by
  induction later generalizing ops with
  | nil => simpa using W
  | cons op later ih =>
    have hstep := step_waits (run_any D ops) (by simpa using none [] op later rfl) W
    rw [← run_snoc] at hstep
    have := ih (ops ++ [op]) hstep fun mid op' rest h => by
      have := none (op :: mid) op' rest (by rw [h]; rfl)
      rwa [List.append_assoc, List.singleton_append]
    rwa [List.append_assoc, List.singleton_append] at this

/-! ## Attention is left only with the owner's authority -/

/-- Whatever moves a unit to attention in the step `op` after `before` leaves it with the
generation of its revision. -/
def EntersCurrent (D : Digests) (before : List Op) (op : Op) : Prop :=
  ∀ k u, EntersAttention (run D Store.empty before) (run D Store.empty (before ++ [op])) k u →
    (run D Store.empty (before ++ [op])).generation u.revisionId = some u.manualRetryGeneration

/-- A unit that moved to attention in the step `op` is not claimed later unless a retry was
accepted for its revision in between. -/
def WaitsForRetry (D : Digests) (before : List Op) (op : Op) (later : List Op) : Prop :=
  ∀ k u, EntersAttention (run D Store.empty before) (run D Store.empty (before ++ [op])) k u →
    (∀ mid op' rest, later = mid ++ op' :: rest →
      ¬ AcceptsRetry D (run D Store.empty (before ++ op :: mid)) op' u.revisionId) →
    ∃ v, (run D Store.empty (before ++ op :: later)).units.find? k = some v ∧
      v.attemptCount = u.attemptCount ∧ (v.state = .needsAttention ∨ v.state = .cancelled)

/-- In every run whose reuse conflicts set aside only units that have seen every retry, attention
is entered at the revision's generation and left only after an accepted retry. -/
theorem attention_waits_for_retry (D : Digests) (before : List Op) (op : Op) (later : List Op)
    (seen : Meets (transact D) (fun db op => op.conflictSeen D db) Store.empty
      (before ++ op :: later)) :
    EntersCurrent D before op ∧ WaitsForRetry D before op later := by
  have hop : op.conflictSeen D (run D Store.empty before) := (meets_append.mp seen).2.1
  have current : EntersCurrent D before op := by
    intro k u enters
    rw [run_snoc] at enters ⊢
    exact enters_generation (run_any D before) hop enters
  refine ⟨current, fun k u enters none => ?_⟩
  have W : Waits k u.revisionId u.attemptCount u.manualRetryGeneration
      (run D Store.empty (before ++ [op])) :=
    ⟨u, enters.unit, rfl, rfl, current k u enters, .inr ⟨enters.state, rfl⟩⟩
  have W' := run_waits D (before ++ [op]) later W (by simpa using none)
  rw [List.append_assoc, List.singleton_append] at W'
  obtain ⟨v, hv, -, hcount, -, hstate⟩ := W'
  exact ⟨v, hv, hcount, hstate.symm.imp_left And.left⟩

/-- Workload 1 leaves a result of 100 bytes for the content 7; workload 2, which may write 50, has
a unit for it and one for the content 3, which is running. -/
def conflictStart : List Op :=
  let first := sampleLease 1 1 sampleMap 100 7 1000 1 4 false
  let second := sampleLease 2 1 sampleMap 202 3 1001 1 13 false
  sampleStart 1 1 [sampleInventory, sampleMap] 1000 [7] ++
  [sampleClaim 1000 4, .markRunning first 5,
    .commitResult first ⟨"result/1", ⟨100, none⟩, 55⟩ [] ⟨1, 2000⟩ 6] ++
  sampleStart 2 10 [sampleInventory, sampleMap] 50 [7, 3] ++
  [sampleClaim 1001 13, .markRunning second 14]

/-- Its executor loses track of the call. -/
def conflictFailure : Op :=
  .failAttempt (sampleLease 2 1 sampleMap 202 3 1001 1 13 false) .executorUnknown .needsAttention
    false 15

/-- The failed unit waits for the owner, whatever a worker claims. -/
theorem attention_waits_after_failure :
    ((run sampleDigests Store.empty (conflictStart ++ [conflictFailure])).units.find?
      ⟨1, 202⟩).map UnitRow.state = some .needsAttention ∧
    WaitsForRetry sampleDigests conflictStart conflictFailure [sampleClaim 1003 18] :=
  ⟨by decide +kernel, (attention_waits_for_retry sampleDigests conflictStart conflictFailure [sampleClaim 1003 18]
    (meets_of_mem (by
      have noReuse : ∀ o ∈ conflictStart ++ conflictFailure :: [sampleClaim 1003 18],
          ∀ a r t, o ≠ .adoptReusableResult a r t := by
        simp [conflictStart, conflictFailure, sampleStart, sampleClaim]
      intro o ho db
      unfold Op.conflictSeen
      split
      · exact absurd rfl (noReuse _ ho _ _ _)
      · trivial) _)).2⟩

/-- The owner grants a retry; the unit of the content 7 is then set aside, because the earlier
result is too large, and claimed without another retry. -/
theorem conflict_reclaimed :
    ¬ EntersCurrent sampleDigests
        (conflictStart ++ [conflictFailure, .recordAttentionResolution ⟨1, 2⟩ .retry none 77 5 16])
        (.adoptReusableResult 1002 2001 17) ∧
    ¬ WaitsForRetry sampleDigests
        (conflictStart ++ [conflictFailure, .recordAttentionResolution ⟨1, 2⟩ .retry none 77 5 16])
        (.adoptReusableResult 1002 2001 17) [sampleClaim 1003 18, sampleClaim 1004 19] := by
  generalize hb : conflictStart ++
    [conflictFailure, .recordAttentionResolution ⟨1, 2⟩ .retry none 77 5 16] = before
  have pending : ((run sampleDigests Store.empty before).units.find? ⟨1, 201⟩).map
      UnitRow.state = some .pending := by
    subst hb
    decide +kernel
  have aside : ((run sampleDigests Store.empty
      (before ++ [.adoptReusableResult 1002 2001 17])).units.find? ⟨1, 201⟩).map
      (fun u => (u.state, u.revisionId, u.manualRetryGeneration, u.attemptCount)) =
      some (.needsAttention, ⟨1, 2⟩, 0, 0) := by
    subst hb
    decide +kernel
  have generation : (run sampleDigests Store.empty
      (before ++ [.adoptReusableResult 1002 2001 17])).generation ⟨1, 2⟩ = some 1 := by
    subst hb
    decide +kernel
  have claimed : ((run sampleDigests Store.empty (before ++ .adoptReusableResult 1002 2001 17 ::
      [sampleClaim 1003 18, sampleClaim 1004 19])).units.find? ⟨1, 201⟩).map
      UnitRow.attemptCount = some 1 := by
    subst hb
    decide +kernel
  clear hb
  obtain ⟨u, hu, hfacts⟩ := Option.map_eq_some_iff.mp aside
  simp only [Prod.mk.injEq] at hfacts
  obtain ⟨hstate, hrevision, hgen, hcount⟩ := hfacts
  have enters : EntersAttention (run sampleDigests Store.empty before)
      (run sampleDigests Store.empty (before ++ [.adoptReusableResult 1002 2001 17])) ⟨1, 201⟩ u := by
    refine ⟨hu, hstate, fun v hv hattention => ?_⟩
    rw [hv, Option.map_some, hattention] at pending
    cases pending
  constructor
  · intro h
    have := h ⟨1, 201⟩ u enters
    rw [hrevision, generation, hgen] at this
    cases this
  · intro h
    obtain ⟨v, hv, hvcount, -⟩ := h ⟨1, 201⟩ u enters fun mid op' rest heq hretry => by
      have hmem : op' ∈ [sampleClaim 1003 18, sampleClaim 1004 19] := by rw [heq]; simp
      have hop := hretry.isRetry
      simp only [List.mem_cons, List.not_mem_nil, or_false] at hmem
      rcases hmem with rfl | rfl <;> cases hop
    rw [hv, Option.map_some, hvcount, hcount] at claimed
    cases claimed

end Metnos.Durable
