import Metnos.Durable.System

/-!
# Durable.Refine.Core — row updates and settlement as acts

`Durable.Refine` shows that every transaction is a sequence of acts, one lemma for each store
function.  Here: the functions that write only workloads, usage or commands (`SameCore`), the
compare-and-sets on one unit and its active attempt, and settlement.
-/

namespace Metnos.Durable

open Transaction

@[simp] theorem require_ok {e : StoreError} {b : Bool} {x : Unit} :
    require e b = .ok x ↔ b = true := by
  unfold require
  split <;> simp_all

@[simp] theorem orRaise_ok {α : Type} {e : StoreError} {o : Option α} {a : α} :
    orRaise e o = .ok a ↔ o = some a := by
  cases o <;> simp [orRaise]

/-! ## Writes outside the protocol tables -/

/-- Nothing that an act looks at changed. -/
structure SameCore (db db' : Store) : Prop where
  frame : SameFrame db db'
  units : db'.units = db.units
  attempts : db'.attempts = db.attempts
  results : db'.results = db.results

theorem SameFrame.refl (db : Store) : SameFrame db db := ⟨rfl, rfl, rfl, rfl, fun _ => rfl⟩

theorem SameFrame.trans {a b c : Store} (h : SameFrame a b) (h' : SameFrame b c) :
    SameFrame a c :=
  ⟨h'.stages.trans h.stages, h'.sources.trans h.sources, h'.cursors.trans h.cursors,
    h'.unitDependencies.trans h.unitDependencies,
    fun r => (h'.generation r).trans (h.generation r)⟩

theorem SameCore.refl (db : Store) : SameCore db db := ⟨.refl db, rfl, rfl, rfl⟩

theorem SameCore.trans {a b c : Store} (h : SameCore a b) (h' : SameCore b c) : SameCore a c :=
  ⟨h.frame.trans h'.frame, h'.units.trans h.units, h'.attempts.trans h.attempts,
    h'.results.trans h.results⟩

theorem SameCore.cell {db db' : Store} (h : SameCore db db') (u : UnitRow) :
    db'.cell u = db.cell u := by
  unfold Store.cell Store.attemptsOf Store.resultsOf
  rw [h.attempts, h.results]

section
variable {D : Digests} {G : Guard} {db db' : Store}

theorem SameCore.act (h : SameCore db db') : Act D G db db' := by
  refine .cells h.frame (fun k u hu => ⟨u, by rw [h.units]; exact hu, .inl (h.cell u)⟩) ?_
  intro k hk
  unfold Store.attemptsOf Store.resultsOf
  rw [h.units, h.attempts, h.results]
  exact ⟨hk, rfl, rfl⟩

theorem SameCore.acts (h : SameCore db db') : Acts D G db db' := .single h.act

theorem casWorkload_core {k : Key} {p : Workload → Bool} {f : Workload → Workload}
    {hf : ∀ w, (f w).id = w.id} (h : casWorkload db k p f hf = .ok db') : SameCore db db' := by
  unfold casWorkload at h
  split at h
  · cases h
    exact ⟨⟨rfl, rfl, rfl, rfl, fun _ => rfl⟩, rfl, rfl, rfl⟩
  · cases h

theorem appendEvent_core {k : Key} {type : EventType} {payload : EventPayload}
    (h : appendEvent db k type payload = .ok db') : SameCore db db' := by
  unfold appendEvent at h
  simp only [bind_eq_ok, pure_eq_ok] at h
  obtain ⟨w, -, workloads, -, -, -, rfl⟩ := h
  exact ⟨⟨rfl, rfl, rfl, rfl, fun _ => rfl⟩, rfl, rfl, rfl⟩

theorem updateUsage_core {k : Key} {f : RevisionUsage → RevisionUsage}
    {hf : ∀ x, (f x).revisionId = x.revisionId} (h : updateUsage db k f hf = .ok db') :
    SameCore db db' := by
  unfold updateUsage at h
  split at h
  · cases h
    exact ⟨⟨rfl, rfl, rfl, rfl, fun _ => rfl⟩, rfl, rfl, rfl⟩
  · cases h

theorem advanceRevisionClock_core {k : Key} {now : ℕ}
    (h : advanceRevisionClock db k now = .ok db') : SameCore db db' := updateUsage_core h

theorem generation_updateWhere {p : Revision → Bool} {f : Revision → Revision}
    {hf : ∀ r, (f r).id = r.id} (hg : ∀ r, (f r).manualRetryGeneration = r.manualRetryGeneration)
    (k : Key) :
    Store.generation { db with revisions := db.revisions.updateWhere p f hf } k =
      db.generation k := by
  unfold Store.generation
  rw [Table.find?_updateWhere]
  cases db.revisions.find? k with
  | none => rfl
  | some r => by_cases hp : p r <;> simp [hp, hg]

theorem addRevisionUsage_core {k : Key} {inc : UsageIncrement}
    (h : addRevisionUsage db k inc = .ok db') : SameCore db db' := by
  unfold addRevisionUsage at h
  simp only [bind_eq_ok, orRaise_ok, require_ok] at h
  obtain ⟨row, -, x, -, db1, h1, h2⟩ := h
  have core := updateUsage_core h1
  split at h2
  · simp only [pure_eq_ok] at h2
    exact h2 ▸ core
  · simp only [pure_eq_ok] at h2
    subst h2
    refine core.trans ⟨⟨rfl, rfl, rfl, rfl, ?_⟩, rfl, rfl, rfl⟩
    exact generation_updateWhere (fun _ => rfl)

theorem markUnaccounted_core {k : Key} {a : Attempt} {b : Bool}
    (h : markUnaccountedModelUsageUnknown db k a = .ok (b, db')) : SameCore db db' := by
  unfold markUnaccountedModelUsageUnknown at h
  split at h
  · cases h; exact .refl _
  · split at h
    · cases h; exact .refl _
    · simp only [bind_eq_ok, pure_eq_ok, Prod.mk.injEq] at h
      obtain ⟨db1, h1, -, rfl⟩ := h
      exact addRevisionUsage_core h1

theorem markReleasedUsage_core {k : Key} {a : Attempt} {before b : Bool}
    (h : markReleasedUsage db before k a = .ok (b, db')) : SameCore db db' := by
  unfold markReleasedUsage at h
  split at h
  · cases h; exact .refl _
  · exact markUnaccounted_core h

theorem updateState_core {k : Key} {source target : WorkloadState} {v now : ℕ}
    (h : updateState db k source target v now = .ok db') : SameCore db db' := by
  unfold updateState at h
  simp only [bind_eq_ok] at h
  obtain ⟨db1, h1, h2⟩ := h
  have core := casWorkload_core h1
  split at h2
  · simp only [pure_eq_ok] at h2
    exact h2 ▸ core
  · simp only [bind_eq_ok] at h2
    obtain ⟨w, -, revision, -, h3⟩ := h2
    exact core.trans (updateUsage_core h3)

theorem automaticWorkloadTransition_core {w : Workload} {target : WorkloadState} {now : ℕ}
    (h : automaticWorkloadTransition db w target now = .ok db') : SameCore db db' := by
  unfold automaticWorkloadTransition at h
  simp only [bind_eq_ok] at h
  obtain ⟨-, -, db1, h1, type, -, h2⟩ := h
  exact (updateState_core h1).trans (appendEvent_core h2)

theorem startQueuedWorkload_core {w : Workload} {now : ℕ}
    (h : startQueuedWorkload db w now = .ok db') : SameCore db db' := by
  unfold startQueuedWorkload at h
  split at h
  · cases h; exact .refl _
  · simp only [bind_eq_ok] at h
    obtain ⟨db1, h1, h2⟩ := h
    exact (casWorkload_core h1).trans (appendEvent_core h2)

theorem creditSelection_core (k : Key) : SameCore db (creditSelection db k) :=
  ⟨⟨rfl, rfl, rfl, rfl, fun _ => rfl⟩, rfl, rfl, rfl⟩

theorem recordCommand_core (k : Key) (key : ℕ) (payload : CommandPayload) :
    SameCore db (recordCommand db k key payload) :=
  ⟨⟨rfl, rfl, rfl, rfl, fun _ => rfl⟩, rfl, rfl, rfl⟩

theorem insertResultDependencies_core (child : Key)
    (rows : List (UnitDependency × ResultRow × UnitRow)) :
    SameCore db (insertResultDependencies db child rows) := by
  unfold insertResultDependencies
  induction rows generalizing db with
  | nil => exact .refl db
  | cons row rows ih =>
    rw [List.foldl_cons]
    refine SameCore.trans ?_ ih
    exact ⟨⟨rfl, rfl, rfl, rfl, fun _ => rfl⟩, rfl, rfl, rfl⟩

/-! ## One cell at a time -/

theorem casUnit_ok {k : Key} {p : UnitRow → Bool} {f : UnitRow → UnitRow}
    {hf : ∀ u, (f u).id = u.id} (h : casUnit db k p f hf = .ok db') :
    ∃ u, db.units.find? k = some u ∧ p u = true ∧
      db' = { db with units := db.units.updateWhere (fun x => x.id = k) f hf } := by
  unfold casUnit at h
  split at h
  · rename_i units hu
    obtain ⟨u, h1, h2, rfl⟩ := Table.cas_some hu
    cases h
    exact ⟨u, h1, h2, rfl⟩
  · cases h

theorem casAttempt_ok {k : Key} {p : Attempt → Bool} {f : Attempt → Attempt}
    {hf : ∀ a, (f a).id = a.id} (h : casAttempt db k p f hf = .ok db') :
    ∃ a, db.attempts.find? k = some a ∧ p a = true ∧
      db' = { db with attempts := db.attempts.updateWhere (fun x => x.id = k) f hf } := by
  unfold casAttempt at h
  split at h
  · rename_i attempts ha
    obtain ⟨a, h1, h2, rfl⟩ := Table.cas_some ha
    cases h
    exact ⟨a, h1, h2, rfl⟩
  · cases h

theorem mem_attemptsOf {k : Key} {a : Attempt} :
    a ∈ db.attemptsOf k ↔ a ∈ db.attempts.rows ∧ a.unitId = k := by
  simp [Store.attemptsOf]

theorem attemptsOf_update {id k : Key} {f : Attempt → Attempt} (hf : ∀ a, (f a).id = a.id)
    (hu : ∀ a, (f a).unitId = a.unitId) :
    Store.attemptsOf { db with attempts := db.attempts.updateWhere (fun x => x.id = id) f hf } k =
      updateAttempt id f (db.attemptsOf k) := by
  unfold Store.attemptsOf updateAttempt
  dsimp only
  rw [Table.filter_updateWhere hf (fun a => by simp [hu])]
  simp

theorem updateAttempt_of_not_mem {id : Key} {f : Attempt → Attempt} {l : List Attempt}
    (h : ∀ a ∈ l, a.id ≠ id) : updateAttempt id f l = l := by
  unfold updateAttempt
  conv_rhs => rw [← List.map_id l]
  exact List.map_congr_left fun a ha => by simp [h a ha]

theorem updateAttempt_other {id k : Key} {f : Attempt → Attempt} {a : Attempt}
    (ha : db.attempts.find? id = some a) (hk : k ≠ a.unitId) :
    updateAttempt id f (db.attemptsOf k) = db.attemptsOf k := by
  refine updateAttempt_of_not_mem fun b hb hid => hk ?_
  obtain ⟨hb1, hb2⟩ := mem_attemptsOf.mp hb
  have : db.attempts.find? id = some b := Table.find?_eq_some.mpr ⟨hb1, hid⟩
  rw [ha] at this
  cases this
  exact hb2.symm

theorem Act.one {k : Key} {u : UnitRow} (u' : UnitRow) (frame : SameFrame db db')
    (hu : db.units.find? k = some u) (hu' : db'.units.find? k = some u')
    (units : ∀ j, j ≠ k → db'.units.find? j = db.units.find? j)
    (attempts : ∀ j, j ≠ k → db'.attemptsOf j = db.attemptsOf j)
    (results : ∀ j, j ≠ k → db'.resultsOf j = db.resultsOf j)
    (change : ∀ s g, db.stages.find? u.stageId = some s → db.generation u.revisionId = some g →
      CellStep s g (G.aside db) G.result (db.cell u) (db'.cell u')) : Act D G db db' := by
  refine .cells frame (fun j v hv => ?_) (fun j hj => ?_)
  · by_cases hjk : j = k
    · subst hjk
      rw [hu] at hv
      cases hv
      exact ⟨u', hu', .inr change⟩
    · refine ⟨v, by rw [units j hjk]; exact hv, .inl ?_⟩
      have hid : v.id = j := Table.key_of_find? hv
      unfold Store.cell
      rw [hid, attempts j hjk, results j hjk]
  · have hjk : j ≠ k := by rintro rfl; rw [hu] at hj; cases hj
    exact ⟨by rw [units j hjk]; exact hj, attempts j hjk, results j hjk⟩

theorem holds_of_find {k : Key} {u : UnitRow} {a : Attempt} (hu : db.units.find? k = some u)
    (ha : a ∈ db.attempts.rows) (hau : a.unitId = k) (active : u.activeAttemptId = some a.id)
    (fence : a.fence = u.fence) (ended : a.endedAt = none) : (db.cell u).Holds a := by
  refine ⟨mem_attemptsOf.mpr ⟨ha, ?_⟩, active, fence, ended⟩
  rw [hau, Table.key_of_find? hu]

theorem Act.unitAttempt {k id : Key} {u : UnitRow} {a : Attempt} {f : Attempt → Attempt}
    {fu : UnitRow → UnitRow} (hf : ∀ a, (f a).id = a.id) (hfu : ∀ u, (fu u).id = u.id)
    (hu : db.units.find? k = some u) (ha : db.attempts.find? id = some a) (hau : a.unitId = k)
    (keeps : ∀ x, (f x).unitId = x.unitId)
    (change : ∀ s g, db.stages.find? u.stageId = some s → db.generation u.revisionId = some g →
      CellStep s g (G.aside db) G.result (db.cell u)
        ⟨fu u, updateAttempt a.id f (db.cell u).attempts, (db.cell u).results⟩) :
    Act D G db { db with
      attempts := db.attempts.updateWhere (fun x => x.id = id) f hf
      units := db.units.updateWhere (fun x => x.id = k) fu hfu } := by
  have hid : a.id = id := Table.key_of_find? ha
  have huk : u.id = k := Table.key_of_find? hu
  refine .one _ ⟨rfl, rfl, rfl, rfl, fun _ => rfl⟩ hu (Table.find?_update_self hfu hu)
    (fun j hj => Table.find?_update_ne hfu hj) (fun j hj => ?_) (fun _ _ => rfl) ?_
  · rw [← updateAttempt_other (f := f) ha (k := j) (by rw [hau]; exact hj)]
    exact attemptsOf_update hf keeps
  · intro s g hs hg
    have := change s g hs hg
    rw [hid] at this
    convert this using 1
    unfold Store.cell
    rw [hfu, huk]
    congr 1
    exact attemptsOf_update hf keeps

theorem Act.unitOnly {k : Key} {u : UnitRow} {fu : UnitRow → UnitRow}
    {hfu : ∀ u, (fu u).id = u.id} (hu : db.units.find? k = some u)
    (change : ∀ s g, db.stages.find? u.stageId = some s → db.generation u.revisionId = some g →
      CellStep s g (G.aside db) G.result (db.cell u) ⟨fu u, (db.cell u).attempts, (db.cell u).results⟩) :
    Act D G db { db with units := db.units.updateWhere (fun x => x.id = k) fu hfu } := by
  refine .one _ ⟨rfl, rfl, rfl, rfl, fun _ => rfl⟩ hu (Table.find?_update_self hfu hu)
    (fun j hj => Table.find?_update_ne hfu hj) (fun _ _ => rfl) (fun _ _ => rfl) ?_
  intro s g hs hg
  convert change s g hs hg using 1
  unfold Store.cell
  rw [hfu]
  rfl

theorem Act.unitsWhere {p : UnitRow → Bool} {fu : UnitRow → UnitRow}
    {hfu : ∀ u, (fu u).id = u.id}
    (change : ∀ u, u ∈ db.units.rows → p u = true → ∀ s g, db.stages.find? u.stageId = some s →
      db.generation u.revisionId = some g →
      CellStep s g (G.aside db) G.result (db.cell u) ⟨fu u, (db.cell u).attempts, (db.cell u).results⟩) :
    Act D G db { db with units := db.units.updateWhere p fu hfu } := by
  refine .cells ⟨rfl, rfl, rfl, rfl, fun _ => rfl⟩ (fun k u hu => ?_) (fun k hk => ?_)
  · refine ⟨if p u then fu u else u, Table.find?_updateWhere_of_some hfu hu, ?_⟩
    by_cases hp : p u = true
    · rw [if_pos hp]
      refine .inr fun s g hs hg => ?_
      convert change u (Table.mem_of_find? hu) hp s g hs hg using 1
      unfold Store.cell
      rw [hfu]
      rfl
    · rw [if_neg hp]
      exact .inl rfl
  · refine ⟨?_, rfl, rfl⟩
    rw [Table.find?_updateWhere, hk]
    rfl

/-! ## Settlement -/

theorem waiting_iff {revision : Key} {u : UnitRow} : waiting revision u = true ↔
    u.revisionId = revision ∧
    (u.state = .pending ∨ u.state = .retryWait ∨ u.state = .needsAttention) ∧
    u.activeAttemptId = none := by
  simp [waiting, Bool.and_eq_true, Bool.or_eq_true, or_assoc, and_assoc]

theorem cancelWaitingUnits_act (revision : Key) (now limit : ℕ) :
    Act D G db (cancelWaitingUnits db revision now limit).2 := by
  refine Act.unitsWhere fun u _ hp s g _ _ => ?_
  rw [Bool.and_eq_true, waiting_iff] at hp
  obtain ⟨⟨-, state, active⟩, -⟩ := hp
  exact .cancel now state active

theorem exhausted_iff {revision : Key} {u : UnitRow} : exhausted db revision u = true ↔
    u.revisionId = revision ∧ u.state = .pending ∧ u.manualRetryTokens = 0 ∧
    ∃ s, db.stages.find? u.stageId = some s ∧ s.revisionId = revision ∧
      s.retry.maxAttempts ≤ u.attemptCount := by
  unfold exhausted
  cases db.stages.find? u.stageId with
  | none => simp
  | some s => simp [Bool.and_eq_true, and_assoc]

theorem repairExhaustedUnits_act (revision : Key) (now limit : ℕ) :
    Act D G db (repairExhaustedUnits db revision now limit).2 := by
  unfold repairExhaustedUnits
  cases hr : db.revisions.find? revision with
  | none => exact (SameCore.refl db).act
  | some r =>
    refine Act.unitsWhere fun u _ hp s g hs hg => ?_
    rw [Bool.and_eq_true, exhausted_iff] at hp
    obtain ⟨⟨rfl, state, tokens, s', hs', -, count⟩, -⟩ := hp
    rw [hs] at hs'
    cases hs'
    simp only [Store.generation, hr, Option.map_some, Option.some.injEq] at hg
    subst hg
    exact .exhaust now state tokens count

theorem settleCancelRequested_acts {w : Workload} {revision : Key} {now limit n : ℕ}
    (h : settleCancelRequested db w revision now limit = .ok (n, db')) : Acts D G db db' := by
  unfold settleCancelRequested at h
  refine .head (cancelWaitingUnits_act revision now limit) ?_
  revert h
  generalize cancelWaitingUnits db revision now limit = x
  obtain ⟨m, db1⟩ := x
  intro h
  simp only at h
  split at h
  · simp only [pure_eq_ok, Prod.mk.injEq] at h
    exact h.2 ▸ .refl
  · simp only [bind_eq_ok, pure_eq_ok, Prod.mk.injEq] at h
    obtain ⟨db2, h1, -, rfl⟩ := h
    exact (automaticWorkloadTransition_core h1).acts

theorem settleFailures_acts {w : Workload} {r : Revision} {e now limit n : ℕ}
    (h : settleFailures db w r e now limit = .ok (n, db')) : Acts D G db db' := by
  unfold settleFailures at h
  split at h
  · refine .head (cancelWaitingUnits_act r.id now limit) ?_
    revert h
    generalize cancelWaitingUnits db r.id now limit = x
    obtain ⟨m, db1⟩ := x
    intro h
    simp only at h
    split at h
    · simp only [pure_eq_ok, Prod.mk.injEq] at h
      exact h.2 ▸ .refl
    · simp only [bind_eq_ok, pure_eq_ok, Prod.mk.injEq] at h
      obtain ⟨db2, h1, -, rfl⟩ := h
      exact (automaticWorkloadTransition_core h1).acts
  · split at h
    · simp only [bind_eq_ok, pure_eq_ok, Prod.mk.injEq] at h
      obtain ⟨db2, h1, -, rfl⟩ := h
      exact (automaticWorkloadTransition_core h1).acts
    · simp only [pure_eq_ok, Prod.mk.injEq] at h
      exact h.2 ▸ .refl

theorem settleAttention_acts {w : Workload} {revision : Key} {e now limit n : ℕ}
    (h : settleAttention db w revision e now limit = .ok (n, db')) : Acts D G db db' := by
  unfold settleAttention at h
  split at h
  · simp only [pure_eq_ok, Prod.mk.injEq] at h
    exact h.2 ▸ .refl
  split at h
  · simp only [bind_eq_ok, pure_eq_ok, Prod.mk.injEq] at h
    obtain ⟨db2, h1, -, rfl⟩ := h
    exact (automaticWorkloadTransition_core h1).acts
  · simp only [bind_eq_ok, orRaise_ok] at h
    obtain ⟨r, -, h⟩ := h
    split at h
    · simp only [bind_eq_ok, pure_eq_ok, Prod.mk.injEq] at h
      obtain ⟨db2, h1, -, rfl⟩ := h
      exact (automaticWorkloadTransition_core h1).acts
    · exact settleFailures_acts h

theorem settle_acts {k : Key} {now limit n : ℕ} {repair : Bool}
    (h : settle db k now repair limit = .ok (n, db')) : Acts D G db db' := by
  unfold settle at h
  simp only [bind_eq_ok] at h
  obtain ⟨w, -, h⟩ := h
  split at h
  · simp only [pure_eq_ok, Prod.mk.injEq] at h
    exact h.2 ▸ .refl
  · rename_i revision _
    split at h
    · simp only [pure_eq_ok] at h
      have act : Act D G db (cancelWaitingUnits db revision now limit).2 :=
        cancelWaitingUnits_act revision now limit
      rw [h] at act
      exact .single act
    split at h
    · simp only [pure_eq_ok, Prod.mk.injEq] at h
      exact h.2 ▸ .refl
    split at h
    · exact settleCancelRequested_acts h
    split at h
    · simp only [bind_eq_ok, pure_eq_ok, Prod.mk.injEq] at h
      obtain ⟨db2, h1, -, rfl⟩ := h
      exact (automaticWorkloadTransition_core h1).acts
    split at h
    · refine .head (repairExhaustedUnits_act revision now limit) ?_
      revert h
      generalize repairExhaustedUnits db revision now limit = x
      obtain ⟨m, db1⟩ := x
      intro h
      simp only at h
      split at h
      · simp only [pure_eq_ok, Prod.mk.injEq] at h
        exact h.2 ▸ .refl
      · exact settleAttention_acts h
    · exact settleAttention_acts h

end

end Metnos.Durable
