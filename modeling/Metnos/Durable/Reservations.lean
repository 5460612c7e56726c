import Metnos.Durable.Ledger
import Metnos.Durable.Snapshots
import Metnos.Lib.Count

/-!
# Durable.Reservations — what a revision reserves for its active model attempts

`model_reservations` is recomputed from units, attempts and stages.  In a reachable store the
attempt that backs a reservation exists, so that a unit reserves the bound of its stage until its
usage is recorded or its lease ends; and the reservations of a revision are a sum over its units,
which only a claim can raise.
-/

namespace Metnos.Durable

open Transaction

/-! ## The worker of a lease -/

/-- The active attempt and its unit name the same worker. -/
def Cell.Owned (c : Cell) : Prop :=
  ∀ a ∈ c.attempts, c.unit.activeAttemptId = some a.id → c.unit.leaseWorkerId = some a.workerId

section
variable {s : Stage} {g : ℕ} {aside : UnitRow → Prop} {result : UnitRow → ResultRow → Prop}
  {c c' : Cell}

theorem Cell.Owned.update (O : c.Owned) {id : Key} {f : Attempt → Attempt} {u : UnitRow}
    {results : List ResultRow} (hi : ∀ a, (f a).id = a.id)
    (hw : ∀ a, (f a).workerId = a.workerId)
    (active : u.activeAttemptId = c.unit.activeAttemptId)
    (worker : u.leaseWorkerId = c.unit.leaseWorkerId) :
    Cell.Owned ⟨u, updateAttempt id f c.attempts, results⟩ := by
  intro b hb hactive
  obtain ⟨a, ha, rfl⟩ := mem_updateAttempt.mp hb
  have hid : (if a.id = id then f a else a).id = a.id := by split <;> simp [hi]
  have hworker : (if a.id = id then f a else a).workerId = a.workerId := by split <;> simp [hw]
  dsimp only at hactive ⊢
  rw [active, hid] at hactive
  rw [worker, hworker]
  exact O a ha hactive

theorem Cell.Owned.step (h : CellStep s g aside result c c') (O : c.Owned) : c'.Owned := by
  cases h with
  | lease attempt worker expiry now ready fresh =>
    intro a ha hactive
    have hid : attempt = a.id := Option.some.inj hactive
    rcases List.mem_append.mp ha with ha | ha
    · exact absurd hid.symm (fresh a ha)
    · rw [List.mem_singleton] at ha
      subst ha
      rfl
  | start a expiry now => exact O.update (fun _ => rfl) (fun _ => rfl) rfl rfl
  | amend a f holds keeps =>
    exact O.update (fun x => congrArg Prod.fst (keeps x))
      (fun x => congrArg (fun t => t.2.2.2.2.1) (keeps x)) rfl rfl
  | commit a r now => exact fun b _ hactive => by cases hactive
  | release a state cause target next error tokens now => exact fun b _ hactive => by cases hactive
  | adopt attempt r now unit count active =>
    intro a _ hactive
    have hnone : c.unit.activeAttemptId = some a.id := hactive
    rw [active] at hnone
    cases hnone
  | extend | promote | exhaust | cancel | setAside => exact O

end

theorem owned_rule (G : Guard) : CellRule G (fun _ _ c => c.Shape ∧ c.Owned) :=
  ⟨fun h => ⟨.of_fresh h, fun _ ha => by cases ha⟩, fun now S => ⟨S.1.root now, S.2⟩,
    fun _ h S => ⟨.step h S.1, .step h S.2⟩, fun _ S => S⟩

/-- The invariant under which reservations are read. -/
abbrev Backed (db : Store) : Prop := Linked (fun _ _ c => c.Shape ∧ c.Owned) db

/-! ## Which attempts become active -/

/-- Units and stages stay, and an attempt becomes active only when it is new. -/
structure Carried (db db' : Store) : Prop where
  stages : ∀ k s, db.stages.find? k = some s → db'.stages.find? k = some s
  units : ∀ k u, db.units.find? k = some u → ∃ u', db'.units.find? k = some u' ∧
    u'.stageId = u.stageId ∧ u'.revisionId = u.revisionId
  ids : ∀ k, ∀ a ∈ db.attemptsOf k, ∃ a' ∈ db'.attemptsOf k, a'.id = a.id
  active : ∀ k u' id, db'.units.find? k = some u' → u'.activeAttemptId = some id →
    (∃ u, db.units.find? k = some u ∧ u.activeAttemptId = some id) ∨
    ∀ a ∈ db.attemptsOf k, a.id ≠ id

theorem Carried.refl (db : Store) : Carried db db :=
  ⟨fun _ _ h => h, fun _ u h => ⟨u, h, rfl, rfl⟩, fun _ a ha => ⟨a, ha, rfl⟩,
    fun _ u _ hu hid => .inl ⟨u, hu, hid⟩⟩

theorem Carried.trans {a b c : Store} (h : Carried a b) (h' : Carried b c) : Carried a c := by
  refine ⟨fun k s hs => h'.stages k s (h.stages k s hs), fun k u hu => ?_, fun k x hx => ?_,
    fun k u'' id hu'' hid => ?_⟩
  · obtain ⟨u', hu', hs, hr⟩ := h.units k u hu
    obtain ⟨u'', hu'', hs', hr'⟩ := h'.units k u' hu'
    exact ⟨u'', hu'', hs'.trans hs, hr'.trans hr⟩
  · obtain ⟨y, hy, hxy⟩ := h.ids k x hx
    obtain ⟨z, hz, hyz⟩ := h'.ids k y hy
    exact ⟨z, hz, hyz.trans hxy⟩
  · rcases h'.active k u'' id hu'' hid with ⟨u', hu', hid'⟩ | hnew
    · exact h.active k u' id hu' hid'
    · refine .inr fun x hx hxid => ?_
      obtain ⟨y, hy, hyx⟩ := h.ids k x hx
      exact hnew y hy (hyx.trans hxid)

section
variable {D : Digests} {G : Guard} {P : Stage → ℕ → Cell → Prop} {db db' : Store}

theorem CellStep.carries {s : Stage} {g : ℕ} {aside : UnitRow → Prop}
    {result : UnitRow → ResultRow → Prop} {c c' : Cell} (h : CellStep s g aside result c c') :
    (∀ a ∈ c.attempts, ∃ a' ∈ c'.attempts, a'.id = a.id) ∧
    ∀ id, c'.unit.activeAttemptId = some id →
      c.unit.activeAttemptId = some id ∨ ∀ a ∈ c.attempts, a.id ≠ id := by
  have updated : ∀ {j : Key} {f : Attempt → Attempt}, (∀ a, (f a).id = a.id) →
      ∀ a ∈ c.attempts, ∃ a' ∈ updateAttempt j f c.attempts, a'.id = a.id := by
    intro j f hf a ha
    refine ⟨_, mem_updateAttempt.mpr ⟨a, ha, rfl⟩, ?_⟩
    split
    · exact hf a
    · rfl
  cases h with
  | lease attempt worker expiry now ready fresh =>
    refine ⟨fun a ha => ⟨a, List.mem_append_left _ ha, rfl⟩, fun id hid => .inr ?_⟩
    have hattempt : attempt = id := Option.some.inj hid
    exact hattempt ▸ fresh
  | start a expiry now => exact ⟨updated fun _ => rfl, fun id hid => .inl hid⟩
  | amend a f holds keeps =>
    exact ⟨updated fun x => congrArg Prod.fst (keeps x), fun id hid => .inl hid⟩
  | commit a r now => exact ⟨updated fun _ => rfl, fun id hid => by cases hid⟩
  | release a state cause target next error tokens now =>
    exact ⟨updated fun _ => rfl, fun id hid => by cases hid⟩
  | adopt attempt r now =>
    exact ⟨fun a ha => ⟨a, List.mem_append_left _ ha, rfl⟩, fun id hid => .inl hid⟩
  | extend | promote | exhaust | cancel | setAside =>
    exact ⟨fun a ha => ⟨a, ha, rfl⟩, fun id hid => .inl hid⟩

theorem Act.carried (h : Act D G db db') (L : Linked P db) : Carried db db' := by
  have keeps : db'.attempts = db.attempts →
      ∀ k, ∀ a ∈ db.attemptsOf k, ∃ a' ∈ db'.attemptsOf k, a'.id = a.id := by
    intro heq k a ha
    refine ⟨a, ?_, rfl⟩
    rw [Store.attemptsOf, heq]
    exact ha
  cases h with
  | cells frame old new =>
    have step : ∀ k u u', db.units.find? k = some u → CellChange G db db' u u' →
        db'.cell u' = db.cell u ∨ ∃ s g, CellStep s g (G.aside db) G.result (db.cell u) (db'.cell u') := by
      intro k u u' hu change
      obtain ⟨s, g, hs, hg, -⟩ := L.cells hu
      exact change.imp_right fun step => ⟨s, g, step s g hs hg⟩
    refine ⟨fun k s hs => by rw [frame.stages]; exact hs, fun k u hu => ?_, fun k a ha => ?_,
      fun k u' id hu' hid => ?_⟩
    · obtain ⟨u', hu', change⟩ := old k u hu
      refine ⟨u', hu', ?_⟩
      rcases step k u u' hu change with hcell | ⟨s, g, hstep⟩
      · obtain rfl : u' = u := congrArg Cell.unit hcell
        exact ⟨rfl, rfl⟩
      · have hid : u'.identity = u.identity := hstep.identity_eq
        exact ⟨stageId_of_identity hid, revisionId_of_identity hid⟩
    · cases hu : db.units.find? k with
      | none =>
        rw [(new k hu).2.1]
        exact ⟨a, ha, rfl⟩
      | some u =>
        obtain ⟨u', hu', change⟩ := old k u hu
        have hk : u.id = k := Table.key_of_find? hu
        have hk' : u'.id = k := Table.key_of_find? hu'
        have hcell : (db.cell u).attempts = db.attemptsOf k := by rw [Store.cell, hk]
        have hcell' : (db'.cell u').attempts = db'.attemptsOf k := by rw [Store.cell, hk']
        rcases step k u u' hu change with heq | ⟨s, g, hstep⟩
        · refine ⟨a, ?_, rfl⟩
          rw [← hcell', heq, hcell]
          exact ha
        · rw [← hcell']
          exact hstep.carries.1 a (hcell ▸ ha)
    · cases hu : db.units.find? k with
      | none =>
        rw [(new k hu).1] at hu'
        cases hu'
      | some u =>
        obtain ⟨v, hv, change⟩ := old k u hu
        obtain rfl : u' = v := Option.some.inj (hu'.symm.trans hv)
        have hk : u.id = k := Table.key_of_find? hu
        have hcell : (db.cell u).attempts = db.attemptsOf k := by rw [Store.cell, hk]
        rcases step k u u' hu change with heq | ⟨s, g, hstep⟩
        · obtain rfl : u' = u := congrArg Cell.unit heq
          exact .inl ⟨u', rfl, hid⟩
        · rcases hstep.carries.2 id hid with hact | hnew
          · exact .inl ⟨u, rfl, hact⟩
          · exact .inr (hcell ▸ hnew)
  | grant revision allowed blocked granted =>
    refine ⟨fun k s hs => by rw [granted.stages]; exact hs, fun k u hu => ⟨u, ?_, rfl, rfl⟩,
      keeps granted.attempts, fun k u id hu hid => .inl ⟨u, ?_, hid⟩⟩
    · rw [granted.units]
      exact hu
    · rw [granted.units] at hu
      exact hu
  | round m cursor next revision allowed done =>
    have R := materializeRound_cells done
    refine ⟨fun k s hs => by rw [R.stages]; exact hs, fun k u hu => ?_, keeps R.attempts,
      fun k u' id hu' hid => ?_⟩
    · obtain ⟨u', hu', rfl | rfl⟩ := R.old k u hu
      · exact ⟨u', hu', rfl, rfl⟩
      · exact ⟨_, hu', rfl, rfl⟩
    · cases hu : db.units.find? k with
      | none =>
        rw [(R.new k u' hu hu').1.active] at hid
        cases hid
      | some u =>
        obtain ⟨v, hv, hcase⟩ := R.old k u hu
        obtain rfl : u' = v := Option.some.inj (hu'.symm.trans hv)
        rcases hcase with rfl | rfl
        · exact .inl ⟨u', rfl, hid⟩
        · exact .inl ⟨u, rfl, hid⟩
  | admitted ids workloadId adm now allowed valid done =>
    have A := insertRevisionRows_admitted done
    refine ⟨fun k s hs => A.stage_old hs, fun k u hu => ⟨u, A.unit_old hu, rfl, rfl⟩,
      keeps A.attempts, fun k u id hu hid => ?_⟩
    rcases A.unit_cases hu with hold | ⟨s, hs, j, source, rfl⟩
    · exact .inl ⟨u, hold, hid⟩
    · cases hid

theorem Acts.carried (h : Acts D G db db') (L : Linked (fun _ _ _ => True) db) : Carried db db' := by
  induction h with
  | refl => exact .refl db
  | tail pre last ih => exact ih.trans (last.carried (Acts.linked (any_rule G) pre L))

end

/-! ## Reservations as a sum over units -/

def reservedTokens (db : Store) (revision : Key) : ℕ :=
  ((modelReservations db revision).map Prod.snd).sum

def reserves (db : Store) (revision : Key) (u : UnitRow) : ℕ :=
  ((modelReservation db revision u).map Prod.snd).getD 0

theorem reservedTokens_eq (db : Store) (revision : Key) :
    reservedTokens db revision = (db.units.rows.map (reserves db revision)).sum := by
  unfold reservedTokens modelReservations
  induction db.units.rows with
  | nil => rfl
  | cons u l ih =>
    rw [List.map_cons, List.sum_cons, ← ih, List.filterMap_cons, reserves]
    cases modelReservation db revision u with
    | none => simp
    | some x => simp

/-- The unit `u` reserves for its open attempt `a`, under the stage `s` of the revision. -/
structure Reserving (db : Store) (r : Key) (u : UnitRow) (s : Stage) (a : Attempt) : Prop where
  stage : db.stages.find? u.stageId = some s
  revision : u.revisionId = r
  stageRevision : s.revisionId = r
  model : s.usesModel = true
  active : u.activeAttemptId = some a.id
  attempt : db.attempts.find? a.id = some a
  unit : a.unitId = u.id
  ended : a.endedAt = none

section
variable {db db' : Store} {r k : Key} {u : UnitRow} {s : Stage} {a : Attempt}

theorem Backed.reserving (L : Backed db) (hu : db.units.find? k = some u)
    (active : u.activeAttemptId = some a.id) (attempt : db.attempts.find? a.id = some a) :
    (u.state = .leased ∨ u.state = .running) ∧ a.unitId = u.id ∧ a.endedAt = none ∧
    reservingAttempt db u = some a := by
  obtain ⟨s, g, -, -, S, O⟩ := L.cells hu
  obtain ⟨hstate, b, hb, hid, hend, hfence, hattempt⟩ := S.held_state active
  obtain ⟨hmem, hunit⟩ := mem_attemptsOf.mp hb
  have hab : a = b := by
    have hfind : db.attempts.find? b.id = some b := Table.find?_of_mem hmem
    rw [hid, attempt] at hfind
    exact Option.some.inj hfind
  subst hab
  refine ⟨hstate, hunit, hend, ?_⟩
  have hworker : u.leaseWorkerId = some a.workerId := O a hb active
  have hopen : a.state = .leased ∨ a.state = .running := by
    rw [Store.cell_unit] at hattempt hstate
    rcases hstate with h | h
    · rw [h] at hattempt
      exact .inl (Option.some.inj hattempt).symm
    · rw [h] at hattempt
      exact .inr (Option.some.inj hattempt).symm
  simp only [reservingAttempt, active, Option.bind_eq_bind, Option.bind_some, attempt]
  exact if_pos ⟨hunit, hfence, hworker, hopen, hend⟩

theorem Reserving.reserves_eq (R : Reserving db r u s a) (L : Backed db)
    (hu : db.units.find? k = some u) :
    reserves db r u = if usageAccounted a then 0 else s.modelMaxTokens.getD 0 := by
  obtain ⟨hstate, -, -, hback⟩ := L.reserving hu R.active R.attempt
  unfold reserves modelReservation
  simp only [R.stage, Option.bind_eq_bind, Option.bind_some]
  rw [if_pos ⟨R.revision, R.stageRevision, R.model, hstate⟩, hback]
  rfl

theorem reserves_cases (L : Backed db) (hu : db.units.find? k = some u) :
    reserves db r u = 0 ∨ ∃ s a, Reserving db r u s a := by
  by_cases hzero : reserves db r u = 0
  · exact .inl hzero
  refine .inr ?_
  unfold reserves modelReservation at hzero
  cases hs : db.stages.find? u.stageId with
  | none => simp [hs] at hzero
  | some s =>
    simp only [hs, Option.bind_eq_bind, Option.bind_some] at hzero
    split at hzero
    · rename_i hcond
      obtain ⟨hr, hsr, hmodel, hstate⟩ := hcond
      obtain ⟨-, g, -, -, S, -⟩ := L.cells hu
      obtain ⟨id, hid⟩ := Option.isSome_iff_exists.mp (S.leased.active_isSome hstate)
      obtain ⟨-, a, ha, hid', hend, -⟩ := S.held_state hid
      obtain ⟨hmem, hunit⟩ := mem_attemptsOf.mp ha
      exact ⟨s, a, hs, hr, hsr, hmodel, by rw [hid']; exact hid, Table.find?_of_mem hmem, hunit,
        hend⟩
    · simp at hzero

/-- The attempt that backs the reservation of the unit `k` was there before, and stays
accounted. -/
def KeepsAccount (r : Key) (db db' : Store) (k : Key) : Prop :=
  ∀ u s a', db'.units.find? k = some u → Reserving db' r u s a' →
    ∃ a, db.attempts.find? a'.id = some a ∧ a.unitId = a'.unitId ∧
      (usageAccounted a = true → usageAccounted a' = true)

theorem usageAccounted_model {a a' : Attempt} (h : a'.model = a.model) :
    usageAccounted a' = usageAccounted a := by
  have hsnap : a'.modelSnapshot = a.modelSnapshot := congrArg (fun t => t.2.1) h
  have husage : a'.metrics.llmUsage = a.metrics.llmUsage := congrArg (fun t => t.2.2) h
  rw [usageAccounted, usageAccounted, hsnap, husage]

theorem SameModels.keepsAccount (M : SameModels db db') (r k : Key) : KeepsAccount r db db' k := by
  intro u s a' _ R
  cases hold : db.attempts.find? a'.id with
  | none => exact absurd R.ended (M.new _ a' hold R.attempt).2
  | some a =>
    obtain ⟨b, hb, hmodel, -⟩ := M.old _ a hold
    obtain rfl : a' = b := Option.some.inj (R.attempt.symm.trans hb)
    refine ⟨a, rfl, (congrArg Prod.fst hmodel).symm, fun h => ?_⟩
    rw [usageAccounted_model hmodel]
    exact h

theorem Reserving.back {u' : UnitRow} {a' : Attempt} (R : Reserving db' r u' s a') (L : Backed db)
    (C : Carried db db') (hu' : db'.units.find? k = some u')
    (ha : db.attempts.find? a'.id = some a) (unit : a.unitId = a'.unitId) :
    ∃ u, db.units.find? k = some u ∧ Reserving db r u s a := by
  have hid : a.id = a'.id := Table.key_of_find? ha
  have hk : u'.id = k := Table.key_of_find? hu'
  rcases C.active k u' a'.id hu' R.active with ⟨u, hu, hactive⟩ | hnew
  · obtain ⟨v, hv, hstage, hrevision⟩ := C.units k u hu
    obtain rfl : u' = v := Option.some.inj (hu'.symm.trans hv)
    obtain ⟨s₀, g, hs₀, -⟩ := L.cells hu
    have hs : s₀ = s := by
      have hfind := C.stages _ _ hs₀
      rw [← hstage, R.stage] at hfind
      exact (Option.some.inj hfind).symm
    have hactive' : u.activeAttemptId = some a.id := by rw [hid]; exact hactive
    have ha' : db.attempts.find? a.id = some a := by rw [hid]; exact ha
    obtain ⟨-, hunit, hend, -⟩ := L.reserving hu hactive' ha'
    exact ⟨u, hu, hs ▸ hs₀, hrevision ▸ R.revision, R.stageRevision, R.model, hactive', ha', hunit,
      hend⟩
  · refine absurd hid (hnew a (mem_attemptsOf.mpr ⟨Table.mem_of_find? ha, ?_⟩))
    rw [unit, R.unit, hk]

theorem KeepsAccount.weight_le (K : KeepsAccount r db db' k) (L : Backed db) (L' : Backed db')
    (C : Carried db db') :
    Count.weightAt db'.units (reserves db' r) k ≤ Count.weightAt db.units (reserves db r) k := by
  cases hu' : db'.units.find? k with
  | none =>
    rw [Count.weightAt_of_none hu']
    exact Nat.zero_le _
  | some u' =>
    rw [Count.weightAt_of_find hu']
    rcases reserves_cases (r := r) L' hu' with hzero | ⟨s, a', R⟩
    · rw [hzero]
      exact Nat.zero_le _
    · obtain ⟨a, ha, hunit, hacc⟩ := K u' s a' hu' R
      obtain ⟨u, hu, R₀⟩ := R.back L C hu' ha hunit
      rw [Count.weightAt_of_find hu, R.reserves_eq L' hu', R₀.reserves_eq L hu]
      by_cases h : usageAccounted a = true
      · rw [if_pos (hacc h)]
        exact Nat.zero_le _
      · rw [if_neg h]
        split
        · exact Nat.zero_le _
        · exact Nat.le_refl _

theorem reserved_le (K : ∀ k, KeepsAccount r db db' k) (L : Backed db) (L' : Backed db')
    (C : Carried db db') : reservedTokens db' r ≤ reservedTokens db r := by
  rw [reservedTokens_eq, reservedTokens_eq]
  exact Count.sum_rows_le r 0 0 fun k => Nat.add_le_add ((K k).weight_le L L' C) (Nat.le_refl _)

end

end Metnos.Durable
