import Mathlib
import Metnos.Durable.Capacity
import Metnos.Durable.Reservations

/-!
# Durable.Tokens — recorded and reserved tokens stay within the budget

A claim of a model stage is admitted only when its frozen bound fits beside what is recorded and
reserved; recording a usage turns a reservation into at most as many tokens; and whatever ends a
lease without exact usage marks the accounting as unknown.
-/

namespace Metnos.Durable

open Transaction

/-! ## Contracts -/

/-- The most tokens an attempt under the contract can use. -/
def ModelContract.maxTokens (m : ModelContract) : ℕ :=
  m.maxCalls * (m.maxInputTokens + m.maxOutputTokens)

/-- The snapshot carries the limits of the stage's catalog entry. -/
def Stage.carries (s : Stage) : ModelSnapshot → Prop
  | .llm m => s.usesModel = true ∧ s.modelMaxTokens = some m.maxTokens
  | .unbound _ => s.usesModel = false

/-- A plan stage with a row in `model_limits`. -/
def PlanStage.usesModel (s : PlanStage) : Bool :=
  decide (0 < s.resources.llm) || decide (0 < s.resources.vlm)

/-- In the revision `r`, model stages are admitted with a bounded contract, and the recorded
snapshots carry its limits. -/
def Op.contracted (r : Key) (db : Store) : Op → Prop
  | .admitRevision _ _ adm _ _ => adm.revisionId = r →
      ∀ s ∈ adm.plan.stages, s.usesModel = true → s.modelMaxTokens.isSome = true
  | .recordExecutionFacts lease _ model _ _ _ => ∀ u, db.units.find? lease.unitId = some u →
      u.revisionId = r → ∀ s, db.stages.find? u.stageId = some s → s.carries model
  | _ => True

instance (s : Stage) : ∀ m, Decidable (s.carries m)
  | .llm m => inferInstanceAs (Decidable (s.usesModel = true ∧ s.modelMaxTokens = some m.maxTokens))
  | .unbound _ => inferInstanceAs (Decidable (s.usesModel = false))

instance (r : Key) (db : Store) : ∀ op : Op, Decidable (op.contracted r db)
  | .admitRevision _ _ adm _ _ => (inferInstance : Decidable (adm.revisionId = r →
      ∀ s ∈ adm.plan.stages, s.usesModel = true → s.modelMaxTokens.isSome = true))
  | .recordExecutionFacts lease _ model _ _ _ => (inferInstance :
      Decidable (∀ u ∈ db.units.find? lease.unitId, u.revisionId = r →
        ∀ s ∈ db.stages.find? u.stageId, s.carries model))
  | .createDraft .. | .transitionWorkload .. | .control .. | .settleWorkload ..
  | .evaluateCompletion .. | .refreshUsageComplete .. | .recordArtifacts ..
  | .adoptReusableResult .. | .claimNext .. | .markRunning .. | .heartbeat ..
  | .executionInputs .. | .recordAttemptUsage .. | .commitResult .. | .failAttempt ..
  | .abandonAttempt .. | .reconcileExpired .. | .recordAttentionResolution ..
  | .materializeReadyUnits .. => isTrue trivial

theorem usage_le_maxTokens {u : ModelUsage} {m : ModelContract}
    (valid : validatedAttemptUsage u = true) (bound : validateUsageAgainstModelSnapshot u m = true) :
    u.inputTokens + u.outputTokens ≤ m.maxTokens := by
  simp only [validatedAttemptUsage, Bool.and_eq_true, decide_eq_true_eq] at valid
  obtain ⟨⟨⟨⟨⟨⟨-, hin⟩, hout⟩, -⟩, -⟩, -⟩, -⟩ := valid
  simp only [validateUsageAgainstModelSnapshot, Bool.and_eq_true, decide_eq_true_eq,
    List.all_eq_true] at bound
  obtain ⟨⟨-, hcalls⟩, hrecords⟩ := bound
  have input : (u.records.map (fun c => c.inTokens.getD 0)).sum ≤
      u.records.length * m.maxInputTokens := by
    have h := List.sum_le_card_nsmul (u.records.map (fun c => c.inTokens.getD 0)) m.maxInputTokens
      (fun x hx => by
        obtain ⟨c, hc, rfl⟩ := List.mem_map.mp hx
        exact (hrecords c hc).1.1.2)
    rwa [List.length_map, smul_eq_mul] at h
  have output : (u.records.map (fun c => c.outTokens.getD 0)).sum ≤
      u.records.length * m.maxOutputTokens := by
    have h := List.sum_le_card_nsmul (u.records.map (fun c => c.outTokens.getD 0)) m.maxOutputTokens
      (fun x hx => by
        obtain ⟨c, hc, rfl⟩ := List.mem_map.mp hx
        exact (hrecords c hc).1.2)
    rwa [List.length_map, smul_eq_mul] at h
  calc u.inputTokens + u.outputTokens
      ≤ u.records.length * m.maxInputTokens + u.records.length * m.maxOutputTokens := by
        rw [hin, hout]
        exact Nat.add_le_add input output
    _ = u.records.length * (m.maxInputTokens + m.maxOutputTokens) := (Nat.mul_add ..).symm
    _ ≤ m.maxCalls * (m.maxInputTokens + m.maxOutputTokens) :=
        Nat.mul_le_mul_right _ (by omega)

/-! ## Recorded tokens -/

/-- The token counters of the revision `r` are those before, or its own first ones. -/
structure Metered (r : Key) (db db' : Store) : Prop where
  forth : ∀ R, db.revisions.find? r = some R → ∃ R', db'.revisions.find? r = some R'
  back : ∀ x' R', db'.usage.find? r = some x' → db'.revisions.find? r = some R' →
    x'.usageUnknown = false →
    (∃ x R, db.usage.find? r = some x ∧ db.revisions.find? r = some R ∧ x.usageUnknown = false ∧
      x'.inputTokens = x.inputTokens ∧ x'.outputTokens = x.outputTokens ∧
      R'.budgets = R.budgets) ∨
    (db.revisions.find? r = none ∧ x'.inputTokens = 0 ∧ x'.outputTokens = 0)

section
variable {D : Digests} {op : Op} {r : Key} {db db' : Store}

theorem Metered.refl (r : Key) (db : Store) : Metered r db db :=
  ⟨fun R hR => ⟨R, hR⟩, fun x R hx hR hu => .inl ⟨x, R, hx, hR, hu, rfl, rfl, rfl⟩⟩

theorem Metered.trans {a b c : Store} (h : Metered r a b) (h' : Metered r b c) : Metered r a c := by
  refine ⟨fun R hR => ?_, fun x'' R'' hx'' hR'' hu'' => ?_⟩
  · obtain ⟨R', hR'⟩ := h.forth R hR
    exact h'.forth R' hR'
  · rcases h'.back x'' R'' hx'' hR'' hu'' with ⟨x', R', hx', hR', hu', hi', ho', hb'⟩ | ⟨hnone, hzero⟩
    · rcases h.back x' R' hx' hR' hu' with ⟨x, R, hx, hR, hu, hi, ho, hb⟩ | ⟨hnone, hi, ho⟩
      · exact .inl ⟨x, R, hx, hR, hu, hi'.trans hi, ho'.trans ho, hb'.trans hb⟩
      · exact .inr ⟨hnone, hi'.trans hi, ho'.trans ho⟩
    · refine .inr ⟨?_, hzero⟩
      cases hR : a.revisions.find? r with
      | none => rfl
      | some R =>
        obtain ⟨R', hR'⟩ := h.forth R hR
        rw [hnone] at hR'
        cases hR'

theorem TokensKept.metered (T : TokensKept db db') (F : SameFacts db db') (r : Key) :
    Metered r db db' := by
  refine ⟨fun R hR => ?_, fun x' R' hx' hR' hu' => .inl ?_⟩
  · obtain ⟨R', hR', -⟩ := F.revision_forth hR
    exact ⟨R', hR'⟩
  · obtain ⟨R, hR, hfrozen⟩ := F.revision_back hR'
    have hbudgets : R'.frozen.budgets = R.frozen.budgets := congrArg Revision.budgets hfrozen
    have htokens := T.tokens r
    rw [hx', Option.map_some, eq_comm, Option.map_eq_some_iff] at htokens
    obtain ⟨x, hx, heq⟩ := htokens
    simp only [Prod.mk.injEq] at heq
    refine ⟨x, R, hx, hR, ?_, heq.1.symm, heq.2.symm, hbudgets⟩
    cases hu : x.usageUnknown with
    | false => rfl
    | true =>
      rw [T.unknown r x x' hx hx' hu] at hu'
      cases hu'

theorem insertRevisionRows_usage {ids : FreshIds} {k : Key} {adm : Admission} {now : ℕ}
    (h : insertRevisionRows D ids db k adm now = .ok db') :
    (∃ R, R.id = adm.revisionId ∧ db.revisions.insert? R = some db'.revisions) ∧
    db.usage.insert? ⟨adm.revisionId, 0, 0, 0, 0, 0, 0, false, none, none⟩ = some db'.usage := by
  unfold insertRevisionRows at h
  simp only [bind_eq_ok, orRaise_ok] at h
  obtain ⟨revisions, hrev, usage, husage, db1, h1, db2, h2, db3, h3, h4⟩ := h
  have initial : ∀ {source : Option Source} {l : List Stage} {a b : Store},
      l.foldlM (insertInitialUnit D ids now source) a = .ok b →
      b.revisions = a.revisions ∧ b.usage = a.usage := by
    intro source l a b hab
    refine foldlM_invariant (I := fun x => x.revisions = a.revisions ∧ x.usage = a.usage)
      (fun s _ x y hxy hI => ?_) hab ⟨rfl, rfl⟩
    obtain ⟨-, units, -, rfl⟩ := insertUnit_ok hxy
    exact hI
  have stages : db1.revisions = revisions ∧ db1.usage = usage := by
    refine foldlM_invariant (I := fun x => x.revisions = revisions ∧ x.usage = usage)
      (fun s _ x y hxy hI => ?_) h1 ⟨rfl, rfl⟩
    unfold insertStage at hxy
    simp only [bind_eq_ok, pure_eq_ok] at hxy
    obtain ⟨stages, -, rfl⟩ := hxy
    exact hI
  have sources : db2.revisions = revisions ∧ db2.usage = usage := by
    refine foldlM_invariant (I := fun x => x.revisions = revisions ∧ x.usage = usage)
      (fun item _ x y hxy hI => ?_) h2 stages
    unfold insertSource at hxy
    simp only [bind_eq_ok] at hxy
    obtain ⟨-, -, sources, -, hxy⟩ := hxy
    obtain ⟨a1, a2⟩ := initial hxy
    exact ⟨a1.trans hI.1, a2.trans hI.2⟩
  obtain ⟨b1, b2⟩ := initial h3
  have cursors : db'.revisions = revisions ∧ db'.usage = usage := by
    refine foldlM_invariant (I := fun x => x.revisions = revisions ∧ x.usage = usage)
      (fun s _ x y hxy hI => ?_) h4 ⟨b1.trans sources.1, b2.trans sources.2⟩
    unfold insertCursor at hxy
    simp only [bind_eq_ok, pure_eq_ok] at hxy
    obtain ⟨cursors, -, rfl⟩ := hxy
    exact hI
  rw [cursors.1, cursors.2]
  exact ⟨⟨_, rfl, hrev⟩, husage⟩

theorem admitted_metered {ids : FreshIds} {k : Key} {adm : Admission} {now : ℕ}
    (h : insertRevisionRows D ids db k adm now = .ok db') (r : Key) : Metered r db db' := by
  obtain ⟨⟨R₀, hid, hrev⟩, husage⟩ := insertRevisionRows_usage h
  by_cases hr : r = adm.revisionId
  · have hnone : db.revisions.find? r = none := by
      rw [hr, ← hid]
      exact (Table.insert?_some hrev).1
    refine ⟨fun R hR => ?_, fun x' R' hx' _ _ => .inr ⟨hnone, ?_⟩⟩
    · rw [hnone] at hR
      cases hR
    · have hself := Table.find?_insert?_self husage
      rw [hr] at hx'
      obtain rfl := Option.some.inj (hself.symm.trans hx')
      exact ⟨rfl, rfl⟩
  · have hsame : db'.revisions.find? r = db.revisions.find? r :=
      Table.find?_insert?_ne hrev (by rw [hid]; exact hr)
    have husame : db'.usage.find? r = db.usage.find? r := Table.find?_insert?_ne husage hr
    refine ⟨fun R hR => ⟨R, by rw [hsame]; exact hR⟩, fun x' R' hx' hR' hu' => .inl ?_⟩
    rw [husame] at hx'
    rw [hsame] at hR'
    exact ⟨x', R', hx', hR', hu', rfl, rfl, rfl⟩

theorem Write.metered (h : Write D op db db') (hop : op.recordsUsage = false) (r : Key) :
    Metered r db db' := by
  cases h with
  | quiet history facts results tokens => exact (tokens hop).metered facts r
  | result x recorded history facts tokens => exact tokens.metered facts r
  | draft k drafted facts results tokens => exact tokens.metered facts r
  | move k w w' moved facts results tokens => exact tokens.metered facts r
  | admitted ids k adm v now admits valid history results done => exact admitted_metered done r

theorem Writes.metered (h : Writes D op db db') (hop : op.recordsUsage = false) (r : Key) :
    Metered r db db' := by
  induction h with
  | refl => exact .refl r db
  | tail _ write ih => exact ih.trans (write.metered hop r)

end

/-! ## The invariant -/

structure TokenBound (r : Key) (db : Store) : Prop where
  backed : Backed db
  counted : Counted db
  /-- Every model stage has a bounded contract. -/
  bounded : ∀ s ∈ db.stages.rows, s.revisionId = r → s.usesModel = true →
    s.modelMaxTokens.isSome = true
  /-- The recorded snapshots carry the limits of their stage. -/
  frozen : ∀ a ∈ db.attempts.rows, ∀ u s m, db.units.find? a.unitId = some u → u.revisionId = r →
    db.stages.find? u.stageId = some s → a.modelSnapshot = .llm m → s.carries (.llm m)
  within : ∀ x R, db.usage.find? r = some x → db.revisions.find? r = some R →
    x.usageUnknown = false →
    x.inputTokens + x.outputTokens + reservedTokens db r ≤ R.budgets.maxTokens

theorem Linked.mono {P Q : Stage → ℕ → Cell → Prop} {db : Store} (h : ∀ s g c, P s g c → Q s g c)
    (L : Linked P db) : Linked Q db :=
  ⟨fun hu => by
    obtain ⟨s, g, hs, hg, hP⟩ := L.cells hu
    exact ⟨s, g, hs, hg, h s g _ hP⟩, L.orphans⟩

section
variable {D : Digests} {op : Op} {r : Key} {db db' : Store}

theorem Backed.any (L : Backed db) : Linked (fun _ _ _ => True) db := L.mono fun _ _ _ _ => trivial

theorem reservedTokens_of_none (L : Backed db) (h : db.revisions.find? r = none) :
    reservedTokens db r = 0 := by
  rw [reservedTokens_eq]
  refine List.sum_eq_zero fun n hn => ?_
  obtain ⟨u, hu, rfl⟩ := List.mem_map.mp hn
  have hfind : db.units.find? u.id = some u := Table.find?_of_mem hu
  rcases reserves_cases (r := r) L hfind with hzero | ⟨s, a, R⟩
  · exact hzero
  · obtain ⟨s', g, -, hg, -⟩ := L.cells hfind
    rw [R.revision, Store.generation, h] at hg
    cases hg

/-- The budget after a step that neither records tokens nor raises the reservations by more than
`n`, for which there is room. -/
theorem TokenBound.room (B : TokenBound r db) (M : Metered r db db') {n : ℕ}
    (reserved : reservedTokens db' r ≤ reservedTokens db r + n)
    (room : ∀ x R, db.usage.find? r = some x → db.revisions.find? r = some R →
      x.usageUnknown = false →
      x.inputTokens + x.outputTokens + reservedTokens db r + n ≤ R.budgets.maxTokens)
    (none : db.revisions.find? r = none → n = 0) :
    ∀ x R, db'.usage.find? r = some x → db'.revisions.find? r = some R →
      x.usageUnknown = false →
      x.inputTokens + x.outputTokens + reservedTokens db' r ≤ R.budgets.maxTokens := by
  intro x' R' hx' hR' hu'
  rcases M.back x' R' hx' hR' hu' with ⟨x, R, hx, hR, hu, hi, ho, hb⟩ | ⟨hnone, hi, ho⟩
  · have h := room x R hx hR hu
    rw [hi, ho, hb]
    omega
  · have hzero := reservedTokens_of_none B.backed hnone
    rw [none hnone] at reserved
    omega

theorem Write.bounded (h : Write D op db db')
    (hop : ∀ ids k adm v now, op = .admitRevision ids k adm v now → adm.revisionId = r →
      ∀ s ∈ adm.plan.stages, s.usesModel = true → s.modelMaxTokens.isSome = true)
    (B : ∀ s ∈ db.stages.rows, s.revisionId = r → s.usesModel = true →
      s.modelMaxTokens.isSome = true) :
    ∀ s ∈ db'.stages.rows, s.revisionId = r → s.usesModel = true →
      s.modelMaxTokens.isSome = true := by
  cases h with
  | quiet history facts => rw [facts.stages]; exact B
  | result x recorded history facts => rw [facts.stages]; exact B
  | draft k drafted facts => rw [facts.stages]; exact B
  | move k w w' moved facts => rw [facts.stages]; exact B
  | admitted ids k adm v now admits valid history results done =>
    have A := insertRevisionRows_admitted done
    intro s hs hrev hmodel
    rw [A.stages] at hs
    rcases List.mem_append.mp hs with hs | hs
    · exact B s hs hrev hmodel
    · obtain ⟨i, p, hi, rfl⟩ := mem_stageRows_iff.mp hs
      exact hop ids k adm v now admits hrev p (List.mem_of_getElem? hi) hmodel

theorem transact_bounded (h : transact D db op = .ok db') (hop : op.contracted r db)
    (B : TokenBound r db) : ∀ s ∈ db'.stages.rows, s.revisionId = r → s.usesModel = true →
      s.modelMaxTokens.isSome = true := by
  have writes : Writes D op db db' := transact_writes h
  have admits : ∀ ids k adm v now, op = .admitRevision ids k adm v now → adm.revisionId = r →
      ∀ s ∈ adm.plan.stages, s.usesModel = true → s.modelMaxTokens.isSome = true := by
    rintro ids k adm v now rfl
    exact hop
  clear h hop
  induction writes with
  | refl => exact B.bounded
  | tail _ write ih => exact write.bounded admits ih

/-- The model of an attempt is bound by what was recorded before. -/
def SnapshotsKept (db db' : Store) : Prop :=
  ∀ a' ∈ db'.attempts.rows, ∀ m, a'.modelSnapshot = .llm m →
    ∃ a ∈ db.attempts.rows, a.unitId = a'.unitId ∧ a.modelSnapshot = .llm m

theorem SameModels.snapshots (M : SameModels db db') : SnapshotsKept db db' := by
  intro a' ha' m hm
  have hfind := Table.find?_of_mem ha'
  cases hold : db.attempts.find? a'.id with
  | none =>
    rw [(M.new _ a' hold hfind).1] at hm
    cases hm
  | some a =>
    obtain ⟨b, hb, hmodel, -⟩ := M.old _ a hold
    obtain rfl : a' = b := Option.some.inj (hfind.symm.trans hb)
    have hsnap : a'.modelSnapshot = a.modelSnapshot := congrArg (fun t => t.2.1) hmodel
    exact ⟨a, Table.mem_of_find? hold, (congrArg Prod.fst hmodel).symm, hsnap.symm.trans hm⟩

theorem TokenBound.frozen_of_kept (B : TokenBound r db) (C : Carried db db')
    (K : SnapshotsKept db db') : ∀ a ∈ db'.attempts.rows, ∀ u s m,
      db'.units.find? a.unitId = some u → u.revisionId = r → db'.stages.find? u.stageId = some s →
      a.modelSnapshot = .llm m → s.carries (.llm m) := by
  intro a' ha' u' s' m hu' hrev hs' hm
  obtain ⟨a, hmem, hunit, hsnap⟩ := K a' ha' m hm
  cases hu : db.units.find? a.unitId with
  | none =>
    have hnil := (B.backed.orphans hu).1
    have hown : a ∈ db.attemptsOf a.unitId := mem_attemptsOf.mpr ⟨hmem, rfl⟩
    rw [hnil] at hown
    cases hown
  | some u =>
    obtain ⟨v, hv, hstage, hrevision⟩ := C.units _ u hu
    rw [← hunit] at hu'
    obtain rfl : u' = v := Option.some.inj (hu'.symm.trans hv)
    obtain ⟨s, g, hs, -⟩ := B.backed.cells hu
    have hss : s = s' := by
      have hfind := C.stages _ _ hs
      rw [← hstage, hs'] at hfind
      exact (Option.some.inj hfind).symm
    subst hss
    exact B.frozen a hmem u s m hu (hrevision ▸ hrev) hs hsnap

/-! ## Operations that leave the model facts alone -/

theorem TokenBound.keep (B : TokenBound r db) (acts : Acts D Guard.none db db')
    (models : SameModels db db') (metered : Metered r db db')
    (bounded : ∀ s ∈ db'.stages.rows, s.revisionId = r → s.usesModel = true →
      s.modelMaxTokens.isSome = true) : TokenBound r db' := by
  have backed : Backed db' := acts.linked (owned_rule Guard.none) B.backed
  have carried : Carried db db' := acts.carried B.backed.any
  refine ⟨backed, acts.counted B.backed.any B.counted, bounded,
    B.frozen_of_kept carried models.snapshots, ?_⟩
  exact B.room metered (reserved_le (fun k => models.keepsAccount r k) B.backed backed carried)
    B.within (fun _ => rfl)

theorem TokenBound.quiet (B : TokenBound r db) (hop : op.contracted r db)
    (model : op.writesModel = false) (h : transact D db op = .ok db') : TokenBound r db' := by
  have usage : op.recordsUsage = false := by
    cases op <;> first | rfl | cases model
  exact B.keep (transact_acts (Op.meets_none D db op) h) (transact_models model h)
    ((transact_writes h).metered usage r) (transact_bounded h hop B)

/-! ## Recorded facts -/

theorem find_casAttempt {k : Key} {p : Attempt → Bool} {f : Attempt → Attempt}
    {hf : ∀ a, (f a).id = a.id} {db1 : Store} (h : casAttempt db k p f hf = .ok db1)
    {j : Key} {a' : Attempt} (ha' : db1.attempts.find? j = some a') :
    ∃ a, db.attempts.find? j = some a ∧ ((j = k ∧ a' = f a) ∨ (j ≠ k ∧ a' = a)) := by
  obtain ⟨b, -, -, rfl⟩ := casAttempt_ok h
  dsimp only at ha'
  obtain ⟨a, ha, heq⟩ := Table.find?_updateWhere_some ha'
  refine ⟨a, ha, ?_⟩
  have hid : a.id = j := Table.key_of_find? ha
  by_cases hj : j = k
  · exact .inl ⟨hj, by rw [← heq, if_pos (by simp [hid, hj])]⟩
  · exact .inr ⟨hj, by rw [← heq, if_neg (by simp [hid, hj])]⟩

theorem TokenBound.facts (B : TokenBound r db) {lease : Lease} {executor : ExecutorSnapshot}
    {model : ModelSnapshot} {deviceId invocationId : Option ℕ} {now : ℕ}
    (hop : (Op.recordExecutionFacts lease executor model deviceId invocationId now).contracted r db)
    (h : transact D db (.recordExecutionFacts lease executor model deviceId invocationId now) =
      .ok db') : TokenBound r db' := by
  have acts : Acts D Guard.none db db' := transact_acts (Op.meets_none D db _) h
  have backed : Backed db' := acts.linked (owned_rule Guard.none) B.backed
  have carried : Carried db db' := acts.carried B.backed.any
  have metered : Metered r db db' := (transact_writes h).metered rfl r
  have counted := acts.counted B.backed.any B.counted
  have bounded := transact_bounded h hop B
  obtain ⟨status, h⟩ := stored_ok h
  obtain rfl | ⟨row, a₀, F, h⟩ := withLease_ok h
  · exact B
  split at h
  · cases h; exact B
  split at h
  · cases h; exact B
  simp only [bind_eq_ok] at h
  obtain ⟨expiry, -, h⟩ := h
  split at h
  · cases h; exact B
  simp only [bind_eq_ok, pure_eq_ok, Prod.mk.injEq] at h
  obtain ⟨-, -, -, -, -, -, db1, h1, db2, h2, -, rfl⟩ := h
  have core := advanceRevisionClock_core h2
  obtain ⟨-, -, -, heq⟩ := casAttempt_ok h1
  have units : db2.units = db.units := by rw [core.units, heq]
  have stages : db2.stages = db.stages := by rw [core.frame.stages, heq]
  refine ⟨backed, counted, bounded, ?_, ?_⟩
  · intro a' ha' u s m hu hrev hs hm
    have hfind : db1.attempts.find? a'.id = some a' := by
      rw [← core.attempts]
      exact Table.find?_of_mem ha'
    rw [units] at hu
    rw [stages] at hs
    obtain ⟨a, ha, ⟨hid, rfl⟩ | ⟨-, rfl⟩⟩ := find_casAttempt h1 hfind
    · rw [hid] at ha
      obtain rfl : a = a₀ := Option.some.inj (ha.symm.trans F.attempt)
      have hunit : db.units.find? lease.unitId = some u := by
        rw [← F.attemptUnit]
        exact hu
      have hcarries := hop u hunit hrev s hs
      rw [show model = .llm m from hm] at hcarries
      exact hcarries
    · exact B.frozen a' (Table.mem_of_find? ha) u s m hu hrev hs hm
  · refine B.room metered (reserved_le (fun k => ?_) B.backed backed carried) B.within
      (fun _ => rfl)
    intro u s a' hu R
    have hfind : db1.attempts.find? a'.id = some a' := by
      rw [← core.attempts]
      exact R.attempt
    obtain ⟨a, ha, ⟨hid, rfl⟩ | ⟨-, rfl⟩⟩ := find_casAttempt h1 hfind
    · refine ⟨a, ha, rfl, fun hacc => ?_⟩
      rw [hid] at ha
      obtain rfl : a = a₀ := Option.some.inj (ha.symm.trans F.attempt)
      -- on a model stage the recorded snapshot binds a model
      have hku : u.id = k := Table.key_of_find? hu
      have hunit : lease.unitId = k := by
        rw [← F.attemptUnit, ← hku]
        exact R.unit
      rw [units] at hu
      have hs := R.stage
      rw [stages] at hs
      have hcarries := hop u (hunit ▸ hu) R.revision s hs
      cases model with
      | unbound digest =>
        have hmodel : s.usesModel = false := hcarries
        rw [R.model] at hmodel
        cases hmodel
      | llm m =>
        unfold usageAccounted at hacc ⊢
        split at hacc
        · cases hacc
        · exact hacc
    · exact ⟨a', ha, rfl, fun hacc => hacc⟩

/-! ## Recorded usage -/

theorem usage_recorded {k : Key} {inc : UsageIncrement} {now : ℕ} {db1 db2 : Store}
    (h1 : addRevisionUsage db k inc = .ok db1) (h2 : advanceRevisionClock db1 k now = .ok db2)
    {x' : RevisionUsage} (hx' : db2.usage.find? r = some x') :
    ∃ x, db.usage.find? r = some x ∧
      (r = k → x'.inputTokens = x.inputTokens + inc.inputTokens ∧
        x'.outputTokens = x.outputTokens + inc.outputTokens ∧
        x'.usageUnknown = (x.usageUnknown || inc.usageUnknown)) ∧
      (r ≠ k → x'.inputTokens = x.inputTokens ∧ x'.outputTokens = x.outputTokens ∧
        x'.usageUnknown = x.usageUnknown) := by
  obtain ⟨revisions, rfl, -⟩ := addRevisionUsage_ok h1
  obtain rfl := updateUsage_ok h2
  dsimp only at hx'
  obtain ⟨y, hy, rfl⟩ := Table.find?_updateWhere_some hx'
  obtain ⟨x, hx, rfl⟩ := Table.find?_updateWhere_some hy
  have hid : x.revisionId = r := Table.key_of_find? hx
  refine ⟨x, hx, fun hr => ?_, fun hr => ?_⟩
  · simp [hid, hr, RevisionUsage.add]
  · simp [hid, hr]

theorem TokenBound.usage (B : TokenBound r db) {lease : Lease} {usage : ModelUsage} {now : ℕ}
    (h : transact D db (.recordAttemptUsage lease usage now) = .ok db') : TokenBound r db' := by
  have acts : Acts D Guard.none db db' := transact_acts (Op.meets_none D db _) h
  have backed : Backed db' := acts.linked (owned_rule Guard.none) B.backed
  have carried : Carried db db' := acts.carried B.backed.any
  have counted := acts.counted B.backed.any B.counted
  have bounded := transact_bounded h trivial B
  obtain ⟨status, h⟩ := stored_ok h
  unfold recordAttemptUsage at h
  simp only [bind_eq_ok, require_ok] at h
  obtain ⟨-, valid, h⟩ := h
  obtain rfl | ⟨row, a₀, F, h⟩ := withLease_ok h
  · exact B
  split at h
  · cases h; exact B
  split at h
  · cases h; exact B
  simp only [bind_eq_ok] at h
  obtain ⟨expiry, -, h⟩ := h
  split at h
  · cases h; exact B
  split at h
  · cases h
  rename_i m hsnap
  simp only [bind_eq_ok, require_ok] at h
  obtain ⟨-, bound, h⟩ := h
  split at h
  · simp only [bind_eq_ok, pure_eq_ok, Prod.mk.injEq] at h
    obtain ⟨-, -, -, rfl⟩ := h
    exact B
  rename_i hnone
  simp only [bind_eq_ok, pure_eq_ok, Prod.mk.injEq] at h
  obtain ⟨db1, h1, db2, h2, db3, h3, -, rfl⟩ := h
  have core := (addRevisionUsage_core h2).trans (advanceRevisionClock_core h3)
  obtain ⟨-, -, -, heq⟩ := casAttempt_ok h1
  have units : db3.units = db.units := by rw [core.units, heq]
  have stages : db3.stages = db.stages := by rw [core.frame.stages, heq]
  have back : ∀ {a' : Attempt}, db3.attempts.find? a'.id = some a' →
      ∃ a, db.attempts.find? a'.id = some a ∧
        ((a'.id = lease.attemptId ∧ a' = { a with metrics := { a.metrics with
          llmUsage := some usage } }) ∨ (a'.id ≠ lease.attemptId ∧ a' = a)) := by
    intro a' ha'
    rw [core.attempts] at ha'
    exact find_casAttempt h1 ha'
  have accounts : ∀ k, KeepsAccount r db db3 k := by
    intro k u s a' _ R
    obtain ⟨a, ha, ⟨hid, rfl⟩ | ⟨-, rfl⟩⟩ := back R.attempt
    · refine ⟨a, ha, rfl, fun hacc => ?_⟩
      rw [hid] at ha
      obtain rfl : a = a₀ := Option.some.inj (ha.symm.trans F.attempt)
      rw [usageAccounted, hsnap, hnone] at hacc
      cases hacc
    · exact ⟨a', ha, rfl, fun hacc => hacc⟩
  refine ⟨backed, counted, bounded, ?_, ?_⟩
  · intro a' ha' u s m' hu hrev hs hm
    rw [units] at hu
    rw [stages] at hs
    obtain ⟨a, ha, ⟨-, rfl⟩ | ⟨-, rfl⟩⟩ := back (Table.find?_of_mem ha')
    · exact B.frozen a (Table.mem_of_find? ha) u s m' hu hrev hs hm
    · exact B.frozen a' (Table.mem_of_find? ha) u s m' hu hrev hs hm
  · intro x' R' hx' hR' hu'
    have facts : SameFacts db1 db3 := (addRevisionUsage_outer h2).2.1.trans
      (advanceRevisionClock_ledger h3).facts
    obtain ⟨R, hR, hfrozen⟩ := facts.revision_back hR'
    have hbudgets : R'.frozen.budgets = R.frozen.budgets := congrArg Revision.budgets hfrozen
    obtain ⟨x, hx, hself, hother⟩ := usage_recorded h2 h3 hx'
    have hdb : db.revisions.find? r = some R ∧ db.usage.find? r = some x := by
      rw [heq] at hR hx
      exact ⟨hR, hx⟩
    have hle := reserved_le accounts B.backed backed carried
    change R'.budgets = R.budgets at hbudgets
    by_cases hr : r = lease.revisionId
    · obtain ⟨hi, ho, hunk⟩ := hself hr
      rw [hunk, Bool.or_eq_false_iff, Bool.or_eq_false_iff] at hu'
      have hwithin := B.within x R hdb.2 hdb.1 hu'.1
      -- the reservation of this attempt becomes recorded tokens
      have hrev : row.unit.revisionId = r := by rw [hr]; exact F.revisionId
      have hid : a₀.id = lease.attemptId := Table.key_of_find? F.attempt
      have hfrozen := B.frozen a₀ (Table.mem_of_find? F.attempt) row.unit row.stage m
        (by rw [F.attemptUnit]; exact F.unit) hrev F.stage hsnap
      obtain ⟨s', hs', hsr⟩ := B.counted.stage _ _ F.unit
      obtain rfl : row.stage = s' := Option.some.inj (F.stage.symm.trans hs')
      have active : row.unit.activeAttemptId = some a₀.id := by rw [hid]; exact F.active
      have attempt : db.attempts.find? a₀.id = some a₀ := by rw [hid]; exact F.attempt
      obtain ⟨-, hunit, hend, -⟩ := B.backed.reserving F.unit active attempt
      have R₀ : Reserving db r row.unit row.stage a₀ :=
        ⟨F.stage, hrev, hsr ▸ hrev, hfrozen.1, active, attempt, hunit, hend⟩
      have hbefore : reserves db r row.unit = m.maxTokens := by
        rw [R₀.reserves_eq B.backed F.unit, usageAccounted, hsnap, hnone, hfrozen.2]
        rfl
      have hunit' : db3.units.find? lease.unitId = some row.unit := by rw [units]; exact F.unit
      have hafter : reserves db3 r row.unit = 0 := by
        rcases reserves_cases (r := r) backed hunit' with hzero | ⟨s, a', R'⟩
        · exact hzero
        · rw [R'.reserves_eq backed hunit']
          have hida : a'.id = lease.attemptId := Option.some.inj (R'.active.symm.trans F.active)
          obtain ⟨a, ha, ⟨-, rfl⟩ | ⟨hne, -⟩⟩ := back R'.attempt
          · rw [hida] at ha
            obtain rfl : a = a₀ := Option.some.inj (ha.symm.trans F.attempt)
            refine if_pos ?_
            rw [usageAccounted, hsnap]
            simp [ModelUsage.complete, hu'.2.1, hu'.2.2]
          · exact absurd hida hne
      have hsum : reservedTokens db3 r + m.maxTokens ≤ reservedTokens db r := by
        rw [reservedTokens_eq, reservedTokens_eq]
        refine Count.sum_rows_le lease.unitId m.maxTokens 0 fun k => ?_
        by_cases hk : k = lease.unitId
        · rw [hk, Count.weightAt_of_find hunit', Count.weightAt_of_find F.unit, hbefore, hafter,
            if_pos rfl, if_pos rfl]
          omega
        · rw [if_neg hk, if_neg hk]
          exact Nat.add_le_add ((accounts k).weight_le B.backed backed carried) (Nat.le_refl _)
      have hused := usage_le_maxTokens valid bound
      dsimp only at hi ho
      rw [hi, ho, hbudgets]
      omega
    · obtain ⟨hi, ho, hunk⟩ := hother hr
      rw [hunk] at hu'
      have hwithin := B.within x R hdb.2 hdb.1 hu'
      rw [hi, ho, hbudgets]
      omega

/-! ## Claims -/

theorem candidate_admitted {now : ℕ} {caps : WorkerCapabilities} {c : Candidate}
    (h : (claimCandidates db now caps).head? = some c) :
    db.revisions.find? c.revision.id = some c.revision ∧
    db.usage.find? c.revision.id = some c.usage ∧ c.stage.revisionId = c.revision.id ∧
    modelAdmitted db c.stage c.revision c.usage = true := by
  have hc := List.mem_of_head? h
  simp only [claimCandidates, List.mem_insertionSort, List.mem_filterMap] at hc
  obtain ⟨w, -, hw⟩ := hc
  unfold candidate? at hw
  simp only [Option.bind_eq_bind, Option.bind_eq_some_iff] at hw
  obtain ⟨id, -, R, hR, usage, husage, hw⟩ := hw
  split at hw
  · simp only [Option.bind_eq_some_iff, Option.some.injEq] at hw
    obtain ⟨s, hs, rfl⟩ := hw
    have hid : R.id = id := Table.key_of_find? hR
    have hready := (Table.mem_select (List.mem_of_head? hs)).2
    simp only [readyStage, Bool.and_eq_true, decide_eq_true_eq] at hready
    exact ⟨by rw [hid]; exact hR, husage, hready.1.1.1.1.1, hready.2⟩
  · cases hw

theorem modelAdmitted_room {s : Stage} {R : Revision} {x : RevisionUsage} {t : ℕ}
    (admitted : modelAdmitted db s R x = true) (fits : overReserved s R x = false)
    (model : s.usesModel = true) (bound : s.modelMaxTokens = some t) :
    x.inputTokens + x.outputTokens + reservedTokens db R.id + t ≤ R.budgets.maxTokens := by
  have room : ¬remainingTokens R x < t := by simpa [overReserved, model, bound] using fits
  simp only [modelAdmitted, model, bound, Bool.not_true, Bool.false_or, Bool.and_eq_true,
    Bool.or_eq_true, decide_eq_true_eq] at admitted
  obtain ⟨-, -, hroom⟩ := admitted
  unfold remainingTokens at room hroom
  rcases hroom with hroom | hempty
  · have hsum : ((modelReservations db R.id).map (fun x => (x.2 : ℤ))).sum =
        reservedTokens db R.id := by
      rw [reservedTokens, Nat.cast_list_sum, List.map_map]
      rfl
    rw [hsum] at hroom
    omega
  · have hzero : reservedTokens db R.id = 0 := by
      rw [reservedTokens, List.isEmpty_iff.mp hempty]
      rfl
    omega

theorem TokenBound.lease (D : Digests) (B : TokenBound r db) {c : Candidate} {u : UnitRow}
    {worker now duration attemptId : ℕ} {caps : WorkerCapabilities} {l : Option Lease}
    (hc : (claimCandidates db now caps).head? = some c)
    (fits : overReserved c.stage c.revision c.usage = false) (hu : u ∈ db.units.rows)
    (ready : claimable db c.stage c.revision now u = true)
    (h : leaseUnit db c u worker now duration attemptId = .ok (l, db')) : TokenBound r db' := by
  obtain ⟨hg, hs⟩ := candidate_facts hc
  obtain ⟨hR, hx, hsr, admitted⟩ := candidate_admitted hc
  obtain ⟨hrev, hstage, -⟩ := claimable_iff ready
  have acts : Acts D Guard.none db db' := leaseUnit_acts hg hs hu ready h
  have backed : Backed db' := acts.linked (owned_rule Guard.none) B.backed
  have carried : Carried db db' := acts.carried B.backed.any
  have writes : Writes D (.claimNext worker now duration caps attemptId) db db' :=
    leaseUnit_writes (candidate_workload hc) h
  have metered : Metered r db db' := writes.metered rfl r
  have hfind : db.units.find? u.id = some u := Table.find?_of_mem hu
  have counted := acts.counted B.backed.any B.counted
  -- the attempts are the old ones and the new one
  obtain ⟨stages, back⟩ : db'.stages = db.stages ∧ ∀ {a' : Attempt},
      db'.attempts.find? a'.id = some a' →
      a' = newAttempt u ⟨u.id.owner, attemptId⟩ worker now ∨ db.attempts.find? a'.id = some a' := by
    unfold leaseUnit at h
    simp only [bind_eq_ok, pure_eq_ok, Prod.mk.injEq] at h
    obtain ⟨db1, h1, db2, h2, db3, h3, db4, h4, -, rfl⟩ := h
    obtain ⟨-, attempts, hins, rfl⟩ := insertAttempt_ok h1
    obtain ⟨-, -, -, rfl⟩ := casUnit_ok h2
    have core := ((updateUsage_core h3).trans (startQueuedWorkload_core h4)).trans
      (creditSelection_core c.workload.id : SameCore db4 _)
    refine ⟨core.frame.stages, fun {a'} ha' => ?_⟩
    rw [core.attempts] at ha'
    dsimp only at ha'
    by_cases hid : a'.id = ⟨u.id.owner, attemptId⟩
    · have hself : attempts.find? ⟨u.id.owner, attemptId⟩ =
          some (newAttempt u ⟨u.id.owner, attemptId⟩ worker now) := Table.find?_insert?_self hins
      rw [hid, hself] at ha'
      exact .inl (Option.some.inj ha').symm
    · exact .inr ((Table.find?_insert?_ne hins hid).symm.trans ha')
  have accounts : ∀ k, k ≠ u.id → KeepsAccount r db db' k := by
    intro k hk u' s a' hu' R
    rcases back R.attempt with rfl | hold
    · have hkey : u'.id = k := Table.key_of_find? hu'
      exact absurd (hkey.symm.trans R.unit.symm) hk
    · exact ⟨a', hold, rfl, fun hacc => hacc⟩
  have grows : ∀ k u', k = u.id → db'.units.find? k = some u' → reserves db' r u' ≤
      if c.revision.id = r ∧ c.stage.usesModel = true then c.stage.modelMaxTokens.getD 0 else 0 := by
    rintro k u' rfl hu'
    rcases reserves_cases (r := r) backed hu' with hzero | ⟨s, a', R⟩
    · rw [hzero]
      exact Nat.zero_le _
    · obtain ⟨v, hv, hsame, hrevision⟩ := carried.units _ u hfind
      obtain rfl : u' = v := Option.some.inj (hu'.symm.trans hv)
      have hsc : s = c.stage := by
        have hfound := R.stage
        rw [stages, hsame, hstage, hs] at hfound
        exact (Option.some.inj hfound).symm
      have hrc : c.revision.id = r := by rw [← hrev, ← hrevision]; exact R.revision
      rw [if_pos ⟨hrc, hsc ▸ R.model⟩, R.reserves_eq backed hu', hsc]
      split
      · exact Nat.zero_le _
      · exact Nat.le_refl _
  have reserved : reservedTokens db' r ≤ reservedTokens db r +
      if c.revision.id = r ∧ c.stage.usesModel = true then c.stage.modelMaxTokens.getD 0 else 0 := by
    rw [reservedTokens_eq, reservedTokens_eq]
    refine Count.sum_rows_le u.id 0 _ fun k => ?_
    by_cases hk : k = u.id
    · rw [if_pos hk, if_pos hk]
      cases hu' : db'.units.find? k with
      | none =>
        rw [Count.weightAt_of_none hu']
        exact Nat.zero_le _
      | some u' =>
        have hle := grows k u' hk hu'
        rw [Count.weightAt_of_find hu']
        omega
    · rw [if_neg hk, if_neg hk]
      exact Nat.add_le_add ((accounts k hk).weight_le B.backed backed carried) (Nat.le_refl _)
  refine ⟨backed, counted, by rw [stages]; exact B.bounded,
    B.frozen_of_kept carried fun a' ha' m hm => ?_, B.room metered reserved ?_ ?_⟩
  · rcases back (Table.find?_of_mem ha') with rfl | hold
    · cases hm
    · exact ⟨a', Table.mem_of_find? hold, rfl, hm⟩
  · intro x R hx' hR' hunk
    split
    · rename_i hcond
      obtain ⟨rfl, hmodel⟩ := hcond
      obtain rfl : c.usage = x := Option.some.inj (hx.symm.trans hx')
      obtain rfl : c.revision = R := Option.some.inj (hR.symm.trans hR')
      have hbound := B.bounded c.stage (Table.mem_of_find? hs) hsr hmodel
      obtain ⟨t, ht⟩ := Option.isSome_iff_exists.mp hbound
      rw [ht]
      exact modelAdmitted_room admitted fits hmodel ht
    · exact B.within x R hx' hR' hunk
  · intro hnone
    split
    · rename_i hcond
      rw [hcond.1.symm, hR] at hnone
      cases hnone
    · rfl

theorem TokenBound.claim (B : TokenBound r db) {worker now duration attemptId : ℕ}
    {caps : WorkerCapabilities}
    (h : transact D db (.claimNext worker now duration caps attemptId) = .ok db') :
    TokenBound r db' := by
  obtain ⟨l, h⟩ := stored_ok h
  unfold claimNext at h
  simp only [bind_eq_ok] at h
  obtain ⟨-, -, h⟩ := h
  have promoted : TokenBound r (promoteDueRetries db now 1000) := by
    have ledger : SameLedger db (promoteDueRetries db now 1000) := promoteDueRetries_ledger now 1000
    exact B.keep (D := D) (.single (promoteDueRetries_act now 1000)) (.of_eq rfl)
      (ledger.tokens.metered ledger.facts r) B.bounded
  revert h promoted
  generalize promoteDueRetries db now 1000 = db1
  intro h P
  split at h
  · simp only [pure_eq_ok, Prod.mk.injEq] at h
    exact h.2 ▸ P
  · rename_i c hc
    split at h
    · simp only [bind_eq_ok, pure_eq_ok, Prod.mk.injEq] at h
      obtain ⟨db2, h2, -, rfl⟩ := h
      have core := automaticWorkloadTransition_core h2
      have write : Write D (.claimNext worker now duration caps attemptId) db1 db2 :=
        automaticWorkloadTransition_write (candidate_workload hc) h2
      exact P.keep (D := D) core.acts core.models (write.metered rfl r)
        (by rw [core.frame.stages]; exact P.bounded)
    · rename_i fits
      simp only [bind_eq_ok, orRaise_ok] at h
      obtain ⟨u, hu, h⟩ := h
      obtain ⟨hmem, ready⟩ := Table.mem_select (List.mem_of_head? hu)
      exact P.lease D hc (by simpa using fits) hmem ready h

/-! ## Runs -/

theorem TokenBound.step (B : TokenBound r db) (hop : op.contracted r db)
    (h : transact D db op = .ok db') : TokenBound r db' := by
  cases model : op.writesModel with
  | false => exact B.quiet hop model h
  | true =>
    cases op with
    | claimNext => exact B.claim h
    | recordExecutionFacts => exact B.facts hop h
    | recordAttemptUsage => exact B.usage h
    | _ => cases model

theorem tokenBound_empty (r : Key) : TokenBound r Store.empty :=
  ⟨linked_empty, ⟨fun _ _ h => (by cases h), fun _ _ h => (by cases h)⟩,
    fun _ h => (by cases h), fun _ h => (by cases h), fun _ _ h => (by cases h)⟩

end

/-- **Token budget.**  In every store of every run in which the revision `r` is admitted with
bounded model contracts and its snapshots carry them, as long as the accounting is known, the
recorded and the reserved tokens together are within the budget. -/
theorem token_budget (D : Digests) (r : Key) (ops : List Op)
    (contracted : Meets (transact D) (fun db op => op.contracted r db) Store.empty ops)
    (x : RevisionUsage) (R : Revision) (usage : (run D Store.empty ops).usage.find? r = some x)
    (revision : (run D Store.empty ops).revisions.find? r = some R)
    (known : x.usageUnknown = false) :
    x.inputTokens + x.outputTokens +
        ((modelReservations (run D Store.empty ops) r).map Prod.snd).sum ≤ R.budgets.maxTokens ∧
      x.inputTokens + x.outputTokens ≤ R.budgets.maxTokens := by
  have B : TokenBound r (run D Store.empty ops) :=
    run_invariant (fun hop h hB => hB.step hop h) contracted (tokenBound_empty r)
  have hwithin := B.within x R usage revision known
  exact ⟨hwithin, by omega⟩

/-! ### A stage with a model -/

def sampleModelStage : PlanStage :=
  { sampleMap with
    resources := ⟨1, 0, 1, 0, 0, 0⟩
    frozenModelContract := true
    modelMaxTokens := some 30 }

def sampleContract : ModelContract :=
  { provider := "local"
    modelDigest := 1
    tier := "small"
    kind := "chat"
    maxCalls := 1
    maxInputTokens := 10
    maxOutputTokens := 20
    costPolicyZero := true }

def sampleUsage : ModelUsage :=
  { records := [⟨"local", 1, "small", "chat", some 5, some 7, none, some 0⟩]
    dropped := 0
    inputTokens := 5
    outputTokens := 7
    costMicros := 0
    usageMissing := false
    costUnknown := false
    zeroCallsVerified := false }

/-- Two leased units, of which the first has reported its usage. -/
def modelRun : List Op :=
  let lease := sampleLease 1 1 sampleModelStage 100 7 1000 1 4 false
  sampleStart 1 1 [sampleInventory, sampleModelStage] 1000 [7, 8] ++
  [sampleClaim 1000 4, sampleClaim 1001 4, .markRunning lease 5,
    .recordExecutionFacts lease ⟨false, 3⟩ (.llm sampleContract) none none 6,
    .recordAttemptUsage lease sampleUsage 7]

/-- Twelve tokens are recorded and thirty reserved, of a thousand. -/
theorem token_budget_sample : 5 + 7 + 30 ≤ 1000 ∧
    ∃ x R, (run sampleDigests Store.empty modelRun).usage.find? ⟨1, 1⟩ = some x ∧
      (run sampleDigests Store.empty modelRun).revisions.find? ⟨1, 1⟩ = some R ∧
      (x.inputTokens, x.outputTokens, R.budgets.maxTokens) = (5, 7, 1000) ∧
      x.inputTokens + x.outputTokens +
        ((modelReservations (run sampleDigests Store.empty modelRun) ⟨1, 1⟩).map Prod.snd).sum ≤
          R.budgets.maxTokens := by
  have husage : ((run sampleDigests Store.empty modelRun).usage.find? ⟨1, 1⟩).map
      (fun x => (x.inputTokens, x.outputTokens, x.usageUnknown)) = some (5, 7, false) := by
    decide +kernel
  have hrevision : ((run sampleDigests Store.empty modelRun).revisions.find? ⟨1, 1⟩).map
      (fun R => R.budgets.maxTokens) = some 1000 := by
    decide +kernel
  have hreserved : ((modelReservations (run sampleDigests Store.empty modelRun) ⟨1, 1⟩).map
      Prod.snd).sum = 30 := by
    decide +kernel
  obtain ⟨x, hx, htokens⟩ := Option.map_eq_some_iff.mp husage
  obtain ⟨R, hR, hmax⟩ := Option.map_eq_some_iff.mp hrevision
  simp only [Prod.mk.injEq] at htokens
  have h := (token_budget sampleDigests ⟨1, 1⟩ modelRun (by decide +kernel) x R hx hR htokens.2.2).1
  refine ⟨?_, x, R, hx, hR, ?_, h⟩
  · rw [hreserved, htokens.1, htokens.2.1, hmax] at h
    exact h
  · rw [htokens.1, htokens.2.1, hmax]

end Metnos.Durable
