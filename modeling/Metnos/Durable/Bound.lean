import Metnos.Durable.Shape
import Mathlib.Data.Set.Card

/-!
# Durable.Bound — how often a unit may execute

A manual grant of the owner is either still unused, held as a token of the unit, or spent by one
attempt: the grants spent and the tokens never exceed the unit's retry generation.  Automatic
attempts are numbered within `max_attempts`, and a unit whose effect cannot be repeated starts at
most one of them.
-/

namespace Metnos.Durable

open Transaction

/-- An attempt made from a manual grant that has executed or may still execute. -/
def Attempt.spendsGrant (a : Attempt) : Bool :=
  a.metrics.manualRetry && (a.metrics.executionStarted || a.state = .leased)

/-- An attempt without a manual grant that has executed. -/
def Attempt.autoStarted (a : Attempt) : Bool :=
  !a.metrics.manualRetry && a.metrics.executionStarted

/-- An effect that may have happened and must not be repeated. -/
def Stage.unrepeatable (s : Stage) : Prop :=
  s.effectProfile = .reconcilable ∨ s.effectProfile = .manualOnly

section
variable {s : Stage} {g : ℕ} {aside : UnitRow → Prop} {result : UnitRow → ResultRow → Prop}
  {c c' : Cell}

theorem countP_amend {p : Attempt → Bool} {k : Key} {f : Attempt → Attempt}
    (h : ∀ a, p (f a) = p a) (l : List Attempt) :
    (updateAttempt k f l).countP p = l.countP p := by
  have key : ∀ l : List Attempt, l.countP p = (l.map p).countP id := fun l => by
    rw [List.countP_map]
    rfl
  rw [key, key, map_updateAttempt h]

theorem metrics_of_protocol {a b : Attempt} (h : a.protocol = b.protocol) :
    a.state = b.state ∧ a.metrics.executionStarted = b.metrics.executionStarted ∧
    a.metrics.manualRetry = b.metrics.manualRetry ∧ a.number = b.number :=
  ⟨congrArg (fun t => t.2.2.2.2.2.1) h, congrArg (fun t => t.2.2.2.2.2.2.2.1) h,
    congrArg (fun t => t.2.2.2.2.2.2.2.2.2) h, congrArg (fun t => t.2.2.1) h⟩

/-! ## Manual grants -/

/-- Grants spent and grants returned are within the generation the unit has seen. -/
structure Cell.Granted (g : ℕ) (c : Cell) : Prop where
  spent : c.attempts.countP Attempt.spendsGrant + c.unit.manualRetryTokens ≤
    c.unit.manualRetryGeneration
  seen : c.unit.manualRetryGeneration ≤ g

theorem Released.grants {u : UnitRow} {a : Attempt} {target : UnitState} {tokens : ℕ}
    {state : AttemptState} (R : Released s u a target tokens) (cause : ErrorClass) (now : ℕ)
    (held : a.HeldBy u) (closed : state = .failed ∨ state = .timedOut ∨ state = .abandoned) :
    (if (a.finish state (some cause) now).spendsGrant then 1 else 0) + tokens ≤
      if a.spendsGrant then 1 else 0 := by
  have hs : state ≠ .leased := by rcases closed with h | h | h <;> simp [h]
  obtain ⟨-, -, ⟨hu, ha, hstarted⟩ | ⟨hu, ha, hstarted⟩⟩ := held
  · rcases R.token with h | ⟨h, -, hm⟩
    · simp [Attempt.spendsGrant, Attempt.finish, hstarted, hs, h]
    · simp [Attempt.spendsGrant, Attempt.finish, hstarted, hs, h, hm, ha]
  · rcases R.token with h | ⟨-, hl, -⟩
    · simp [Attempt.spendsGrant, Attempt.finish, hstarted, h]
    · rw [hu] at hl
      cases hl

theorem Cell.Granted.step (h : CellStep s g aside result c c') (S : c.Shape) (B : c.Granted g) :
    c'.Granted g := by
  have spent := B.spent
  have seen := B.seen
  cases h with
  | lease attempt worker expiry now ready fresh =>
    have hcount : (c.attempts ++ [newAttempt c.unit attempt worker now]).countP
        Attempt.spendsGrant = c.attempts.countP Attempt.spendsGrant +
          if attentionRetry c.unit || tokenRetry c.unit then 1 else 0 := by
      rw [List.countP_append]
      simp [Attempt.spendsGrant, newAttempt, List.countP_cons]
    constructor <;> dsimp only
    · rw [hcount]
      dsimp only [UnitRow.lease, attentionRetry, tokenRetry]
      rcases ready with ⟨hp, -⟩ | ⟨hp, hg⟩
      · by_cases ht : 0 < c.unit.manualRetryTokens <;> simp [hp, ht] <;> omega
      · simp [hp]
        omega
    · dsimp only [UnitRow.lease]
      split <;> omega
  | start a expiry now holds unit attempt =>
    refine ⟨?_, seen⟩
    have hcount := countP_updateAttempt (p := Attempt.spendsGrant) (f := Attempt.start now)
      S.numbered.ids holds.mem
    have hsame : (a.start now).spendsGrant = a.spendsGrant := by
      simp [Attempt.spendsGrant, Attempt.start, attempt]
    rw [hsame] at hcount
    dsimp only [UnitRow.start]
    omega
  | amend a f holds keeps =>
    refine ⟨?_, seen⟩
    dsimp only
    rw [countP_amend fun x => ?_]
    · exact spent
    · obtain ⟨h1, h2, h3, -⟩ := metrics_of_protocol (keeps x)
      simp only [Attempt.spendsGrant, h1, h2, h3]
  | commit a r now holds unit attempt =>
    refine ⟨?_, seen⟩
    have hcount := countP_updateAttempt (p := Attempt.spendsGrant)
      (f := Attempt.finish .succeeded none now) S.numbered.ids holds.mem
    have hsame : (a.finish .succeeded none now).spendsGrant = a.spendsGrant := by
      obtain ⟨-, -, ⟨hl, -⟩ | ⟨-, -, hstarted⟩⟩ := S.leased.heldBy S.numbered holds
      · rw [unit] at hl
        cases hl
      · simp [Attempt.spendsGrant, Attempt.finish, hstarted]
    rw [hsame] at hcount
    dsimp only [UnitRow.commit]
    omega
  | release a state cause target next error tokens now holds unit closed released =>
    have hcount := countP_updateAttempt (p := Attempt.spendsGrant)
      (f := Attempt.finish state (some cause) now) S.numbered.ids holds.mem
    have hgrants := released.grants cause now (S.leased.heldBy S.numbered holds) closed
    constructor <;> dsimp only [UnitRow.release]
    · split <;> omega
    · split <;> omega
  | exhaust now =>
    constructor <;> dsimp only [UnitRow.exhaust]
    · omega
    · omega
  | cancel now =>
    constructor <;> dsimp only [UnitRow.cancel]
    · omega
    · omega
  | adopt attempt r now =>
    refine ⟨?_, seen⟩
    dsimp only
    rw [List.countP_append]
    simpa [Attempt.spendsGrant, reuseAttempt, UnitRow.adopt] using spent
  | extend | promote | setAside => exact ⟨spent, seen⟩

/-! ## Automatic attempts -/

/-- An automatic attempt that started, or still may, has a number within the limit. -/
def Cell.Limited (s : Stage) (c : Cell) : Prop :=
  ∀ a ∈ c.attempts, a.metrics.manualRetry = false →
    a.metrics.executionStarted = true ∨ a.state = .leased → a.number ≤ s.retry.maxAttempts

theorem Cell.Limited.update (B : c.Limited s) {id : Key} {f : Attempt → Attempt} {u : UnitRow}
    {results : List ResultRow} (hn : ∀ a, (f a).number = a.number)
    (hm : ∀ a, (f a).metrics.manualRetry = a.metrics.manualRetry)
    (hf : ∀ a, a.id = id → a ∈ c.attempts →
      (f a).metrics.executionStarted = true ∨ (f a).state = .leased →
      a.metrics.executionStarted = true ∨ a.state = .leased) :
    Cell.Limited s ⟨u, updateAttempt id f c.attempts, results⟩ := by
  intro b hb hmanual hstarted
  obtain ⟨a, ha, rfl⟩ := mem_updateAttempt.mp hb
  by_cases hid : a.id = id
  · rw [if_pos hid] at hmanual hstarted ⊢
    rw [hn]
    rw [hm] at hmanual
    exact B a ha hmanual (hf a hid ha hstarted)
  · rw [if_neg hid] at hmanual hstarted ⊢
    exact B a ha hmanual hstarted

theorem Cell.Limited.step (h : CellStep s g aside result c c') (S : c.Shape) (B : c.Limited s) :
    c'.Limited s := by
  cases h with
  | lease attempt worker expiry now ready fresh =>
    intro b hb hmanual hstarted
    rcases List.mem_append.mp hb with hb | hb
    · exact B b hb hmanual hstarted
    · rw [List.mem_singleton] at hb
      subst hb
      simp only [newAttempt, attentionRetry, tokenRetry, Bool.or_eq_false_iff,
        Bool.and_eq_false_iff, decide_eq_false_iff_not] at hmanual ⊢
      rcases ready with ⟨hp, hcount⟩ | ⟨hp, -⟩
      · simp only [hp, not_true_eq_false, false_or] at hmanual
        omega
      · exact absurd hp hmanual.1
  | start a expiry now holds unit attempt =>
    refine B.update (fun _ => rfl) (fun _ => rfl) fun x hx hmem _ => ?_
    rw [eq_of_id S.numbered.ids hmem holds.mem hx]
    exact .inr attempt
  | amend a f holds keeps =>
    refine B.update (fun x => (metrics_of_protocol (keeps x)).2.2.2)
      (fun x => (metrics_of_protocol (keeps x)).2.2.1) fun x _ _ hstarted => ?_
    obtain ⟨h1, h2, -, -⟩ := metrics_of_protocol (keeps x)
    rwa [h1, h2] at hstarted
  | commit a r now =>
    refine B.update (fun _ => rfl) (fun _ => rfl) fun x _ _ hstarted => ?_
    exact hstarted.imp_right fun h => (by cases h)
  | release a state cause target next error tokens now holds unit closed =>
    refine B.update (fun _ => rfl) (fun _ => rfl) fun x _ _ hstarted => ?_
    refine hstarted.imp_right fun h => ?_
    have hl : state = .leased := h
    rcases closed with hc | hc | hc <;> rw [hc] at hl <;> cases hl
  | adopt attempt r now =>
    intro b hb hmanual hstarted
    rcases List.mem_append.mp hb with hb | hb
    · exact B b hb hmanual hstarted
    · rw [List.mem_singleton] at hb
      subst hb
      simp [reuseAttempt] at hstarted
  | extend | promote | exhaust | cancel | setAside => exact B

/-! ## Effects that are not repeated -/

/-- At most one automatic attempt starts; once it did, only a manual grant leads to another
lease. -/
structure Cell.Once (c : Cell) : Prop where
  once : c.attempts.countP Attempt.autoStarted ≤ 1
  waits : c.unit.state ≠ .retryWait
  pending : c.unit.state = .pending → c.unit.manualRetryTokens = 0 →
    c.attempts.countP Attempt.autoStarted = 0
  leased : ∀ a, c.Holds a → c.unit.state = .leased → a.metrics.manualRetry = false →
    c.attempts.countP Attempt.autoStarted = 0

theorem Cell.Once.settle (B : c.Once) {u : UnitRow} {attempts : List Attempt}
    {results : List ResultRow}
    (count : attempts.countP Attempt.autoStarted = c.attempts.countP Attempt.autoStarted)
    (h1 : u.state ≠ .pending) (h2 : u.state ≠ .leased) (h3 : u.state ≠ .retryWait) :
    Cell.Once ⟨u, attempts, results⟩ :=
  ⟨count ▸ B.once, h3, fun h => absurd h h1, fun _ _ h => absurd h h2⟩

theorem countP_finish (a : Attempt) (state : AttemptState) (error : Option ErrorClass) (now : ℕ)
    (l : List Attempt) : (updateAttempt a.id (Attempt.finish state error now) l).countP
      Attempt.autoStarted = l.countP Attempt.autoStarted :=
  countP_amend (f := Attempt.finish state error now) (fun _ => rfl) l

theorem Cell.Once.step (hs : s.unrepeatable) (h : CellStep s g aside result c c') (S : c.Shape)
    (B : c.Once) : c'.Once := by
  cases h with
  | lease attempt worker expiry now ready fresh =>
    have hcount : (c.attempts ++ [newAttempt c.unit attempt worker now]).countP
        Attempt.autoStarted = c.attempts.countP Attempt.autoStarted := by
      rw [List.countP_append]
      simp [Attempt.autoStarted, newAttempt]
    refine ⟨hcount ▸ B.once, by simp [UnitRow.lease], fun h => (by cases h),
      fun a holds _ hm => ?_⟩
    dsimp only
    rw [hcount]
    -- the attempt that holds the unit now is the new one
    have hid : attempt = a.id := Option.some.inj holds.active
    rcases List.mem_append.mp holds.mem with ha | ha
    · exact absurd hid.symm (fresh a ha)
    · rw [List.mem_singleton] at ha
      subst ha
      simp only [newAttempt, attentionRetry, tokenRetry, Bool.or_eq_false_iff,
        Bool.and_eq_false_iff, decide_eq_false_iff_not] at hm
      rcases ready with ⟨hp, -⟩ | ⟨hp, -⟩
      · simp only [hp, not_true_eq_false, false_or] at hm
        exact B.pending hp (by omega)
      · exact absurd hp hm.1
  | start a expiry now holds unit attempt =>
    have hcount := countP_updateAttempt (p := Attempt.autoStarted) (f := Attempt.start now)
      S.numbered.ids holds.mem
    have hstarted : a.autoStarted = false := by
      obtain ⟨-, -, ⟨-, -, h⟩ | ⟨hr, -⟩⟩ := S.leased.heldBy S.numbered holds
      · simp [Attempt.autoStarted, h]
      · rw [unit] at hr
        cases hr
    refine ⟨?_, by simp [UnitRow.start], fun h => (by cases h), fun _ _ h => (by cases h)⟩
    dsimp only
    simp only [hstarted, Bool.false_eq_true, if_false, Nat.add_zero] at hcount
    rw [hcount]
    cases hm : a.metrics.manualRetry with
    | true => simpa [Attempt.autoStarted, Attempt.start, hm] using B.once
    | false =>
      rw [B.leased a holds unit hm]
      split <;> simp
  | extend expiry now unit =>
    exact ⟨B.once, B.waits, B.pending, fun a holds => B.leased a
      ⟨holds.mem, holds.active, holds.fence, holds.ended⟩⟩
  | amend a f holds keeps =>
    have hcount : (updateAttempt a.id f c.attempts).countP Attempt.autoStarted =
        c.attempts.countP Attempt.autoStarted := countP_amend (fun x => by
      obtain ⟨-, h2, h3, -⟩ := metrics_of_protocol (keeps x)
      simp only [Attempt.autoStarted, h2, h3]) _
    refine ⟨hcount ▸ B.once, B.waits, fun h ht => hcount.trans (B.pending h ht), ?_⟩
    intro b hb hl hm
    obtain ⟨x, hx, rfl⟩ := mem_updateAttempt.mp hb.mem
    have hid : (if x.id = a.id then f x else x).id = x.id := by
      split
      · exact congrArg Prod.fst (keeps x)
      · rfl
    have hxa : x = a := eq_of_id S.numbered.ids hx holds.mem
      (hid.symm.trans (Option.some.inj (hb.active.symm.trans holds.active)))
    subst hxa
    rw [if_pos rfl, (metrics_of_protocol (keeps x)).2.2.1] at hm
    exact hcount.trans (B.leased x holds hl hm)
  | commit a r now =>
    exact B.settle (countP_finish ..) (by simp [UnitRow.commit]) (by simp [UnitRow.commit])
      (by simp [UnitRow.commit])
  | release a state cause target next error tokens now holds unit closed released =>
    have hcount := countP_finish a state (some cause) now c.attempts
    have hwait : target ≠ .retryWait := fun h => by
      obtain ⟨-, h1, h2⟩ := released.retryWait h
      rcases hs with h | h <;> contradiction
    refine ⟨hcount ▸ B.once, hwait, fun h ht => ?_, fun b hb hl => ?_⟩
    · obtain ⟨hleased, hback⟩ := released.pending h
      cases hm : a.metrics.manualRetry with
      | true =>
        have : c.unit.manualRetryTokens + tokens = 0 := ht
        have := hback hm
        omega
      | false => exact hcount.trans (B.leased a holds hleased hm)
    · have hl : target = .leased := hl
      rcases released.targets with h | h | h | h <;> rw [h] at hl <;> cases hl
  | promote now unit => exact absurd unit B.waits
  | exhaust now =>
    exact B.settle (u := c.unit.exhaust g now) rfl (by simp [UnitRow.exhaust])
      (by simp [UnitRow.exhaust]) (by simp [UnitRow.exhaust])
  | cancel now =>
    exact B.settle (u := c.unit.cancel now) rfl (by simp [UnitRow.cancel])
      (by simp [UnitRow.cancel]) (by simp [UnitRow.cancel])
  | adopt attempt r now unit count active pure =>
    rcases hs with h | h <;> rw [h] at pure <;> cases pure
  | setAside reason now =>
    exact B.settle (u := c.unit.setAside reason now) rfl (by simp [UnitRow.setAside])
      (by simp [UnitRow.setAside]) (by simp [UnitRow.setAside])

/-! ## The bound of a cell -/

structure Cell.Bounded (s : Stage) (g : ℕ) (c : Cell) : Prop where
  shape : c.Shape
  granted : c.Granted g
  limited : c.Limited s
  once : s.unrepeatable → c.Once

theorem Cell.Bounded.of_fresh {u : UnitRow} (h : u.Fresh g) : Cell.Bounded s g ⟨u, [], []⟩ := by
  refine ⟨.of_fresh h, ⟨?_, h.generation.le⟩, fun a ha => (by cases ha), fun _ => ?_⟩
  · simp [h.tokens]
  · refine ⟨by simp, ?_, fun _ _ => rfl, fun _ _ _ _ => rfl⟩
    rcases h.state with h | h | h <;> simp [h]

theorem bounded_rule (G : Guard) : CellRule G Cell.Bounded := by
  refine ⟨fun h => .of_fresh h, fun now B => ?_, fun _ h B => ?_, fun _ B => ?_⟩
  · refine ⟨B.shape.root now, ⟨B.granted.spent, B.granted.seen⟩, B.limited, fun hs => ?_⟩
    have O := B.once hs
    exact ⟨O.once, O.waits, O.pending, fun a holds => O.leased a
      ⟨holds.mem, holds.active, holds.fence, holds.ended⟩⟩
  · exact ⟨.step h B.shape, .step h B.shape B.granted, .step h B.shape B.limited,
      fun hs => .step hs h B.shape (B.once hs)⟩
  · exact ⟨B.shape, ⟨B.granted.spent, B.granted.seen.trans (Nat.le_succ _)⟩, B.limited, B.once⟩

def Cell.executions (c : Cell) : ℕ := c.attempts.countP (fun a => a.metrics.executionStarted)

theorem Cell.Bounded.executions_le (B : c.Bounded s g) :
    c.executions ≤ c.attempts.countP Attempt.autoStarted + g := by
  have hsplit : c.executions ≤ c.attempts.countP Attempt.autoStarted +
      c.attempts.countP Attempt.spendsGrant := by
    unfold Cell.executions
    induction c.attempts with
    | nil => simp
    | cons a l ih =>
      simp only [List.countP_cons]
      have hone : (if a.metrics.executionStarted = true then 1 else 0) ≤
          (if a.autoStarted = true then 1 else 0) + if a.spendsGrant = true then 1 else 0 := by
        unfold Attempt.autoStarted Attempt.spendsGrant
        cases hs : a.metrics.executionStarted <;> cases hm : a.metrics.manualRetry <;> simp
      omega
  have := B.granted.spent
  have := B.granted.seen
  omega

theorem Cell.Bounded.autoStarted_le (B : c.Bounded s g) :
    c.attempts.countP Attempt.autoStarted ≤ s.retry.maxAttempts := by
  have hnodup : ((c.attempts.filter Attempt.autoStarted).map Attempt.number).Nodup := by
    refine List.Nodup.sublist (List.filter_sublist.map _) ?_
    rw [B.shape.numbered.numbers]
    exact List.nodup_range'
  have hsub : (c.attempts.filter Attempt.autoStarted).map Attempt.number ⊆
      List.range' 1 s.retry.maxAttempts := by
    intro n hn
    obtain ⟨a, ha, rfl⟩ := List.mem_map.mp hn
    rw [List.mem_filter] at ha
    obtain ⟨ha, hauto⟩ := ha
    simp only [Attempt.autoStarted, Bool.and_eq_true, Bool.not_eq_true'] at hauto
    have hle := B.limited a ha hauto.1 (.inl hauto.2)
    have hpos : a.number ∈ List.range' 1 c.unit.attemptCount := by
      rw [← B.shape.numbered.numbers]
      exact List.mem_map_of_mem ha
    rw [List.mem_range'_1] at hpos ⊢
    omega
  have hlen := (hnodup.subperm hsub).length_le
  rwa [List.length_map, List.length_range', ← List.countP_eq_length_filter] at hlen

/-! ## Executions over a run -/

theorem CellStep.started_keep (h : CellStep s g aside result c c') {a : Attempt}
    (ha : a ∈ c.attempts) (hstarted : a.metrics.executionStarted = true) :
    ∃ b ∈ c'.attempts, b.id = a.id ∧ b.metrics.executionStarted = true := by
  have update : ∀ {k : Key} {f : Attempt → Attempt}, (∀ x, (f x).id = x.id) →
      (∀ x, x.metrics.executionStarted = true → (f x).metrics.executionStarted = true) →
      ∃ b ∈ updateAttempt k f c.attempts, b.id = a.id ∧ b.metrics.executionStarted = true := by
    intro k f hid hf
    refine ⟨_, mem_updateAttempt.mpr ⟨a, ha, rfl⟩, ?_⟩
    split
    · exact ⟨hid a, hf a hstarted⟩
    · exact ⟨rfl, hstarted⟩
  cases h with
  | start b expiry now => exact update (Attempt.start_id now) (fun _ _ => rfl)
  | amend b f holds keeps =>
    exact update (fun x => congrArg Prod.fst (keeps x))
      (fun x hx => (metrics_of_protocol (keeps x)).2.1.trans hx)
  | commit b r now => exact update (Attempt.finish_id _ _ now) (fun _ hx => hx)
  | release b state cause target next error tokens now =>
    exact update (Attempt.finish_id _ _ now) (fun _ hx => hx)
  | lease | adopt => exact ⟨a, List.mem_append_left _ ha, rfl, hstarted⟩
  | extend | promote | exhaust | cancel | setAside => exact ⟨a, ha, rfl, hstarted⟩

end

/-- The attempt `id` of the unit `k` has executed. -/
def Store.Executed (db : Store) (k id : Key) : Prop :=
  ∃ a ∈ db.attemptsOf k, a.id = id ∧ a.metrics.executionStarted = true

section
variable {D : Digests} {G : Guard} {P : Stage → ℕ → Cell → Prop} {db db' : Store}

theorem Act.executed (L : Linked P db) (h : Act D G db db') {k id : Key} (E : db.Executed k id) :
    db'.Executed k id := by
  obtain ⟨a, ha, hid, hstarted⟩ := E
  cases hu : db.units.find? k with
  | none =>
    rw [(L.orphans hu).1] at ha
    cases ha
  | some u =>
    obtain ⟨u', s, g, hu', -, -, change⟩ := h.unit_cases L hu
    obtain rfl : u.id = k := Table.key_of_find? hu
    have hk : u'.id = u.id := Table.key_of_find? hu'
    unfold Store.Executed
    rw [← hk]
    have keep : db'.cell u' = db.cell u → ∃ b ∈ db'.attemptsOf u'.id, b.id = id ∧
        b.metrics.executionStarted = true := fun hcell => by
      have hsame : db'.attemptsOf u'.id = db.attemptsOf u.id := congrArg Cell.attempts hcell
      exact ⟨a, hsame ▸ ha, hid, hstarted⟩
    rcases change with ⟨-, hcell | ⟨now, hroot⟩ | step⟩ | ⟨-, hcell, -⟩
    · exact keep hcell
    · have hsame : db'.attemptsOf u'.id = db.attemptsOf u.id := congrArg Cell.attempts hroot
      exact ⟨a, hsame ▸ ha, hid, hstarted⟩
    · obtain ⟨b, hb, hbid, hbstarted⟩ := step.started_keep ha hstarted
      exact ⟨b, hb, hbid.trans hid, hbstarted⟩
    · exact keep hcell

theorem run_executed (L : Linked Cell.Bounded db) (ops : List Op) {k id : Key}
    (E : db.Executed k id) : (run D db ops).Executed k id :=
  run_linked_rel (R := fun a b => a.Executed k id → b.Executed k id) (fun _ h => h)
    (fun h h' E => h' (h E)) (bounded_rule Guard.none) (fun L h => h.executed L) L
    (meets_of_forall (Op.meets_none D) _ _) E

theorem run_bounded (D : Digests) (ops : List Op) :
    Linked Cell.Bounded (run D Store.empty ops) :=
  run_linked (bounded_rule Guard.none) linked_empty (meets_of_forall (Op.meets_none D) _ _)

theorem executed_of_running (L : Linked Cell.Bounded db) {k : Key} {a : Attempt}
    (ha : a ∈ db.attemptsOf k) (hrunning : a.state = .running) : db.Executed k a.id := by
  refine ⟨a, ha, rfl, ?_⟩
  cases hu : db.units.find? k with
  | none =>
    rw [(L.orphans hu).1] at ha
    cases ha
  | some u =>
    obtain rfl : u.id = k := Table.key_of_find? hu
    obtain ⟨s, g, -, -, B⟩ := L.cells hu
    have hmem : a ∈ (db.cell u).attempts := ha
    have hactive : u.activeAttemptId = some a.id := by
      by_contra hne
      exact (B.shape.leased.closed a hmem hne).2.2 hrunning
    obtain ⟨b, hb, hbid, hheld⟩ := B.shape.leased.held a.id hactive
    rw [eq_of_id B.shape.numbered.ids hb hmem hbid] at hheld
    obtain ⟨-, -, ⟨-, hl, -⟩ | ⟨-, -, hstarted⟩⟩ := hheld
    · rw [hrunning] at hl
      cases hl
    · exact hstarted

end

/-- The attempts of a unit that are running in some state of the run. -/
def reachedRunning (D : Digests) (ops : List Op) (k : Key) : Set Key :=
  {id | ∃ before after, ops = before ++ after ∧
    ∃ a ∈ (run D Store.empty before).attemptsOf k, a.id = id ∧ a.state = .running}

theorem reachedRunning_encard_le (D : Digests) (ops : List Op) {k : Key} {u : UnitRow}
    (hu : (run D Store.empty ops).units.find? k = some u) :
    (reachedRunning D ops k).encard ≤ ((run D Store.empty ops).cell u).executions := by
  obtain rfl : u.id = k := Table.key_of_find? hu
  let started := ((run D Store.empty ops).attemptsOf u.id).filter
    (fun a => a.metrics.executionStarted)
  have hsub : reachedRunning D ops u.id ⊆ ((started.map Attempt.id).toFinset : Set Key) := by
    rintro id ⟨before, after, hops, a, ha, rfl, hrunning⟩
    have E := run_executed (D := D) (run_bounded D before) after
      (executed_of_running (run_bounded D before) ha hrunning)
    rw [← run_later, ← hops] at E
    obtain ⟨b, hb, hid, hstarted⟩ := E
    rw [Finset.mem_coe, List.mem_toFinset, List.mem_map]
    exact ⟨b, List.mem_filter.mpr ⟨hb, hstarted⟩, hid⟩
  calc (reachedRunning D ops u.id).encard
      ≤ ((started.map Attempt.id).toFinset : Set Key).encard := Set.encard_le_encard hsub
    _ = (started.map Attempt.id).toFinset.card := Set.encard_coe_eq_coe_finsetCard _
    _ ≤ started.length := by
        rw [Nat.cast_le, ← List.length_map Attempt.id]
        exact List.toFinset_card_le _
    _ = ((run D Store.empty ops).cell u).executions := by
        rw [Cell.executions, List.countP_eq_length_filter]
        rfl

/-- **Execution bound.**  Of the attempts of a unit, at most `max_attempts` plus the granted
retries ever run; of a unit whose effect is not repeated, at most one plus the granted retries. -/
theorem execution_bound (D : Digests) (ops : List Op) {k : Key} {u : UnitRow} {s : Stage} {g : ℕ}
    (hu : (run D Store.empty ops).units.find? k = some u)
    (hs : (run D Store.empty ops).stages.find? u.stageId = some s)
    (hg : (run D Store.empty ops).generation u.revisionId = some g) :
    (reachedRunning D ops k).encard ≤ (s.retry.maxAttempts + g : ℕ) ∧
    (s.effectProfile = .reconcilable ∨ s.effectProfile = .manualOnly →
      (reachedRunning D ops k).encard ≤ (1 + g : ℕ)) := by
  obtain ⟨s', g', hs', hg', B⟩ := (run_bounded D ops).cells hu
  obtain rfl : s' = s := Option.some.inj (hs'.symm.trans hs)
  obtain rfl : g' = g := Option.some.inj (hg'.symm.trans hg)
  have hreached := reachedRunning_encard_le D ops hu
  have hexec := B.executions_le
  refine ⟨hreached.trans ?_, fun heffect => hreached.trans ?_⟩
  · rw [Nat.cast_le]
    have := B.autoStarted_le
    omega
  · rw [Nat.cast_le]
    have := (B.once heffect).once
    omega

/-- A claim, a start, a failure and the retry the owner grants for it. -/
def boundRun : List Op :=
  let lease := sampleLease 1 1 sampleMap 100 7 1000 1 4 false
  sampleStart 1 1 [sampleInventory, sampleMap] 1000 [7] ++
  [sampleClaim 1000 4, .markRunning lease 5,
    .failAttempt lease .executorUnknown .needsAttention false 6,
    .recordAttentionResolution ⟨1, 1⟩ .retry none 77 5 7, sampleClaim 1001 8,
    .markRunning (sampleLease 1 1 sampleMap 100 7 1001 2 8 true) 9]

/-- The unit of the run has room for two executions, and it is in the second. -/
theorem execution_bound_sample :
    (reachedRunning sampleDigests boundRun ⟨1, 100⟩).encard ≤ (1 + 1 : ℕ) ∧
    ((run sampleDigests Store.empty boundRun).attemptsOf ⟨1, 100⟩).map Attempt.state =
      [.failed, .running] := by
  have hunit : ((run sampleDigests Store.empty boundRun).units.find? ⟨1, 100⟩).map
      (fun u => (u.stageId, u.revisionId)) = some (⟨1, 101⟩, ⟨1, 1⟩) := by decide +kernel
  have hstage : ((run sampleDigests Store.empty boundRun).stages.find? ⟨1, 101⟩).map
      (fun s => s.retry.maxAttempts) = some 1 := by decide +kernel
  obtain ⟨u, hu, hids⟩ := Option.map_eq_some_iff.mp hunit
  obtain ⟨s, hs, hmax⟩ := Option.map_eq_some_iff.mp hstage
  simp only [Prod.mk.injEq] at hids
  refine ⟨?_, by decide +kernel⟩
  rw [← hids.1] at hs
  have := (execution_bound sampleDigests boundRun hu hs
    (by rw [hids.2]; decide +kernel : _ = some 1)).1
  rwa [hmax] at this

end Metnos.Durable
