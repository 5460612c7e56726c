import Metnos.Undo.Turns

/-!
# Undo.NextUndo — the next undo does not reach into an older turn

What is selected are operations of one person and of the turn of the operation completed last.
Between two completions of the person the selection only shrinks, as long as a purge takes all
records of an operation or none, and not those of the operation completed last alone.
-/

namespace Metnos.Undo

open LastMax Transaction

section
variable {Time : Type} [LinearOrder Time] (actor : Option String)

/-! ## Steps -/

/-- No record of the log is newer than one that is appended. -/
def Timely (log : List (Entry Time)) (a : Act Time) : Prop :=
  ∀ r, a.entry = some r → ∀ r' ∈ log, r'.ts ≤ r.ts

/-- No record of the operation is outdated. -/
def Whole (cutoff : Time) (log : List (Entry Time)) (id : String) : Prop :=
  ∀ r ∈ log, r.opId = id → cutoff ≤ r.ts

/-- The operation that was completed last. -/
def IsLatest (log : List (Entry Time)) (p : Pending Time) : Prop :=
  ∃ x, completedOp actor log p.opId = some x ∧ x.pending = p ∧
    ∀ id y, completedOp actor log id = some y → y.ts ≤ x.ts

/-- What a purge has to leave together. -/
structure Harmless (log : List (Entry Time)) (cutoff : Time) : Prop where
  /-- An operation that stays completed keeps all its records. -/
  whole : ∀ p r, Entry.pending p ∈ log → p.isOf actor = true → cutoff ≤ p.ts → r ∈ log →
    r.completes = true → r.opId = p.opId → cutoff ≤ r.ts → Whole cutoff log p.opId
  /-- The operation completed last stays, or nothing of another turn that could be undone does. -/
  latest : ∀ p, IsLatest actor log p → Whole cutoff log p.opId ∨
    ∀ id x, completedOp actor log id = some x → x.done.isSome = true → Whole cutoff log id →
      sameBoundary p x.pending = true

/-- A completed operation that is registered again keeps its person and its turn. -/
def Resumes (op : Op Time) (p : Pending Time) : Prop :=
  op.completedAt = none ∨
    match op.pending with
    | none => p.isOf actor = false
    | some q => q.isOf actor = p.isOf actor ∧ (p.isOf actor = true → q.turnId = p.turnId)

def Proper (log : List (Entry Time)) (a : Act Time) : Prop :=
  Timely log a ∧
    match a with
    | .appendPending p => Resumes actor (opOf log p.opId) p
    | .purgeOlderThan cutoff => Harmless actor log cutoff
    | _ => True

/-- No operation of the person is completed, and only what was returned is marked undone. -/
def Quiet (returned : List (Pending Time × Json)) (log : List (Entry Time)) : Act Time → Prop
  | .appendCompletion id _ _ _ => ∀ p, (opOf log id).pending = some p → p.isOf actor = false
  | .appendClosed id _ _ _ => ∀ p, (opOf log id).pending = some p → p.isOf actor = false
  | .appendUndone id _ _ => ∀ p, (opOf log id).pending = some p → p.isOf actor = true →
      ∃ x ∈ returned, x.1.opId = id ∧ x.1.turnId = p.turnId
  | _ => True

/-- The operations that are marked undone. -/
def undoneIds (acts : List (Act Time)) : List String :=
  acts.filterMap fun a => match a with
    | .appendUndone id _ _ => some id
    | _ => none

/-! ## What is selected -/

/-- The selection of a log. -/
structure Selects (log : List (Entry Time)) (l : List (Pending Time × Json)) : Prop where
  person : ∀ x ∈ l, x.1.isOf actor = true
  /-- All are of the turn of the operation completed last; without a turn it is that operation. -/
  turn : l = [] ∨ ∃ b, IsLatest actor log b ∧
    ∀ x ∈ l, x.1.turnId = b.turnId ∧ (b.turnId = "" → x.1.opId = b.opId)
  /-- Each is done and not undone, in the order in which they were done. -/
  undoable : ∃ ds : List (Done Time), ds.Pairwise (fun d d' => d.ts ≤ d'.ts) ∧
    List.Forall₂ (fun x d => Entry.pending x.1 ∈ log ∧ Entry.done d ∈ log ∧ d.opId = x.1.opId ∧
      d.results = x.2 ∧ ∀ u, Entry.undone u ∈ log → u.opId ≠ x.1.opId) l ds

variable {actor} {log : List (Entry Time)}

theorem isLatest_of_boundary {b : Completed Time} (h : boundary actor log = some b) :
    IsLatest actor log b.pending :=
  ⟨b, (boundary_mem h).1, rfl, (boundary_mem h).2⟩

theorem selects_latestTurnDone : Selects actor log (latestTurnDone actor log) := by
  refine ⟨?_, ?_, ?_⟩
  · rintro ⟨p, results⟩ h
    obtain ⟨b, x, d, -, hx, -, rfl, -⟩ := mem_latestTurnDone.mp h
    exact (completedOp_eq_some.mp (mem_completedOps.mp hx)).2
  · cases hb : boundary actor log with
    | none =>
      left
      unfold latestTurnDone
      rw [hb]
    | some b =>
      refine .inr ⟨b.pending, isLatest_of_boundary hb, ?_⟩
      rintro ⟨p, results⟩ h
      obtain ⟨b', x, d, hb', hx, reach, rfl, -⟩ := mem_latestTurnDone.mp h
      obtain rfl := Option.some.inj (hb.symm.trans hb')
      unfold sameBoundary at reach
      split at reach
      · rename_i turn
        exact ⟨of_decide_eq_true reach, fun empty => absurd empty turn⟩
      · have same : x.pending.opId = b.pending.opId := of_decide_eq_true reach
        have hx := mem_completedOps.mp hx
        rw [same, (boundary_mem hb).1] at hx
        obtain rfl := Option.some.inj hx
        exact ⟨rfl, fun _ => rfl⟩
  · cases hb : boundary actor log with
    | none =>
      refine ⟨[], List.Pairwise.nil, ?_⟩
      unfold latestTurnDone
      rw [hb]
      exact .nil
    | some b =>
      have total : Std.Total fun a b : Pending Time × Done Time => a.2.ts ≤ b.2.ts :=
        ⟨fun a b => le_total _ _⟩
      have transitive : IsTrans (Pending Time × Done Time) fun a b => a.2.ts ≤ b.2.ts :=
        ⟨fun _ _ _ => le_trans⟩
      let sameTurn := (sortBy Completed.ts (completedOps actor log)).filterMap fun x =>
        if sameBoundary b.pending x.pending then x.done.map fun d => (x.pending, d) else none
      let chosen := sortBy (fun x : Pending Time × Done Time => x.2.ts) sameTurn
      have result : latestTurnDone actor log = chosen.map fun x => (x.1, x.2.results) := by
        unfold latestTurnDone
        rw [hb]
      have sorted : chosen.Pairwise fun x y => x.2.ts ≤ y.2.ts := List.pairwise_insertionSort _ _
      refine ⟨chosen.map Prod.snd, List.pairwise_map.mpr sorted, ?_⟩
      rw [result, List.forall₂_map_left_iff, List.forall₂_map_right_iff, List.forall₂_same]
      rintro ⟨p, d⟩ mem
      rw [List.mem_insertionSort, List.mem_filterMap] at mem
      obtain ⟨x, hx, h⟩ := mem
      rw [List.mem_insertionSort] at hx
      split at h
      · obtain ⟨d', hd', h⟩ := Option.map_eq_some_iff.mp h
        obtain ⟨rfl, rfl⟩ := Prod.mk.inj h
        obtain ⟨pending, done, same, notUndone⟩ := records_of_done hx hd'
        exact ⟨pending, done, same, rfl, notUndone⟩
      · cases h

/-! ## What one act does to the marks -/

omit [LinearOrder Time] in
theorem mark_of_resumes {op : Op Time} {p : Pending Time} (h : Resumes actor op p)
    (same : ∀ q, op.pending = some q → q.opId = p.opId) :
    ((op.set (.pending p)).completed.filter fun x => x.pending.isOf actor).map Completed.mark =
      (op.completed.filter fun x => x.pending.isOf actor).map Completed.mark := by
  cases hat : op.completedAt with
  | none =>
    have before : op.completed = none := by
      unfold Op.completed
      rw [hat]
      cases op.pending <;> rfl
    have after : (op.set (.pending p)).completed = none := by
      unfold Op.completed
      rw [show (op.set (.pending p)).completedAt = none from hat]
      rfl
    rw [before, after]
  | some t =>
    have resumes := h.resolve_left (by rw [hat]; exact Option.some_ne_none t)
    have after : (op.set (.pending p)).completed =
        some ⟨p, t, if op.undone.isNone then op.done else none⟩ :=
      completed_eq_some.mpr ⟨rfl, hat, rfl⟩
    cases hq : op.pending with
    | none =>
      have before : op.completed = none := by
        unfold Op.completed
        rw [hq]
      rw [hq] at resumes
      have stranger : p.isOf actor = false := resumes
      rw [before, after, Option.filter_some, if_neg (by rw [stranger]; exact Bool.false_ne_true)]
      rfl
    | some q =>
      have before : op.completed = some ⟨q, t, if op.undone.isNone then op.done else none⟩ :=
        completed_eq_some.mpr ⟨hq, hat, rfl⟩
      rw [hq] at resumes
      obtain ⟨person, turn⟩ : q.isOf actor = p.isOf actor ∧
        (p.isOf actor = true → q.turnId = p.turnId) := resumes
      rw [before, after, Option.filter_some, Option.filter_some]
      show Option.map _ (if p.isOf actor = true then _ else _) =
        Option.map _ (if q.isOf actor = true then _ else _)
      by_cases of : p.isOf actor = true
      · rw [if_pos of, if_pos (person.trans of), Option.map_some, Option.map_some]
        unfold Completed.mark
        rw [turn of, same q hq]
      · rw [if_neg of, if_neg fun hc => of (person.symm.trans hc)]

omit [LinearOrder Time] in
theorem marks_pending {p : Pending Time} (h : Resumes actor (opOf log p.opId) p) :
    marks actor (log ++ [.pending p]) = marks actor log := by
  refine marks_append_of fun named => ?_
  show markOf actor (log ++ [.pending p]) p.opId = _
  rw [markOf_append_set (show (Entry.pending p).opId = p.opId from rfl) named]
  exact mark_of_resumes h fun q hq => ((collected log p.opId).pending q hq).2

omit [LinearOrder Time] in
theorem markOf_undone {u : Undone Time} {p : Pending Time} (named : u.opId ≠ "")
    (hp : (opOf log u.opId).pending = some p) (of : p.isOf actor = true) :
    markOf actor (log ++ [.undone u]) u.opId = some ⟨u.opId, p.turnId, u.ts, false⟩ := by
  rw [markOf_append_set (show (Entry.undone u).opId = u.opId from rfl) named]
  have after : ((opOf log u.opId).set (.undone u)).completed = some ⟨p, u.ts, none⟩ :=
    completed_eq_some.mpr ⟨hp, rfl, rfl⟩
  rw [after, Option.filter_some, if_pos of, Option.map_some]
  unfold Completed.mark
  rw [((collected log u.opId).pending p hp).2]
  rfl

theorem lastMax_undone {u : Undone Time} {p : Pending Time} (named : u.opId ≠ "")
    (hp : (opOf log u.opId).pending = some p) (of : p.isOf actor = true)
    (newest : ∀ r ∈ log, r.ts ≤ u.ts) {b : Mark Time}
    (h : lastMax Mark.ts (marks actor (log ++ [.undone u])) = some b) :
    b = ⟨u.opId, p.turnId, u.ts, false⟩ ∨ lastMax Mark.ts (marks actor log) = some b := by
  have changed := markOf_undone named hp of
  have same : ∀ id, id ≠ u.opId →
      markOf actor (log ++ [.undone u]) id = markOf actor log id :=
    fun id ne => markOf_append_other (.inr fun h => ne h.symm)
  have grows : Grows Mark.ts (markOf actor log) (markOf actor (log ++ [.undone u]))
      (opIds (log ++ [.undone u])) := by
    intro id _
    by_cases eq : id = u.opId
    · subst eq
      refine .inr ⟨_, changed, fun m hm => ?_⟩
      obtain ⟨r, hr, -, -, ts⟩ := exists_record hm
      rw [← ts]
      exact newest r hr
    · exact .inl (same id eq)
  rcases lastMax_grows grows h with ⟨id, -, ne, hid⟩ | old
  · left
    by_cases eq : id = u.opId
    · subst eq
      exact Option.some.inj (hid.symm.trans changed)
    · exact absurd (same id eq) ne
  · right
    rw [marks_filterMap] at old
    exact old

/-! ## What a purge leaves -/

instance (cutoff : Time) (log : List (Entry Time)) (id : String) :
    Decidable (Whole cutoff log id) :=
  inferInstanceAs (Decidable (∀ r ∈ log, r.opId = id → cutoff ≤ r.ts))

variable {cutoff : Time}

theorem kept_of_whole {r : Entry Time} (hr : r ∈ log) (h : Whole cutoff log r.opId) :
    (!decide (r.ts < cutoff)) = true := by
  have le := h r hr rfl
  simpa using le

theorem opIds_purge : (opIds (purgeOlderThan cutoff log)).filter (fun id => Whole cutoff log id) =
    (opIds log).filter fun id => Whole cutoff log id := by
  unfold opIds purgeOlderThan
  rw [← Recent.keepFirst_filter, ← Recent.keepFirst_filter]
  congr 1
  rw [List.filter_filter, List.filter_filter, List.filter_map, List.filter_map, List.filter_filter]
  congr 1
  refine List.filter_congr fun r hr => ?_
  rw [Function.comp_apply]
  by_cases whole : Whole cutoff log r.opId
  · rw [kept_of_whole hr whole, Bool.and_true]
  · rw [decide_eq_false whole, Bool.false_and, Bool.false_and]

theorem opOf_purge {id : String} (whole : Whole cutoff log id) :
    opOf (purgeOlderThan cutoff log) id = opOf log id := by
  unfold opOf purgeOlderThan
  rw [List.filter_filter]
  congr 1
  refine List.filter_congr fun r hr => ?_
  by_cases same : r.opId ≠ "" ∧ r.opId = id
  · rw [kept_of_whole hr (same.2 ▸ whole), Bool.and_true]
  · rw [decide_eq_false same, Bool.false_and]

theorem whole_of_completedOp (harmless : Harmless actor log cutoff) {id : String}
    {x : Completed Time} (h : completedOp actor (purgeOlderThan cutoff log) id = some x) :
    Whole cutoff log id := by
  obtain ⟨some', of⟩ := completedOp_eq_some.mp h
  have parts := collected (purgeOlderThan cutoff log) id
  obtain ⟨pending, same⟩ := parts.pending _ (completed_eq_some.mp some').1
  obtain ⟨r, hr, rid, completes, -⟩ := exists_record (m := x.mark) (by rw [markOf, h]; rfl)
  rw [purgeOlderThan, List.mem_filter] at pending hr
  have young : ∀ {r : Entry Time}, (!decide (r.ts < cutoff)) = true → cutoff ≤ r.ts := by
    intro r hr
    simpa using hr
  have whole := harmless.whole x.pending r pending.1 of (young pending.2) hr.1 completes
    (rid.trans same.symm) (young hr.2)
  exact same ▸ whole

theorem completedOps_purge (harmless : Harmless actor log cutoff) :
    completedOps actor (purgeOlderThan cutoff log) =
      (completedOps actor log).filter fun x => Whole cutoff log x.pending.opId := by
  have only : ∀ id, completedOp actor (purgeOlderThan cutoff log) id =
      if Whole cutoff log id then completedOp actor log id else none := by
    intro id
    by_cases whole : Whole cutoff log id
    · rw [if_pos whole, completedOp, completedOp, opOf_purge whole]
    · rw [if_neg whole, Option.eq_none_iff_forall_ne_some]
      exact fun x hx => whole (whole_of_completedOp harmless hx)
  calc completedOps actor (purgeOlderThan cutoff log)
      = ((opIds (purgeOlderThan cutoff log)).filter fun id => Whole cutoff log id).filterMap
          (completedOp actor log) := by
        rw [completedOps_eq, List.filterMap_filter]
        refine List.filterMap_congr fun id _ => ?_
        rw [only id]
        by_cases whole : Whole cutoff log id
        · rw [if_pos whole, if_pos (decide_eq_true whole)]
        · rw [if_neg whole, if_neg (by simpa using whole)]
    _ = ((opIds log).filter fun id => Whole cutoff log id).filterMap (completedOp actor log) := by
        rw [opIds_purge]
    _ = (completedOps actor log).filter fun x => Whole cutoff log x.pending.opId := by
        rw [completedOps_eq, List.filterMap_filter, List.filter_filterMap]
        refine List.filterMap_congr fun id _ => ?_
        cases hx : completedOp actor log id with
        | none => split <;> rfl
        | some x =>
          rw [Option.filter_some, pending_opId hx]

theorem marks_purge (harmless : Harmless actor log cutoff) :
    marks actor (purgeOlderThan cutoff log) =
      (marks actor log).filter fun m => Whole cutoff log m.opId := by
  rw [marks_eq, marks_eq, completedOps_purge harmless, List.filter_map]
  rfl

theorem lastMax_purge (harmless : Harmless actor log cutoff) {b b' m : Mark Time}
    (hb : lastMax Mark.ts (marks actor log) = some b)
    (hb' : lastMax Mark.ts (marks actor (purgeOlderThan cutoff log)) = some b')
    (hm : m ∈ marks actor (purgeOlderThan cutoff log)) (undoable : m.undoable = true)
    (reach : b'.reaches m) : b.reaches m := by
  rw [marks_purge harmless] at hb' hm
  obtain ⟨mem, whole⟩ := List.mem_filter.mp hm
  have whole := of_decide_eq_true whole
  have latest := hb
  rw [lastMax_marks] at latest
  obtain ⟨c, hc, rfl⟩ := Option.map_eq_some_iff.mp latest
  rcases harmless.latest c.pending (isLatest_of_boundary hc) with stays | alone
  · have inside : c.mark ∈ (marks actor log).filter fun m => Whole cutoff log m.opId :=
      List.mem_filter.mpr ⟨(lastMax_mem hb).1, decide_eq_true stays⟩
    rw [lastMax_sublist List.filter_sublist nodup_marks hb inside] at hb'
    obtain rfl := Option.some.inj hb'
    exact reach
  · obtain ⟨x, hx, rfl⟩ := Option.map_eq_some_iff.mp (mem_marks.mp mem)
    exact sameBoundary_iff.mp (alone _ x hx undoable whole)

/-! ## Between two completions -/

/-- What could be undone of the turn `near` or of the boundary is one of `ids`, and not marked. -/
def Held (near : Mark Time → Prop) (ids : String → Prop) (marked : List String)
    (ms : List (Mark Time)) : Prop :=
  ∀ m ∈ ms, m.undoable = true → (near m ∨ ∃ b, lastMax Mark.ts ms = some b ∧ b.reaches m) →
    ids m.opId ∧ m.opId ∉ marked

omit [LinearOrder Time] in
theorem Mark.reaches_trans {a b c : Mark Time} (ab : a.reaches b)
    (same : b.opId = a.opId → b.turnId = a.turnId) (bc : b.reaches c) : a.reaches c := by
  unfold Mark.reaches at ab bc ⊢
  by_cases turn : a.turnId ≠ ""
  · rw [if_pos turn] at ab ⊢
    rw [if_pos (ab ▸ turn)] at bc
    exact bc.trans ab
  · rw [if_neg turn] at ab ⊢
    rw [if_neg fun hc => turn (same ab ▸ hc)] at bc
    exact bc.trans ab

omit [LinearOrder Time] in
theorem Mark.reaches_congr {a b c : Mark Time} (ab : a.reaches b) (id : c.opId = b.opId)
    (turn : c.turnId = b.turnId) : a.reaches c := by
  unfold Mark.reaches at ab ⊢
  rwa [id, turn]

variable {first : List (Entry Time)} {marked : List String}

/-- Of the turn of the boundary of a log. -/
def Near (actor : Option String) (first : List (Entry Time)) (m : Mark Time) : Prop :=
  ∃ b, lastMax Mark.ts (marks actor first) = some b ∧ b.reaches m

def Selected (actor : Option String) (first : List (Entry Time)) (id : String) : Prop :=
  ∃ x ∈ latestTurnDone actor first, x.1.opId = id

theorem held_refl : Held (Near actor log) (Selected actor log) [] (marks actor log) := by
  intro m hm undoable near
  have near : Near actor log m := near.elim id id
  obtain ⟨b, hb, reach⟩ := near
  exact ⟨selected_ids.mpr ⟨b, m, hb, hm, reach, undoable, rfl⟩, List.not_mem_nil⟩

theorem held_stranger {near : Mark Time → Prop} {ids : String → Prop} {id : String}
    (held : Held near ids marked (marks actor log))
    (stranger : ∀ p, (opOf log id).pending = some p → p.isOf actor = false) :
    Held near ids (marked ++ [id]) (marks actor log) := by
  intro m hm undoable close
  obtain ⟨selected, fresh⟩ := held m hm undoable close
  refine ⟨selected, fun h => ?_⟩
  rcases List.mem_append.mp h with h | h
  · exact fresh h
  · obtain ⟨x, hx, -⟩ := Option.map_eq_some_iff.mp (mem_marks.mp hm)
    rw [List.mem_singleton.mp h] at hx
    obtain ⟨some', of⟩ := completedOp_eq_some.mp hx
    rw [stranger _ (completed_eq_some.mp some').1] at of
    cases of

theorem held_undone {u : Undone Time}
    (held : Held (Near actor first) (Selected actor first) marked (marks actor log))
    (newest : ∀ r ∈ log, r.ts ≤ u.ts)
    (quiet : ∀ p, (opOf log u.opId).pending = some p → p.isOf actor = true →
      ∃ x ∈ latestTurnDone actor first, x.1.opId = u.opId ∧ x.1.turnId = p.turnId) :
    Held (Near actor first) (Selected actor first) (marked ++ [u.opId])
      (marks actor (log ++ [.undone u])) := by
  by_cases stranger : ∀ p, (opOf log u.opId).pending = some p → p.isOf actor = false
  · rw [marks_append_stranger rfl stranger]
    exact held_stranger held stranger
  · obtain ⟨p, hp, of⟩ : ∃ p, (opOf log u.opId).pending = some p ∧ p.isOf actor = true := by
      push Not at stranger
      obtain ⟨p, hp, of⟩ := stranger
      exact ⟨p, hp, (Bool.not_eq_false _).mp of⟩
    have named : u.opId ≠ "" := by
      intro empty
      rw [opOf_of_notMem fun h => (mem_opIds.mp h).1 empty] at hp
      cases hp
    have changed := markOf_undone named hp of
    -- the operation that is marked was returned, and so is of the turn
    obtain ⟨b, hb, toNew, back⟩ : ∃ b, lastMax Mark.ts (marks actor first) = some b ∧
        b.reaches ⟨u.opId, p.turnId, u.ts, false⟩ ∧
        (u.opId = b.opId → p.turnId = b.turnId) := by
      obtain ⟨⟨q, results⟩, hq, id, turn⟩ := quiet p hp of
      obtain ⟨b, x, d, hb, hx, reach, rfl, -⟩ := mem_latestTurnDone.mp hq
      refine ⟨b.mark, by rw [lastMax_marks, hb]; rfl,
        Mark.reaches_congr (sameBoundary_iff.mp reach) id.symm turn.symm, fun same => ?_⟩
      have hx := mem_completedOps.mp hx
      rw [show x.pending.opId = b.pending.opId from id.trans same, (boundary_mem hb).1] at hx
      obtain rfl := Option.some.inj hx
      exact turn.symm
    intro m hm undoable close
    have other : m.opId ≠ u.opId := by
      intro same
      have := mem_marks.mp hm
      rw [same, changed] at this
      obtain rfl := Option.some.inj this
      cases undoable
    have old : m ∈ marks actor log := by
      have := mem_marks.mp hm
      rw [markOf_append_other (.inr fun h => other h.symm)] at this
      exact mem_marks.mpr this
    have close' : Near actor first m ∨
        ∃ b, lastMax Mark.ts (marks actor log) = some b ∧ b.reaches m := by
      rcases close with near | ⟨b', hb', reach⟩
      · exact .inl near
      · rcases lastMax_undone named hp of newest hb' with rfl | before
        · exact .inl ⟨b, hb, Mark.reaches_trans toNew back reach⟩
        · exact .inr ⟨b', before, reach⟩
    obtain ⟨selected, fresh⟩ := held m old undoable close'
    refine ⟨selected, fun h => ?_⟩
    rcases List.mem_append.mp h with h | h
    · exact fresh h
    · exact other (List.mem_singleton.mp h)

theorem held_purge {near : Mark Time → Prop} {ids : String → Prop}
    (held : Held near ids marked (marks actor log)) (harmless : Harmless actor log cutoff) :
    Held near ids marked (marks actor (purgeOlderThan cutoff log)) := by
  intro m hm undoable close
  have old : m ∈ marks actor log := by
    rw [marks_purge harmless] at hm
    exact (List.mem_filter.mp hm).1
  refine held m old undoable ?_
  rcases close with near | ⟨b', hb', reach⟩
  · exact .inl near
  · right
    cases hb : lastMax Mark.ts (marks actor log) with
    | none =>
      rw [lastMax_eq_none.mp hb] at old
      cases old
    | some b => exact ⟨b, rfl, lastMax_purge harmless hb hb' hm undoable reach⟩

theorem held_step {a : Act Time} {log' : List (Entry Time)}
    (held : Held (Near actor first) (Selected actor first) marked (marks actor log))
    (proper : Proper actor log a) (quiet : Quiet actor (latestTurnDone actor first) log a)
    (h : transition log a = .ok log') :
    Held (Near actor first) (Selected actor first) (marked ++ undoneIds [a])
      (marks actor log') := by
  obtain ⟨timely, proper⟩ := proper
  cases a with
  | appendPending p =>
    obtain rfl := Except.ok.inj h
    rw [marks_pending proper]
    show Held _ _ (marked ++ []) _
    rwa [List.append_nil]
  | appendCompletion id results contract ts =>
    obtain rfl := Except.ok.inj h
    have entry : (completionEntry id results contract ts).opId = id ∧
        (completionEntry id results contract ts).completes = true := by
      unfold completionEntry
      dsimp only
      split
      · exact ⟨rfl, rfl⟩
      · split
        · exact ⟨rfl, rfl⟩
        · exact ⟨rfl, rfl⟩
    rw [marks_append_stranger entry.2 (by rw [entry.1]; exact quiet)]
    show Held _ _ (marked ++ []) _
    rwa [List.append_nil]
  | appendClosed id outcome reason ts =>
    unfold transition Act.entry at h
    dsimp only at h
    by_cases valid : outcome = "no_effect" ∨ outcome = "irreversible"
    · rw [if_pos valid] at h
      obtain rfl := Except.ok.inj h
      have stranger : ∀ p, (opOf log id).pending = some p → p.isOf actor = false := quiet
      rw [marks_append_stranger (r := .closed ⟨id, ts, outcome, reason⟩) rfl stranger]
      show Held _ _ (marked ++ []) _
      rwa [List.append_nil]
    · rw [if_neg valid] at h
      cases h
  | appendUndone id results ts =>
    obtain rfl := Except.ok.inj h
    exact held_undone (u := ⟨id, ts, results⟩) held (timely _ rfl) quiet
  | purgeOlderThan cutoff =>
    obtain rfl := Except.ok.inj h
    show Held _ _ (marked ++ []) _
    rw [List.append_nil]
    exact held_purge held proper

theorem undoneIds_of_error {a : Act Time} {e : Unit}
    (h : transition log a = .error e) : undoneIds [a] = [] := by
  cases a with
  | appendPending p => cases h
  | appendCompletion id results contract ts => cases h
  | appendClosed id outcome reason ts => rfl
  | appendUndone id results ts => cases h
  | purgeOlderThan cutoff => cases h

theorem held_run {after : List (Act Time)}
    (ok : Meets transition (fun l a => Proper actor l a ∧
      Quiet actor (latestTurnDone actor first) l a) log after)
    (held : Held (Near actor first) (Selected actor first) marked (marks actor log)) :
    Held (Near actor first) (Selected actor first) (marked ++ undoneIds after)
      (marks actor (run transition log after)) := by
  induction after generalizing log marked with
  | nil =>
    show Held _ _ (marked ++ []) _
    rwa [List.append_nil]
  | cons a after ih =>
    obtain ⟨⟨proper, quiet⟩, rest⟩ := ok
    have split' : undoneIds (a :: after) = undoneIds [a] ++ undoneIds after :=
      List.filterMap_append (l := [a])
    rw [split', ← List.append_assoc]
    refine ih rest ?_
    unfold commit
    cases h : transition log a with
    | ok log' => exact held_step held proper quiet h
    | error e =>
      rw [undoneIds_of_error h, List.append_nil]
      exact held

theorem mem_of_mem_purge (harmless : Harmless actor log cutoff) {x : Pending Time × Json}
    (h : x ∈ latestTurnDone actor (purgeOlderThan cutoff log)) :
    x ∈ latestTurnDone actor log := by
  obtain ⟨p, results⟩ := x
  obtain ⟨b', x, d, hb', hx, reach, rfl, hd, rfl⟩ := mem_latestTurnDone.mp h
  have old : x ∈ completedOps actor log := by
    rw [completedOps_purge harmless] at hx
    exact (List.mem_filter.mp hx).1
  have after : lastMax Mark.ts (marks actor (purgeOlderThan cutoff log)) = some b'.mark := by
    rw [lastMax_marks, hb']
    rfl
  have mem : x.mark ∈ marks actor (purgeOlderThan cutoff log) := by
    rw [marks_eq]
    exact List.mem_map_of_mem hx
  have undoable : x.mark.undoable = true := by
    show x.done.isSome = true
    rw [hd]
    rfl
  cases hb : boundary actor log with
  | none =>
    rw [boundary_eq, lastMax_eq_none] at hb
    rw [hb] at old
    cases old
  | some b =>
    have before : lastMax Mark.ts (marks actor log) = some b.mark := by
      rw [lastMax_marks, hb]
      rfl
    have reach := lastMax_purge harmless before after mem undoable (sameBoundary_iff.mp reach)
    exact mem_latestTurnDone.mpr ⟨b, x, d, hb, old, sameBoundary_iff.mpr reach, rfl, hd, rfl⟩

/-- **The next undo.**  What is selected is of one person and of the turn of the operation completed
last, done and not undone; when it was marked undone nothing is selected before a newer operation is
completed, and a purge adds nothing. -/
theorem next_undo_stays (actor : Option String) (acts : List (Act Time)) :
    Selects actor (run transition [] acts) (latestTurnDone actor (run transition [] acts)) ∧
    (∀ after, Meets transition (fun l a => Proper actor l a ∧
        Quiet actor (latestTurnDone actor (run transition [] acts)) l a)
        (run transition [] acts) after →
      (∀ x ∈ latestTurnDone actor (run transition [] acts), x.1.opId ∈ undoneIds after) →
      latestTurnDone actor (run transition (run transition [] acts) after) = []) ∧
    ∀ cutoff, Proper actor (run transition [] acts) (.purgeOlderThan cutoff) →
      ∀ x ∈ latestTurnDone actor (run transition (run transition [] acts) [.purgeOlderThan cutoff]),
        x ∈ latestTurnDone actor (run transition [] acts) := by
  refine ⟨selects_latestTurnDone, ?_, ?_⟩
  · intro after quiet all
    have held := held_run quiet held_refl
    rw [List.eq_nil_iff_forall_not_mem]
    intro x hx
    obtain ⟨b, m, hb, hm, reach, undoable, -⟩ := selected_ids.mp ⟨x, hx, rfl⟩
    obtain ⟨⟨y, hy, same⟩, fresh⟩ := held m hm undoable (.inr ⟨b, hb, reach⟩)
    exact fresh (List.mem_append_right _ (same ▸ all y hy))
  · rintro cutoff ⟨-, harmless⟩ x hx
    exact mem_of_mem_purge harmless hx

end

/-! ### Runs -/

/-- A run of two turns, of which the newer operation was registered first. -/
def crossed : List (Act ℕ) :=
  [.appendPending { opId := "x", turnId := "first", ts := 1 },
    .appendPending { opId := "y", turnId := "second", ts := 2 },
    .appendCompletion "y" (.obj [("ok", .bool true)]) "" 3,
    .appendCompletion "x" (.obj [("ok", .bool true)]) "" 4]

/-- After the operation was undone. -/
theorem crossed_undone :
    latestTurnDone none (run transition (run transition [] crossed)
      [.appendUndone "x" (.obj []) 5]) = [] := by
  have returned : (latestTurnDone none (run transition [] crossed)).map
      (fun x => (x.1.opId, x.1.turnId)) = [("x", "first")] := rfl
  obtain ⟨x, hx⟩ : ∃ x, latestTurnDone none (run transition [] crossed) = [x] := ⟨_, rfl⟩
  rw [hx, List.map_singleton, List.singleton_inj] at returned
  obtain ⟨id, turn⟩ := Prod.mk.inj returned
  have pending : (opOf (run transition [] crossed) "x").pending =
      some { opId := "x", turnId := "first", ts := 1 } := rfl
  refine (next_undo_stays none crossed).2.1 _ ⟨⟨⟨?_, trivial⟩, ?_⟩, trivial⟩ ?_
  · intro r hr r' hr'
    obtain rfl := Option.some.inj hr
    have all : ∀ r' ∈ run transition [] crossed, r'.ts ≤ 5 := by decide
    exact all r' hr'
  · intro p hp _
    rw [pending] at hp
    obtain rfl := Option.some.inj hp
    rw [hx]
    exact ⟨x, List.mem_singleton_self x, id, turn⟩
  · intro y hy
    rw [hx, List.mem_singleton] at hy
    subst hy
    rw [id]
    exact List.mem_singleton_self _

/-- A purge that takes the older record of the newer operation uncovers the other turn. -/
theorem purge_uncovers :
    ¬∀ (actor : Option String) (acts : List (Act ℕ)), Meets transition Timely [] acts →
      Selects actor (run transition [] acts) (latestTurnDone actor (run transition [] acts)) ∧
      (∀ after, Meets transition (fun l a => Timely l a ∧
          Quiet actor (latestTurnDone actor (run transition [] acts)) l a)
          (run transition [] acts) after →
        (∀ x ∈ latestTurnDone actor (run transition [] acts), x.1.opId ∈ undoneIds after) →
        latestTurnDone actor (run transition (run transition [] acts) after) = []) ∧
      ∀ cutoff, ∀ x ∈ latestTurnDone actor
          (run transition (run transition [] acts) [.purgeOlderThan cutoff]),
        x ∈ latestTurnDone actor (run transition [] acts) := by
  intro h
  have timely : Meets transition Timely [] crossed := by
    refine ⟨?_, ?_, ?_, ?_, trivial⟩
    all_goals
      intro r hr
      obtain rfl := Option.some.inj hr
      decide
  obtain ⟨-, -, purge⟩ := h none crossed timely
  have before : (latestTurnDone none (run transition [] crossed)).map (fun x => x.1.opId) =
      ["x"] := rfl
  have after : (latestTurnDone none
      (run transition (run transition [] crossed) [.purgeOlderThan 2])).map (fun x => x.1.opId) =
      ["y"] := rfl
  obtain ⟨y, hy⟩ : ∃ y, latestTurnDone none
      (run transition (run transition [] crossed) [.purgeOlderThan 2]) = [y] := ⟨_, rfl⟩
  have mem := purge 2 y (by rw [hy]; exact List.mem_singleton_self y)
  have id : y.1.opId ∈ (["x"] : List String) := before ▸ List.mem_map_of_mem mem
  rw [hy, List.map_singleton, List.singleton_inj] at after
  rw [after] at id
  exact absurd id (by decide)

end Metnos.Undo
