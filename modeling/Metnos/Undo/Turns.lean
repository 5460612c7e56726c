import Metnos.Lib.Transaction
import Metnos.Undo.Durable
import Metnos.Undo.Selection

/-!
# Undo.Turns — the operations of a log, and the boundary of the next undo

The loop over the log collects the last record of each type for each id.  The selection depends only
on the marks of the completed operations: id, turn, time of completion and whether there is
something to undo.
-/

namespace Metnos.Undo

open LastMax

section
variable {Time : Type}

/-! ## Operations by their records -/

/-- The ids of the log in the order of their first records. -/
def opIds (log : List (Entry Time)) : List String :=
  Recent.keepFirst ((log.map Entry.opId).filter fun id => id ≠ "")

/-- The records of an id, collected; those without an id belong to no operation. -/
def opOf (log : List (Entry Time)) (id : String) : Op Time :=
  (log.filter fun r => r.opId ≠ "" ∧ r.opId = id).foldl Op.set {}

theorem mem_opIds {log : List (Entry Time)} {id : String} :
    id ∈ opIds log ↔ id ≠ "" ∧ ∃ r ∈ log, r.opId = id := by
  unfold opIds
  rw [Recent.mem_keepFirst, List.mem_filter, List.mem_map, decide_eq_true_eq]
  exact and_comm

theorem opOf_append (log : List (Entry Time)) (r : Entry Time) (id : String) :
    opOf (log ++ [r]) id =
      if r.opId ≠ "" ∧ r.opId = id then (opOf log id).set r else opOf log id := by
  unfold opOf
  rw [List.filter_append, List.foldl_append, List.filter_singleton]
  by_cases h : r.opId ≠ "" ∧ r.opId = id
  · rw [if_pos h, decide_eq_true h]
    rfl
  · rw [if_neg h, decide_eq_false h]
    rfl

theorem opIds_append (log : List (Entry Time)) (r : Entry Time) :
    opIds (log ++ [r]) = if r.opId = "" then opIds log else Recent.push (opIds log) r.opId := by
  unfold opIds
  rw [List.map_append, List.filter_append, List.map_singleton]
  by_cases h : r.opId = ""
  · rw [if_pos h, List.filter_cons_of_neg (by simpa using h), List.filter_nil, List.append_nil]
  · rw [if_neg h, List.filter_cons_of_pos (by simpa using h), List.filter_nil,
      Recent.keepFirst_append_one]

theorem opOf_of_notMem {log : List (Entry Time)} {id : String} (h : id ∉ opIds log) :
    opOf log id = {} := by
  unfold opOf
  rw [List.filter_eq_nil_iff.mpr ?_]
  · rfl
  · intro r hr hc
    obtain ⟨named, same⟩ := of_decide_eq_true hc
    exact h (mem_opIds.mpr ⟨same ▸ named, r, hr, same⟩)

theorem aggregateOps_eq (log : List (Entry Time)) :
    aggregateOps log = (opIds log).map fun id => (id, opOf log id) := by
  induction log using List.reverseRecOn with
  | nil => rfl
  | append_singleton log r ih =>
    have step : aggregateOps (log ++ [r]) = (aggregateOps log).add r := by
      unfold aggregateOps
      rw [List.foldl_append]
      rfl
    rw [step, ih, opIds_append, Ops.add]
    by_cases empty : r.opId = ""
    · rw [if_pos empty, if_pos empty]
      refine List.map_congr_left fun id hid => ?_
      rw [opOf_append, if_neg fun h => h.1 empty]
    · rw [if_neg empty, if_neg empty, Recent.push]
      have known : (((opIds log).map fun id => (id, opOf log id)).any fun e => e.1 = r.opId) = true ↔
          r.opId ∈ opIds log := by
        rw [List.any_map, List.any_eq_true]
        constructor
        · rintro ⟨id, hid, same⟩
          exact (of_decide_eq_true same) ▸ hid
        · intro h
          exact ⟨r.opId, h, decide_eq_true rfl⟩
      by_cases old : r.opId ∈ opIds log
      · rw [if_pos (known.mpr old), if_pos old, List.map_map]
        refine List.map_congr_left fun id _ => ?_
        rw [Function.comp_apply, opOf_append]
        show (if id = r.opId then (id, (opOf log id).set r) else (id, opOf log id)) = _
        by_cases same : r.opId = id
        · rw [if_pos same.symm, if_pos ⟨empty, same⟩]
        · rw [if_neg fun h => same h.symm, if_neg fun h => same h.2]
      · rw [if_neg (fun h => old (known.mp h)), if_neg old, List.map_append, List.map_singleton,
          opOf_append, if_pos ⟨empty, rfl⟩, opOf_of_notMem old]
        congr 1
        refine List.map_congr_left fun id hid => ?_
        have other : ¬(r.opId ≠ "" ∧ r.opId = id) := fun h => old (h.2 ▸ hid)
        rw [opOf_append, if_neg other]

/-! ## Where the parts of an operation come from -/

/-- The parts of an operation are records of the log, and no completing record is left out. -/
structure Collected (log : List (Entry Time)) (id : String) (op : Op Time) : Prop where
  pending : ∀ p, op.pending = some p → Entry.pending p ∈ log ∧ p.opId = id
  done : ∀ d, op.done = some d → Entry.done d ∈ log ∧ d.opId = id
  closed : ∀ c, op.closed = some c → Entry.closed c ∈ log ∧ c.opId = id
  undone : ∀ u, op.undone = some u → Entry.undone u ∈ log ∧ u.opId = id
  noUndone : op.undone = none → id ≠ "" → ∀ u, Entry.undone u ∈ log → u.opId ≠ id

theorem Collected.mono {log : List (Entry Time)} {id : String} {op : Op Time}
    (h : Collected log id op) {r : Entry Time} (other : ¬(r.opId ≠ "" ∧ r.opId = id)) :
    Collected (log ++ [r]) id op where
  pending p hp := ⟨List.mem_append_left _ (h.pending p hp).1, (h.pending p hp).2⟩
  done d hd := ⟨List.mem_append_left _ (h.done d hd).1, (h.done d hd).2⟩
  closed c hc := ⟨List.mem_append_left _ (h.closed c hc).1, (h.closed c hc).2⟩
  undone u hu := ⟨List.mem_append_left _ (h.undone u hu).1, (h.undone u hu).2⟩
  noUndone none' named u hu := by
    rcases List.mem_append.mp hu with hu | hu
    · exact h.noUndone none' named u hu
    · intro same
      obtain rfl := List.mem_singleton.mp hu
      exact other ⟨fun empty => named (same.symm.trans empty), same⟩

theorem Collected.set {log : List (Entry Time)} {id : String} {op : Op Time}
    (h : Collected log id op) {r : Entry Time} (same : r.opId = id) :
    Collected (log ++ [r]) id (op.set r) := by
  have last : r ∈ log ++ [r] := List.mem_append_right _ (List.mem_singleton_self r)
  have pending : ∀ p, op.pending = some p → Entry.pending p ∈ log ++ [r] ∧ p.opId = id :=
    fun p hp => ⟨List.mem_append_left _ (h.pending p hp).1, (h.pending p hp).2⟩
  have done : ∀ d, op.done = some d → Entry.done d ∈ log ++ [r] ∧ d.opId = id :=
    fun d hd => ⟨List.mem_append_left _ (h.done d hd).1, (h.done d hd).2⟩
  have closed : ∀ c, op.closed = some c → Entry.closed c ∈ log ++ [r] ∧ c.opId = id :=
    fun c hc => ⟨List.mem_append_left _ (h.closed c hc).1, (h.closed c hc).2⟩
  have undone : ∀ u, op.undone = some u → Entry.undone u ∈ log ++ [r] ∧ u.opId = id :=
    fun u hu => ⟨List.mem_append_left _ (h.undone u hu).1, (h.undone u hu).2⟩
  have noUndone : (∀ u, r ≠ .undone u) → op.undone = none → id ≠ "" →
      ∀ u, Entry.undone u ∈ log ++ [r] → u.opId ≠ id := by
    intro kind none' named u hu
    rcases List.mem_append.mp hu with hu | hu
    · exact h.noUndone none' named u hu
    · exact absurd (List.mem_singleton.mp hu).symm (kind u)
  cases r with
  | pending p =>
    exact ⟨fun q hq => Option.some.inj hq ▸ ⟨last, same⟩, done, closed, undone,
      noUndone fun u hu => by cases hu⟩
  | done d =>
    exact ⟨pending, fun q hq => Option.some.inj hq ▸ ⟨last, same⟩, closed, undone,
      noUndone fun u hu => by cases hu⟩
  | closed c =>
    exact ⟨pending, done, fun q hq => Option.some.inj hq ▸ ⟨last, same⟩, undone,
      noUndone fun u hu => by cases hu⟩
  | undone u =>
    exact ⟨pending, done, closed, fun q hq => Option.some.inj hq ▸ ⟨last, same⟩,
      fun none' => by cases none'⟩

theorem collected (log : List (Entry Time)) (id : String) : Collected log id (opOf log id) := by
  induction log using List.reverseRecOn with
  | nil =>
    refine ⟨?_, ?_, ?_, ?_, ?_⟩
    · intro p h; cases h
    · intro d h; cases h
    · intro c h; cases h
    · intro u h; cases h
    · intro _ _ u h; cases h
  | append_singleton log r ih =>
    rw [opOf_append]
    by_cases h : r.opId ≠ "" ∧ r.opId = id
    · rw [if_pos h]
      exact ih.set h.2
    · rw [if_neg h]
      exact ih.mono h

/-! ## Completed operations -/

variable (actor : Option String)

/-- The completed operation of an id, when it is one that was asked for. -/
def completedOp (log : List (Entry Time)) (id : String) : Option (Completed Time) :=
  (opOf log id).completed.filter fun x => x.pending.isOf actor

theorem completedOps_eq (log : List (Entry Time)) :
    completedOps actor log = (opIds log).filterMap (completedOp actor log) := by
  unfold completedOps
  rw [aggregateOps_eq, List.filterMap_map, List.filter_filterMap]
  rfl

variable {actor}

theorem completedOp_eq_some {log : List (Entry Time)} {id : String} {x : Completed Time} :
    completedOp actor log id = some x ↔
      (opOf log id).completed = some x ∧ x.pending.isOf actor = true := by
  unfold completedOp
  rw [Option.filter_eq_some_iff]

theorem completed_eq_some {op : Op Time} {x : Completed Time} :
    op.completed = some x ↔ op.pending = some x.pending ∧ op.completedAt = some x.ts ∧
      x.done = if op.undone.isNone then op.done else none := by
  unfold Op.completed
  cases hp : op.pending with
  | none => exact ⟨fun h => (by cases h), fun h => (by cases h.1)⟩
  | some p =>
    cases ht : op.completedAt with
    | none => exact ⟨fun h => (by cases h), fun h => (by cases h.2.1)⟩
    | some t =>
      constructor
      · intro h
        obtain rfl := Option.some.inj h
        exact ⟨rfl, rfl, rfl⟩
      · rintro ⟨hp', ht', hd⟩
        obtain rfl := Option.some.inj hp'
        obtain rfl := Option.some.inj ht'
        show some _ = some x
        rw [← hd]

theorem pending_opId {log : List (Entry Time)} {id : String} {x : Completed Time}
    (h : completedOp actor log id = some x) : x.pending.opId = id :=
  ((collected log id).pending _ (completed_eq_some.mp (completedOp_eq_some.mp h).1).1).2

theorem completedOp_of_notMem {log : List (Entry Time)} {id : String} (h : id ∉ opIds log) :
    completedOp actor log id = none := by
  unfold completedOp
  rw [opOf_of_notMem h]
  rfl

theorem mem_completedOps {log : List (Entry Time)} {x : Completed Time} :
    x ∈ completedOps actor log ↔ completedOp actor log x.pending.opId = some x := by
  rw [completedOps_eq, List.mem_filterMap]
  constructor
  · rintro ⟨id, -, h⟩
    rwa [pending_opId h]
  · intro h
    refine ⟨x.pending.opId, ?_, h⟩
    by_contra outside
    rw [completedOp_of_notMem outside] at h
    cases h

end

end Metnos.Undo

/-!
## The next undo does not reach into an older turn

What is selected are operations of one person and of the turn of the operation completed last.
Between two completions of the person the selection only shrinks, as long as a purge takes all
records of an operation or none, and not those of the operation completed last alone.
-/

namespace Metnos.Undo

open LastMax Transaction

section
variable {Time : Type}

/-! ## Marks -/

/-- What the selection looks at in a completed operation. -/
structure Mark (Time : Type) where
  opId : String
  turnId : String
  ts : Time
  undoable : Bool

def Completed.mark (x : Completed Time) : Mark Time :=
  ⟨x.pending.opId, x.pending.turnId, x.ts, x.done.isSome⟩

/-- `_same_boundary` -/
def Mark.reaches (latest m : Mark Time) : Prop :=
  if latest.turnId ≠ "" then m.turnId = latest.turnId else m.opId = latest.opId

def markOf (actor : Option String) (log : List (Entry Time)) (id : String) : Option (Mark Time) :=
  (completedOp actor log id).map Completed.mark

def marks (actor : Option String) (log : List (Entry Time)) : List (Mark Time) :=
  (opIds log).filterMap (markOf actor log)

variable {actor : Option String} {log : List (Entry Time)}

theorem sameBoundary_iff {x y : Completed Time} :
    sameBoundary x.pending y.pending = true ↔ x.mark.reaches y.mark := by
  unfold sameBoundary Mark.reaches
  show _ ↔ if x.pending.turnId ≠ "" then y.pending.turnId = x.pending.turnId
    else y.pending.opId = x.pending.opId
  split
  · exact decide_eq_true_iff
  · exact decide_eq_true_iff

theorem marks_eq : marks actor log = (completedOps actor log).map Completed.mark := by
  rw [completedOps_eq, List.map_filterMap]
  rfl

theorem markOf_opId {id : String} {m : Mark Time} (h : markOf actor log id = some m) :
    m.opId = id := by
  obtain ⟨x, hx, rfl⟩ := Option.map_eq_some_iff.mp h
  exact pending_opId hx

theorem mem_marks {m : Mark Time} : m ∈ marks actor log ↔ markOf actor log m.opId = some m := by
  unfold marks
  rw [List.mem_filterMap]
  constructor
  · rintro ⟨id, -, h⟩
    rwa [markOf_opId h]
  · intro h
    refine ⟨m.opId, ?_, h⟩
    by_contra outside
    rw [markOf, completedOp_of_notMem outside] at h
    cases h

theorem nodup_marks : (marks actor log).Nodup := by
  refine (Recent.nodup_keepFirst _).filterMap ?_
  intro id id' m hm hm'
  rw [← markOf_opId hm, markOf_opId hm']

theorem marks_filterMap (log : List (Entry Time)) (r : Entry Time) :
    (opIds (log ++ [r])).filterMap (markOf actor log) = marks actor log := by
  rw [opIds_append]
  split
  · rfl
  · unfold Recent.push
    split
    · rfl
    · rename_i fresh
      have none' : markOf actor log r.opId = none := by
        rw [markOf, completedOp_of_notMem fresh]
        rfl
      rw [List.filterMap_append, List.filterMap_cons_none none', List.filterMap_nil,
        List.append_nil]
      rfl

theorem marks_append_same {r : Entry Time}
    (same : ∀ id, markOf actor (log ++ [r]) id = markOf actor log id) :
    marks actor (log ++ [r]) = marks actor log := by
  rw [← marks_filterMap log r]
  exact List.filterMap_congr fun id _ => same id

theorem markOf_append_other {r : Entry Time} {id : String} (other : r.opId = "" ∨ r.opId ≠ id) :
    markOf actor (log ++ [r]) id = markOf actor log id := by
  unfold markOf completedOp
  rw [opOf_append, if_neg fun h => other.elim h.1 fun ne => ne h.2]

theorem markOf_append_set {r : Entry Time} {id : String} (same : r.opId = id) (named : id ≠ "") :
    markOf actor (log ++ [r]) id =
      (((opOf log id).set r).completed.filter fun x => x.pending.isOf actor).map Completed.mark := by
  unfold markOf completedOp
  rw [opOf_append, if_pos ⟨same ▸ named, same⟩]

theorem marks_append_of {r : Entry Time}
    (same : r.opId ≠ "" → markOf actor (log ++ [r]) r.opId = markOf actor log r.opId) :
    marks actor (log ++ [r]) = marks actor log := by
  refine marks_append_same fun id => ?_
  by_cases other : r.opId = "" ∨ r.opId ≠ id
  · exact markOf_append_other other
  · obtain ⟨named, rfl⟩ : r.opId ≠ "" ∧ r.opId = id := by
      rw [not_or, not_not] at other
      exact other
    exact same named

theorem marks_append_stranger {r : Entry Time} (completes : r.completes = true)
    (stranger : ∀ p, (opOf log r.opId).pending = some p → p.isOf actor = false) :
    marks actor (log ++ [r]) = marks actor log := by
  have pending : ((opOf log r.opId).set r).pending = (opOf log r.opId).pending := by
    cases r with
    | pending p => cases completes
    | done d => rfl
    | closed c => rfl
    | undone u => rfl
  have nothing : ∀ op : Op Time, op.pending = (opOf log r.opId).pending →
      (op.completed.filter fun x => x.pending.isOf actor) = none := by
    intro op hop
    rw [Option.filter_eq_none_iff]
    intro x hx of
    have his := (completed_eq_some.mp hx).1
    rw [hop] at his
    rw [stranger _ his] at of
    cases of
  refine marks_append_of fun named => ?_
  rw [markOf_append_set rfl named, nothing _ pending, markOf, completedOp, nothing _ rfl]

theorem records_of_done {x : Completed Time} {d : Done Time} (hx : x ∈ completedOps actor log)
    (hd : x.done = some d) :
    Entry.pending x.pending ∈ log ∧ Entry.done d ∈ log ∧ d.opId = x.pending.opId ∧
      ∀ u, Entry.undone u ∈ log → u.opId ≠ x.pending.opId := by
  have some' := mem_completedOps.mp hx
  have named : x.pending.opId ≠ "" := by
    by_contra empty
    rw [completedOp_of_notMem fun h => (mem_opIds.mp h).1 empty] at some'
    cases some'
  have parts := collected log x.pending.opId
  obtain ⟨pending, -, done⟩ := completed_eq_some.mp (completedOp_eq_some.mp some').1
  rw [hd] at done
  split at done
  · rename_i undone
    exact ⟨(parts.pending _ pending).1, (parts.done d done.symm).1, (parts.done d done.symm).2,
      parts.noUndone (Option.isNone_iff_eq_none.mp undone) named⟩
  · cases done

theorem exists_record {id : String} {m : Mark Time} (h : markOf actor log id = some m) :
    ∃ r ∈ log, r.opId = id ∧ r.completes = true ∧ r.ts = m.ts := by
  obtain ⟨x, hx, rfl⟩ := Option.map_eq_some_iff.mp h
  obtain ⟨-, completedAt, -⟩ := completed_eq_some.mp (completedOp_eq_some.mp hx).1
  have parts := collected log id
  unfold Op.completedAt at completedAt
  rcases Option.or_eq_some_iff.mp completedAt with h | ⟨-, h⟩
  · obtain ⟨u, hu, ts⟩ := Option.map_eq_some_iff.mp h
    exact ⟨.undone u, (parts.undone u hu).1, (parts.undone u hu).2, rfl, ts⟩
  · rcases Option.or_eq_some_iff.mp h with h | ⟨-, h⟩
    · obtain ⟨c, hc, ts⟩ := Option.map_eq_some_iff.mp h
      exact ⟨.closed c, (parts.closed c hc).1, (parts.closed c hc).2, rfl, ts⟩
    · obtain ⟨d, hd, ts⟩ := Option.map_eq_some_iff.mp h
      exact ⟨.done d, (parts.done d hd).1, (parts.done d hd).2, rfl, ts⟩

/-! ## The boundary -/

variable [LinearOrder Time]

theorem boundary_eq : boundary actor log = lastMax Completed.ts (completedOps actor log) :=
  getLast?_sortBy _

theorem lastMax_marks :
    lastMax Mark.ts (marks actor log) = (boundary actor log).map Completed.mark := by
  rw [marks_eq, lastMax_map, boundary_eq]
  rfl

theorem boundary_mem {b : Completed Time} (h : boundary actor log = some b) :
    completedOp actor log b.pending.opId = some b ∧
      ∀ id y, completedOp actor log id = some y → y.ts ≤ b.ts := by
  rw [boundary_eq] at h
  obtain ⟨mem, most⟩ := lastMax_mem h
  refine ⟨mem_completedOps.mp mem, fun id y hy => most y ?_⟩
  rw [mem_completedOps, pending_opId hy]
  exact hy

theorem mem_latestTurnDone {p : Pending Time} {results : Json} :
    (p, results) ∈ latestTurnDone actor log ↔
      ∃ b x d, boundary actor log = some b ∧ x ∈ completedOps actor log ∧
        sameBoundary b.pending x.pending = true ∧ x.pending = p ∧ x.done = some d ∧
        d.results = results := by
  unfold latestTurnDone
  cases hb : boundary actor log with
  | none =>
    constructor
    · intro h
      cases h
    · rintro ⟨b, x, d, h, -⟩
      cases h
  | some b =>
    show _ ∈ List.map _ (sortBy _ _) ↔ _
    rw [List.mem_map]
    constructor
    · rintro ⟨⟨q, d⟩, mem, same⟩
      obtain ⟨rfl, rfl⟩ := Prod.mk.inj same
      rw [List.mem_insertionSort, List.mem_filterMap] at mem
      obtain ⟨x, hx, h⟩ := mem
      rw [List.mem_insertionSort] at hx
      split at h
      · rename_i reach
        obtain ⟨d', hd', h⟩ := Option.map_eq_some_iff.mp h
        obtain ⟨rfl, rfl⟩ := Prod.mk.inj h
        exact ⟨b, x, d', rfl, hx, reach, rfl, hd', rfl⟩
      · cases h
    · rintro ⟨b', x, d, hb', hx, reach, rfl, hd, rfl⟩
      obtain rfl := Option.some.inj hb'
      refine ⟨(x.pending, d), ?_, rfl⟩
      rw [List.mem_insertionSort, List.mem_filterMap]
      refine ⟨x, (List.mem_insertionSort _).mpr hx, ?_⟩
      rw [if_pos reach, hd]
      rfl

theorem selected_ids {id : String} :
    (∃ x ∈ latestTurnDone actor log, x.1.opId = id) ↔
      ∃ b m, lastMax Mark.ts (marks actor log) = some b ∧ m ∈ marks actor log ∧ b.reaches m ∧
        m.undoable = true ∧ m.opId = id := by
  constructor
  · rintro ⟨⟨p, results⟩, h, rfl⟩
    obtain ⟨b, x, d, hb, hx, reach, rfl, hd, -⟩ := mem_latestTurnDone.mp h
    refine ⟨b.mark, x.mark, by rw [lastMax_marks, hb]; rfl, ?_, sameBoundary_iff.mp reach, ?_, rfl⟩
    · rw [marks_eq]
      exact List.mem_map_of_mem hx
    · show x.done.isSome = true
      rw [hd]
      rfl
  · rintro ⟨b, m, hb, hm, reach, undoable, rfl⟩
    rw [lastMax_marks] at hb
    obtain ⟨b, last, rfl⟩ := Option.map_eq_some_iff.mp hb
    rw [marks_eq] at hm
    obtain ⟨x, hx, rfl⟩ := List.mem_map.mp hm
    obtain ⟨d, hd⟩ := Option.isSome_iff_exists.mp undoable
    exact ⟨(x.pending, d.results),
      mem_latestTurnDone.mpr ⟨b, x, d, last, hx, sameBoundary_iff.mpr reach, rfl, hd, rfl⟩, rfl⟩

end

end Metnos.Undo
