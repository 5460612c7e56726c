import Metnos.Lib.Relational
import Metnos.Undo.Selection

/-!
# Durable.Erasure — the rows of one owner are deleted

`purgeOwner` deletes the workloads of an owner; the foreign keys of the schema do the rest, and a list
of tables is searched for what is left.  The cursors of the artifact garbage collection hang on no
workload.
-/

namespace Metnos.Durable

open Relational

/-- The tables with an owner. -/
inductive DurableTable
  | workloads | revisions | stages | stageDependencies | sources | units | attempts | results
  | dependencies | artifacts | publications | events | outbox | schedulerCredits | commands
  | attentionResolutions | revisionUsage | unitDependencies | stageMaterialization
  | artifactGcCursors | stagePlacements | workloadDismissals | workloadTemporaryStorage
deriving DecidableEq

abbrev DurableRow := Row DurableTable

/-- `FOREIGN KEY (owner_user_id, columns) REFERENCES parent(owner_user_id, keys) ON DELETE CASCADE` -/
def cascades (child : DurableTable) (columns : List String) (parent : DurableTable)
    (keys : List String) : ForeignKey DurableTable :=
  ⟨child, "owner_user_id" :: columns, parent, "owner_user_id" :: keys, true⟩

/-- A table of which the rows belong to a revision. -/
def ofRevision (child : DurableTable) : ForeignKey DurableTable :=
  cascades child ["revision_id"] .revisions ["id"]

/-- A table of which the rows belong to a stage of a revision, named in a column. -/
def ofStage (child : DurableTable) (column : String) : ForeignKey DurableTable :=
  cascades child [column, "revision_id"] .stages ["id", "revision_id"]

/-- A table of which the rows belong to a workload. -/
def ofWorkload (child : DurableTable) : ForeignKey DurableTable :=
  cascades child ["workload_id"] .workloads ["id"]

def durableForeignKeys : List (ForeignKey DurableTable) :=
  [ofWorkload .revisions,
    ⟨.revisions, ["owner_user_id", "supersedes_revision_id", "workload_id"], .revisions,
      ["owner_user_id", "id", "workload_id"], false⟩,
    ofRevision .stages,
    ofStage .stageDependencies "stage_id",
    ofStage .stageDependencies "depends_on_stage_id",
    ofRevision .sources,
    ofRevision .units,
    ofStage .units "stage_id",
    cascades .units ["source_row_id", "revision_id"] .sources ["id", "revision_id"],
    cascades .attempts ["unit_id"] .units ["id"],
    ofRevision .results,
    cascades .results ["unit_id", "revision_id"] .units ["id", "revision_id"],
    cascades .results ["attempt_id", "unit_id", "fence"] .attempts ["id", "unit_id", "fence"],
    cascades .dependencies ["child_result_id", "revision_id"] .results ["id", "revision_id"],
    cascades .dependencies ["source_result_id", "revision_id"] .results ["id", "revision_id"],
    cascades .artifacts ["revision_id", "workload_id"] .revisions ["id", "workload_id"],
    cascades .publications ["artifact_id"] .artifacts ["id"],
    ofWorkload .events,
    cascades .outbox ["workload_id", "event_id"] .events ["workload_id", "event_id"],
    ofWorkload .schedulerCredits,
    ofWorkload .commands,
    cascades .attentionResolutions ["workload_id", "idempotency_key"] .commands
      ["workload_id", "idempotency_key"],
    ofRevision .revisionUsage,
    cascades .unitDependencies ["unit_id", "revision_id"] .units ["id", "revision_id"],
    cascades .unitDependencies ["source_result_id", "revision_id"] .results ["id", "revision_id"],
    ofStage .stageMaterialization "stage_id",
    ofStage .stagePlacements "stage_id",
    ofWorkload .workloadDismissals,
    ofWorkload .workloadTemporaryStorage]

/-- The columns that foreign keys use and that are `NOT NULL`. -/
def durableNotNull : DurableTable → List String
  | .workloads => ["owner_user_id", "id"]
  | .revisions => ["owner_user_id", "id", "workload_id"]
  | .stages | .sources => ["owner_user_id", "id", "revision_id"]
  | .stageDependencies => ["owner_user_id", "revision_id", "stage_id", "depends_on_stage_id"]
  | .units => ["owner_user_id", "id", "revision_id", "stage_id"]
  | .attempts => ["owner_user_id", "id", "unit_id", "fence"]
  | .results => ["owner_user_id", "id", "revision_id", "unit_id", "attempt_id", "fence"]
  | .dependencies => ["owner_user_id", "revision_id", "child_result_id", "source_result_id"]
  | .artifacts => ["owner_user_id", "id", "workload_id", "revision_id"]
  | .publications => ["owner_user_id", "id", "artifact_id"]
  | .events | .outbox => ["owner_user_id", "workload_id", "event_id"]
  | .schedulerCredits | .workloadDismissals | .workloadTemporaryStorage =>
    ["owner_user_id", "workload_id"]
  | .commands | .attentionResolutions => ["owner_user_id", "workload_id", "idempotency_key"]
  | .revisionUsage => ["owner_user_id", "revision_id"]
  | .unitDependencies => ["owner_user_id", "revision_id", "unit_id", "source_result_id"]
  | .stageMaterialization | .stagePlacements => ["owner_user_id", "revision_id", "stage_id"]
  | .artifactGcCursors => ["owner_user_id"]

def sameOwner (x r : DurableRow) : Bool := x.cell "owner_user_id" = r.cell "owner_user_id"

/-- `admitted_stages_delete_guard` and those of the dependencies and the placements: the revision is
admitted, and a workload has it as its active one. -/
def activeGraphGuard (table : DurableTable) : DeleteGuard DurableTable "owner_user_id" where
  table := table
  blocks := fun r left =>
    (left.any fun x => x.table = .revisions && sameOwner x r && x.cell "id" = r.cell "revision_id" &&
      (x.cell "admitted_at").isSome) &&
    left.any fun w => w.table = .workloads && sameOwner w r &&
      w.cell "active_revision_id" = r.cell "revision_id"
  needs := .revisions
  spec := by
    intro r left h
    obtain ⟨hrevision, -⟩ := Bool.and_eq_true_iff.mp h
    obtain ⟨x, hx, hx'⟩ := List.any_eq_true.mp hrevision
    simp only [Bool.and_eq_true, decide_eq_true_eq] at hx'
    exact ⟨x, hx, hx'.1.1.1, of_decide_eq_true hx'.1.1.2⟩

/-- The schema, with the tables in the order in which a deletion reaches them. -/
def durableSchema : Schema DurableTable where
  root := .workloads
  owner := "owner_user_id"
  order := [.workloads, .revisions, .stages, .stageDependencies, .sources, .units, .attempts,
    .results, .dependencies, .artifacts, .publications, .events, .outbox, .schedulerCredits,
    .commands, .attentionResolutions, .revisionUsage, .unitDependencies, .stageMaterialization,
    .stagePlacements, .workloadDismissals, .workloadTemporaryStorage]
  foreignKeys := durableForeignKeys
  notNull := durableNotNull
  guards := [activeGraphGuard .stages, activeGraphGuard .stageDependencies,
    activeGraphGuard .stagePlacements]

/-- `_require_owner` -/
def requireOwner (owner : String) : Bool :=
  owner ≠ "" && owner.toList.length ≤ 160 && Undo.strip owner.toList = owner.toList &&
    '\x00' ∉ owner.toList

/-- The tables that are searched for what is left. -/
def residueTables : List DurableTable :=
  [.workloads, .revisions, .stages, .stagePlacements, .stageDependencies, .stageMaterialization,
    .revisionUsage, .sources, .units, .attempts, .results, .unitDependencies, .dependencies,
    .artifacts, .publications, .events, .outbox, .schedulerCredits, .commands,
    .attentionResolutions, .workloadDismissals]

/-- `purge_owner`: the number of workloads and the rows that are left, or nothing where it raises. -/
def purgeOwner (db : List DurableRow) (owner : String) : Option (ℕ × List DurableRow) :=
  if !requireOwner owner then none
  else
    let count := (db.filter (durableSchema.ownedRoot owner)).length
    (durableSchema.deleteRows db (durableSchema.ownedRoot owner)).bind fun left =>
      if residueTables.any fun t => left.any fun r => r.table = t && durableSchema.ownedBy owner r then
        none
      else some (count, left)

/-! ## `ArtifactRepository` -/

def isCursorOf (owner : String) (r : DurableRow) : Bool :=
  r.table = .artifactGcCursors && durableSchema.ownedBy owner r

def cursorValid (name : String) : Bool := name.toList.length ≤ 255 && '\x00' ∉ name.toList

def cursorRow (owner name now : String) : DurableRow :=
  ⟨.artifactGcCursors, [("owner_user_id", owner), ("cursor_name", name), ("updated_at", now)]⟩

def advanceGarbageCollectionCursor (db : List DurableRow) (owner expected nextCursor now : String) :
    Option (Bool × List DurableRow) :=
  if !requireOwner owner || !cursorValid expected || !cursorValid nextCursor then none
  else
    let row := db.find? (isCursorOf owner)
    if ((row.bind fun r => r.cell "cursor_name").getD "") ≠ expected then some (false, db)
    else if nextCursor = "" then some (true, db.filter fun r => !isCursorOf owner r)
    else match row with
      | none => some (true, db ++ [cursorRow owner nextCursor now])
      | some _ => some (true, db.map fun r =>
          if isCursorOf owner r then cursorRow owner nextCursor now else r)

/-! ## What a purge leaves -/

theorem durableSchema_keepsOwner : durableSchema.keepsOwner = true := by decide +kernel

theorem durableSchema_anchored : durableSchema.anchoredFrom [] durableSchema.order = true := by
  decide +kernel

theorem mem_order_iff {t : DurableTable} : t ∈ durableSchema.order ↔ t ≠ .artifactGcCursors := by
  cases t <;> decide

theorem mem_order_of_residue {t : DurableTable} (h : t ∈ residueTables) :
    t ∈ durableSchema.order := by
  rw [mem_order_iff]
  rintro rfl
  exact absurd h (by decide)

section
variable {db db' : List DurableRow} {owner : String} {n : ℕ}

/-- The rows without those of the owner, the cursors apart. -/
def withoutOwner (db : List DurableRow) (owner : String) : List DurableRow :=
  db.filter fun r => !(r.table ∈ durableSchema.order && durableSchema.ownedBy owner r)

theorem purgeOwner_eq (valid : durableSchema.Valid db) (howner : requireOwner owner = true) :
    purgeOwner db owner =
      some ((db.filter (durableSchema.ownedRoot owner)).length, withoutOwner db owner) := by
  unfold purgeOwner
  rw [howner, Bool.not_true, if_neg Bool.false_ne_true,
    Schema.deleteRows_owner valid durableSchema_keepsOwner durableSchema_anchored]
  rw [Option.bind_some, if_neg]
  · rfl
  · intro hany
    obtain ⟨t, ht, hleft⟩ := List.any_eq_true.mp hany
    obtain ⟨r, hr, hr'⟩ := List.any_eq_true.mp hleft
    obtain ⟨htable, howned⟩ := Bool.and_eq_true_iff.mp hr'
    obtain ⟨-, hkept⟩ := List.mem_filter.mp hr
    rw [of_decide_eq_true htable, decide_eq_true (mem_order_of_residue ht), howned] at hkept
    cases hkept

theorem owner_of_purge (h : purgeOwner db owner = some (n, db')) : requireOwner owner = true := by
  unfold purgeOwner at h
  by_contra howner
  rw [Bool.not_eq_true] at howner
  rw [howner] at h
  cases h

theorem valid_withoutOwner (valid : durableSchema.Valid db) :
    durableSchema.Valid (withoutOwner db owner) := by
  constructor
  · have hdelete := Schema.deleteRows_owner (o := owner) valid durableSchema_keepsOwner
      durableSchema_anchored
    unfold Schema.deleteRows at hdelete
    obtain ⟨gone, -, h⟩ := Option.bind_eq_some_iff.mp hdelete
    dsimp only at h
    split_ifs at h with hsatisfied
    rw [Option.some.inj h] at hsatisfied
    exact hsatisfied
  · exact fun r hr => valid.notNull r (List.mem_of_mem_filter hr)

/-- No row of the owner is left, the rows of all others are as they were, and a second purge has
nothing to do. -/
structure Erased (db db' : List DurableRow) (owner : String) : Prop where
  gone : ∀ r ∈ db', durableSchema.ownedBy owner r = false
  others : (db'.filter fun r => !durableSchema.ownedBy owner r) =
    db.filter fun r => !durableSchema.ownedBy owner r
  again : purgeOwner db' owner = some (0, db')

theorem withoutOwner_others : ((withoutOwner db owner).filter fun r =>
    !durableSchema.ownedBy owner r) = db.filter fun r => !durableSchema.ownedBy owner r := by
  unfold withoutOwner
  rw [List.filter_filter]
  refine List.filter_congr fun r _ => ?_
  cases durableSchema.ownedBy owner r <;> simp

theorem withoutOwner_again (valid : durableSchema.Valid db) (howner : requireOwner owner = true) :
    purgeOwner (withoutOwner db owner) owner = some (0, withoutOwner db owner) := by
  rw [purgeOwner_eq (valid_withoutOwner valid) howner]
  have hroot : (withoutOwner db owner).filter (durableSchema.ownedRoot owner) = [] := by
    rw [List.filter_eq_nil_iff]
    intro r hr hroot
    obtain ⟨htable, howned⟩ := Bool.and_eq_true_iff.mp hroot
    obtain ⟨-, hkept⟩ := List.mem_filter.mp hr
    rw [of_decide_eq_true htable, howned] at hkept
    cases hkept
  have hsame : withoutOwner (withoutOwner db owner) owner = withoutOwner db owner := by
    unfold withoutOwner
    rw [List.filter_filter]
    exact List.filter_congr fun r _ => Bool.and_self _
  rw [hroot, hsame, List.length_nil]

/-- The owner is erased exactly if there is no cursor of the owner. -/
theorem purge_erases_iff (valid : durableSchema.Valid db)
    (h : purgeOwner db owner = some (n, db')) :
    Erased db db' owner ↔ ∀ r ∈ db, isCursorOf owner r = false := by
  have howner := owner_of_purge h
  rw [purgeOwner_eq valid howner] at h
  obtain ⟨-, rfl⟩ := Prod.mk.inj (Option.some.inj h)
  constructor
  · intro erased r hr
    rw [← Bool.not_eq_true]
    intro hcursor
    obtain ⟨htable, howned⟩ := Bool.and_eq_true_iff.mp hcursor
    have hkept : r ∈ withoutOwner db owner := by
      refine List.mem_filter.mpr ⟨hr, ?_⟩
      rw [of_decide_eq_true htable]
      rfl
    rw [erased.gone r hkept] at howned
    cases howned
  · intro none
    refine ⟨fun r hr => ?_, withoutOwner_others, withoutOwner_again valid howner⟩
    obtain ⟨hmem, hkept⟩ := List.mem_filter.mp hr
    by_cases htable : r.table = .artifactGcCursors
    · have hcursor := none r hmem
      unfold isCursorOf at hcursor
      rwa [htable, decide_eq_true rfl, Bool.true_and] at hcursor
    · rw [decide_eq_true (mem_order_iff.mpr htable), Bool.true_and, Bool.not_eq_true'] at hkept
      exact hkept

end

/-! ## An owner with a cursor -/

def oneWorkload : List DurableRow :=
  [⟨.workloads, [("owner_user_id", "alice"), ("id", "workload-1")]⟩,
    ⟨.events, [("owner_user_id", "alice"), ("workload_id", "workload-1"), ("event_id", "1")]⟩]

theorem purge_erases_workload : Erased oneWorkload [] "alice" ↔
    ∀ r ∈ oneWorkload, isCursorOf "alice" r = false :=
  purge_erases_iff (n := 1) ⟨by decide +kernel, by decide +kernel⟩ (by decide +kernel)

/-- The cursor that the garbage collection of the artifacts leaves behind survives the purge. -/
theorem cursor_survives : ∃ db n db',
    advanceGarbageCollectionCursor [] "alice" "" "blob-1" "2026-06-15T10:00:00Z" = some (true, db) ∧
      durableSchema.Valid db ∧ purgeOwner db "alice" = some (n, db') ∧ ¬ Erased db db' "alice" := by
  have survives : purgeOwner [cursorRow "alice" "blob-1" "2026-06-15T10:00:00Z"] "alice" =
      some (0, [cursorRow "alice" "blob-1" "2026-06-15T10:00:00Z"]) := by decide +kernel
  refine ⟨[cursorRow "alice" "blob-1" "2026-06-15T10:00:00Z"], 0, _, ?_, ?_, survives, ?_⟩
  · decide +kernel
  · exact ⟨by decide +kernel, by decide +kernel⟩
  · intro erased
    have left := erased.gone _ (List.mem_singleton_self _)
    exact absurd left (by decide +kernel)

end Metnos.Durable
