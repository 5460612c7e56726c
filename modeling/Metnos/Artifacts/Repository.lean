import Metnos.Lib.Transaction
import Metnos.Durable.Store

/-!
# Artifacts.Repository — the rows of artifacts and publications

`ArtifactRepository` works in the database of the durable store: registering an artifact adds to
the usage of its revision.  Each function below is the body of one writer transaction; an
exception rolls back.  The arguments have passed the checks of their texts and identifiers.
-/

namespace Metnos.Artifacts

open Metnos.Durable

/-- The exceptions of `artifacts.py`, and those of the operating system. -/
inductive ArtifactError
  | artifact | contract | notFound | conflict | integrity | security | budget
  | fileNotFound | osError
deriving DecidableEq

abbrev Result (α : Type) := Except ArtifactError α

def check (e : ArtifactError) (b : Bool) : Result Unit := if b then .ok () else .error e

/-- The value of an option, or an exception. -/
def orError {α : Type} (e : ArtifactError) : Option α → Result α
  | some a => .ok a
  | none => .error e

/-- `_BLOB_REF_PREFIX` followed by the digest. -/
structure BlobRef where
  digest : ℕ
deriving DecidableEq

/-- `_blob_ref`. -/
def blobRef (digest : ℕ) : BlobRef := ⟨digest⟩

structure Blob where
  digest : ℕ
  sizeBytes : ℕ
  blobRef : BlobRef
deriving DecidableEq

structure Artifact where
  id : Key
  workloadId : Key
  revisionId : Key
  logicalName : String
  digest : ℕ
  mimeType : String
  sizeBytes : ℕ
  schemaVersion : String
  state : ArtifactState
  blobRef : BlobRef
  retentionUntil : Option ℕ
  publishedTargetRedacted : Option ℕ
  digestVerified : Bool
  schemaValid : Bool
  postconditionsValid : Bool
deriving DecidableEq

inductive PublicationState
  | prepared | published | needsAttention | cancelled
deriving DecidableEq

structure Publication where
  id : Key
  artifactId : Key
  targetKey : String
  targetRedacted : ℕ
  state : PublicationState
  expectedDigest : ℕ
  observedDigest : Option ℕ
  attemptCount : ℕ
deriving DecidableEq

/-- The database with the two tables of artifacts. -/
structure Repository where
  store : Store
  artifacts : Table Artifact Key Artifact.id
  publications : Table Publication Key Publication.id

/-! ## Artifacts -/

/-- The arguments of `register`, with the identifier that `_chosen_id` picked. -/
structure Registration where
  owner : ℕ
  workloadId : ℕ
  revisionId : ℕ
  logicalName : String
  mimeType : String
  schemaVersion : String
  artifactId : ℕ
  retentionUntil : Option ℕ
  schemaValid : Bool
  postconditionsValid : Bool
deriving DecidableEq

namespace Registration

variable (reg : Registration)

def workload : Key := ⟨reg.owner, reg.workloadId⟩
def revision : Key := ⟨reg.owner, reg.revisionId⟩

/-- The row that `register` inserts. -/
def row (blob : Blob) : Artifact where
  id := ⟨reg.owner, reg.artifactId⟩
  workloadId := reg.workload
  revisionId := reg.revision
  logicalName := reg.logicalName
  digest := blob.digest
  mimeType := reg.mimeType
  sizeBytes := blob.sizeBytes
  schemaVersion := reg.schemaVersion
  state := .committed
  blobRef := blob.blobRef
  retentionUntil := reg.retentionUntil
  publishedTargetRedacted := none
  digestVerified := true
  schemaValid := reg.schemaValid
  postconditionsValid := reg.postconditionsValid

/-- `observed == expected` for a row that has the logical name already. -/
def agrees (blob : Blob) (existing : Artifact) : Bool :=
  decide (existing.workloadId = reg.workload) && decide (existing.digest = blob.digest) &&
  decide (existing.mimeType = reg.mimeType) && decide (existing.sizeBytes = blob.sizeBytes) &&
  decide (existing.schemaVersion = reg.schemaVersion) &&
  decide (existing.blobRef = blob.blobRef) &&
  decide (existing.retentionUntil = reg.retentionUntil) &&
  decide (existing.schemaValid = reg.schemaValid) &&
  decide (existing.postconditionsValid = reg.postconditionsValid)

end Registration

/-- The revision of a workload, joined with its usage. -/
def revisionRow (db : Store) (workload revision : Key) : Option (Revision × RevisionUsage) := do
  let r ← (db.revisions.find? revision).filter (fun r => r.workloadId = workload)
  let usage ← db.usage.find? revision
  some (r, usage)

def register (db : Repository) (reg : Registration) (blob : Blob) (verifyBlob : Result Unit) :
    Result (Repository × Artifact) := do
  check .contract (blob.blobRef = blobRef blob.digest)
  let (revision, usage) ←
    orError .notFound (revisionRow db.store reg.workload reg.revision)
  match db.artifacts.rows.find? (fun a =>
      decide (a.revisionId = reg.revision) && decide (a.logicalName = reg.logicalName)) with
  | some existing =>
    check .conflict (reg.agrees blob existing)
    verifyBlob
    return (db, existing)
  | none =>
    check .conflict (db.artifacts.find? (reg.row blob).id).isNone
    check .budget (!usage.usageUnknown)
    let nextArtifactCount := usage.artifactCount + 1
    check .budget (nextArtifactCount ≤ revision.budgets.maxArtifacts)
    let nextOutputBytes := usage.outputBytes + blob.sizeBytes
    check .budget (nextOutputBytes ≤ revision.budgets.maxBytesWritten)
    verifyBlob
    let artifacts ← orError .artifact (db.artifacts.insert? (reg.row blob))
    let counters ← orError .artifact (db.store.usage.cas reg.revision
      (fun x => decide (x.outputBytes = usage.outputBytes) &&
        decide (x.artifactCount = usage.artifactCount))
      (fun x => { x with outputBytes := nextOutputBytes, artifactCount := nextArtifactCount })
      (fun _ => rfl))
    return ({ db with
      store := { db.store with usage := counters }
      artifacts := artifacts }, reg.row blob)

/-- The artifacts that `unlink_if_unreferenced` counts. -/
def references (db : Repository) (owner digest : ℕ) : ℕ :=
  db.artifacts.count (fun a => decide (a.id.owner = owner) && decide (a.digest = digest))

/-! ## Publications -/

def getArtifact (db : Repository) (id : Key) : Result Artifact :=
  orError .notFound (db.artifacts.find? id)

def getPublication (db : Repository) (id : Key) : Result Publication :=
  orError .notFound (db.publications.find? id)

/-- `state IN ('committed', 'published')`. -/
def ArtifactState.publishable : ArtifactState → Bool
  | .committed | .published => true
  | _ => false

def preparePublication (db : Repository) (artifactId : Key) (targetKey : String)
    (targetRedacted publicationId : ℕ) : Result (Repository × Publication) := do
  let artifact ← getArtifact db artifactId
  check .conflict (ArtifactState.publishable artifact.state)
  match db.publications.rows.find? (fun p =>
      decide (p.artifactId = artifactId) && decide (p.targetKey = targetKey)) with
  | some existing =>
    check .conflict (decide (existing.expectedDigest = artifact.digest) &&
      decide (existing.targetRedacted = targetRedacted))
    return (db, existing)
  | none =>
    let row : Publication :=
      { id := ⟨artifactId.owner, publicationId⟩
        artifactId := artifactId
        targetKey := targetKey
        targetRedacted := targetRedacted
        state := .prepared
        expectedDigest := artifact.digest
        observedDigest := none
        attemptCount := 0 }
    let publications ← orError .conflict (db.publications.insert? row)
    return ({ db with publications := publications }, row)

def beginPublicationAttempt (db : Repository) (id : Key) : Result (Repository × Publication) := do
  let publications := db.publications.updateWhere
    (fun p => decide (p.id = id) && decide (p.state = .prepared))
    (fun p => { p with attemptCount := p.attemptCount + 1 }) (fun _ => rfl)
  let row ← orError .notFound (publications.find? id)
  return ({ db with publications := publications }, row)

def markPublished (db : Repository) (id : Key) (observed : ℕ) :
    Result (Repository × Publication) := do
  let current ← getPublication db id
  check .conflict (current.expectedDigest = observed)
  match current.state with
  | .published => return (db, current)
  | .needsAttention | .cancelled => .error .conflict
  | .prepared =>
    let publications ← orError .conflict (db.publications.cas id
      (fun p => decide (p.state = .prepared) && decide (p.expectedDigest = observed))
      (fun p => { p with state := .published, observedDigest := some observed }) (fun _ => rfl))
    let artifacts := db.artifacts.updateWhere
      (fun a => decide (a.id = current.artifactId) && ArtifactState.publishable a.state)
      (fun a => { a with
        state := .published, publishedTargetRedacted := some current.targetRedacted })
      (fun _ => rfl)
    let row ← orError .artifact (publications.find? id)
    return ({ db with artifacts := artifacts, publications := publications }, row)

def markNeedsAttention (db : Repository) (id : Key) (observed : Option ℕ) :
    Result (Repository × Publication) := do
  let current ← getPublication db id
  match current.state with
  | .published | .needsAttention | .cancelled => return (db, current)
  | .prepared =>
    let publications := db.publications.updateWhere
      (fun p => decide (p.id = id) && decide (p.state = .prepared))
      (fun p => { p with state := .needsAttention, observedDigest := observed }) (fun _ => rfl)
    let artifacts := db.artifacts.updateWhere
      (fun a => decide (a.id = current.artifactId) && decide (a.state = .committed))
      (fun a => { a with state := .needsAttention }) (fun _ => rfl)
    let row ← orError .artifact (publications.find? id)
    return ({ db with artifacts := artifacts, publications := publications }, row)

/-! ## What a registration does -/

open Transaction

@[simp] theorem check_eq_ok {e : ArtifactError} {b : Bool} {u : Unit} :
    check e b = .ok u ↔ b = true := by
  cases b <;> simp [check]

@[simp] theorem orError_eq_ok {α : Type} {e : ArtifactError} {x : Option α} {a : α} :
    orError e x = .ok a ↔ x = some a := by
  cases x <;> simp [orError]

theorem revisionRow_some {db : Store} {workload revision : Key} {r : Revision}
    {usage : RevisionUsage} (h : revisionRow db workload revision = some (r, usage)) :
    db.revisions.find? revision = some r ∧ r.workloadId = workload ∧
      db.usage.find? revision = some usage := by
  simp only [revisionRow, Option.bind_eq_bind, Option.bind_eq_some_iff, Option.filter_eq_some_iff,
    decide_eq_true_eq] at h
  obtain ⟨r', ⟨hr, hw⟩, usage', hu, heq⟩ := h
  cases heq
  exact ⟨hr, hw, hu⟩

/-- A new row: within both budgets, verified, and counted in the usage of its revision. -/
structure Registered (reg : Registration) (blob : Blob) (r : Revision) (old : RevisionUsage)
    (db db' : Repository) : Prop where
  revision : db.store.revisions.find? reg.revision = some r
  usage : db.store.usage.find? reg.revision = some old
  known : old.usageUnknown = false
  count : old.artifactCount + 1 ≤ r.budgets.maxArtifacts
  bytes : old.outputBytes + blob.sizeBytes ≤ r.budgets.maxBytesWritten
  inserted : db.artifacts.insert? (reg.row blob) = some db'.artifacts
  store : db'.store = { db.store with usage := db'.store.usage }
  counted : db'.store.usage = db.store.usage.updateWhere (fun x => x.revisionId = reg.revision)
    (fun x => { x with
      outputBytes := old.outputBytes + blob.sizeBytes
      artifactCount := old.artifactCount + 1 }) (fun _ => rfl)
  publications : db'.publications = db.publications

theorem register_cases {db db' : Repository} {reg : Registration} {blob : Blob}
    {verifyBlob : Result Unit} {a : Artifact}
    (h : register db reg blob verifyBlob = .ok (db', a)) :
    verifyBlob = .ok () ∧
      ((db' = db ∧ a ∈ db.artifacts.rows ∧ reg.agrees blob a = true) ∨
        a = reg.row blob ∧ ∃ r usage, Registered reg blob r usage db db') := by
  simp only [register, bind_eq_ok, check_eq_ok, orError_eq_ok, Prod.exists] at h
  obtain ⟨-, -, r, usage, hrow, h⟩ := h
  obtain ⟨hr, -, hu⟩ := revisionRow_some hrow
  split at h
  · rename_i existing hfind
    simp only [bind_eq_ok, check_eq_ok, pure_eq_ok, Prod.mk.injEq] at h
    obtain ⟨-, hagrees, _, hverify, rfl, rfl⟩ := h
    exact ⟨hverify, .inl ⟨rfl, List.mem_of_find?_eq_some hfind, hagrees⟩⟩
  · simp only [bind_eq_ok, check_eq_ok, orError_eq_ok, pure_eq_ok, Prod.mk.injEq,
      decide_eq_true_eq, Bool.not_eq_true'] at h
    obtain ⟨-, -, -, known, -, count, -, bytes, _, hverify, artifacts, hins, counters, hcas, rfl,
      rfl⟩ := h
    obtain ⟨x, -, -, rfl⟩ := Table.cas_some hcas
    exact ⟨hverify, .inr ⟨rfl, r, usage, hr, hu, known, count, bytes, hins, rfl, rfl, rfl⟩⟩

/-! ## What the publication transactions do -/

/-- The columns that no transaction changes. -/
def Publication.frozen (p : Publication) : Key × String × ℕ :=
  (p.artifactId, p.targetKey, p.expectedDigest)

def Artifact.frozen (a : Artifact) : ℕ × ℕ := (a.digest, a.sizeBytes)

/-- Rows stay, with the columns that never change. -/
structure KeepsRows (db db' : Repository) : Prop where
  publications : ∀ id row, db.publications.find? id = some row →
    ∃ row', db'.publications.find? id = some row' ∧ row'.frozen = row.frozen
  artifacts : ∀ id a, db.artifacts.find? id = some a →
    ∃ a', db'.artifacts.find? id = some a' ∧ a'.frozen = a.frozen

theorem KeepsRows.refl (db : Repository) : KeepsRows db db :=
  ⟨fun _ row h => ⟨row, h, rfl⟩, fun _ a h => ⟨a, h, rfl⟩⟩

/-- A row before the transaction, of which the transaction changed at most the state, and that
only to `state` and only in the row `id`. -/
def Moved (id : Key) (state : PublicationState) (row row' : Publication) : Prop :=
  row'.frozen = row.frozen ∧ (row'.state = row.state ∨ (row'.id = id ∧ row'.state = state))

theorem keepsRows_update {db : Repository} {p : Publication → Bool} {f : Publication → Publication}
    {hf : ∀ r, (f r).id = r.id} (frozen : ∀ r, (f r).frozen = r.frozen)
    {p' : Artifact → Bool} {g : Artifact → Artifact} {hg : ∀ a, (g a).id = a.id}
    (frozen' : ∀ a, (g a).frozen = a.frozen) :
    KeepsRows db { db with
      publications := db.publications.updateWhere p f hf
      artifacts := db.artifacts.updateWhere p' g hg } := by
  constructor
  · intro id row h
    refine ⟨_, Table.find?_updateWhere_of_some hf h, ?_⟩
    by_cases hp : p row
    · rw [if_pos hp, frozen]
    · rw [if_neg hp]
  · intro id a h
    refine ⟨_, Table.find?_updateWhere_of_some hg h, ?_⟩
    by_cases hp : p' a
    · rw [if_pos hp, frozen']
    · rw [if_neg hp]

theorem moved_update {t : Table Publication Key Publication.id} {p : Publication → Bool}
    {f : Publication → Publication} {id k : Key} {state : PublicationState} {row' : Publication}
    (hf : ∀ r, (f r).id = r.id)
    (only : ∀ r, p r = true → (f r).frozen = r.frozen ∧
      ((f r).state = r.state ∨ (r.id = id ∧ (f r).state = state)))
    (h : (t.updateWhere p f hf).find? k = some row') :
    ∃ row, t.find? k = some row ∧ Moved id state row row' := by
  obtain ⟨row, hrow, rfl⟩ := Table.find?_updateWhere_some h
  refine ⟨row, hrow, ?_⟩
  by_cases hp : p row
  · rw [if_pos hp]
    obtain ⟨frozen, moved⟩ := only row hp
    exact ⟨frozen, moved.imp_right (fun h => ⟨(hf row).trans h.1, h.2⟩)⟩
  · rw [if_neg hp]
    exact ⟨rfl, .inl rfl⟩

/-- A transaction that updates rows in place. -/
structure Updates (id : Key) (state : PublicationState) (db db' : Repository) : Prop where
  keeps : KeepsRows db db'
  moved : ∀ k row', db'.publications.find? k = some row' →
    ∃ row, db.publications.find? k = some row ∧ Moved id state row row'

theorem Updates.refl (id : Key) (state : PublicationState) (db : Repository) :
    Updates id state db db :=
  ⟨.refl db, fun _ row' h => ⟨row', h, rfl, .inl rfl⟩⟩

theorem beginPublicationAttempt_ok {db db' : Repository} {id : Key} {row : Publication}
    (h : beginPublicationAttempt db id = .ok (db', row)) :
    Updates id .prepared db db' ∧ db'.publications.find? id = some row := by
  simp only [beginPublicationAttempt, bind_eq_ok, orError_eq_ok, pure_eq_ok, Prod.mk.injEq] at h
  obtain ⟨row', hrow, rfl, rfl⟩ := h
  refine ⟨⟨⟨fun k r hr => ?_, fun _ a ha => ⟨a, ha, rfl⟩⟩, fun k r hr => ?_⟩, hrow⟩
  · refine ⟨_, Table.find?_updateWhere_of_some ?_ hr, ?_⟩
    · exact fun _ => rfl
    · split <;> rfl
  · refine moved_update ?_ ?_ hr
    · exact fun _ => rfl
    · exact fun r _ => ⟨rfl, .inl rfl⟩

theorem markPublished_ok {db db' : Repository} {id : Key} {observed : ℕ} {row : Publication}
    (h : markPublished db id observed = .ok (db', row)) : Updates id .published db db' := by
  simp only [markPublished, getPublication, bind_eq_ok, orError_eq_ok, check_eq_ok] at h
  obtain ⟨current, hcurrent, -, -, h⟩ := h
  split at h
  · simp only [pure_eq_ok, Prod.mk.injEq] at h
    obtain ⟨rfl, -⟩ := h
    exact .refl id _ db
  · cases h
  · cases h
  · simp only [bind_eq_ok, orError_eq_ok, pure_eq_ok, Prod.mk.injEq] at h
    obtain ⟨publications, hcas, row', -, rfl, -⟩ := h
    obtain ⟨r, -, -, rfl⟩ := Table.cas_some hcas
    refine ⟨keepsRows_update ?_ ?_, fun k r hr => moved_update ?_ ?_ hr⟩
    · exact fun _ => rfl
    · exact fun _ => rfl
    · exact fun _ => rfl
    · exact fun r hr => ⟨rfl, .inr ⟨of_decide_eq_true hr, rfl⟩⟩

theorem markNeedsAttention_ok {db db' : Repository} {id : Key} {observed : Option ℕ}
    {row : Publication} (h : markNeedsAttention db id observed = .ok (db', row)) :
    Updates id .needsAttention db db' := by
  simp only [markNeedsAttention, getPublication, bind_eq_ok, orError_eq_ok] at h
  obtain ⟨current, hcurrent, h⟩ := h
  split at h
  · simp only [pure_eq_ok, Prod.mk.injEq] at h
    obtain ⟨rfl, -⟩ := h
    exact .refl id _ db
  · simp only [pure_eq_ok, Prod.mk.injEq] at h
    obtain ⟨rfl, -⟩ := h
    exact .refl id _ db
  · simp only [pure_eq_ok, Prod.mk.injEq] at h
    obtain ⟨rfl, -⟩ := h
    exact .refl id _ db
  · simp only [bind_eq_ok, orError_eq_ok, pure_eq_ok, Prod.mk.injEq] at h
    obtain ⟨row', -, rfl, -⟩ := h
    refine ⟨keepsRows_update ?_ ?_, fun k r hr => moved_update ?_ ?_ hr⟩
    · exact fun _ => rfl
    · exact fun _ => rfl
    · exact fun _ => rfl
    · intro r hr
      simp only [Bool.and_eq_true, decide_eq_true_eq] at hr
      exact ⟨rfl, .inr ⟨hr.1, rfl⟩⟩

theorem preparePublication_ok {db db' : Repository} {artifactId : Key} {targetKey : String}
    {redacted publicationId : ℕ} {row : Publication}
    (h : preparePublication db artifactId targetKey redacted publicationId = .ok (db', row)) :
    ∃ a, db.artifacts.find? artifactId = some a ∧ row.frozen = (artifactId, targetKey, a.digest) ∧
      db'.publications.find? row.id = some row ∧ KeepsRows db db' ∧ db'.artifacts = db.artifacts ∧
      ∀ k row', db'.publications.find? k = some row' → db.publications.find? k = some row' ∨
        (row' = row ∧ row.state = .prepared) := by
  simp only [preparePublication, getArtifact, bind_eq_ok, orError_eq_ok, check_eq_ok] at h
  obtain ⟨a, ha, -, -, h⟩ := h
  refine ⟨a, ha, ?_⟩
  split at h
  · rename_i existing hfind
    simp only [bind_eq_ok, check_eq_ok, pure_eq_ok, Prod.mk.injEq, Bool.and_eq_true,
      decide_eq_true_eq] at h
    obtain ⟨-, ⟨hdigest, -⟩, rfl, rfl⟩ := h
    have found := List.find?_some hfind
    simp only [Bool.and_eq_true, decide_eq_true_eq] at found
    refine ⟨by rw [Publication.frozen, found.1, found.2, hdigest],
      Table.find?_of_mem (List.mem_of_find?_eq_some hfind), .refl db, rfl, fun _ _ h => .inl h⟩
  · simp only [bind_eq_ok, orError_eq_ok, pure_eq_ok, Prod.mk.injEq] at h
    obtain ⟨publications, hins, rfl, rfl⟩ := h
    refine ⟨rfl, Table.find?_insert?_self hins, ⟨fun k r hr => ⟨r, ?_, rfl⟩, fun _ a ha =>
      ⟨a, ha, rfl⟩⟩, rfl, fun k r hr => ?_⟩
    · refine (Table.find?_insert?_ne hins ?_).trans hr
      rintro rfl
      rw [(Table.insert?_some hins).1] at hr
      cases hr
    · rcases List.mem_append.mp ((Table.insert?_some hins).2 ▸ Table.mem_of_find? hr) with hold | hnew
      · exact .inl (Table.key_of_find? hr ▸ Table.find?_of_mem hold)
      · exact .inr ⟨List.mem_singleton.mp hnew, rfl⟩

end Metnos.Artifacts
