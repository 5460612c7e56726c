import Metnos.Ownership.Certificates

/-!
# Ownership.Contiguous — the two verifiers of a whole chain

One verifier takes live builds, the other one signed records with a live build for the last head
only.  What both demand of a head is `Follows`: it reads builds and records through the facts they
state, so what is proved of it holds of both loops.
-/

namespace Metnos.Ownership

open Transaction

/-! ## Distributions -/

/-- The objects that only the module's own verifiers hand out. -/
inductive Seal
  | verified | authenticated | testAuthenticated
deriving DecidableEq

/-- `VerifiedDistribution`. -/
structure Distribution where
  closedBuildId : String
  previousClosedBuildId : Option String
  releaseSequence : ℕ
  encoded : Bytes
  signature : Bytes
  sealed : Option Seal
deriving DecidableEq

/-- `AuthenticatedDistributionRecordV1`, or its nominally separate test class. -/
structure Record where
  forTest : Bool
  closedBuildId : String
  previousClosedBuildId : Option String
  releaseSequence : ℕ
  encoded : Bytes
  signature : Bytes
  artifactBinding : String
  sealed : Option Seal
deriving DecidableEq

/-- `_authenticated_artifact_binding`, in hexadecimal. -/
def authenticatedArtifactBinding (site : Site) (encoded signature : Bytes) : String :=
  site.sha256 (asciiBytes "metnos.executor-birth.authenticated-distribution-record/v1".toList ++
    [0] ++ bigEndian8 encoded.length ++ encoded ++ signature)

def IsVerifiedDistribution (build : Distribution) : Prop := build.sealed = some .verified

instance (build : Distribution) : Decidable (IsVerifiedDistribution build) :=
  inferInstanceAs (Decidable (_ = _))

/-- `_is_authenticated_distribution_record_v1`. -/
def IsAuthenticatedRecord (site : Site) (forTest : Bool) (record : Record) : Prop :=
  record.forTest = forTest ∧
    record.sealed = some (if forTest then .testAuthenticated else .authenticated) ∧
    record.artifactBinding = authenticatedArtifactBinding site record.encoded record.signature

instance (site : Site) (forTest : Bool) (record : Record) :
    Decidable (IsAuthenticatedRecord site forTest record) :=
  inferInstanceAs (Decidable (_ ∧ _ ∧ _))

/-! ## Both loops -/

/-- The certificates and transitions of a chain. -/
structure Evidence where
  anchor : Cutover
  cutovers : String → Option Cutover
  transitions : String → Option ContextTransition

structure VerifiedOwnershipChain where
  anchorCutoverId : String
  heads : List Head
  authenticatedRecords : List Record
  requiredDistribution : Option Distribution
  contextTransitions : List ContextTransition
deriving DecidableEq

/-- What a loop over live builds carries. -/
structure Walk where
  seenIds : List String
  previous : Option Head
  previousTransition : Option ContextTransition
  selectedTransitions : List ContextTransition

/-- What a loop over records carries. -/
structure RecordWalk extends Walk where
  previousRecord : Option Record
  orderedRecords : List Record

def Walk.start : Walk := ⟨[], none, none, []⟩

def RecordWalk.start : RecordWalk := ⟨.start, none, []⟩

def Walk.advance (w : Walk) (head : Head) (transition : ContextTransition) : Walk :=
  ⟨head.headId :: w.seenIds, some head, some transition, w.selectedTransitions ++ [transition]⟩

def RecordWalk.advance (w : RecordWalk) (head : Head) (transition : ContextTransition)
    (record : Record) : RecordWalk :=
  ⟨w.toWalk.advance head transition, some record, w.orderedRecords ++ [record]⟩

/-- What a head names: its certificate, its build or record, and its transition. -/
structure Named (β : Type) where
  cutover : Cutover
  build : β
  transition : ContextTransition

/-- The head names the one before it, or starts at the anchor. -/
def anchorLink (anchor : Cutover) (head : Head) : Option Head → Except ChainError Unit
  | none => do
    check (head.previousHeadId = none ∧ head.cutoverId = anchor.cutoverId) (invalid "anchor link")
    check (head.closedBuildId = anchor.closedBuildId) (invalid "anchor build")
  | some previous =>
    check (head.previousHeadId = some previous.headId) (recovery "predecessor")

/-- The objects of a head; none of the three may be missing. -/
def namedBy {β : Type} (e : Evidence) (builds : String → Option β) (head : Head) :
    Except ChainError (Named β) :=
  let found : Option (Named β) := do
    let cutover ← e.cutovers head.cutoverId
    let build ← builds head.closedBuildId
    let transition ← e.transitions cutover.contextTransitionId
    some ⟨cutover, build, transition⟩
  found.elim (.error (recovery "missing object")) .ok

def cutoverPredecessor (cutover : Cutover) : Option Head → Except ChainError Unit
  | none => .ok ()
  | some previous =>
    check (cutover.previousCutoverId = some previous.cutoverId) (invalid "cutover predecessor")

def buildPredecessor (previousClosedBuildId : Option String) :
    Option String → Except ChainError Unit
  | none => check (previousClosedBuildId = none) (invalid "initial build predecessor")
  | some previous =>
    check (previousClosedBuildId = some previous) (invalid "build predecessor")

section
variable (site : Site) (e : Evidence)

/-- The body of the loop of `verify_contiguous_chain`. -/
def stepBuild (builds : String → Option Distribution) (w : Walk) (expectedSequence : ℕ)
    (head : Head) : Except ChainError Walk := do
  check (head.releaseSequence = expectedSequence) (recovery "head gap")
  check (head.headId ∉ w.seenIds) (recovery "head fork")
  anchorLink e.anchor head w.previous
  let named ← namedBy e builds head
  requireContextTransitionBinding site named.cutover named.transition w.previousTransition
  check (named.cutover.closedBuildId = head.closedBuildId) (invalid "object binding")
  cutoverPredecessor named.cutover w.previous
  check (IsVerifiedDistribution named.build ∧ named.build.closedBuildId = head.closedBuildId ∧
    named.build.releaseSequence = head.releaseSequence) (invalid "build identity")
  buildPredecessor named.build.previousClosedBuildId (w.previous.map Head.closedBuildId)
  pure (w.advance head named.transition)

/-- The body of the loop of `_verify_contiguous_authenticated_chain_v1`. -/
def stepRecord (records : String → Option Record) (forTest : Bool) (w : RecordWalk)
    (expectedSequence : ℕ) (head : Head) : Except ChainError RecordWalk := do
  check (head.releaseSequence = expectedSequence) (recovery "head gap")
  check (head.headId ∉ w.seenIds) (recovery "head fork")
  anchorLink e.anchor head w.previous
  let named ← namedBy e records head
  requireContextTransitionBinding site named.cutover named.transition w.previousTransition
  check (IsAuthenticatedRecord site forTest named.build) (invalid "build authority")
  check (named.cutover.closedBuildId = head.closedBuildId) (invalid "object binding")
  cutoverPredecessor named.cutover w.previous
  check (named.build.closedBuildId = head.closedBuildId ∧
    named.build.releaseSequence = head.releaseSequence) (invalid "build identity")
  buildPredecessor named.build.previousClosedBuildId (w.previousRecord.map Record.closedBuildId)
  pure (w.advance head named.transition named.build)

end

/-- The chain has as many heads as the required head says. -/
def chainLength (heads : List Head) (requiredHead : Head) : Except ChainError Unit := do
  check (heads ≠ []) (downgrade "empty chain")
  check (heads.length ≤ requiredHead.releaseSequence) (downgrade "required head is older")
  check (heads.length = requiredHead.releaseSequence) (recovery "gap or extra head")

def requiredMatch (heads : List Head) (requiredHead : Head) : Except ChainError Unit :=
  check (∃ final ∈ heads.getLast?, final.headId = requiredHead.headId ∧
    final.encoded = requiredHead.encoded ∧ final.signature = requiredHead.signature)
    (downgrade "required head mismatch")

/-- The live build is the one the last record is about. -/
def LiveBuild (live : Distribution) (final : Head) (finalRecord : Record) : Prop :=
  IsVerifiedDistribution live ∧ live.closedBuildId = final.closedBuildId ∧
    live.releaseSequence = final.releaseSequence ∧ live.encoded = finalRecord.encoded ∧
    live.signature = finalRecord.signature

instance (live : Distribution) (final : Head) (finalRecord : Record) :
    Decidable (LiveBuild live final finalRecord) :=
  inferInstanceAs (Decidable (_ ∧ _ ∧ _ ∧ _ ∧ _))

section
variable (site : Site) (e : Evidence) (heads : List Head) (requiredHead : Head)

/-- `verify_contiguous_chain`. -/
def verifyContiguousChain (builds : String → Option Distribution) :
    Except ChainError VerifiedOwnershipChain := do
  chainLength heads requiredHead
  let w ← enumerate (stepBuild site e builds) .start 1 heads
  requiredMatch heads requiredHead
  pure ⟨e.anchor.cutoverId, heads, [], none, w.selectedTransitions⟩

/-- `_verify_contiguous_authenticated_chain_v1`. -/
def verifyContiguousAuthenticatedChain (records : String → Option Record)
    (requiredDistribution : Distribution) (forTest : Bool) :
    Except ChainError VerifiedOwnershipChain := do
  chainLength heads requiredHead
  let w ← enumerate (stepRecord site e records forTest) .start 1 heads
  requiredMatch heads requiredHead
  check (∃ final ∈ heads.getLast?, ∃ finalRecord ∈ w.orderedRecords.getLast?,
    LiveBuild requiredDistribution final finalRecord) (invalid "live build binding")
  pure ⟨e.anchor.cutoverId, heads, w.orderedRecords, some requiredDistribution,
    w.selectedTransitions⟩

end

/-! ## What both bodies demand of a head -/

/-- What an authority states of a build. -/
structure Facts where
  previousClosedBuildId : Option String
  releaseSequence : ℕ

def buildFacts (builds : String → Option Distribution) (id : String) : Option Facts :=
  (builds id).bind fun b =>
    if IsVerifiedDistribution b ∧ b.closedBuildId = id then
      some ⟨b.previousClosedBuildId, b.releaseSequence⟩
    else none

def recordFacts (site : Site) (forTest : Bool) (records : String → Option Record) (id : String) :
    Option Facts :=
  (records id).bind fun r =>
    if IsAuthenticatedRecord site forTest r ∧ r.closedBuildId = id then
      some ⟨r.previousClosedBuildId, r.releaseSequence⟩
    else none

/-- The head may come after what the walk has passed. -/
structure Follows (site : Site) (e : Evidence) (facts : String → Option Facts) (w : Walk) (n : ℕ)
    (head : Head) (cutover : Cutover) (transition : ContextTransition) : Prop where
  sequence : head.releaseSequence = n
  fresh : head.headId ∉ w.seenIds
  anchored : anchorLink e.anchor head w.previous = .ok ()
  certified : e.cutovers head.cutoverId = some cutover
  recorded : e.transitions cutover.contextTransitionId = some transition
  bound : requireContextTransitionBinding site cutover transition w.previousTransition = .ok ()
  object : cutover.closedBuildId = head.closedBuildId
  succeeds : cutoverPredecessor cutover w.previous = .ok ()
  build : facts head.closedBuildId =
    some ⟨w.previous.map Head.closedBuildId, head.releaseSequence⟩

section
variable {site : Site} {e : Evidence} {w w' : Walk} {n : ℕ} {head : Head}

theorem namedBy_ok {β : Type} {builds : String → Option β} {named : Named β} :
    namedBy e builds head = .ok named ↔ e.cutovers head.cutoverId = some named.cutover ∧
      builds head.closedBuildId = some named.build ∧
      e.transitions named.cutover.contextTransitionId = some named.transition := by
  unfold namedBy
  cases hc : e.cutovers head.cutoverId with
  | none => simp
  | some cutover =>
    cases hb : builds head.closedBuildId with
    | none => simp
    | some build =>
      cases ht : e.transitions cutover.contextTransitionId with
      | none =>
        simp only [Option.bind_eq_bind, Option.bind_some, ht, Option.bind_none, Option.elim_none,
          reduceCtorEq, false_iff, not_and, Option.some.injEq]
        rintro rfl -
        rw [ht]
        nofun
      | some transition =>
        simp only [Option.bind_eq_bind, Option.bind_some, ht, Option.elim_some, Except.ok.injEq,
          Option.some.injEq]
        constructor
        · rintro rfl
          exact ⟨rfl, rfl, ht⟩
        · rintro ⟨rfl, rfl, h⟩
          rw [ht, Option.some.injEq] at h
          rw [h]

theorem buildPredecessor_ok {claimed previous : Option String} :
    buildPredecessor claimed previous = .ok () ↔ claimed = previous := by
  cases previous <;> exact check_eq_ok

theorem stepBuild_ok {builds : String → Option Distribution} :
    stepBuild site e builds w n head = .ok w' ↔ ∃ cutover transition,
      Follows site e (buildFacts builds) w n head cutover transition ∧
        w' = w.advance head transition := by
  simp only [stepBuild, bind_eq_ok, check_eq_ok, pure_eq_ok, namedBy_ok]
  constructor
  · rintro ⟨-, sequence, -, fresh, ⟨⟩, anchored, ⟨cutover, build, transition⟩,
      ⟨hcutover, hbuild, htransition⟩, ⟨⟩, bound, -, object, ⟨⟩, predecessor, -,
      ⟨verified, identity, number⟩, ⟨⟩, before, rfl⟩
    refine ⟨cutover, transition, ⟨sequence, fresh, anchored, hcutover, htransition, bound, object,
      predecessor, ?_⟩, rfl⟩
    rw [buildPredecessor_ok] at before
    rw [buildFacts, hbuild, Option.bind_some, if_pos ⟨verified, identity⟩, before, number]
  · rintro ⟨cutover, transition, follows, rfl⟩
    have hfacts := follows.build
    unfold buildFacts at hfacts
    obtain ⟨build, hbuild, hfacts⟩ := Option.bind_eq_some_iff.mp hfacts
    split_ifs at hfacts with authority
    simp only [Option.some.injEq, Facts.mk.injEq] at hfacts
    exact ⟨(), follows.sequence, (), follows.fresh, (), follows.anchored,
      ⟨cutover, build, transition⟩, ⟨follows.certified, hbuild, follows.recorded⟩, (),
      follows.bound, (), follows.object, (), follows.succeeds, (),
      ⟨authority.1, authority.2, hfacts.2⟩, (), buildPredecessor_ok.mpr hfacts.1, rfl⟩

/-- The record of the last head is about the build of the last head. -/
def RecordWalk.Coherent (w : RecordWalk) : Prop :=
  w.previousRecord.map Record.closedBuildId = w.previous.map Head.closedBuildId

theorem stepRecord_ok {records : String → Option Record} {forTest : Bool} {w w' : RecordWalk}
    (coherent : w.Coherent) :
    stepRecord site e records forTest w n head = .ok w' ↔ ∃ cutover transition record,
      Follows site e (recordFacts site forTest records) w.toWalk n head cutover transition ∧
        records head.closedBuildId = some record ∧ w' = w.advance head transition record := by
  simp only [stepRecord, bind_eq_ok, check_eq_ok, pure_eq_ok, namedBy_ok]
  rw [coherent]
  constructor
  · rintro ⟨-, sequence, -, fresh, ⟨⟩, anchored, ⟨cutover, record, transition⟩,
      ⟨hcutover, hrecord, htransition⟩, ⟨⟩, bound, -, authentic, -, object, ⟨⟩, predecessor, -,
      ⟨identity, number⟩, ⟨⟩, before, rfl⟩
    refine ⟨cutover, transition, record, ⟨sequence, fresh, anchored, hcutover, htransition, bound,
      object, predecessor, ?_⟩, hrecord, rfl⟩
    rw [buildPredecessor_ok] at before
    rw [recordFacts, hrecord, Option.bind_some, if_pos ⟨authentic, identity⟩, before, number]
  · rintro ⟨cutover, transition, record, follows, hrecord, rfl⟩
    have hfacts := follows.build
    rw [recordFacts, hrecord, Option.bind_some] at hfacts
    split_ifs at hfacts with authority
    simp only [Option.some.injEq, Facts.mk.injEq] at hfacts
    exact ⟨(), follows.sequence, (), follows.fresh, (), follows.anchored,
      ⟨cutover, record, transition⟩, ⟨follows.certified, hrecord, follows.recorded⟩, (),
      follows.bound, (), authority.1, (), follows.object, (), follows.succeeds, (),
      ⟨authority.2, hfacts.2⟩, (), buildPredecessor_ok.mpr hfacts.1, rfl⟩

theorem Follows.coherent {forTest : Bool} {records : String → Option Record} {w : RecordWalk}
    {cutover : Cutover} {transition : ContextTransition} {record : Record}
    (h : Follows site e (recordFacts site forTest records) w.toWalk n head cutover transition)
    (hrecord : records head.closedBuildId = some record) :
    (w.advance head transition record).Coherent := by
  have hfacts := h.build
  rw [recordFacts, hrecord, Option.bind_some] at hfacts
  split_ifs at hfacts with authority
  exact congrArg some authority.2

end

end Metnos.Ownership
