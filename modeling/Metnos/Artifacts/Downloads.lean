import Mathlib.Data.Prod.Lex
import Mathlib.Data.String.Basic
import Metnos.Durable.Erasure
import Metnos.Lib.Table

/-!
# Artifacts.Downloads — capabilities that expire

`ArtifactDownloadRegistry` hands out one token for an owner and an artifact.  A renewal keeps the
token and moves its expiry, so that the heap keeps a record of the old one; a record is acted upon
only when it still states the expiry of its token.  Instants are numbers of microseconds.
-/

namespace Metnos.Artifacts

/-! ## The registry -/

/-- `ArtifactDownloadCapability` -/
structure Capability where
  token : String
  ownerUserId : String
  artifactId : String
  expiresAt : ℤ
deriving DecidableEq

namespace Capability

/-- The key of `_by_artifact`. -/
def artifactKey (c : Capability) : String × String := (c.ownerUserId, c.artifactId)

/-- A record of the heap: tuples compare by the instant, then by the token. -/
abbrev Record := ℤ ×ₗ String

def record (c : Capability) : Record := toLex (c.expiresAt, c.token)

end Capability

open Capability (Record)

/-- `ArtifactDownloadRegistry`; the heap is the list of its records in the order they are
popped. -/
structure Downloads where
  entries : Table Capability String Capability.token
  byArtifact : Table ((String × String) × String) (String × String) Prod.fst
  expiryHeap : List Record
  capacity : ℕ

inductive DownloadError
  | capacity | owner | identifier | lifetime | full | tokenUnavailable | overflow
deriving DecidableEq

/-- `_require_id` -/
def requireId (value : String) : Bool :=
  8 ≤ value.toList.length && value.toList.length ≤ 128 &&
    value.toList.all (fun c => ('A' ≤ c && c ≤ 'Z') || ('a' ≤ c && c ≤ 'z') ||
      ('0' ≤ c && c ≤ '9') || c = '_' || c = '-')

/-- The last instant that a `datetime` can state. -/
def lastInstant : ℤ := 253402300799999999

namespace Downloads

def create (capacity : ℤ) : Except DownloadError Downloads :=
  if 1 ≤ capacity ∧ capacity ≤ 65536 then .ok ⟨.empty, .empty, [], capacity.toNat⟩
  else .error .capacity

/-- `heapq.heappush` -/
def push (R : Downloads) (r : Record) : Downloads :=
  { R with expiryHeap := R.expiryHeap.orderedInsert (· ≤ ·) r }

/-- `_entries.pop(token, None)` and, for the entry that was there, `_by_artifact.pop(key, None)`. -/
def drop (R : Downloads) (c : Capability) : Downloads :=
  { R with entries := R.entries.keep (fun e => e.token ≠ c.token)
           byArtifact := R.byArtifact.keep (fun e => e.1 ≠ c.artifactKey) }

/-- The loop of `_purge_expired`: a due record is popped, and acted upon when it is current. -/
def purgeLoop (current : ℤ) : List Record → Downloads → Downloads
  | [], R => { R with expiryHeap := [] }
  | r :: heap, R =>
    if (ofLex r).1 ≤ current then
      match R.entries.find? (ofLex r).2 with
      | some c => purgeLoop current heap (if c.expiresAt = (ofLex r).1 then R.drop c else R)
      | none => purgeLoop current heap R
    else { R with expiryHeap := r :: heap }

/-- `_purge_expired` -/
def purgeExpired (R : Downloads) (current : ℤ) : Downloads := purgeLoop current R.expiryHeap R

/-- `_compact_expiry_heap` -/
def compactExpiryHeap (R : Downloads) : Downloads :=
  let threshold := min (R.capacity * 2) (max 64 (R.entries.rows.length * 2))
  if R.expiryHeap.length ≤ threshold then R
  else { R with expiryHeap := (R.entries.rows.map Capability.record).insertionSort (· ≤ ·) }

/-- The new entry, its record and the compaction. -/
def store (R : Downloads) (c : Capability) : Downloads :=
  (({ R with entries := R.entries.upsert c } : Downloads).push c.record).compactExpiryHeap

/-- `issue`, where `draw` are the tokens that `secrets` would give. -/
def issue (R : Downloads) (ownerUserId artifactId : String) (lifetime now : ℤ)
    (draw : ℕ → String) : Except DownloadError Capability × Downloads :=
  if !Durable.requireOwner ownerUserId then (.error .owner, R)
  else if !requireId artifactId then (.error .identifier, R)
  else if ¬(1000000 ≤ lifetime ∧ lifetime ≤ 900000000) then (.error .lifetime, R) else
  let R := R.purgeExpired now
  let artifactKey := (ownerUserId, artifactId)
  let existing := (R.byArtifact.find? artifactKey).bind (fun e => R.entries.find? e.2)
  let expiresAt := now + lifetime
  if lastInstant < expiresAt then (.error .overflow, R) else
  match existing with
  | some existing =>
    if expiresAt ≤ existing.expiresAt then (.ok existing, R)
    else
      let capability : Capability := ⟨existing.token, ownerUserId, artifactId, expiresAt⟩
      (.ok capability, R.store capability)
  | none =>
    if R.capacity ≤ R.entries.rows.length then (.error .full, R) else
    match ((List.range 8).map draw).find? (fun token => (R.entries.find? token).isNone) with
    | none => (.error .tokenUnavailable, R)
    | some token =>
      let capability : Capability := ⟨token, ownerUserId, artifactId, expiresAt⟩
      (.ok capability,
        ({ R with byArtifact := R.byArtifact.upsert (artifactKey, token) } : Downloads).store
          capability)

def resolve (R : Downloads) (token ownerUserId : String) (now : ℤ) :
    Except DownloadError (Option Capability) × Downloads :=
  if !Durable.requireOwner ownerUserId then (.error .owner, R)
  else if token = "" then (.ok none, R) else
  let R := R.purgeExpired now
  (.ok ((R.entries.find? token).filter (fun c => c.ownerUserId = ownerUserId)), R)

def revoke (R : Downloads) (token : String) : Bool × Downloads :=
  if token = "" then (false, R) else
  match R.entries.find? token with
  | none => (false, R)
  | some capability => (true, (R.drop capability).compactExpiryHeap)

end Downloads

/-! ## Runs -/

inductive DownloadCall
  | issue (ownerUserId artifactId : String) (lifetime now : ℤ) (draw : ℕ → String)
  | resolve (token ownerUserId : String) (now : ℤ)
  | revoke (token : String)

inductive DownloadAnswer
  | issued (answer : Except DownloadError Capability)
  | resolved (answer : Except DownloadError (Option Capability))
  | revoked (answer : Bool)

/-- The calls so far with their answers, the latest last. -/
abbrev DownloadHistory := List (DownloadCall × DownloadAnswer)

namespace Downloads

def call (R : Downloads) : DownloadCall → DownloadAnswer × Downloads
  | .issue owner artifact lifetime now draw =>
    ((R.issue owner artifact lifetime now draw).map .issued id)
  | .resolve token owner now => (R.resolve token owner now).map .resolved id
  | .revoke token => (R.revoke token).map .revoked id

def step (S : Downloads × DownloadHistory) (c : DownloadCall) : Downloads × DownloadHistory :=
  ((S.1.call c).2, S.2 ++ [(c, (S.1.call c).1)])

def run (R : Downloads) (calls : List DownloadCall) : Downloads × DownloadHistory :=
  calls.foldl step (R, [])

end Downloads

/-- The call gave a capability with this token. -/
def givesToken (token : String) (e : DownloadCall × DownloadAnswer) : Prop :=
  ∃ c, e.2 = .issued (.ok c) ∧ c.token = token

/-- The call asked to revoke this token. -/
def revokesToken (token : String) (e : DownloadCall × DownloadAnswer) : Prop :=
  e.1 = .revoke token

/-- The latest issue that gave the token of `c` gave `c` itself, for its owner and artifact, and no
call has revoked the token since. -/
def Standing (history : DownloadHistory) (c : Capability) : Prop :=
  ∃ before after lifetime now draw,
    history = before ++
      (.issue c.ownerUserId c.artifactId lifetime now draw, .issued (.ok c)) :: after ∧
    ∀ e ∈ after, ¬ givesToken c.token e ∧ ¬ revokesToken c.token e

/-! ## The invariant -/

namespace Downloads

/-- `_by_artifact` and `_entries` are inverse to each other. -/
def Inverse (R : Downloads) : Prop :=
  ∀ k t, R.byArtifact.find? k = some (k, t) ↔
    ∃ c, R.entries.find? t = some c ∧ c.artifactKey = k

structure Wf (R : Downloads) : Prop where
  inverse : R.Inverse
  size : R.entries.rows.length ≤ R.capacity
  /-- Every entry has a record with its current expiry. -/
  recorded : ∀ t c, R.entries.find? t = some c → c.record ∈ R.expiryHeap
  ordered : R.expiryHeap.Pairwise (· ≤ ·)
  bounded : R.expiryHeap.length ≤ max 64 (2 * R.capacity)

variable {R : Downloads}

theorem find?_drop_entries (R : Downloads) (c : Capability) (t : String) :
    (R.drop c).entries.find? t = if t = c.token then none else R.entries.find? t := by
  show (R.entries.keep _).find? t = _
  rw [Table.find?_keep]
  rcases h : R.entries.find? t with _ | x
  · simp
  · obtain rfl := Table.key_of_find? h
    simp [Option.filter]

theorem find?_drop_byArtifact (R : Downloads) (c : Capability) (k : String × String) :
    (R.drop c).byArtifact.find? k = if k = c.artifactKey then none else R.byArtifact.find? k := by
  show (R.byArtifact.keep _).find? k = _
  rw [Table.find?_keep]
  rcases h : R.byArtifact.find? k with _ | x
  · simp
  · obtain rfl := Table.key_of_find? h
    simp [Option.filter]

theorem Inverse.drop (I : R.Inverse) {c : Capability} (hc : R.entries.find? c.token = some c) :
    (R.drop c).Inverse := by
  intro k t
  rw [find?_drop_byArtifact, find?_drop_entries]
  by_cases hk : k = c.artifactKey
  · rw [if_pos hk]
    refine ⟨fun h => absurd h (by simp), ?_⟩
    rintro ⟨x, hx, same⟩
    split at hx
    · cases hx
    · rename_i ht
      -- the artifact of `c` belongs to its token alone
      have mine := (I k c.token).mpr ⟨c, hc, hk.symm⟩
      have other := (I k t).mpr ⟨x, hx, same⟩
      rw [mine, Option.some.injEq, Prod.mk.injEq] at other
      exact absurd other.2.symm ht
  · rw [if_neg hk, I k t]
    constructor
    · rintro ⟨x, hx, same⟩
      refine ⟨x, ?_, same⟩
      rw [if_neg, hx]
      rintro rfl
      rw [hc, Option.some.injEq] at hx
      exact hk (hx ▸ same.symm)
    · rintro ⟨x, hx, same⟩
      split at hx
      · cases hx
      · exact ⟨x, hx, same⟩

theorem length_drop_le (R : Downloads) (c : Capability) :
    (R.drop c).entries.rows.length ≤ R.entries.rows.length := List.length_filter_le _ _

/-! ## Purging -/

/-- What the loop leaves when it is entered with the records `heap`. -/
structure Purged (now : ℤ) (R R' : Downloads) : Prop where
  wf : R'.Wf
  capacity : R'.capacity = R.capacity
  live : ∀ t c, R'.entries.find? t = some c → R.entries.find? t = some c ∧ now < c.expiresAt

theorem Wf.tail {r : Record} {heap : List Record} (W : Wf { R with expiryHeap := r :: heap })
    (recorded : ∀ t c, R.entries.find? t = some c → c.record ≠ r) :
    Wf { R with expiryHeap := heap } where
  inverse := W.inverse
  size := W.size
  recorded := fun t c h => (List.mem_cons.mp (W.recorded t c h)).resolve_left (recorded t c h)
  ordered := W.ordered.of_cons
  bounded := le_trans (Nat.le_succ _) W.bounded

theorem token_of_record {c : Capability} {r : Record} (h : c.record = r) :
    c.expiresAt = (ofLex r).1 ∧ c.token = (ofLex r).2 := by
  subst h
  exact ⟨rfl, rfl⟩

theorem Wf.dropped {r : Record} {heap : List Record} {c : Capability}
    (W : Wf { R with expiryHeap := r :: heap })
    (hc : R.entries.find? c.token = some c) (hr : c.record = r) :
    Wf { R.drop c with expiryHeap := heap } where
  inverse := Inverse.drop (R := R) W.inverse hc
  size := (R.length_drop_le c).trans W.size
  recorded := by
    intro t x hx
    have hx : (R.drop c).entries.find? t = some x := hx
    rw [find?_drop_entries] at hx
    split at hx
    · cases hx
    · rename_i ht
      refine (List.mem_cons.mp (W.recorded t x hx)).resolve_left fun same => ht ?_
      rw [← Table.key_of_find? hx, (token_of_record same).2, ← (token_of_record hr).2]
  ordered := W.ordered.of_cons
  bounded := le_trans (Nat.le_succ _) W.bounded

theorem purgeLoop_spec (now : ℤ) : ∀ (heap : List Record) (R : Downloads),
    Wf { R with expiryHeap := heap } → Purged now R (purgeLoop now heap R)
  | [], R, W => by
    refine ⟨W, rfl, fun t c h => ?_⟩
    exact absurd (W.recorded t c h) List.not_mem_nil
  | r :: heap, R, W => by
    unfold purgeLoop
    split
    · split
      · rename_i c hc
        have token := Table.key_of_find? hc
        split
        · rename_i current
          have hr : c.record = r := by
            unfold Capability.record
            rw [current, token]
            rfl
          rw [← token] at hc
          have P := purgeLoop_spec now heap (R.drop c) (W.dropped hc hr)
          refine ⟨P.wf, P.capacity, fun t x hx => ?_⟩
          obtain ⟨kept, later⟩ := P.live t x hx
          rw [find?_drop_entries] at kept
          split at kept
          · cases kept
          · exact ⟨kept, later⟩
        · rename_i stale
          refine purgeLoop_spec now heap R (W.tail fun t x hx same => stale ?_)
          obtain ⟨expiry, same⟩ := token_of_record same
          rw [← same, Table.key_of_find? hx, hx, Option.some.injEq] at hc
          rw [← hc, expiry]
      · rename_i free
        refine purgeLoop_spec now heap R (W.tail fun t x hx same => ?_)
        rw [← (token_of_record same).2, Table.key_of_find? hx, hx] at free
        cases free
    · rename_i later
      refine ⟨W, rfl, fun t c h => ⟨h, ?_⟩⟩
      -- the first record is the earliest one
      have first : r ≤ c.record := by
        rcases List.mem_cons.mp (W.recorded t c h) with same | mem
        · exact same.ge
        · exact List.rel_of_pairwise_cons W.ordered mem
      have instant := Prod.Lex.monotone_fst _ _ first
      exact lt_of_lt_of_le (not_le.mp later) instant

theorem Wf.purgeExpired (W : R.Wf) (now : ℤ) : Purged now R (R.purgeExpired now) :=
  purgeLoop_spec now R.expiryHeap R W

/-! ## Storing and compacting -/

/-- Compaction makes the heap small again: what is short enough stays, and a new heap has one
record for every entry. -/
theorem Wf.compact (inverse : R.Inverse) (size : R.entries.rows.length ≤ R.capacity)
    (recorded : ∀ t c, R.entries.find? t = some c → c.record ∈ R.expiryHeap)
    (ordered : R.expiryHeap.Pairwise (· ≤ ·)) : R.compactExpiryHeap.Wf := by
  unfold compactExpiryHeap
  dsimp only
  split
  · exact ⟨inverse, size, recorded, ordered, by omega⟩
  · refine ⟨inverse, size, ?_, List.pairwise_insertionSort _ _, ?_⟩
    · intro t c h
      exact (List.mem_insertionSort _).mpr (List.mem_map_of_mem (Table.mem_of_find? h))
    · show ((R.entries.rows.map Capability.record).insertionSort (· ≤ ·)).length ≤ _
      rw [List.length_insertionSort, List.length_map]
      have size : R.entries.rows.length ≤ R.capacity := size
      show _ ≤ max 64 (2 * R.capacity)
      omega

theorem compact_entries (R : Downloads) : R.compactExpiryHeap.entries = R.entries := by
  unfold compactExpiryHeap
  dsimp only
  split <;> rfl

theorem compact_capacity (R : Downloads) : R.compactExpiryHeap.capacity = R.capacity := by
  unfold compactExpiryHeap
  dsimp only
  split <;> rfl

theorem find?_store (R : Downloads) (c : Capability) (t : String) :
    (R.store c).entries.find? t = if t = c.token then some c else R.entries.find? t := by
  unfold store
  rw [compact_entries]
  exact Table.find?_upsert R.entries c t

theorem Wf.store (W : R.Wf) {c : Capability} {R' : Downloads} (entries : R'.entries = R.entries)
    (heap : R'.expiryHeap = R.expiryHeap)
    (inverse : Inverse { R' with entries := R'.entries.upsert c })
    (size : (R'.entries.upsert c).rows.length ≤ R'.capacity) : (R'.store c).Wf := by
  refine Wf.compact (R := ({ R' with entries := R'.entries.upsert c } : Downloads).push c.record)
    inverse size ?_ ?_
  · intro t x hx
    refine (List.mem_orderedInsert _).mpr ?_
    have hx : (R'.entries.upsert c).find? t = some x := hx
    rw [Table.find?_upsert] at hx
    split at hx
    · cases hx
      exact .inl rfl
    · rw [entries] at hx
      exact .inr (heap ▸ W.recorded t x hx)
  · show (R'.expiryHeap.orderedInsert (· ≤ ·) c.record).Pairwise (· ≤ ·)
    rw [heap]
    exact W.ordered.orderedInsert _ _

theorem Inverse.renew (I : R.Inverse) {c x : Capability}
    (hx : R.entries.find? c.token = some x) (same : c.artifactKey = x.artifactKey) :
    Inverse { R with entries := R.entries.upsert c } := by
  intro k t
  show R.byArtifact.find? k = some (k, t) ↔
    ∃ y, (R.entries.upsert c).find? t = some y ∧ y.artifactKey = k
  rw [I k t, Table.find?_upsert]
  split
  · rename_i ht
    subst ht
    rw [hx]
    constructor
    · rintro ⟨y, ⟨⟩, key⟩
      exact ⟨c, rfl, same.trans key⟩
    · rintro ⟨y, ⟨⟩, key⟩
      exact ⟨x, rfl, same.symm.trans key⟩
  · rfl

theorem Inverse.add (I : R.Inverse) {c : Capability} (fresh : R.entries.find? c.token = none)
    (free : R.byArtifact.find? c.artifactKey = none) :
    Inverse { R with entries := R.entries.upsert c
                     byArtifact := R.byArtifact.upsert (c.artifactKey, c.token) } := by
  intro k t
  show (R.byArtifact.upsert (c.artifactKey, c.token)).find? k = some (k, t) ↔
    ∃ y, (R.entries.upsert c).find? t = some y ∧ y.artifactKey = k
  rw [Table.find?_upsert, Table.find?_upsert]
  by_cases hk : k = c.artifactKey
  · subst hk
    rw [if_pos rfl, Option.some.injEq, Prod.mk.injEq]
    constructor
    · rintro ⟨-, rfl⟩
      exact ⟨c, if_pos rfl, rfl⟩
    · rintro ⟨y, hy, key⟩
      split at hy
      · rename_i ht
        exact ⟨rfl, ht.symm⟩
      · have taken := (I _ t).mpr ⟨y, hy, key⟩
        rw [free] at taken
        cases taken
  · rw [if_neg hk, I k t]
    constructor
    · rintro ⟨y, hy, key⟩
      refine ⟨y, ?_, key⟩
      rw [if_neg, hy]
      rintro rfl
      rw [fresh] at hy
      cases hy
    · rintro ⟨y, hy, key⟩
      split at hy
      · cases hy
        exact absurd key.symm hk
      · exact ⟨y, hy, key⟩

/-! ## The calls -/

/-- What a call to `issue` leaves: an entry is an old one whose token was not given, or the answer. -/
structure Issued (owner artifact : String) (R : Downloads)
    (out : Except DownloadError Capability × Downloads) : Prop where
  wf : out.2.Wf
  capacity : out.2.capacity = R.capacity
  entries : ∀ t c, out.2.entries.find? t = some c →
    (R.entries.find? t = some c ∧ ∀ x, out.1 = .ok x → x.token ≠ t) ∨
    (out.1 = .ok c ∧ c.ownerUserId = owner ∧ c.artifactId = artifact)

theorem Issued.error {owner artifact : String} {R' : Downloads} {e : DownloadError} (W : R'.Wf)
    (capacity : R'.capacity = R.capacity)
    (sub : ∀ t c, R'.entries.find? t = some c → R.entries.find? t = some c) :
    Issued owner artifact R (.error e, R') where
  wf := W
  capacity := capacity
  entries := fun t c h => .inl ⟨sub t c h, fun x hx => by cases hx⟩

theorem Wf.issue (W : R.Wf) (owner artifact : String) (lifetime now : ℤ) (draw : ℕ → String) :
    Issued owner artifact R (R.issue owner artifact lifetime now draw) := by
  have P := W.purgeExpired now
  have old := fun t c h => (P.live t c h).1
  unfold Downloads.issue
  split
  · exact .error W rfl fun _ _ h => h
  split
  · exact .error W rfl fun _ _ h => h
  split
  · exact .error W rfl fun _ _ h => h
  dsimp only
  generalize R.purgeExpired now = R' at *
  split
  · exact .error P.wf P.capacity old
  split
  · rename_i x hx
    obtain ⟨⟨k, t⟩, hk, ht⟩ := Option.bind_eq_some_iff.mp hx
    obtain rfl : k = (owner, artifact) := Table.key_of_find? hk
    obtain ⟨y, hy, key⟩ := (P.wf.inverse _ t).mp hk
    obtain rfl : x = y := Option.some.inj (ht.symm.trans hy)
    have token : x.token = t := Table.key_of_find? hy
    obtain ⟨howner, hartifact⟩ := Prod.mk.inj key
    split
    · refine ⟨P.wf, P.capacity, fun t' c hc => ?_⟩
      by_cases same : x.token = t'
      · rw [← same, token, hy, Option.some.injEq] at hc
        subst hc
        exact .inr ⟨rfl, howner, hartifact⟩
      · refine .inl ⟨old t' c hc, fun z hz => ?_⟩
        cases hz
        exact same
    · refine ⟨P.wf.store rfl rfl (P.wf.inverse.renew (x := x) (token ▸ hy) key.symm) ?_, ?_, ?_⟩
      · rw [Table.length_upsert_of_some (x := x) (token ▸ hy)]
        exact P.wf.size
      · exact (compact_capacity _).trans P.capacity
      · intro t' c hc
        have hc : (R'.store ⟨x.token, owner, artifact, now + lifetime⟩).entries.find? t' = some c :=
          hc
        rw [find?_store] at hc
        split at hc
        · cases hc
          exact .inr ⟨rfl, rfl, rfl⟩
        · rename_i other
          refine .inl ⟨old t' c hc, fun z hz => ?_⟩
          cases hz
          exact Ne.symm other
  · rename_i unknown
    -- an artifact without an entry has no token either
    have free : R'.byArtifact.find? (owner, artifact) = none := by
      rcases h : R'.byArtifact.find? (owner, artifact) with _ | ⟨k, t⟩
      · rfl
      · obtain rfl : k = (owner, artifact) := Table.key_of_find? h
        obtain ⟨y, hy, -⟩ := (P.wf.inverse _ t).mp h
        rw [h, Option.bind_some, hy] at unknown
        cases unknown
    split
    · exact .error P.wf P.capacity old
    rename_i room
    split
    · exact .error P.wf P.capacity old
    · rename_i token htoken
      have fresh : R'.entries.find? token = none := Option.isNone_iff_eq_none.mp (by
        simpa using List.find?_some htoken)
      refine ⟨P.wf.store rfl rfl ?_ ?_, ?_, ?_⟩
      · exact P.wf.inverse.add (c := ⟨token, owner, artifact, now + lifetime⟩) fresh free
      · exact (Table.length_upsert_le _ _).trans (not_le.mp room)
      · exact (compact_capacity _).trans P.capacity
      · intro t' c hc
        rw [find?_store] at hc
        split at hc
        · cases hc
          exact .inr ⟨rfl, rfl, rfl⟩
        · rename_i other
          refine .inl ⟨old t' c hc, fun z hz => ?_⟩
          cases hz
          exact Ne.symm other

/-- What a call to `resolve` leaves and answers. -/
structure Resolved (token owner : String) (now : ℤ) (R : Downloads)
    (out : Except DownloadError (Option Capability) × Downloads) : Prop where
  wf : out.2.Wf
  capacity : out.2.capacity = R.capacity
  entries : ∀ t c, out.2.entries.find? t = some c → R.entries.find? t = some c
  answer : ∀ c, out.1 = .ok (some c) →
    token ≠ "" ∧ R.entries.find? token = some c ∧ c.ownerUserId = owner ∧ now < c.expiresAt

theorem Wf.resolve (W : R.Wf) (token owner : String) (now : ℤ) :
    Resolved token owner now R (R.resolve token owner now) := by
  have P := W.purgeExpired now
  unfold Downloads.resolve
  split
  · exact ⟨W, rfl, fun _ _ h => h, fun _ h => by cases h⟩
  split
  · exact ⟨W, rfl, fun _ _ h => h, fun _ h => by cases h⟩
  · rename_i nonempty
    refine ⟨P.wf, P.capacity, fun t c h => (P.live t c h).1, fun c h => ?_⟩
    obtain ⟨found, howner⟩ := Option.filter_eq_some_iff.mp (Except.ok.inj h)
    obtain ⟨kept, later⟩ := P.live token c found
    exact ⟨nonempty, kept, of_decide_eq_true howner, later⟩

/-- What a call to `revoke` leaves. -/
structure Revoked (token : String) (R R' : Downloads) : Prop where
  wf : R'.Wf
  capacity : R'.capacity = R.capacity
  entries : ∀ t c, R'.entries.find? t = some c →
    R.entries.find? t = some c ∧ (t = token → token = "")

theorem Wf.revoke (W : R.Wf) (token : String) : Revoked token R (R.revoke token).2 := by
  unfold Downloads.revoke
  split
  · rename_i empty
    exact ⟨W, rfl, fun t c h => ⟨h, fun _ => empty⟩⟩
  split
  · rename_i free
    refine ⟨W, rfl, fun t c h => ⟨h, ?_⟩⟩
    rintro rfl
    rw [free] at h
    cases h
  · rename_i c hc
    obtain rfl : c.token = token := Table.key_of_find? hc
    refine ⟨Wf.compact (W.inverse.drop hc) ((R.length_drop_le c).trans W.size) ?_ W.ordered,
      compact_capacity _, fun t x hx => ?_⟩
    · intro t x hx
      rw [find?_drop_entries] at hx
      split at hx
      · cases hx
      · exact W.recorded t x hx
    · have hx : (R.drop c).compactExpiryHeap.entries.find? t = some x := hx
      rw [compact_entries, find?_drop_entries] at hx
      split at hx
      · cases hx
      · rename_i other
        exact ⟨hx, fun same => absurd same other⟩

end Downloads

/-! ## The history -/

theorem Standing.snoc {history : DownloadHistory} {c : Capability} (S : Standing history c)
    {e : DownloadCall × DownloadAnswer} (gives : ¬ givesToken c.token e)
    (revokes : ¬ revokesToken c.token e) : Standing (history ++ [e]) c := by
  obtain ⟨before, after, lifetime, now, draw, rfl, quiet⟩ := S
  refine ⟨before, after ++ [e], lifetime, now, draw, by simp, fun x hx => ?_⟩
  rcases List.mem_append.mp hx with hx | hx
  · exact quiet x hx
  · obtain rfl := List.mem_singleton.mp hx
    exact ⟨gives, revokes⟩

namespace Downloads

/-- The invariant of a run: every entry stands in the history. -/
structure Told (S : Downloads × DownloadHistory) : Prop where
  wf : S.1.Wf
  standing : ∀ t c, t ≠ "" → S.1.entries.find? t = some c → Standing S.2 c

theorem Told.step {S : Downloads × DownloadHistory} (T : Told S) (e : DownloadCall) :
    Told (step S e) ∧ (step S e).1.capacity = S.1.capacity := by
  cases e with
  | issue owner artifact lifetime now draw =>
    have I := T.wf.issue owner artifact lifetime now draw
    refine ⟨⟨I.wf, fun t c ht h => ?_⟩, I.capacity⟩
    have token : c.token = t := Table.key_of_find? h
    rcases I.entries t c h with ⟨old, other⟩ | ⟨answer, rfl, rfl⟩
    · refine (T.standing t c ht old).snoc ?_ ?_
      · rintro ⟨x, hx, same⟩
        exact other x (DownloadAnswer.issued.inj hx) (same.trans token)
      · intro h
        cases h
    · refine ⟨S.2, [], lifetime, now, draw, ?_, fun _ hx => by cases hx⟩
      rw [← answer]
      rfl
  | resolve token owner now =>
    have P := T.wf.resolve token owner now
    refine ⟨⟨P.wf, fun t c ht h => (T.standing t c ht (P.entries t c h)).snoc ?_ ?_⟩, P.capacity⟩
    · rintro ⟨x, hx, -⟩
      cases hx
    · intro h
      cases h
  | revoke token =>
    have P := T.wf.revoke token
    refine ⟨⟨P.wf, fun t c ht h => ?_⟩, P.capacity⟩
    obtain ⟨old, other⟩ := P.entries t c h
    refine (T.standing t c ht old).snoc ?_ ?_
    · rintro ⟨x, hx, -⟩
      cases hx
    · intro revokes
      obtain rfl : token = c.token := DownloadCall.revoke.inj revokes
      exact ht ((Table.key_of_find? h).symm.trans (other (Table.key_of_find? h).symm))

theorem run_told {capacity : ℤ} {R : Downloads} (h : create capacity = .ok R)
    (calls : List DownloadCall) :
    Told (run R calls) ∧ ((run R calls).1.capacity : ℤ) = capacity := by
  unfold create at h
  split at h
  · rename_i range
    cases h
    have all : ∀ (calls : List DownloadCall) (S : Downloads × DownloadHistory), Told S →
        Told (calls.foldl Downloads.step S) ∧
          (calls.foldl Downloads.step S).1.capacity = S.1.capacity := by
      intro calls
      induction calls with
      | nil => exact fun S T => ⟨T, rfl⟩
      | cons e calls ih =>
        intro S T
        obtain ⟨T', same⟩ := T.step e
        obtain ⟨all, cap⟩ := ih _ T'
        exact ⟨all, cap.trans same⟩
    obtain ⟨T, cap⟩ := all calls (⟨.empty, .empty, [], capacity.toNat⟩, [])
      ⟨⟨fun k t => by simp, Nat.zero_le _, fun t c h => by simp at h, .nil, Nat.zero_le _⟩,
        fun t c _ h => by simp at h⟩
    refine ⟨T, ?_⟩
    show (((calls.foldl Downloads.step (⟨.empty, .empty, [], capacity.toNat⟩, [])).1.capacity :
      ℕ) : ℤ) = capacity
    rw [cap]
    show ((capacity.toNat : ℕ) : ℤ) = capacity
    omega
  · cases h

end Downloads

open Downloads in
/-- After any calls, the two maps are inverse, the entries fit the capacity, every entry has a
current record, the heap is small, and what `resolve` answers stands and is not due. -/
theorem download_registry {capacity : ℤ} {R : Downloads} (h : create capacity = .ok R)
    (calls : List DownloadCall) :
    (run R calls).1.Inverse ∧
    ((run R calls).1.entries.rows.length : ℤ) ≤ capacity ∧
    (∀ c ∈ (run R calls).1.entries.rows, c.record ∈ (run R calls).1.expiryHeap) ∧
    ((run R calls).1.expiryHeap.length : ℤ) ≤ max 64 (2 * capacity) ∧
    ∀ token owner now c, ((run R calls).1.resolve token owner now).1 = .ok (some c) →
      c.token = token ∧ c.ownerUserId = owner ∧ now < c.expiresAt ∧
        Standing (run R calls).2 c := by
  obtain ⟨T, cap⟩ := run_told h calls
  refine ⟨T.wf.inverse, ?_, fun c hc => T.wf.recorded _ c (Table.find?_of_mem hc), ?_, ?_⟩
  · have := T.wf.size
    omega
  · have := T.wf.bounded
    omega
  · intro token owner now c answer
    obtain ⟨nonempty, found, howner, later⟩ := (T.wf.resolve token owner now).answer c answer
    exact ⟨Table.key_of_find? found, howner, later, T.standing token c nonempty found⟩

/-- An issue and its renewal four minutes later. -/
def renewedCalls : List DownloadCall :=
  [.issue "owner" "artifact" 300000000 0 (fun _ => "token"),
    .issue "owner" "artifact" 300000000 240000000 (fun _ => "other")]

/-- The first token stands at the renewed expiry, although its first record is still there. -/
theorem download_registry_renewed :
    Standing (Downloads.run ⟨.empty, .empty, [], 2⟩ renewedCalls).2
      ⟨"token", "owner", "artifact", 540000000⟩ :=
  ((@download_registry 2 _ rfl renewedCalls).2.2.2.2 "token" "owner" 400000000
    ⟨"token", "owner", "artifact", 540000000⟩ (by rfl)).2.2.2

end Metnos.Artifacts
