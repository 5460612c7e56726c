import Mathlib.Tactic.Ring
import Metnos.Client.Wire
import Metnos.Invocations.Queue
import Metnos.Invocations.Lifecycle

/-!
# Client.Received — which invocation ids the client takes the time of

`_new_invocation_id` writes the time as sixteen hexadecimal digits.  An id of that form passes
`validate_invocation_freshness` all through the window around its time, and no other id ever does.
-/

namespace Metnos.Client

/-- `inv-`, sixteen hexadecimal digits, and eight characters that a file name may have. -/
def Timed (id : String) : Prop :=
  ∃ time tail : List Char, id.toList = "inv-".toList ++ (time ++ tail) ∧ time.length = 16 ∧
    tail.length = 8 ∧ (∀ c ∈ time, (hexValue c).isSome) ∧
    ∀ c ∈ tail, (c.isAlphanum || c = '-' || c = '_') = true

/-- The id passes at every moment of the window around some time. -/
def Fresh (id : String) : Prop :=
  ∃ issued : ℤ, ∀ now, issued - invocationMaxFuture ≤ now → now ≤ issued + invocationMaxAge →
    validateInvocationFreshness id now = true

theorem hexValue_lt {c : Char} {d : ℕ} (h : hexValue c = some d) : d < 16 := by
  unfold hexValue at h
  split at h
  · rename_i range
    have hi : c.toNat ≤ 57 := range.2
    have hd := Option.some.inj h
    have base : '0'.toNat = 48 := rfl
    omega
  · split at h
    · rename_i range
      have hi : c.toNat ≤ 102 := range.2
      have hd := Option.some.inj h
      have base : 'a'.toNat = 97 := rfl
      omega
    · split at h
      · rename_i range
        have hi : c.toNat ≤ 70 := range.2
        have hd := Option.some.inj h
        have base : 'A'.toNat = 65 := rfl
        omega
      · cases h

theorem hexValue_alphanum {c : Char} (h : (hexValue c).isSome) : c.isAlphanum = true := by
  unfold hexValue at h
  unfold Char.isAlphanum Char.isAlpha Char.isUpper Char.isLower Char.isDigit
  split at h
  · rename_i range
    have lo : 48 ≤ c.toNat := range.1
    have hi : c.toNat ≤ 57 := range.2
    simp [UInt32.le_iff_toNat_le]
    omega
  · split at h
    · rename_i range
      have lo : 97 ≤ c.toNat := range.1
      have hi : c.toNat ≤ 102 := range.2
      simp [UInt32.le_iff_toNat_le]
      omega
    · split at h
      · rename_i range
        have lo : 65 ≤ c.toNat := range.1
        have hi : c.toNat ≤ 70 := range.2
        simp [UInt32.le_iff_toNat_le]
        omega
      · cases h

theorem mapM_isSome {α β : Type} {f : α → Option β} {l : List α} :
    (l.mapM f).isSome ↔ ∀ x ∈ l, (f x).isSome := by
  induction l with
  | nil => simp
  | cons x l ih =>
    rw [List.mapM_cons]
    cases hx : f x with
    | none => simp [hx]
    | some y =>
      cases hl : l.mapM f with
      | none =>
        rw [hl] at ih
        simpa [hx] using ih
      | some ys =>
        rw [hl] at ih
        simpa [hx] using ih

theorem foldl_digits_lt (ds : List ℕ) (h : ∀ d ∈ ds, d < 16) (n : ℕ) :
    ds.foldl (fun n d => 16 * n + d) n < (n + 1) * 16 ^ ds.length := by
  induction ds generalizing n with
  | nil => simp
  | cons d ds ih =>
    have hd : d < 16 := h d (by simp)
    have rest := ih (fun x hx => h x (by simp [hx])) (16 * n + d)
    calc ds.foldl (fun n d => 16 * n + d) (16 * n + d) < (16 * n + d + 1) * 16 ^ ds.length := rest
      _ ≤ (16 * (n + 1)) * 16 ^ ds.length := Nat.mul_le_mul_right _ (by omega)
      _ = (n + 1) * 16 ^ (ds.length + 1) := by rw [pow_succ]; ring

theorem mem_mapM {α β : Type} {f : α → Option β} {l : List α} {ys : List β}
    (h : l.mapM f = some ys) : ys.length = l.length ∧ ∀ y ∈ ys, ∃ x ∈ l, f x = some y := by
  induction l generalizing ys with
  | nil =>
    obtain rfl : [] = ys := by simpa using h
    simp
  | cons x l ih =>
    rw [List.mapM_cons] at h
    obtain ⟨y, hy, h⟩ := Option.bind_eq_some_iff.mp h
    obtain ⟨rest, hrest, h⟩ := Option.bind_eq_some_iff.mp h
    cases h
    obtain ⟨length, mem⟩ := ih hrest
    refine ⟨by simp [length], fun z hz => ?_⟩
    rcases List.mem_cons.mp hz with rfl | hz
    · exact ⟨x, by simp, hy⟩
    · obtain ⟨w, hw, hf⟩ := mem z hz
      exact ⟨w, by simp [hw], hf⟩

theorem fromHex_isSome {cs : List Char} (length : cs.length = 16) :
    (fromHex cs).isSome ↔ ∀ c ∈ cs, (hexValue c).isSome := by
  rw [← mapM_isSome]
  unfold fromHex
  rw [if_neg (fun h => by rw [h] at length; cases length)]
  cases hds : cs.mapM hexValue with
  | none => simp
  | some ds =>
    obtain ⟨hlength, mem⟩ := mem_mapM hds
    have small := foldl_digits_lt ds (fun d hd => by
      obtain ⟨c, -, hc⟩ := mem d hd
      exact hexValue_lt hc) 0
    rw [hlength, length] at small
    have fits : ds.foldl (fun n d => 16 * n + d) 0 < 18446744073709551616 :=
      lt_of_lt_of_eq small (by norm_num)
    simp [fits]

theorem invocationEpoch_isSome {id : String} : (invocationEpoch id).isSome ↔ Timed id := by
  constructor
  · intro h
    unfold invocationEpoch at h
    split at h
    · cases h
    · rename_i safe
      split at h
      · cases h
      · rename_i form
        simp only [Bool.or_eq_true, Bool.not_eq_true', decide_eq_true_eq, not_or, not_not,
          Bool.not_eq_false, List.isPrefixOf_iff_prefix] at form safe
        obtain ⟨length, rest, hrest⟩ := form
        have hlist : id.toList.length = 28 := length
        rw [← hrest] at h hlist
        rw [List.drop_left' (by rfl)] at h
        have hlen : rest.length = 24 := by
          rw [List.length_append] at hlist
          have prefix_ : "inv-".toList.length = 4 := rfl
          omega
        simp only [safeInvocationId, Bool.and_eq_true, List.all_eq_true] at safe
        refine ⟨rest.take 16, rest.drop 16, by rw [List.take_append_drop, hrest], by simp [hlen],
          by simp [hlen], (fromHex_isSome (by simp [hlen])).mp h, fun c hc => safe.2 c ?_⟩
        rw [← hrest]
        exact List.mem_append_right _ (List.mem_of_mem_drop hc)
  · rintro ⟨time, tail, hid, htime, htail, hex, chars⟩
    have length : id.length = 28 := by
      show id.toList.length = 28
      rw [hid, List.length_append, List.length_append, htime, htail]
      rfl
    have safe : safeInvocationId id = true := by
      simp only [safeInvocationId, Bool.and_eq_true, decide_eq_true_eq, List.all_eq_true]
      refine ⟨⟨?_, by omega⟩, ?_⟩
      · intro empty
        rw [empty] at length
        cases length
      · intro c hc
        rw [hid] at hc
        rcases List.mem_append.mp hc with hc | hc
        · exact List.all_eq_true.mp (by decide : "inv-".toList.all fun c =>
            c.isAlphanum || c = '-' || c = '_') c hc
        · rcases List.mem_append.mp hc with hc | hc
          · rw [hexValue_alphanum (hex c hc)]
            rfl
          · exact chars c hc
    unfold invocationEpoch
    rw [safe, length, hid]
    have starts : "inv-".toList.isPrefixOf ("inv-".toList ++ (time ++ tail)) = true := by
      rw [List.isPrefixOf_iff_prefix]
      exact List.prefix_append _ _
    rw [starts, List.drop_left' (by rfl), List.take_left' htime]
    exact (fromHex_isSome htime).mpr hex

theorem fresh_iff {id : String} : Fresh id ↔ Timed id := by
  rw [← invocationEpoch_isSome]
  constructor
  · rintro ⟨issued, h⟩
    have now := h issued (by unfold invocationMaxFuture; omega) (by unfold invocationMaxAge; omega)
    unfold validateInvocationFreshness at now
    split at now
    · rename_i hsome
      rw [hsome]
      rfl
    · cases now
  · intro h
    obtain ⟨issued, hissued⟩ := Option.isSome_iff_exists.mp h
    refine ⟨issued, fun now early late => ?_⟩
    unfold validateInvocationFreshness
    rw [hissued]
    simp only [Bool.and_eq_true, Bool.not_eq_true', Bool.and_eq_false_iff, decide_eq_false_iff_not]
    omega

/-! ### The ids the server chooses -/

/-- `{n:016x}`, for a number of at most `w` digits. -/
def hexPad : ℕ → ℕ → List Char
  | 0, _ => []
  | w + 1, n => hexPad w (n / 16) ++ [Json.hexDigit (n % 16)]

/-- `_new_invocation_id`, by the clock in nanoseconds and eight digits of the random id. -/
def newInvocationId (timeNs : ℕ) (suffix : List Char) : String :=
  String.ofList ("inv-".toList ++ (hexPad 16 timeNs ++ suffix))

theorem hexPad_length (w n : ℕ) : (hexPad w n).length = w := by
  induction w generalizing n with
  | zero => rfl
  | succ w ih => simp [hexPad, ih]

theorem hexValue_hexDigit {d : ℕ} (h : d < 16) : (hexValue (Json.hexDigit d)).isSome := by
  interval_cases d <;> rfl

theorem hexPad_hex (w n : ℕ) : ∀ c ∈ hexPad w n, (hexValue c).isSome := by
  induction w generalizing n with
  | zero => simp [hexPad]
  | succ w ih =>
    intro c hc
    rcases List.mem_append.mp hc with hc | hc
    · exact ih _ c hc
    · rw [List.mem_singleton.mp hc]
      exact hexValue_hexDigit (Nat.mod_lt _ (by decide))

theorem newInvocationId_timed {timeNs : ℕ} {suffix : List Char} (length : suffix.length = 8)
    (hex : ∀ c ∈ suffix, (hexValue c).isSome) : Timed (newInvocationId timeNs suffix) := by
  refine ⟨hexPad 16 timeNs, suffix, ?_, hexPad_length _ _, length, hexPad_hex _ _, fun c hc => ?_⟩
  · unfold newInvocationId
    rw [String.toList_ofList]
  · rw [hexValue_alphanum (hex c hc)]
    rfl

end Metnos.Client

/-!
## A signed request as the client reads it

The wire object is read as the invocation it was made of, and `signed_bytes` of it is the canonical
text of the payload exactly when every integer of the arguments is in the range of `i64` and `u64`.
-/

namespace Metnos.Client

open Invocations

/-- What `next_invocation` returns. -/
def wireObject (payload : Json) (sig : String) : Json :=
  .obj (objectFields payload ++ [("server_sig", .str sig)])

def pollResponse (wire : Json) (clientVersion : Option String) (shimSha256 : String) : Json :=
  .obj [("invocation", wire), ("server_client_version", (clientVersion.map Json.str).getD .null),
    ("shim_sha256", .str shimSha256)]

def readGrant (g : ProviderGrant) : ManagedProviderGrant :=
  ⟨g.invocationId, g.manifestSha256, g.dependencyKey, g.source, g.packageId, g.interface,
    g.assembly, g.entryType, g.domains, g.sensorTypes, g.serverSig⟩

/-- The invocation a request is read as. -/
def received (r : Request) (id : String) (grants : List ProviderGrant)
    (environment : List (String × String)) (deadlineMs : ℕ) (sig : String) : Invocation :=
  ⟨id, r.turnId, r.executor, r.manifestSha256, r.codeSha256, readValue r.args, r.operation,
    r.scope, r.reversibility, environment, r.executionContext.map readValue,
    grants.map readGrant, deadlineMs, sig⟩

theorem mapM_map_some {α β : Type} {f : α → β} {g : β → Option α} (h : ∀ x, g (f x) = some x)
    (l : List α) : (l.map f).mapM g = some l := by
  induction l with
  | nil => rfl
  | cons x l ih =>
    rw [List.map_cons, List.mapM_cons, ih, h]
    rfl

theorem readStrings_map (names : List String) :
    readStrings (.arr (names.map .str)) = some names :=
  mapM_map_some (f := Json.str) (g := readString) (fun _ => rfl) names

theorem read_grant (g : ProviderGrant) :
    ManagedProviderGrant.read g.toJson = some (readGrant g) := by
  unfold ProviderGrant.toJson ProviderGrant.fields ManagedProviderGrant.read
  simp [required, Json.get?, readString, readStrings_map, readGrant]

theorem read_grants (grants : List ProviderGrant) :
    readGrants (.arr (grants.map ProviderGrant.toJson)) = some (grants.map readGrant) := by
  show (grants.map ProviderGrant.toJson).mapM ManagedProviderGrant.read = _
  induction grants with
  | nil => rfl
  | cons g grants ih =>
    rw [List.map_cons, List.mapM_cons, ih, read_grant]
    rfl

theorem readOption_object (fields : List (String × Json)) :
    readOption (fun v => some (readValue v)) (.obj fields) = some (some (readValue (.obj fields))) :=
  rfl

theorem read_wire {r : Request} (contextual : r.Contextual) (id : String)
    (grants : List ProviderGrant) (sig : String) :
    Invocation.read (wireObject (r.payload id (grants.map ProviderGrant.toJson)) sig) =
      (readStringMap r.envInjections).bind fun environment =>
        (readU64 (.int r.deadlineMs)).bind fun deadlineMs =>
          some (received r id grants environment deadlineMs sig) := by
  have noGrants : grants.isEmpty → grants.map readGrant = [] := by
    cases grants <;> simp
  have noContext : r.executionContext = none ∨
      ∃ fields, r.executionContext = some (.obj fields) := by
    cases hcontext : r.executionContext with
    | none => exact .inl rfl
    | some context =>
      obtain ⟨fields, rfl⟩ := contextual context hcontext
      exact .inr ⟨fields, rfl⟩
  unfold wireObject objectFields Request.payload Invocation.read received
  rcases noContext with hcontext | ⟨fields, hcontext⟩ <;>
  by_cases hoperation : r.operation = "invoke" <;>
  by_cases hgrants : grants.isEmpty <;>
  simp [hcontext, hoperation, hgrants, required, defaulted, Json.get?, readString,
    read_grants, readOption_object, noGrants]

/-! ### The signed bytes -/

/-- What `signed_bytes` inserts, in its order. -/
def Invocation.entries (i : Invocation) : List (String × Json) :=
  [("invocation_id", .str i.invocationId), ("turn_id", .str i.turnId),
    ("executor", .str i.executor), ("manifest_sha256", .str i.manifestSha256),
    ("code_sha256", .str i.codeSha256), ("args", i.args), ("scope", .str i.scope),
    ("reversibility", .str i.reversibility),
    ("env_injections", .obj (treeOf (i.envInjections.map fun e => (e.1, .str e.2)))),
    ("deadline_ms", .int i.deadlineMs)] ++
  ((if i.operation = "invoke" then [] else [("operation", .str i.operation)]) ++
    (if i.managedProviderGrants.isEmpty then []
      else [("managed_provider_grants",
        .arr (i.managedProviderGrants.map ManagedProviderGrant.toValue))]) ++
    (i.executionContext.map fun context => ("execution_context", context)).toList)

theorem payload_eq_treeOf (i : Invocation) : i.payload = treeOf i.entries := by
  unfold Invocation.payload Invocation.entries
  by_cases hoperation : i.operation = "invoke" <;>
  by_cases hgrants : i.managedProviderGrants.isEmpty <;>
  cases hcontext : i.executionContext <;>
  simp only [hoperation, hgrants, if_true, if_false, Option.map_none, Option.map_some,
    Option.toList_none, Option.toList_some, List.nil_append, List.append_nil, ← List.append_assoc,
    treeInsert, treeOf, SortedMap.ofList_append_one, Bool.false_eq_true]

theorem entries_nodup (i : Invocation) : (i.entries.map Prod.fst).Nodup := by
  unfold Invocation.entries
  by_cases hoperation : i.operation = "invoke" <;>
  by_cases hgrants : i.managedProviderGrants.isEmpty <;>
  cases hcontext : i.executionContext <;>
  simp [hoperation, hgrants]

theorem sortKeys_names (names : List String) :
    (Json.arr (names.map .str)).sortKeys = .arr (names.map .str) := by
  rw [Json.sortKeys, Json.sortItems_eq, List.map_map]
  rfl

theorem grant_value (g : ProviderGrant) : (readGrant g).toValue = g.toJson.sortKeys := by
  unfold ManagedProviderGrant.toValue ProviderGrant.toJson ProviderGrant.fields
  rw [Json.sortKeys, Json.sortFields_eq, treeOf_eq (by simp)]
  simp only [List.map_cons, List.map_nil, sortKeys_names]
  rfl

theorem readStringMap_some {fields : List (String × Json)} {environment : List (String × String)}
    (h : readStringMap (.obj fields) = some environment) :
    ∃ entries : List (String × String), fields = entries.map (fun e => (e.1, .str e.2)) ∧
      environment = treeOf entries := by
  obtain ⟨entries, hentries, rfl⟩ := Option.map_eq_some_iff.mp h
  refine ⟨entries, ?_, rfl⟩
  clear h
  induction fields generalizing entries with
  | nil =>
    obtain rfl : [] = entries := by simpa using hentries
    rfl
  | cons f fields ih =>
    rw [List.mapM_cons] at hentries
    obtain ⟨e, he, hentries⟩ := Option.bind_eq_some_iff.mp hentries
    obtain ⟨rest, hrest, hentries⟩ := Option.bind_eq_some_iff.mp hentries
    cases hentries
    obtain ⟨s, hs, rfl⟩ := Option.map_eq_some_iff.mp he
    obtain ⟨k, v⟩ := f
    cases v with
    | str t =>
      cases hs
      rw [List.map_cons, ← ih rest hrest]
    | _ => cases hs

theorem readStringMap_isSome {fields : List (String × Json)} :
    (readStringMap (.obj fields)).isSome ↔ ∀ f ∈ fields, ∃ s, f.2 = .str s := by
  show ((fields.mapM readEntry).map treeOf).isSome ↔ _
  rw [Option.isSome_map, mapM_isSome]
  refine forall₂_congr fun f _ => ?_
  obtain ⟨k, v⟩ := f
  cases v <;> simp [readEntry, readString]

theorem environment_value {fields : List (String × Json)} {environment : List (String × String)}
    (nodup : (fields.map Prod.fst).Nodup)
    (h : readStringMap (.obj fields) = some environment) :
    Json.obj (treeOf (environment.map fun e => (e.1, .str e.2))) = (Json.obj fields).sortKeys := by
  obtain ⟨entries, rfl, rfl⟩ := readStringMap_some h
  have keys : (entries.map Prod.fst).Nodup := by rwa [map_values_keys] at nodup
  have perm := treeOf_perm keys
  rw [Json.sortKeys, Json.sortFields_eq, List.map_map, treeOf_eq, Json.obj.injEq]
  · refine sort_congr (perm.map _) ?_
    rw [map_values_keys]
    exact (perm.map _).nodup_iff.mpr keys
  · rw [map_values_keys]
    exact (perm.map _).nodup_iff.mpr keys

/-- What a request is made of: dicts with each key once, and a normalized context. -/
structure WellFormed (r : Request) : Prop where
  args : r.args.Distinct
  environment : ∃ fields, r.envInjections = .obj fields ∧ (fields.map Prod.fst).Nodup
  context : ∀ context, r.executionContext = some context →
    context.Distinct ∧ Portable context ∧ context.depth ≤ 3
  operation : r.operation = "invoke" ∨ r.operation = "reverse"

theorem context_value {r : Request} (wf : WellFormed r) :
    (r.executionContext.map readValue).map (fun c => ("execution_context", c)) =
      (r.executionContext.map fun c => ("execution_context", c)).map
        fun f => (f.1, f.2.sortKeys) := by
  cases hcontext : r.executionContext with
  | none => rfl
  | some context =>
    obtain ⟨distinct, portable, -⟩ := wf.context context hcontext
    simp only [Option.map_some, readValue_eq context distinct portable]

theorem received_payload {r : Request} (wf : WellFormed r) (id : String)
    (grants : List ProviderGrant) {environment : List (String × String)} {deadlineMs : ℕ}
    (sig : String) (henvironment : readStringMap r.envInjections = some environment)
    (hdeadline : (deadlineMs : ℤ) = r.deadlineMs) (portable : Portable r.args) :
    Json.obj (received r id grants environment deadlineMs sig).payload =
      (r.payload id (grants.map ProviderGrant.toJson)).sortKeys := by
  obtain ⟨fields, hfields, nodup⟩ := wf.environment
  rw [hfields] at henvironment
  have env := environment_value nodup henvironment
  have grantsValue : (grants.map readGrant).map ManagedProviderGrant.toValue =
      (grants.map ProviderGrant.toJson).map Json.sortKeys := by
    rw [List.map_map, List.map_map]
    exact List.map_congr_left fun g _ => grant_value g
  have perm : ((received r id grants environment deadlineMs sig).entries).Perm
      ((objectFields (r.payload id (grants.map ProviderGrant.toJson))).map
        fun f => (f.1, f.2.sortKeys)) := by
    unfold Request.payload objectFields
    simp only [List.map_append, List.append_assoc]
    refine List.Perm.append (.of_eq ?_) ?_
    · simp only [received, List.map_cons, List.map_nil, Json.sortKeys, env, hfields, hdeadline,
        readValue_eq r.args wf.args portable]
    · refine List.perm_append_comm.trans (.of_eq ?_)
      simp only [received, grantsValue, List.isEmpty_map]
      rw [context_value wf]
      congr 1
      · cases r.executionContext <;> rfl
      · congr 1
        · by_cases hoperation : r.operation = "invoke" <;> simp [hoperation, Json.sortKeys]
        · split
          · rfl
          · rw [List.map_cons, List.map_nil, Json.sortKeys, Json.sortItems_eq]
  show _ = Json.obj _
  rw [payload_eq_treeOf, treeOf_eq (entries_nodup _), Json.obj.injEq, Json.sortFields_eq]
  exact sort_congr perm (entries_nodup _)

theorem signedBytes_received {r : Request} (wf : WellFormed r) (id : String)
    (grants : List ProviderGrant) {environment : List (String × String)} {deadlineMs : ℕ}
    (sig : String) (henvironment : readStringMap r.envInjections = some environment)
    (hdeadline : (deadlineMs : ℤ) = r.deadlineMs) {text : List Char}
    (htext : Json.canonicalText (r.payload id (grants.map ProviderGrant.toJson)) = some text) :
    (received r id grants environment deadlineMs sig).signedBytes = some text ↔
      Portable r.args := by
  have operation : ¬((received r id grants environment deadlineMs sig).operation ≠ "invoke" &&
      (received r id grants environment deadlineMs sig).operation ≠ "reverse") = true := by
    rcases wf.operation with h | h <;> simp [received, h]
  unfold Invocation.signedBytes
  rw [if_neg operation]
  constructor
  · intro h
    unfold canonicalBytes at h
    split at h
    · rename_i floats
      rw [Json.noFloats, Json.fieldsNoFloats_iff] at floats
      refine portable_of_readValue r.args wf.args (floats ("args", readValue r.args) ?_)
      rw [payload_eq_treeOf]
      exact (treeOf_perm (entries_nodup _)).symm.subset (by simp [Invocation.entries, received])
    · cases h
  · intro portable
    unfold Json.canonicalText at htext
    split at htext
    · rename_i floats
      cases htext
      unfold canonicalBytes
      rw [received_payload wf id grants sig henvironment hdeadline portable,
        if_pos (Json.noFloats_sortKeys floats), toVec_eq]
    · cases htext

end Metnos.Client
