import Metnos.Client.Received

/-!
# Client.Accept — which stored requests the client takes for what was signed

A stored request reaches the executor when its id is timed, its deadline an `u64`, its environment
made of strings, and its arguments have integers that `i64` or `u64` holds and are not nested too
deep.  The server stores others too: the ids of durable attempts are not timed.
-/

namespace Metnos.Client

open Invocations

/-- The poll response is read as an invocation whose signed bytes are those of the payload, and
whose id passes all through its window. -/
def Understood (payload : Json) (sig : String) (clientVersion : Option String)
    (shimSha256 : String) : Prop :=
  ∃ i text, readPollResponse (pollResponse (wireObject payload sig) clientVersion shimSha256) =
      some (some i) ∧
    i.signedBytes = some text ∧ Json.canonicalText payload = some text ∧ Fresh i.invocationId

/-! ### Nesting -/

theorem depth_pollResponse (payload : Json) (sig : String) (clientVersion : Option String)
    (shimSha256 : String) :
    (pollResponse (wireObject payload sig) clientVersion shimSha256).depth < recursionLimit ↔
      ∀ f ∈ objectFields payload, f.2.depth ≤ 125 := by
  have version : ((clientVersion.map Json.str).getD .null).depth = 0 := by
    cases clientVersion <;> rfl
  have flat : (pollResponse (wireObject payload sig) clientVersion shimSha256).depth =
      Json.depthFields (objectFields payload ++ [("server_sig", .str sig)]) + 2 := by
    simp [pollResponse, wireObject, Json.depth, Json.depthFields, version]
  rw [flat]
  show _ + 2 < 128 ↔ _
  constructor
  · intro h f hf
    have all : Json.depthFields (objectFields payload ++ [("server_sig", .str sig)]) ≤ 125 := by
      omega
    exact Json.depthFields_le_iff.mp all f (List.mem_append_left _ hf)
  · intro h
    have all : Json.depthFields (objectFields payload ++ [("server_sig", .str sig)]) ≤ 125 := by
      refine Json.depthFields_le_iff.mpr fun f hf => ?_
      rcases List.mem_append.mp hf with hf | hf
      · exact h f hf
      · rw [List.mem_singleton.mp hf]
        exact Nat.zero_le _
    omega

theorem depth_names (names : List String) : (Json.arr (names.map .str)).depth ≤ 1 := by
  rw [Json.depth, Nat.add_le_add_iff_right, Json.depthItems_le_iff]
  intro v hv
  obtain ⟨s, -, rfl⟩ := List.mem_map.mp hv
  exact le_rfl

theorem depth_grants (grants : List ProviderGrant) :
    (Json.arr (grants.map ProviderGrant.toJson)).depth ≤ 3 := by
  rw [Json.depth, Nat.add_le_add_iff_right, Json.depthItems_le_iff]
  intro v hv
  obtain ⟨g, -, rfl⟩ := List.mem_map.mp hv
  show Json.depthFields g.fields + 1 ≤ 2
  rw [Nat.add_le_add_iff_right, Json.depthFields_le_iff]
  intro f hf
  simp only [ProviderGrant.fields, List.mem_cons, List.not_mem_nil, or_false] at hf
  rcases hf with rfl | rfl | rfl | rfl | rfl | rfl | rfl | rfl | rfl | rfl | rfl
  all_goals first | exact Nat.zero_le _ | exact depth_names _

theorem depth_payload {r : Request} (wf : WellFormed r) (id : String)
    (grants : List ProviderGrant) (environment : r.envInjections.depth ≤ 1) :
    (∀ f ∈ objectFields (r.payload id (grants.map ProviderGrant.toJson)), f.2.depth ≤ 125) ↔
      r.args.depth ≤ 125 := by
  constructor
  · intro h
    exact h ("args", r.args) (by simp [Request.payload, objectFields])
  · intro args f hf
    simp only [Request.payload, objectFields, List.mem_append, List.mem_cons, List.not_mem_nil,
      or_false] at hf
    rcases hf with ((hf | hf) | hf) | hf
    · rcases hf with rfl | rfl | rfl | rfl | rfl | rfl | rfl | rfl | rfl | rfl
      all_goals first | exact Nat.zero_le _ | exact args | exact environment.trans (by decide)
    · obtain ⟨context, hcontext, rfl⟩ := Option.map_eq_some_iff.mp (Option.mem_toList.mp hf)
      exact (wf.context context hcontext).2.2.trans (by decide)
    · split at hf
      · cases hf
      · rw [List.mem_singleton.mp hf]
        exact Nat.zero_le _
    · split at hf
      · cases hf
      · rw [List.mem_singleton.mp hf]
        exact (depth_grants grants).trans (by decide)

theorem depth_strings {fields : List (String × Json)} (h : ∀ f ∈ fields, ∃ s, f.2 = .str s) :
    (Json.obj fields).depth ≤ 1 := by
  rw [Json.depth, Nat.add_le_add_iff_right, Json.depthFields_le_iff]
  intro f hf
  obtain ⟨s, hs⟩ := h f hf
  rw [hs]
  exact le_rfl

/-! ### One request -/

theorem readU64_some {n : ℤ} {deadlineMs : ℕ} :
    readU64 (.int n) = some deadlineMs ↔ n < 2 ^ 64 ∧ (deadlineMs : ℤ) = n := by
  show (if 0 ≤ n ∧ n < 2 ^ 64 then some n.toNat else none) = some deadlineMs ↔ _
  constructor
  · intro h
    split at h
    · rename_i range
      have := Option.some.inj h
      exact ⟨range.2, by omega⟩
    · cases h
  · rintro ⟨small, rfl⟩
    rw [if_pos ⟨Int.natCast_nonneg _, small⟩, Int.toNat_natCast]

/-- What a request must be like for the client to understand it. -/
structure Request.Understandable (r : Request) (id : String) : Prop where
  timed : Timed id
  deadline : 0 ≤ r.deadlineMs ∧ r.deadlineMs < 2 ^ 64
  environment : ∀ f ∈ objectFields r.envInjections, ∃ s, f.2 = .str s
  arguments : Portable r.args ∧ r.args.depth ≤ 125

theorem understood_iff {r : Request} (wf : WellFormed r) (contextual : r.Contextual) (id : String)
    (grants : List ProviderGrant) (sig : String) (clientVersion : Option String)
    (shimSha256 : String) {text : List Char}
    (htext : Json.canonicalText (r.payload id (grants.map ProviderGrant.toJson)) = some text) :
    Understood (r.payload id (grants.map ProviderGrant.toJson)) sig clientVersion shimSha256 ↔
      Request.Understandable r id := by
  obtain ⟨fields, hfields, nodup⟩ := wf.environment
  set payload := r.payload id (grants.map ProviderGrant.toJson) with hpayload
  have response : recursionLimit ≤
        (pollResponse (wireObject payload sig) clientVersion shimSha256).depth ∨
      readPollResponse (pollResponse (wireObject payload sig) clientVersion shimSha256) =
        (Invocation.read (wireObject payload sig)).map some := by
    by_cases deep : recursionLimit ≤
      (pollResponse (wireObject payload sig) clientVersion shimSha256).depth
    · exact .inl deep
    · refine .inr ?_
      unfold readPollResponse
      rw [if_neg deep]
      cases clientVersion <;>
        simp [pollResponse, wireObject, defaulted, Json.get?, readOption, readString]
  constructor
  · rintro ⟨i, text', hread, hsigned, htext', fresh⟩
    have shallow : ¬recursionLimit ≤
        (pollResponse (wireObject payload sig) clientVersion shimSha256).depth := by
      intro deep
      unfold readPollResponse at hread
      rw [if_pos deep] at hread
      cases hread
    rw [response.resolve_left shallow, hpayload, read_wire contextual] at hread
    obtain ⟨_, hread, hi⟩ := Option.map_eq_some_iff.mp hread
    cases hi
    obtain ⟨environment, henvironment, hread⟩ := Option.bind_eq_some_iff.mp hread
    obtain ⟨deadlineMs, hdeadline, hread⟩ := Option.bind_eq_some_iff.mp hread
    cases hread
    obtain ⟨small, hdeadline⟩ := readU64_some.mp hdeadline
    have strings : ∀ f ∈ fields, ∃ s, f.2 = .str s := by
      rw [← readStringMap_isSome, ← hfields, henvironment]
      rfl
    obtain rfl : text' = text := Option.some.inj (htext'.symm.trans htext)
    refine ⟨fresh_iff.mp fresh, ⟨by omega, small⟩, ?_, ?_, ?_⟩
    · rw [hfields]
      exact strings
    · exact (signedBytes_received wf id grants sig henvironment hdeadline htext).mp hsigned
    · refine (depth_payload wf id grants ?_).mp ((depth_pollResponse _ _ _ _).mp
        (Nat.lt_of_not_le shallow))
      rw [hfields]
      exact depth_strings strings
  · rintro ⟨timed, ⟨positive, small⟩, environment, portable, shallow⟩
    rw [hfields] at environment
    have depth : ¬recursionLimit ≤
        (pollResponse (wireObject payload sig) clientVersion shimSha256).depth := by
      refine Nat.not_le_of_lt ((depth_pollResponse _ _ _ _).mpr
        ((depth_payload wf id grants ?_).mpr shallow))
      rw [hfields]
      exact depth_strings environment
    obtain ⟨entries, hentries⟩ : ∃ entries, readStringMap r.envInjections = some entries := by
      rw [hfields]
      exact Option.isSome_iff_exists.mp (readStringMap_isSome.mpr environment)
    have hdeadline : ((r.deadlineMs.toNat : ℕ) : ℤ) = r.deadlineMs := Int.toNat_of_nonneg positive
    refine ⟨received r id grants entries r.deadlineMs.toNat sig, text, ?_,
      (signedBytes_received wf id grants sig hentries hdeadline htext).mpr portable, htext,
      fresh_iff.mpr timed⟩
    rw [response.resolve_left depth, hpayload, read_wire contextual, hentries,
      Option.bind_some, readU64_some.mpr ⟨small, hdeadline⟩]
    rfl

/-! ### A call and its request -/

/-- The dicts a call is given have each key once, and the id it would choose is one of
`_new_invocation_id`. -/
structure Call.Supplied (c : Call) : Prop where
  args : Json.Distinct (.obj c.args)
  writeSpecs : ∀ specs, c.writeSpecs = some specs → specs.Distinct
  environment : ((c.envInjections.getD []).map Prod.fst).Nodup
  chosen : ∃ timeNs suffix, c.newInvocationId = newInvocationId timeNs suffix ∧
    suffix.length = 8 ∧ ∀ ch ∈ suffix, (hexValue ch).isSome

/-- A supplied id is timed, the deadline an `u64`, the environment made of strings, and the
arguments, with the entries of a writing executor, have integers that fit and are not nested too
deep. -/
structure Call.Understandable (c : Call) : Prop where
  timed : ∀ id, c.invocationId = some id → Timed id
  deadline : 0 ≤ c.deadlineMs ∧ c.deadlineMs < 2 ^ 64
  environment : ∀ f ∈ c.envInjections.getD [], ∃ s, f.2 = .str s
  arguments : ∀ artifact args, c.artifact = some artifact → c.signedArgs artifact = .ok args →
    Portable (.obj args) ∧ (Json.obj args).depth ≤ 125

theorem normalizeResource_ok {item : Option (String × Json)} {v : Json}
    (h : normalizeResource item = .ok v) :
    ∃ key amount, v = .arr [.str key, .int amount] ∧ 0 ≤ amount ∧ amount ≤ 64 := by
  unfold normalizeResource at h
  split at h
  · rename_i key amount
    split at h
    · rename_i range
      refine ⟨key, amount, (Except.ok.inj h).symm, range.1, range.2.trans ?_⟩
      unfold resourceLimit
      split <;> decide
    · cases h
  · cases h

theorem text_of_validIdentity {v : Option Json} (h : validIdentity v = true) :
    ∃ s, v = some (.str s) := by
  unfold validIdentity at h
  split at h
  · exact ⟨_, rfl⟩
  · cases h

theorem text_of_validPriority {v : Option Json} (h : validPriority v = true) :
    ∃ s, v = some (.str s) := by
  unfold validPriority at h
  split at h
  · exact ⟨_, rfl⟩
  · cases h

/-- The values of a normalized context: text, null, and the amounts of the resources. -/
inductive Scalar : Json → Prop
  | null : Scalar .null
  | text (s : String) : Scalar (.str s)
  | resources (items : List Json) (h : ∀ v ∈ items, ∃ key amount,
      v = .arr [.str key, .int amount] ∧ 0 ≤ amount ∧ amount ≤ 64) : Scalar (.arr items)

theorem mapM_normalizeResource {items : List (Option (String × Json))} {resources : List Json}
    (h : items.mapM normalizeResource = .ok resources) :
    ∀ v ∈ resources, ∃ key amount, v = .arr [.str key, .int amount] ∧ 0 ≤ amount ∧
      amount ≤ 64 := by
  induction items generalizing resources with
  | nil =>
    cases h
    simp
  | cons item items ih =>
    rw [List.mapM_cons] at h
    obtain ⟨v, hv, h⟩ := Transaction.bind_eq_ok.mp h
    obtain ⟨rest, hrest, h⟩ := Transaction.bind_eq_ok.mp h
    cases h
    intro w hw
    rcases List.mem_cons.mp hw with rfl | hw
    · exact normalizeResource_ok hv
    · exact ih hrest w hw

theorem normalizeExecutionContext_scalars {supplied : List (String × Json)} {context : Json}
    (h : normalizeExecutionContext supplied = .ok context) :
    ∃ fields, context = .obj fields ∧ (fields.map Prod.fst).Nodup ∧
      ∀ f ∈ fields, Scalar f.2 := by
  simp only [normalizeExecutionContext] at h
  split at h
  · cases h
  split at h
  · cases h
  rename_i identities
  split at h
  · cases h
  rename_i priority
  split at h
  · cases h
  obtain ⟨resources, hresources, h⟩ := Transaction.bind_eq_ok.mp h
  split at h
  · cases h
  rename_i deadline
  refine ⟨_, (Except.ok.inj h).symm, ?_, ?_⟩
  · simp [contextIdentities]
  · intro f hf
    rw [Bool.not_eq_true', Bool.not_eq_false, List.all_eq_true] at identities
    rcases List.mem_append.mp hf with hf | hf
    · rcases List.mem_append.mp hf with hf | hf
      · rw [List.mem_singleton.mp hf]
        exact .text _
      · obtain ⟨name, hname, rfl⟩ := List.mem_map.mp hf
        rcases List.mem_append.mp hname with hname | hname
        · obtain ⟨s, hs⟩ := text_of_validIdentity (identities name hname)
          rw [hs]
          exact .text s
        · rw [List.mem_singleton.mp hname]
          rw [Bool.not_eq_true', Bool.not_eq_false] at priority
          obtain ⟨s, hs⟩ := text_of_validPriority priority
          rw [hs]
          exact .text s
    · rcases List.mem_cons.mp hf with rfl | hf
      · exact .resources resources (mapM_normalizeResource hresources)
      · rw [List.mem_singleton.mp hf]
        rw [Bool.not_eq_true', Bool.not_eq_false] at deadline
        unfold validDeadlineAt at deadline
        split at deadline
        · rename_i hnull
          rw [hnull]
          exact .null
        · rename_i s htext
          rw [htext]
          exact .text s
        · cases deadline

theorem Scalar.portable {v : Json} (h : Scalar v) : v.Distinct ∧ Portable v ∧ v.depth ≤ 2 := by
  cases h with
  | null => exact ⟨rfl, rfl, by decide⟩
  | text s => exact ⟨rfl, rfl, Nat.zero_le _⟩
  | resources items h =>
    refine ⟨distinct_arr.mpr fun v hv => ?_, portable_arr.mpr fun v hv => ?_, ?_⟩
    · obtain ⟨key, amount, rfl, -, -⟩ := h v hv
      rfl
    · obtain ⟨key, amount, rfl, low, high⟩ := h v hv
      have fits : wireInt amount = true := by
        unfold wireInt
        rw [Bool.and_eq_true, decide_eq_true_eq, decide_eq_true_eq]
        omega
      refine portable_arr.mpr fun w hw => ?_
      rcases List.mem_cons.mp hw with rfl | hw
      · rfl
      · rw [List.mem_singleton.mp hw]
        exact fits
    · rw [Json.depth, Nat.add_le_add_iff_right, Json.depthItems_le_iff]
      intro v hv
      obtain ⟨key, amount, rfl, -, -⟩ := h v hv
      exact le_rfl

theorem normalizedContext_wellFormed {c : Call} {normal : Option Json}
    (h : c.normalizedContext = .ok normal) :
    ∀ context, normal = some context →
      context.Distinct ∧ Portable context ∧ context.depth ≤ 3 := by
  rintro context rfl
  unfold Call.normalizedContext at h
  split at h
  · rename_i supplied _
    cases hnormal : normalizeExecutionContext supplied with
    | error err => rw [hnormal] at h; cases h
    | ok y =>
      rw [hnormal] at h
      cases h
      obtain ⟨fields, rfl, nodup, scalars⟩ := normalizeExecutionContext_scalars hnormal
      refine ⟨distinct_obj.mpr ⟨nodup, fun f hf => (scalars f hf).portable.1⟩,
        portable_obj.mpr fun f hf => (scalars f hf).portable.2.1, ?_⟩
      rw [Json.depth, Nat.add_le_add_iff_right, Json.depthFields_le_iff]
      exact fun f hf => (scalars f hf).portable.2.2
  · cases h

theorem validateOperation_ok {artifact : ExecutorArtifact} {args : List (String × Json)}
    {operation : String} {dev : Device} (h : validateOperation artifact args operation dev = .ok ()) :
    operation = "invoke" ∨ operation = "reverse" := by
  unfold validateOperation at h
  split at h
  · exact .inl ‹_›
  · split at h
    · cases h
    · exact .inr (not_not.mp ‹_›)

theorem signedArgs_distinct {c : Call} (supplied : Call.Supplied c) {artifact : ExecutorArtifact}
    {args : List (String × Json)} (h : c.signedArgs artifact = .ok args) :
    Json.Distinct (.obj args) := by
  obtain ⟨nodup, distinct⟩ := distinct_obj.mp supplied.args
  unfold Call.signedArgs at h
  split at h
  · split at h
    · rename_i specs hspecs
      cases h
      refine distinct_obj.mpr ⟨?_, fun f hf => ?_⟩
      · rw [List.map_append, List.nodup_append]
        refine ⟨(List.filter_sublist.map _).nodup nodup, by simp, ?_⟩
        intro k hk k' hk'
        obtain ⟨f, hf, rfl⟩ := List.mem_map.mp hk
        obtain rfl : k' = "files" := by simpa using hk'
        simpa using (List.mem_filter.mp hf).2
      · rcases List.mem_append.mp hf with hf | hf
        · exact distinct f (List.mem_filter.mp hf).1
        · rw [List.mem_singleton.mp hf]
          exact supplied.writeSpecs specs hspecs
    · cases h
  · cases h
    exact supplied.args

theorem request_parts {c : Call} {dev : Device} {chosenId : String} {r : Request}
    (h : c.request = .ok (dev, chosenId, r)) :
    ∃ artifact args, c.artifact = some artifact ∧ c.signedArgs artifact = .ok args ∧
      c.chosenId = .ok chosenId ∧ r.args = .obj args ∧
      r.envInjections = .obj (c.envInjections.getD []) ∧ r.deadlineMs = c.deadlineMs ∧
      c.normalizedContext = .ok r.executionContext ∧
      (r.operation = "invoke" ∨ r.operation = "reverse") := by
  unfold Call.request at h
  simp only [Transaction.bind_eq_ok, Transaction.pure_eq_ok, Prod.mk.injEq] at h
  obtain ⟨_, -, artifact, hartifact, _, hvalid, args, hargs, id, hid, _, -, context, hcontext, -,
    rfl, rfl⟩ := h
  refine ⟨artifact, args, ?_, hargs, hid, rfl, rfl, rfl, hcontext, validateOperation_ok hvalid⟩
  unfold Call.executorArtifact at hartifact
  split at hartifact
  · rename_i hsome
    cases hartifact
    exact hsome
  · cases hartifact

theorem request_wellFormed {c : Call} (supplied : Call.Supplied c) {dev : Device}
    {chosenId : String} {r : Request} (h : c.request = .ok (dev, chosenId, r)) : WellFormed r := by
  obtain ⟨artifact, args, -, hargs, -, rargs, renv, -, hcontext, operation⟩ := request_parts h
  refine ⟨?_, ⟨_, renv, supplied.environment⟩, normalizedContext_wellFormed hcontext, operation⟩
  rw [rargs]
  exact signedArgs_distinct supplied hargs

theorem understandable_iff {c : Call} (supplied : Call.Supplied c) {dev : Device}
    {chosenId : String} {r : Request} (h : c.request = .ok (dev, chosenId, r)) :
    Request.Understandable r chosenId ↔ Call.Understandable c := by
  obtain ⟨artifact, args, hartifact, hargs, hid, rargs, renv, rdeadline, -, -⟩ := request_parts h
  have chosen : (∀ id, c.invocationId = some id → Timed id) ↔ Timed chosenId := by
    unfold Call.chosenId at hid
    split at hid
    · rename_i id hsome
      have heq : chosenId = id := by
        unfold validateDispatchIdentity at hid
        split at hid
        · exact (Except.ok.inj hid).symm
        · cases hid
      rw [heq, hsome]
      simp
    · rename_i hnone
      cases hid
      obtain ⟨timeNs, suffix, hnew, length, hex⟩ := supplied.chosen
      rw [hnone, hnew]
      simp [newInvocationId_timed length hex]
  constructor
  · rintro ⟨timed, deadline, environment, arguments⟩
    refine ⟨chosen.mpr timed, rdeadline ▸ deadline, ?_, ?_⟩
    · rwa [renv] at environment
    · intro artifact' args' hartifact' hargs'
      obtain rfl := Option.some.inj (hartifact.symm.trans hartifact')
      obtain rfl := Except.ok.inj (hargs.symm.trans hargs')
      rwa [rargs] at arguments
  · rintro ⟨timed, deadline, environment, arguments⟩
    refine ⟨chosen.mp timed, rdeadline ▸ deadline, ?_, ?_⟩
    · rwa [renv]
    · rw [rargs]
      exact arguments artifact args hartifact hargs

end Metnos.Client

/-!
## The stored requests that reach the executor

Every row of a reached table was stored by a call of the run, and delivers what that call asked.
-/

namespace Metnos.Client

open Invocations

variable {G : Signing}

/-- The row is as the call stored it, up to what deliveries and results change. -/
def StoredBy (G : Signing) (c : Call) (row : Row) : Prop :=
  ∃ now new, preparedRow G c now = .ok new ∧ row.invocationId = new.invocationId ∧
    row.deviceId = new.deviceId ∧ row.payload = new.payload

theorem change_payload {S : System} {e : Event} {row row' : Row} (h : Change S e row row') :
    row'.payload = row.payload := by
  cases h <;> rfl

theorem StoredBy.change {S : System} {e : Event} {c : Call} {row row' : Row}
    (h : Change S e row row') (stored : StoredBy G c row) : StoredBy G c row' := by
  obtain ⟨now, new, hnew, hid, hdevice, hpayload⟩ := stored
  exact ⟨now, new, hnew, h.same_id.trans hid, h.same_key.1.trans hdevice,
    (change_payload h).trans hpayload⟩

theorem storedBy_run (events : List Event) (id : String) (row : Row)
    (h : (System.run G events).db.find? id = some row) :
    ∃ c, Event.enqueue c ∈ events ∧ StoredBy G c row := by
  induction events using List.reverseRecOn generalizing id row with
  | nil => simp [System.run, System.init] at h
  | append_singleton events e ih =>
    have sound : Sound (System.run G events).db := sound_run events
    have after : ((System.run G events).after G e).db.find? id = some row := by
      rw [System.run, Transaction.run_append] at h
      exact h
    have rows := after_rows (G := G) sound e
    cases hold : (System.run G events).db.find? id with
    | none =>
      obtain ⟨-, -, c, rfl⟩ := rows.new id row hold after
      refine ⟨c, by simp, ?_⟩
      cases hstep : (System.run G events).step G (.enqueue c) with
      | error err =>
        rw [System.after, Transaction.commit, hstep, hold] at after
        cases after
      | ok S' =>
        rw [System.after, Transaction.commit, hstep] at after
        exact ⟨_, row, (inserted_row hstep hold after).1, rfl, rfl, rfl⟩
    | some old =>
      obtain ⟨c, hc, stored⟩ := ih id old hold
      rcases rows.old id old hold with ⟨new, hnew, change⟩ | ⟨hnone, -⟩
      · obtain rfl : new = row := Option.some.inj (hnew.symm.trans after)
        exact ⟨c, List.mem_append_left _ hc, stored.change change⟩
      · rw [after] at hnone
        cases hnone

theorem preparedRow_signed {A : Authority} {sha256 : List Char → String} {c : Call} {now : ℚ}
    {row : Row} (h : preparedRow (A.signing sha256) c now = .ok row) :
    ∃ dev r, ∃ grants : List ProviderGrant, ∃ text,
      c.request = .ok (dev, row.invocationId, r) ∧
      row.payload = r.payload row.invocationId (grants.map ProviderGrant.toJson) ∧
      Json.canonicalText row.payload = some text := by
  unfold preparedRow at h
  simp only [Transaction.bind_eq_ok, Transaction.pure_eq_ok] at h
  obtain ⟨⟨dev, chosenId, r⟩, hrequest, digest, -, grants, hgrants, text, htext, rfl⟩ := h
  obtain ⟨gs, rfl⟩ := Authority.grants_ok hgrants
  refine ⟨dev, r, gs, text, hrequest, rfl, ?_⟩
  unfold signPayload at htext
  split at htext
  · rename_i hsome
    cases htext
    exact hsome
  · cases htext

theorem understood_call {A : Authority} {sha256 : List Char → String} {c : Call}
    (supplied : Call.Supplied c) {now : ℚ} {row : Row}
    (h : preparedRow (A.signing sha256) c now = .ok row) (sig : String)
    (clientVersion : Option String) (shimSha256 : String) :
    Understood row.payload sig clientVersion shimSha256 ↔ Call.Understandable c := by
  obtain ⟨dev, r, grants, text, hrequest, hpayload, htext⟩ := preparedRow_signed h
  rw [hpayload] at htext
  rw [hpayload, understood_iff (request_wellFormed supplied hrequest)
    (Call.request_contextual hrequest) _ grants sig clientVersion shimSha256 htext]
  exact understandable_iff supplied hrequest

/-- A stored request reaches the executor, whatever the signature and the versions that go with it,
exactly when the client can hold what the call asked. -/
theorem client_accepts (A : Authority) (sha256 : List Char → String) (events : List Event)
    (supplied : ∀ c, Event.enqueue c ∈ events → Call.Supplied c) (id : String) (row : Row)
    (h : (System.run (A.signing sha256) events).db.find? id = some row) :
    ∃ c, Event.enqueue c ∈ events ∧ StoredBy (A.signing sha256) c row ∧
      ∀ sig clientVersion shimSha256,
        Understood row.payload sig clientVersion shimSha256 ↔ Call.Understandable c := by
  obtain ⟨c, hc, stored⟩ := storedBy_run events id row h
  refine ⟨c, hc, stored, fun sig clientVersion shimSha256 => ?_⟩
  obtain ⟨now, new, hnew, -, -, hpayload⟩ := stored
  rw [hpayload]
  exact understood_call (supplied c hc) hnew sig clientVersion shimSha256

/-! ### Requests that are never taken -/

def sampleAuthority : Authority := ⟨fun _ => some [], fun _ => true, String.ofList⟩

def timedId : String := newInvocationId 0x18f0e1d2c3b4a596 "0a1b2c3d".toList

def storedCall (invocationId : Option String) (args : List (String × Json)) : Call :=
  { sampleCall "laptop" timedId none with invocationId := invocationId, args := args }

theorem storedCall_supplied (invocationId : Option String) {args : List (String × Json)}
    (distinct : Json.Distinct (.obj args)) : Call.Supplied (storedCall invocationId args) := by
  refine ⟨distinct, fun specs h => (by cases h), List.nodup_nil, _, _, rfl, rfl, ?_⟩
  intro ch hch
  exact List.all_eq_true.mp
    (by decide : "0a1b2c3d".toList.all fun ch => (hexValue ch).isSome) ch hch

theorem client_accepts_sample : ∃ row,
    (System.run (sampleAuthority.signing String.ofList)
      [.enqueue (storedCall none [("n", .int 7)])]).db.find? timedId = some row ∧
    ∃ c, Event.enqueue c ∈ [Event.enqueue (storedCall none [("n", .int 7)])] ∧
      StoredBy (sampleAuthority.signing String.ofList) c row ∧
      ∀ sig clientVersion shimSha256,
        Understood row.payload sig clientVersion shimSha256 ↔ Call.Understandable c := by
  refine ⟨_, rfl, client_accepts sampleAuthority String.ofList _ ?_ timedId _ rfl⟩
  intro c hc
  obtain rfl : c = storedCall none [("n", .int 7)] := by simpa using hc
  exact storedCall_supplied none rfl

/-- The id that the dispatch of a durable attempt supplies: a name-based UUID, and no time. -/
def durableId : String := "inv-durable-0123456789abcdef0123456789abcdef"

def refusedRun (c : Call) : System :=
  System.run (sampleAuthority.signing String.ofList) [.enqueue c]

theorem refused {c : Call} {id : String} (stored : ((refusedRun c).db.find? id).isSome)
    (supplied : Call.Supplied c) (bad : ¬Call.Understandable c) :
    ∃ row, (refusedRun c).db.find? id = some row ∧
      ∀ sig clientVersion shimSha256, ¬Understood row.payload sig clientVersion shimSha256 := by
  obtain ⟨row, h⟩ := Option.isSome_iff_exists.mp stored
  refine ⟨row, h, fun sig clientVersion shimSha256 => ?_⟩
  obtain ⟨c', hc', now, new, hnew, -, -, hpayload⟩ := storedBy_run _ id row h
  obtain rfl : c' = c := by simpa using hc'
  rw [hpayload, understood_call supplied hnew]
  exact bad

theorem not_timed_durableId : ¬Timed durableId := by
  rintro ⟨time, tail, hid, htime, htail, -, -⟩
  have := congrArg List.length hid
  rw [List.length_append, List.length_append, htime, htail] at this
  exact absurd this (by decide)

/-- A durable attempt is stored and never taken, and neither is a call with an integer of 2^64. -/
theorem client_refuses :
    (∃ row, (refusedRun (storedCall (some durableId) [])).db.find? durableId = some row ∧
      ∀ sig clientVersion shimSha256, ¬Understood row.payload sig clientVersion shimSha256) ∧
    ∃ row, (refusedRun (storedCall none [("n", .int (2 ^ 64))])).db.find? timedId = some row ∧
      ∀ sig clientVersion shimSha256, ¬Understood row.payload sig clientVersion shimSha256 := by
  constructor
  · refine refused (by decide +kernel) (storedCall_supplied _ rfl) ?_
    intro understandable
    exact not_timed_durableId (understandable.timed durableId rfl)
  · refine refused (by decide +kernel) (storedCall_supplied _ rfl) ?_
    intro understandable
    have portable := (understandable.arguments _ _ rfl rfl).1
    exact absurd (portable_obj.mp portable ("n", .int (2 ^ 64)) (List.mem_singleton_self _))
      (by decide)

end Metnos.Client
