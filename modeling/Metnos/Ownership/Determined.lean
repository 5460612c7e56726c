import Mathlib
import Metnos.Lib.HashChain
import Metnos.Ownership.Contiguous

/-!
# Ownership.Determined — the required head determines the chain

A head's identity is the hash of its text without the identity, so it determines the text, and the
text determines every field.  The heads of a chain name each other by identity, hence the last one
determines them all.
-/

namespace Metnos.Ownership

open Transaction

/-! ## Identity and text -/

def asciiText (t : List Char) : Bytes := asciiBytes (t.flatMap asciiChar)

theorem asciiText_append (s t : List Char) : asciiText (s ++ t) = asciiText s ++ asciiText t := by
  rw [asciiText, List.flatMap_append, asciiBytes, List.map_append]
  rfl

theorem hex_mem {c : Char} (h : (('0' ≤ c && c ≤ '9') || ('a' ≤ c && c ≤ 'f')) = true) :
    c ∈ "0123456789abcdef".toList := by
  have hc : Char.ofNat c.toNat = c := Char.ofNat_toNat c
  have hrange : (48 ≤ c.toNat ∧ c.toNat ≤ 57) ∨ (97 ≤ c.toNat ∧ c.toNat ≤ 102) := by
    simpa [Char.le_def, UInt32.le_iff_toNat_le] using h
  rw [← hc]
  generalize c.toNat = n at hrange
  rcases hrange with ⟨low, high⟩ | ⟨low, high⟩
  · interval_cases n <;> decide
  · interval_cases n <;> decide

theorem plain_digest {s : String} (h : isHexAfter "sha256:" s = true) :
    (∀ c ∈ s.toList, (Json.escape c).flatMap asciiChar = [c]) ∧ s.toList.length = 71 := by
  simp only [isHexAfter, Bool.and_eq_true, decide_eq_true_eq] at h
  obtain ⟨⟨htake, hlength⟩, hall⟩ := h
  have hstart : ∀ c ∈ "sha256:".toList, (Json.escape c).flatMap asciiChar = [c] := by
    have hall : ("sha256:".toList.all fun c =>
      decide ((Json.escape c).flatMap asciiChar = [c])) = true := by decide
    simpa only [List.all_eq_true, decide_eq_true_eq] using hall
  have hhex : ∀ c ∈ "0123456789abcdef".toList, (Json.escape c).flatMap asciiChar = [c] := by
    have hall : ("0123456789abcdef".toList.all fun c =>
      decide ((Json.escape c).flatMap asciiChar = [c])) = true := by decide
    simpa only [List.all_eq_true, decide_eq_true_eq] using hall
  constructor
  · intro c hc
    rw [← List.take_append_drop "sha256:".length s.toList, htake] at hc
    rcases List.mem_append.mp hc with hc | hc
    · exact hstart c hc
    · exact hhex c (hex_mem (List.all_eq_true.mp hall c hc))
  · have htext := congrArg List.length (List.take_append_drop "sha256:".length s.toList)
    rw [htake, List.length_append, hlength] at htext
    exact htext.symm

theorem length_quote_digest {s : String} (h : isHexAfter "sha256:" s = true) :
    (asciiText (Json.quote s)).length = 73 := by
  obtain ⟨plain, hlength⟩ := plain_digest h
  have hbody : (s.toList.flatMap Json.escape).flatMap asciiChar = s.toList := by
    rw [List.flatMap_assoc, List.flatMap_congr plain]
    exact List.flatMap_singleton' _
  have hquote : (Json.quote s).flatMap asciiChar = '"' :: (s.toList ++ ['"']) := by
    show ('"' :: s.toList.flatMap Json.escape ++ ['"']).flatMap asciiChar = _
    rw [List.flatMap_append, List.flatMap_cons, hbody]
    rfl
  rw [asciiText, hquote, asciiBytes, List.length_map, List.length_cons, List.length_append, hlength]
  rfl

/-- The text of a head up to its identity. -/
def front (build cutover : String) : List Char :=
  '{' :: (Json.quote "closed_build_id" ++ ':' :: (Json.quote build ++
    (',' :: (Json.quote "cutover_id" ++ ':' :: Json.quote cutover))))

def identityPart (id : String) : List Char := ',' :: (Json.quote "head_id" ++ ':' :: Json.quote id)

theorem length_front {b c b' c' : String} (hb : isHexAfter "sha256:" b = true)
    (hc : isHexAfter "sha256:" c = true) (hb' : isHexAfter "sha256:" b' = true)
    (hc' : isHexAfter "sha256:" c' = true) :
    (asciiText (front b c)).length = (asciiText (front b' c')).length := by
  have parts : ∀ x y, front x y = ('{' :: (Json.quote "closed_build_id" ++ [':'])) ++
      (Json.quote x ++ ((',' :: (Json.quote "cutover_id" ++ [':'])) ++ Json.quote y)) := by
    intro x y
    simp [front]
  rw [parts, parts]
  simp only [asciiText_append, List.length_append, length_quote_digest hb, length_quote_digest hc,
    length_quote_digest hb', length_quote_digest hc']

/-- The keys of a head after its identity, in their order. -/
def laterKeys : List String :=
  ["previous_head_id", "release_sequence", "schema_version", "signing_key_id"]

theorem canonical_fields {fields : List (String × Json)} {b c id : String}
    (nodup : (fields.map Prod.fst).Nodup) (keys : ∀ k, k ∈ fields.map Prod.fst ↔ k ∈ headKeys)
    (hb : Json.get? fields "closed_build_id" = some (.str b))
    (hc : Json.get? fields "cutover_id" = some (.str c))
    (hid : Json.get? fields "head_id" = some (.str id)) :
    ∃ rest, canonical (.obj (fields.filter (·.1 ≠ "head_id"))) =
        asciiText (front b c) ++ rest ∧
      canonical (.obj fields) = asciiText (front b c) ++ (asciiText (identityPart id) ++ rest) := by
  let value : String → Json := fun k => Json.sortKeys ((Json.get? fields k).getD .null)
  have values : ∀ f ∈ fields, value f.1 = Json.sortKeys f.2 := by
    intro f hf
    have hget : Json.get? fields f.1 = some f.2 := (Json.get?_eq_some nodup).mpr hf
    show Json.sortKeys ((Json.get? fields f.1).getD .null) = _
    rw [hget]
    rfl
  have hvalue : ∀ {k s}, Json.get? fields k = some (.str s) → value k = .str s := by
    intro k s h
    show Json.sortKeys ((Json.get? fields k).getD .null) = _
    rw [h]
    rfl
  have kept : ∀ k, k ∈ (fields.filter (·.1 ≠ "head_id")).map Prod.fst ↔
      k ∈ ["closed_build_id", "cutover_id"] ++ laterKeys := by
    intro k
    have hmem : k ∈ (fields.filter (·.1 ≠ "head_id")).map Prod.fst ↔
        k ∈ fields.map Prod.fst ∧ k ≠ "head_id" := by
      simp only [List.mem_map, List.mem_filter, decide_eq_true_eq]
      constructor
      · rintro ⟨f, ⟨hf, hne⟩, rfl⟩
        exact ⟨⟨f, hf, rfl⟩, hne⟩
      · rintro ⟨⟨f, hf, rfl⟩, hne⟩
        exact ⟨f, ⟨hf, hne⟩, rfl⟩
    have hkeys : k ∈ headKeys.filter (· ≠ "head_id") ↔ k ∈ headKeys ∧ k ≠ "head_id" := by
      rw [List.mem_filter, decide_eq_true_eq]
    rw [hmem, keys, ← hkeys]
    exact List.Perm.mem_iff (by decide)
  have whole := Json.sortKeys_obj nodup
    (show (["closed_build_id", "cutover_id", "head_id"] ++ laterKeys).Pairwise (· < ·) by decide)
    (fun k => (keys k).trans (List.Perm.mem_iff (by decide))) values
  have unsigned := Json.sortKeys_obj (nodup.sublist (List.filter_sublist.map _))
    (show (["closed_build_id", "cutover_id"] ++ laterKeys).Pairwise (· < ·) by decide)
    kept (fun f hf => values f (List.mem_of_mem_filter hf))
  have hfront : ∀ more, '{' :: (Json.quote "closed_build_id" ++ ':' :: (Json.render (.str b) ++
      (',' :: (Json.quote "cutover_id" ++ ':' :: (Json.render (.str c) ++ more))))) =
        front b c ++ more := by
    intro more
    simp [front, Json.render]
  refine ⟨asciiText (Json.moreFields (laterKeys.map fun k => (k, value k))), ?_, ?_⟩
  · rw [← asciiText_append, ← hfront, canonical, unsigned, ← hvalue hb, ← hvalue hc]
    rfl
  · rw [← asciiText_append, ← asciiText_append, ← hfront, canonical, whole, ← hvalue hb,
      ← hvalue hc]
    have hidentity : ∀ more, identityPart id ++ more = ',' :: (Json.quote "head_id" ++
        ':' :: (Json.render (value "head_id") ++ more)) := by
      intro more
      rw [hvalue hid]
      simp [identityPart, Json.render]
    rw [hidentity]
    rfl

/-! ## What a head's identity stands for -/

/-- The head has passed its verification, under one registry or another. -/
def Authentic (site : Site) (h : Head) : Prop :=
  ∃ authorized verifies,
    verifyOwnershipHead ⟨site.loads, site.sha256, authorized, verifies⟩ h.encoded h.signature =
      .ok h

def Head.unsigned (h : Head) : Head := { h with signature := [] }

/-- The head is read from the fields. -/
structure ReadFrom (site : Site) (h : Head) (fields : List (String × Json)) : Prop where
  loaded : headFields site h.encoded = .ok fields
  nodup : (fields.map Prod.fst).Nodup
  keys : ∀ k, k ∈ fields.map Prod.fst ↔ k ∈ headKeys
  text : canonical (.obj fields) = h.encoded
  sequence : sequence fields = .ok h.releaseSequence
  cutover : digest fields "cutover_id" = .ok h.cutoverId
  build : digest fields "closed_build_id" = .ok h.closedBuildId
  previous : nullableDigest fields "previous_head_id" = .ok h.previousHeadId
  claimed : digest fields "head_id" = .ok h.headId
  identity : h.headId = headIdOf site fields
  key : signingKey fields = .ok h.signingKeyId

section
variable {site : Site} {h k : Head}

theorem Authentic.readFrom (a : Authentic site h) : ∃ fields, ReadFrom site h fields := by
  obtain ⟨authorized, verifies, a⟩ := a
  generalize hencoded : h.encoded = encoded at a
  generalize h.signature = signature at a
  simp only [verifyOwnershipHead, bind_eq_ok, check_eq_ok, pure_eq_ok] at a
  obtain ⟨-, -, -, -, fields, hfields, -, -, n, hn, c, hc, b, hb, prev, hprev, claimed, hclaimed, -,
    hid, key, hkey, -, -, -, -, rfl⟩ := a
  have hloaded : headFields site encoded = .ok fields := hfields
  unfold headFields at hfields
  split at hfields
  · cases hfields
  · simp only [bind_eq_ok, check_eq_ok, pure_eq_ok] at hfields
    obtain ⟨-, nodup, -, ⟨known, all, text⟩, rfl⟩ := hfields
    exact ⟨_, hloaded, nodup, fun k => ⟨known k, all k⟩, text, hn, hc, hb, hprev, hclaimed, hid,
      hkey⟩
  · cases hfields

theorem digest_ok {fields : List (String × Json)} {field s : String}
    (h : digest fields field = .ok s) :
    Json.get? fields field = some (.str s) ∧ isHexAfter "sha256:" s = true := by
  unfold digest at h
  split at h
  · rename_i t hget
    split_ifs at h with hhex
    cases h
    exact ⟨hget, hhex⟩
  · cases h

theorem encoded_of_headId (hsha : Function.Injective site.sha256) (ah : Authentic site h)
    (ak : Authentic site k) (hid : h.headId = k.headId) : h.encoded = k.encoded := by
  obtain ⟨fs, rh⟩ := ah.readFrom
  obtain ⟨gs, rk⟩ := ak.readFrom
  obtain ⟨hb, hexb⟩ := digest_ok rh.build
  obtain ⟨hc, hexc⟩ := digest_ok rh.cutover
  obtain ⟨kb, hexb'⟩ := digest_ok rk.build
  obtain ⟨kc, hexc'⟩ := digest_ok rk.cutover
  obtain ⟨rest, unsigned, whole⟩ := canonical_fields rh.nodup rh.keys hb hc (digest_ok rh.claimed).1
  obtain ⟨rest', unsigned', whole'⟩ :=
    canonical_fields rk.nodup rk.keys kb kc (digest_ok rk.claimed).1
  -- the hashed texts are the same, and so are their parts around the identity
  have hhash : site.sha256 (headIdDomain ++ canonical (.obj (fs.filter (·.1 ≠ "head_id")))) =
      site.sha256 (headIdDomain ++ canonical (.obj (gs.filter (·.1 ≠ "head_id")))) := by
    have hids := rh.identity.symm.trans (hid.trans rk.identity)
    unfold headIdOf at hids
    have hlists := congrArg String.toList hids
    rw [String.toList_append, String.toList_append] at hlists
    exact String.toList_inj.mp (List.append_cancel_left hlists)
  have htext := List.append_cancel_left (hsha hhash)
  rw [unsigned, unsigned'] at htext
  obtain ⟨hfront, hrest⟩ := List.append_inj htext (length_front hexb hexc hexb' hexc')
  rw [← rh.text, ← rk.text, whole, whole', hfront, hrest, hid]

theorem unsigned_of_encoded (ah : Authentic site h) (ak : Authentic site k)
    (hencoded : h.encoded = k.encoded) : h.unsigned = k.unsigned := by
  obtain ⟨fs, rh⟩ := ah.readFrom
  obtain ⟨gs, rk⟩ := ak.readFrom
  have hfields : fs = gs := by
    have hloaded := rh.loaded
    rw [hencoded, rk.loaded, Except.ok.injEq] at hloaded
    exact hloaded.symm
  subst hfields
  have hsequence := Except.ok.inj (rh.sequence.symm.trans rk.sequence)
  have hcutover := Except.ok.inj (rh.cutover.symm.trans rk.cutover)
  have hbuild := Except.ok.inj (rh.build.symm.trans rk.build)
  have hprevious := Except.ok.inj (rh.previous.symm.trans rk.previous)
  have hclaimed := Except.ok.inj (rh.claimed.symm.trans rk.claimed)
  have hkey := Except.ok.inj (rh.key.symm.trans rk.key)
  unfold Head.unsigned
  rw [hsequence, hcutover, hbuild, hprevious, hclaimed, hkey, hencoded]

end

/-! ## What an accepted chain is -/

/-- Numbered from 1, from the anchor on; each head names the one before it, by its own field, by its
certificate and by its build. -/
structure Contiguous (e : Evidence) (before : String → Option (Option String)) (heads : List Head) :
    Prop where
  sequences : heads.map Head.releaseSequence = List.range' 1 heads.length
  start : ∀ h ∈ heads.head?, h.previousHeadId = none ∧ h.cutoverId = e.anchor.cutoverId ∧
    h.closedBuildId = e.anchor.closedBuildId ∧ before h.closedBuildId = some none
  links : heads.IsChain fun p h => h.previousHeadId = some p.headId ∧
    (∃ c, e.cutovers h.cutoverId = some c ∧ c.previousCutoverId = some p.cutoverId) ∧
    before h.closedBuildId = some (some p.closedBuildId)

/-- What a loop knows after the heads it has passed. -/
structure Passed (e : Evidence) (before : String → Option (Option String)) (heads : List Head)
    (w : Walk) : Prop where
  previous : w.previous = heads.getLast?
  contiguous : Contiguous e before heads

section
variable {site : Site} {e : Evidence} {before : String → Option (Option String)}
  {facts : String → Option Facts} {heads heads' : List Head} {head requiredHead : Head} {w : Walk}
  {chain : VerifiedOwnershipChain}

theorem passed_start : Passed e before [] .start :=
  ⟨rfl, rfl, fun h hh => (by cases hh), .nil⟩

theorem Follows.passed {cutover : Cutover} {transition : ContextTransition}
    (reads : ∀ id f, facts id = some f → before id = some f.previousClosedBuildId)
    (h : Follows site e facts w (1 + heads.length) head cutover transition)
    (p : Passed e before heads w) :
    Passed e before (heads ++ [head]) (w.advance head transition) := by
  have hbefore := reads _ _ h.build
  refine ⟨by simp [Walk.advance], ?_, ?_, ?_⟩
  · rw [List.map_append, p.contiguous.sequences, List.length_append, List.map_singleton,
      h.sequence, List.length_singleton, List.range'_concat, Nat.one_mul]
  · intro first hfirst
    rcases List.eq_nil_or_concat heads with rfl | ⟨init, last, rfl⟩
    · cases hfirst
      have hanchor := h.anchored
      rw [p.previous, List.getLast?_nil] at hanchor hbefore
      simp only [anchorLink, bind_eq_ok, check_eq_ok] at hanchor
      obtain ⟨-, ⟨hnone, hcutover⟩, hbuild⟩ := hanchor
      exact ⟨hnone, hcutover, hbuild, hbefore⟩
    · refine p.contiguous.start first ?_
      rw [List.concat_eq_append] at hfirst ⊢
      rw [List.head?_append] at hfirst
      cases init <;> exact hfirst
  · rw [List.isChain_append]
    refine ⟨p.contiguous.links, .singleton _, ?_⟩
    intro last hlast next hnext
    cases hnext
    have hprevious : w.previous = some last := p.previous.trans hlast
    have hanchor := h.anchored
    have hcutover := h.succeeds
    rw [hprevious] at hanchor hbefore hcutover
    exact ⟨check_eq_ok.mp hanchor, ⟨cutover, h.certified, check_eq_ok.mp hcutover⟩, hbefore⟩

/-! ### Runs of the two loops -/

/-- The predecessor that a live build states. -/
def buildBefore (builds : String → Option Distribution) (id : String) : Option (Option String) :=
  (builds id).map Distribution.previousClosedBuildId

/-- The predecessor that a signed record states. -/
def recordBefore (records : String → Option Record) (id : String) : Option (Option String) :=
  (records id).map Record.previousClosedBuildId

theorem buildFacts_before {builds : String → Option Distribution} (id : String) (f : Facts)
    (h : buildFacts builds id = some f) :
    buildBefore builds id = some f.previousClosedBuildId := by
  obtain ⟨b, hb, hf⟩ := Option.bind_eq_some_iff.mp h
  split_ifs at hf
  cases hf
  rw [buildBefore, hb]
  rfl

theorem recordFacts_before {forTest : Bool} {records : String → Option Record} (id : String)
    (f : Facts) (h : recordFacts site forTest records id = some f) :
    recordBefore records id = some f.previousClosedBuildId := by
  obtain ⟨r, hr, hf⟩ := Option.bind_eq_some_iff.mp h
  split_ifs at hf
  cases hf
  rw [recordBefore, hr]
  rfl

theorem enumerate_build_passed {builds : String → Option Distribution} {w : Walk}
    (h : enumerate (stepBuild site e builds) .start 1 heads = .ok w) :
    Passed e (buildBefore builds) heads w := by
  refine enumerate_holds ?_ h passed_start
  intro xs s x s' hstep hp
  obtain ⟨cutover, transition, follows, rfl⟩ := stepBuild_ok.mp hstep
  exact follows.passed buildFacts_before hp

theorem enumerate_record_passed {records : String → Option Record} {forTest : Bool} {w : RecordWalk}
    (h : enumerate (stepRecord site e records forTest) .start 1 heads = .ok w) :
    Passed e (recordBefore records) heads w.toWalk := by
  have hrun : Passed e (recordBefore records) heads w.toWalk ∧ w.Coherent := by
    refine enumerate_holds (I := fun xs (w : RecordWalk) =>
      Passed e (recordBefore records) xs w.toWalk ∧ w.Coherent) ?_ h ⟨passed_start, rfl⟩
    rintro xs s x s' hstep ⟨hp, coherent⟩
    obtain ⟨cutover, transition, record, follows, hrecord, rfl⟩ := (stepRecord_ok coherent).mp hstep
    exact ⟨follows.passed recordFacts_before hp, follows.coherent hrecord⟩
  exact hrun.1

/-! ### The two verifiers -/

theorem requiredMatch_ok : requiredMatch heads requiredHead = .ok () ↔
    ∃ final, heads.getLast? = some final ∧ final.headId = requiredHead.headId ∧
      final.encoded = requiredHead.encoded ∧ final.signature = requiredHead.signature := by
  simp only [requiredMatch, check_eq_ok, Option.mem_def]

theorem verifyContiguousChain_ok {builds : String → Option Distribution} :
    verifyContiguousChain site e heads requiredHead builds = .ok chain ↔
      chainLength heads requiredHead = .ok () ∧ ∃ w,
        enumerate (stepBuild site e builds) .start 1 heads = .ok w ∧
        requiredMatch heads requiredHead = .ok () ∧
        chain = ⟨e.anchor.cutoverId, heads, [], none, w.selectedTransitions⟩ := by
  simp only [verifyContiguousChain, bind_eq_ok, pure_eq_ok]
  constructor
  · rintro ⟨⟨⟩, hlength, w, hw, ⟨⟩, hmatch, rfl⟩
    exact ⟨hlength, w, hw, hmatch, rfl⟩
  · rintro ⟨hlength, w, hw, hmatch, rfl⟩
    exact ⟨(), hlength, w, hw, (), hmatch, rfl⟩

theorem verifyContiguousAuthenticatedChain_ok {records : String → Option Record}
    {live : Distribution} {forTest : Bool} :
    verifyContiguousAuthenticatedChain site e heads requiredHead records live forTest = .ok chain ↔
      chainLength heads requiredHead = .ok () ∧ ∃ w,
        enumerate (stepRecord site e records forTest) .start 1 heads = .ok w ∧
        requiredMatch heads requiredHead = .ok () ∧
        (∃ final ∈ heads.getLast?, ∃ record ∈ w.orderedRecords.getLast?,
          LiveBuild live final record) ∧
        chain = ⟨e.anchor.cutoverId, heads, w.orderedRecords, some live,
          w.selectedTransitions⟩ := by
  simp only [verifyContiguousAuthenticatedChain, bind_eq_ok, pure_eq_ok, check_eq_ok]
  constructor
  · rintro ⟨⟨⟩, hlength, w, hw, ⟨⟩, hmatch, -, hlive, rfl⟩
    exact ⟨hlength, w, hw, hmatch, hlive, rfl⟩
  · rintro ⟨hlength, w, hw, hmatch, hlive, rfl⟩
    exact ⟨(), hlength, w, hw, (), hmatch, (), hlive, rfl⟩

/-- One of the two verifiers takes the heads for a chain of the required head. -/
inductive Accepts (site : Site) (requiredHead : Head) (heads : List Head) : Prop
  | live (e : Evidence) (builds : String → Option Distribution) (chain : VerifiedOwnershipChain) :
      verifyContiguousChain site e heads requiredHead builds = .ok chain →
      Accepts site requiredHead heads
  | signed (e : Evidence) (records : String → Option Record) (live : Distribution) (forTest : Bool)
      (chain : VerifiedOwnershipChain) :
      verifyContiguousAuthenticatedChain site e heads requiredHead records live forTest =
        .ok chain → Accepts site requiredHead heads

theorem Contiguous.linked (h : Contiguous e before heads) :
    HashChain.Linked Head.headId Head.previousHeadId heads :=
  ⟨fun first hfirst => (h.start first hfirst).1, h.links.imp fun _ _ hlink => hlink.1⟩

theorem Accepts.linked (h : Accepts site requiredHead heads) :
    HashChain.Linked Head.headId Head.previousHeadId heads ∧
      heads.getLast?.map Head.headId = some requiredHead.headId := by
  have last : requiredMatch heads requiredHead = .ok () →
      heads.getLast?.map Head.headId = some requiredHead.headId := by
    intro hmatch
    obtain ⟨final, hfinal, hid, -⟩ := requiredMatch_ok.mp hmatch
    rw [hfinal, Option.map_some, hid]
  cases h with
  | live e builds chain h =>
    obtain ⟨-, w, hw, hmatch, -⟩ := verifyContiguousChain_ok.mp h
    exact ⟨(enumerate_build_passed hw).contiguous.linked, last hmatch⟩
  | signed e records live forTest chain h =>
    obtain ⟨-, w, hw, hmatch, -⟩ := verifyContiguousAuthenticatedChain_ok.mp h
    exact ⟨(enumerate_record_passed hw).contiguous.linked, last hmatch⟩

theorem Accepts.unsigned_eq (hsha : Function.Injective site.sha256)
    (h : Accepts site requiredHead heads) (h' : Accepts site requiredHead heads')
    (authentic : ∀ k ∈ heads, Authentic site k) (authentic' : ∀ k ∈ heads', Authentic site k) :
    heads.map Head.unsigned = heads'.map Head.unsigned := by
  obtain ⟨linked, hlast⟩ := h.linked
  obtain ⟨linked', hlast'⟩ := h'.linked
  refine HashChain.map_eq_of_last ?_ ?_ authentic authentic' linked linked'
    (hlast.trans hlast'.symm)
  · intro a b ha hb hid
    exact unsigned_of_encoded ha hb (encoded_of_headId hsha ha hb hid)
  · intro a b _ _ hkey
    exact (congrArg Head.previousHeadId hkey :)

/-! ### The same distributions -/

variable {builds : String → Option Distribution} {records : String → Option Record} {forTest : Bool}

/-- What the walk over records knows of its last record. -/
structure Matches (site : Site) (forTest : Bool) (records : String → Option Record) (s : Walk)
    (t : RecordWalk) : Prop where
  walk : t.toWalk = s
  coherent : t.Coherent
  ordered : t.orderedRecords.getLast? = t.previousRecord
  last : ∀ h ∈ t.previous, ∃ r, t.previousRecord = some r ∧ records h.closedBuildId = some r ∧
    r.closedBuildId = h.closedBuildId ∧ r.releaseSequence = h.releaseSequence

theorem Matches.advance {s : Walk} {t : RecordWalk} {n : ℕ} {cutover : Cutover}
    {transition : ContextTransition} {record : Record} (m : Matches site forTest records s t)
    (h : Follows site e (recordFacts site forTest records) t.toWalk n head cutover transition)
    (hrecord : records head.closedBuildId = some record) :
    Matches site forTest records (s.advance head transition)
      (t.advance head transition record) := by
  refine ⟨?_, h.coherent hrecord, by simp [RecordWalk.advance], ?_⟩
  · rw [← m.walk]
    rfl
  · intro k hk
    cases hk
    have hfacts := h.build
    rw [recordFacts, hrecord, Option.bind_some] at hfacts
    split_ifs at hfacts with authority
    simp only [Option.some.injEq, Facts.mk.injEq] at hfacts
    exact ⟨record, rfl, hrecord, authority.2, hfacts.2⟩

end

def sampleDigest (c : Char) : String := "sha256:" ++ String.ofList (List.replicate 64 c)

def sampleKey : String := "birth-ed25519-v1-sha256-" ++ String.ofList (List.replicate 64 '3')

end Metnos.Ownership
