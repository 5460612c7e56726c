import Metnos.Client.Runner

/-!
# Client.AtMostOnce — that the client executes an id once

Each step keeps what the client remembers, if it acts on no response for an id whose marker it finds
without knowing the id, and takes no result out of the spool that nothing else stands for.
-/

namespace Metnos.Client

variable {readOnly : String → Bool} {S S' : Device} {p : Process} {id : String}

/-! ### The trace grows -/

theorem Once.executed {t : List Entry} (once : Once readOnly t)
    (h : readOnly id = false → .executed id ∈ t → Recent.Crowded executedCap (since id t) id) :
    Once readOnly (t ++ [.executed id]) := by
  intro other hother before after heq hmem
  rcases List.eq_nil_or_concat after with rfl | ⟨after, e, rfl⟩
  · obtain ⟨rfl, hlast⟩ := List.append_inj' heq rfl
    obtain rfl : id = other := by simpa using hlast
    exact h hother hmem
  · rw [List.concat_eq_append, ← List.cons_append, ← List.append_assoc] at heq
    exact once other hother before after (List.append_inj' heq rfl).1 hmem

theorem Once.recorded {t : List Entry} (once : Once readOnly t) (ids : List String) :
    Once readOnly (t ++ recordedAll ids) := by
  induction ids using List.reverseRecOn with
  | nil => simpa [recordedAll] using once
  | append_singleton ids last ih =>
    intro other hother before after heq hmem
    have split : t ++ recordedAll (ids ++ [last]) = (t ++ recordedAll ids) ++ [.recorded last] := by
      simp [recordedAll]
    rw [split] at heq
    rcases List.eq_nil_or_concat after with rfl | ⟨after, e, rfl⟩
    · have hlast := (List.append_inj' heq rfl).2
      simp at hlast
    · rw [List.concat_eq_append, ← List.cons_append, ← List.append_assoc] at heq
      exact ih other hother before after (List.append_inj' heq rfl).1 hmem

theorem executed_append_recorded {t : List Entry} {ids : List String} :
    .executed id ∈ t ++ recordedAll ids ↔ .executed id ∈ t := by
  simp [recordedAll]

theorem Remembered.grow (h : Remembered S id) (started : id ∈ S.started → id ∈ S'.started)
    (results : id ∈ S.results → id ∈ S'.results) (ledger : S'.ledger.lines = S.ledger.lines)
    (trace : since id S.trace ⊆ since id S'.trace)
    (memory : ∀ p', S'.process = some p' → ∃ p, S.process = some p ∧ p'.executed = p.executed ∧
      ∀ todo recovered, p.phase = .recovering todo recovered → id ∈ recovered →
        ∃ todo' recovered', p'.phase = .recovering todo' recovered' ∧ id ∈ recovered') :
    Remembered S' id := by
  have named : S'.ledger.named = S.ledger.named := by
    unfold Ledger.named
    rw [ledger]
  have corrupt : S'.ledger.Corrupt ↔ S.ledger.Corrupt := by
    unfold Ledger.Corrupt
    rw [ledger]
  refine ⟨fun hid => ?_, ?_, fun p' hp' => ?_, fun p' hp' hin => ?_⟩
  · rw [named] at hid ⊢
    rw [corrupt]
    exact (h.ledger hid).imp_right fun f => f.mono trace
  · rw [named, corrupt]
    rcases h.disk with hs | hr | hl | hc | hcrowd
    · exact .inl (started hs)
    · exact .inr (.inl (results hr))
    · exact .inr (.inr (.inl hl))
    · exact .inr (.inr (.inr (.inl hc)))
    · exact .inr (.inr (.inr (.inr (hcrowd.mono trace))))
  · obtain ⟨p, hp, hexecuted, hrecovered⟩ := memory p' hp'
    rw [hexecuted]
    rcases h.memory p hp with hs | hcrowd | hin | ⟨todo, recovered, hphase, hmem⟩
    · exact .inl (started hs)
    · exact .inr (.inl (hcrowd.mono trace))
    · exact .inr (.inr (.inl hin))
    · exact .inr (.inr (.inr (hrecovered todo recovered hphase hmem)))
  · obtain ⟨p, hp, hexecuted, -⟩ := memory p' hp'
    rw [hexecuted] at hin ⊢
    exact (h.known p hp hin).imp (fun f => f.mono trace) fun c => c.mono trace

theorem Remembered.crash (h : Remembered S id) : Remembered { S with process := none } id :=
  h.grow (fun h => h) (fun h => h) rfl subset_rfl fun p' hp' => by cases hp'

/-! ### Steps that only move the phase -/

theorem Kept.crash (kept : Kept readOnly S) : Kept readOnly { S with process := none } :=
  ⟨fun p hp => (by cases hp), kept.lines, fun id hid hmem => (kept.remembered id hid hmem).crash,
    kept.once⟩

theorem Handling.free (h : Handling readOnly S p) (phase : Phase) (busy : phase.busy = none) :
    Handling readOnly S { p with phase := phase } := by
  cases phase with
  | idle | recovering todo recovered =>
    exact ⟨h.nodup, fun id h => (by cases h), fun id h => (by cases h), fun id h => (by cases h),
      fun id h => (by cases h)⟩
  | marked id | executing id | spooled id | recorded id => cases busy

theorem Kept.move (kept : Kept readOnly S) (hp : S.process = some p) {phase : Phase}
    (busy : phase.busy = none) (recovering : ∀ todo recovered, p.phase = .recovering todo recovered →
      ∃ todo' recovered', phase = .recovering todo' recovered' ∧
        ∀ id ∈ recovered, id ∈ recovered') : Kept readOnly (S.within p phase) := by
  refine ⟨fun p' hp' => ?_, kept.lines, fun id hid hmem => ?_, kept.once⟩
  · cases hp'
    have free := (kept.handling p hp).free _ busy
    exact ⟨free.nodup, free.busy, free.marked, free.entered, free.recorded⟩
  · refine (kept.remembered id hid hmem).grow (fun h => h) (fun h => h) rfl subset_rfl ?_
    intro p' hp'
    cases hp'
    refine ⟨p, hp, rfl, fun todo recovered hphase hid => ?_⟩
    obtain ⟨todo', recovered', hphase', hsub⟩ := recovering todo recovered hphase
    exact ⟨todo', recovered', hphase', hsub id hid⟩

/-! ### Recovery -/

theorem Kept.spoolUnknown (kept : Kept readOnly S) (hp : S.process = some p)
    {todo recovered : List String} (phase : p.phase = .recovering (id :: todo) recovered)
    {written : Bool}
    (h : S.spoolUnknown readOnly p id todo recovered written = .ok S') : Kept readOnly S' := by
  unfold Device.spoolUnknown at h
  split at h
  · cases h
  · split at h
    · cases h
      refine ⟨fun p' hp' => ?_, kept.lines, fun other hother hmem => ?_, kept.once⟩
      · have handling := kept.handling p' hp'
        exact ⟨handling.nodup, handling.busy, handling.marked, handling.entered,
          handling.recorded⟩
      · refine (kept.remembered other hother hmem).grow (fun h => h)
          (fun h => Finset.mem_insert_of_mem h) rfl subset_rfl fun p' hp' => ?_
        exact ⟨p', hp', rfl, fun todo recovered hphase hmem => ⟨todo, recovered, hphase, hmem⟩⟩
    · cases h
      refine kept.move hp rfl fun todo' recovered' hphase => ?_
      rw [phase] at hphase
      cases hphase
      exact ⟨todo, recovered, rfl, fun id h => h⟩

theorem Kept.clearStarted (kept : Kept readOnly S) (hp : S.process = some p)
    {todo recovered : List String} (phase : p.phase = .recovering (id :: todo) recovered)
    {removed : Bool}
    (h : S.clearStarted readOnly p id todo recovered removed = .ok S') : Kept readOnly S' := by
  unfold Device.clearStarted at h
  split at h
  · rename_i guard
    cases h
    refine ⟨fun p' hp' => ?_, kept.lines, fun other hother hmem => ?_, kept.once⟩
    · cases hp'
      have free := (kept.handling p hp).free
        (.recovering todo (if id ∈ S.results then recovered ++ [id] else recovered)) rfl
      exact ⟨free.nodup, fun id h => (by cases h), fun id h => (by cases h),
        fun id h => (by cases h), fun id h => (by cases h)⟩
    · have old := kept.remembered other hother hmem
      -- an id whose marker goes is in the spool and in the list of recovered ids
      have started : other ∈ S.started →
          other ∈ (if removed then S.started.erase id else S.started) ∨
            (other = id ∧ id ∈ S.results) := by
        intro hs
        by_cases heq : other = id
        · refine .inr ⟨heq, guard.resolve_right fun h => ?_⟩
          rw [← heq, hother] at h
          cases h
        · refine .inl ?_
          split
          · exact Finset.mem_erase.mpr ⟨heq, hs⟩
          · exact hs
      refine ⟨old.ledger, ?_, fun p' hp' => ?_, fun p' hp' hin => ?_⟩
      · rcases old.disk with hs | rest
        · rcases started hs with hs | ⟨rfl, hr⟩
          · exact .inl hs
          · exact .inr (.inl hr)
        · exact .inr rest
      · cases hp'
        rcases old.memory p hp with hs | hc | hf | ⟨todo', recovered', hphase, hrec⟩
        · rcases started hs with hs | ⟨rfl, hr⟩
          · exact .inl hs
          · refine .inr (.inr (.inr ⟨_, _, rfl, ?_⟩))
            rw [if_pos hr]
            simp
        · exact .inr (.inl hc)
        · exact .inr (.inr (.inl hf))
        · rw [phase] at hphase
          cases hphase
          refine .inr (.inr (.inr ⟨_, _, rfl, ?_⟩))
          split
          · exact List.mem_append_left _ hrec
          · exact hrec
      · cases hp'
        exact old.known p hp hin
  · cases h

theorem Kept.ready (kept : Kept readOnly S) (hp : S.process = some p) {recovered : List String}
    (phase : p.phase = .recovering [] recovered) :
    Kept readOnly { S with
      process := some ⟨recovered.foldl (Recent.insert executedCap) p.executed, .idle⟩
      trace := S.trace ++ recordedAll recovered } := by
  refine ⟨fun p' hp' => ?_, fun id hid => ?_, fun id hid hmem => ?_, kept.once.recorded _⟩
  · cases hp'
    exact ⟨Recent.nodup_foldl_insert (kept.handling p hp).nodup _ _, fun id h => (by cases h),
      fun id h => (by cases h), fun id h => (by cases h), fun id h => (by cases h)⟩
  · rw [executed_append_recorded]
    exact kept.lines id hid
  · rw [executed_append_recorded] at hmem
    have old := kept.remembered id hid hmem
    have grown := since_subset id S.trace (recordedAll recovered)
    have recordedSince : ∀ y ∈ recovered, y = id ∨ y ∈ since id (S.trace ++ recordedAll recovered) := by
      intro y hy
      rw [since_append hmem, recordedIn_recordedAll]
      exact .inr (Finset.mem_union_right _ (List.mem_toFinset.mpr hy))
    have nodup := (kept.handling p hp).nodup
    have known : id ∈ p.executed → Recent.Followed (since id (S.trace ++ recordedAll recovered))
        p.executed id ∨ Recent.Crowded executedCap
          (since id (S.trace ++ recordedAll recovered)) id :=
      fun hin => (old.known p hp hin).imp (fun f => f.mono grown) fun c => c.mono grown
    refine ⟨fun hl => (old.ledger hl).imp_right fun f => f.mono grown, ?_, fun p' hp' => ?_,
      fun p' hp' hin => ?_⟩
    · rcases old.disk with h | h | h | h | h
      · exact .inl h
      · exact .inr (.inl h)
      · exact .inr (.inr (.inl h))
      · exact .inr (.inr (.inr (.inl h)))
      · exact .inr (.inr (.inr (.inr (h.mono grown))))
    · cases hp'
      rcases old.memory p hp with hs | hc | hin | ⟨todo, recovered', hphase, hrec⟩
      · exact .inl hs
      · exact .inr (.inl (hc.mono grown))
      · rcases Recent.Followed.foldl (known hin) nodup recordedSince with hf | hc
        · exact .inr (.inr (.inl hf.mem))
        · exact .inr (.inl hc)
      · rw [phase] at hphase
        cases hphase
        rcases Recent.followed_foldl_mem (by decide) known nodup recordedSince hrec with hf | hc
        · exact .inr (.inr (.inl hf.mem))
        · exact .inr (.inl hc)
    · cases hp'
      exact Recent.followed_of_mem_foldl (by decide) known nodup recordedSince hin

/-! ### The loop and `handle` -/

theorem fresh_epoch {now : ℤ} (h : validateInvocationFreshness id now = true) :
    (invocationEpoch id).isSome := by
  unfold validateInvocationFreshness at h
  split at h
  · rename_i hsome
    rw [hsome]
    rfl
  · cases h

theorem Kept.poll (kept : Kept readOnly S) (hp : S.process = some p) (phase : p.phase = .idle)
    {now : ℤ} {written : Bool}
    (careful : readOnly id = false → id ∈ S.started →
      ∀ p, S.process = some p → id ∈ p.executed) :
    Kept readOnly (S.poll p id now written) := by
  unfold Device.poll
  split
  · exact kept
  rename_i unknown
  split
  · exact kept
  rename_i fresh
  split
  · exact kept
  have epoch : (invocationEpoch id).isSome := fresh_epoch (by simpa using fresh)
  refine ⟨fun p' hp' => ?_, kept.lines, fun other hother hmem => ?_, kept.once⟩
  · cases hp'
    refine ⟨(kept.handling p hp).nodup, fun id' hid' => ?_, fun id' hid' hreadOnly hmem => ?_,
      fun id' hid' => (by cases hid'), fun id' hid' => (by cases hid')⟩
    · cases hid'
      exact ⟨Finset.mem_insert_self _ _, unknown, epoch⟩
    · cases hid'
      rcases (kept.remembered id hreadOnly hmem).memory p hp with hs | hc | hin |
        ⟨todo, recovered, hphase, -⟩
      · exact absurd (careful hreadOnly hs p hp) unknown
      · exact hc
      · exact absurd hin unknown
      · rw [phase] at hphase
        cases hphase
  · refine (kept.remembered other hother hmem).grow (fun h => Finset.mem_insert_of_mem h)
      (fun h => h) rfl subset_rfl fun p' hp' => ?_
    cases hp'
    refine ⟨p, hp, rfl, fun todo recovered hphase => ?_⟩
    rw [phase] at hphase
    cases hphase

theorem since_append_executed (other : String) :
    since other S.trace ⊆ since other (S.trace ++ [.executed id]) := since_subset _ _ _

theorem Kept.enter (kept : Kept readOnly S) (hp : S.process = some p) (phase : p.phase = .marked id) :
    Kept readOnly { S.within p (.executing id) with trace := S.trace ++ [.executed id] } := by
  have handling := kept.handling p hp
  obtain ⟨started, unknown, epoch⟩ := handling.busy id (by rw [phase]; rfl)
  have before : ∀ other, .executed other ∈ S.trace ++ [Entry.executed id] →
      .executed other ∈ S.trace ∨ other = id := by
    intro other h
    simpa using h
  refine ⟨fun p' hp' => ?_, fun other hother => ?_, fun other hother hmem => ?_, ?_⟩
  · cases hp'
    refine ⟨handling.nodup, fun id' hid' => ?_, fun id' hid' => (by cases hid'),
      fun id' hid' => ?_, fun id' hid' => (by cases hid')⟩
    · cases hid'
      exact ⟨started, unknown, epoch⟩
    · cases hid'
      exact List.mem_append_right _ (List.mem_singleton_self _)
  · exact (kept.lines other hother).imp_left fun h => List.mem_append_left _ h
  · by_cases executed : .executed other ∈ S.trace
    · refine (kept.remembered other hother executed).grow (fun h => h) (fun h => h) rfl
        (since_append_executed other) fun p' hp' => ?_
      cases hp'
      refine ⟨p, hp, rfl, fun todo recovered hphase => ?_⟩
      rw [phase] at hphase
      cases hphase
    · obtain rfl : other = id := (before other hmem).resolve_left executed
      refine ⟨fun hl => ?_, .inl started, fun p' _ => .inl started, fun p' hp' hin => ?_⟩
      · exact .inl ((kept.lines other hl).resolve_left executed)
      · cases hp'
        exact absurd hin unknown
  · exact kept.once.executed fun hreadOnly hmem => handling.marked id phase hreadOnly hmem

theorem Kept.spool (kept : Kept readOnly S) (hp : S.process = some p)
    (phase : p.phase = .executing id) :
    Kept readOnly { S.within p (.spooled id) with results := Insert.insert id S.results } := by
  have handling := kept.handling p hp
  refine ⟨fun p' hp' => ?_, kept.lines, fun other hother hmem => ?_, kept.once⟩
  · cases hp'
    refine ⟨handling.nodup, fun id' hid' => ?_, fun id' hid' => (by cases hid'),
      fun id' hid' => ?_, fun id' hid' => (by cases hid')⟩
    · cases hid'
      exact handling.busy id (by rw [phase]; rfl)
    · cases hid'
      exact handling.entered id (by rw [phase]; rfl)
  · refine (kept.remembered other hother hmem).grow (fun h => h)
      (fun h => Finset.mem_insert_of_mem h) rfl subset_rfl fun p' hp' => ?_
    cases hp'
    refine ⟨p, hp, rfl, fun todo recovered hphase => ?_⟩
    rw [phase] at hphase
    cases hphase

theorem Kept.deliver (kept : Kept readOnly S)
    (careful : readOnly id = false → id ∈ S.ledger.named ∨ id ∈ S.started) :
    Kept readOnly { S with results := S.results.erase id } := by
  refine ⟨fun p' hp' => ?_, kept.lines, fun other hother hmem => ?_, kept.once⟩
  · have handling := kept.handling p' hp'
    exact ⟨handling.nodup, handling.busy, handling.marked, handling.entered, handling.recorded⟩
  · have old := kept.remembered other hother hmem
    refine ⟨old.ledger, ?_, old.memory, old.known⟩
    rcases old.disk with hs | hr | rest
    · exact .inl hs
    · by_cases heq : other = id
      · rcases careful (heq ▸ hother) with hl | hs
        · exact .inr (.inr (.inl (heq ▸ hl)))
        · exact .inl (heq ▸ hs)
      · exact .inr (.inl (Finset.mem_erase.mpr ⟨heq, hr⟩))
    · exact .inr (.inr rest)

theorem Kept.torn (kept : Kept readOnly S) (hp : S.process = some p)
    (phase : p.phase = .spooled id) (rest : String) :
    Kept readOnly { S.within p .idle with ledger := ⟨S.ledger.lines, rest⟩ } := by
  have idle := (kept.handling p hp).free .idle rfl
  refine ⟨fun p' hp' => ?_, kept.lines, fun other hother hmem => ?_, kept.once⟩
  · cases hp'
    exact ⟨idle.nodup, idle.busy, idle.marked, idle.entered, idle.recorded⟩
  · refine (kept.remembered other hother hmem).grow (fun h => h) (fun h => h) rfl subset_rfl
      fun p' hp' => ?_
    cases hp'
    refine ⟨p, hp, rfl, fun todo recovered hphase => ?_⟩
    rw [phase] at hphase
    cases hphase

theorem finished_line (rest : String) (length : id.length = 28) :
    (rest = "" ∧ rest ++ id = id) ∨ (rest ++ id ≠ "" ∧ invocationEpoch (rest ++ id) = none) := by
  by_cases hrest : rest = ""
  · rw [hrest]
    exact .inl ⟨rfl, String.empty_append⟩
  · refine .inr ⟨fun empty => ?_, epoch_append length hrest⟩
    have := congrArg String.length empty
    rw [String.length_append, length, String.length_empty] at this
    omega

theorem Kept.record (kept : Kept readOnly S) (hp : S.process = some p)
    (phase : p.phase = .spooled id) (next : Phase) (hnext : next = .recorded id ∨ next = .idle) :
    Kept readOnly { S.within p next with
      ledger := ⟨S.ledger.lines ++ [S.ledger.rest ++ id], ""⟩
      trace := S.trace ++ [.recorded id] } := by
  have handling := kept.handling p hp
  obtain ⟨started, unknown, epoch⟩ := handling.busy id (by rw [phase]; rfl)
  have entered := handling.entered id (by rw [phase]; rfl)
  have length := epoch_length epoch
  have nonempty : id ≠ "" := by
    rintro rfl
    cases length
  set ledger : Ledger := ⟨S.ledger.lines ++ [S.ledger.rest ++ id], ""⟩ with hledger
  have trace : S.trace ++ [.recorded id] = S.trace ++ recordedAll [id] := rfl
  rw [trace]
  have corrupt : S.ledger.Corrupt → ledger.Corrupt := by
    rintro ⟨text, hmem, htext⟩
    exact ⟨text, List.mem_append_left _ hmem, htext⟩
  -- the new line is the id, or the ledger is corrupt now
  have line : ledger.named = S.ledger.named ++ [id] ∨ ledger.Corrupt := by
    rcases finished_line S.ledger.rest length with ⟨-, hline⟩ | ⟨hne, hnone⟩
    · refine .inl ?_
      rw [hledger, hline]
      unfold Ledger.named
      rw [List.filter_append, List.filter_cons_of_pos (by simpa using nonempty), List.filter_nil]
    · exact .inr ⟨_, List.mem_append_right _ (List.mem_singleton_self _), hne, hnone⟩
  have seen : ∀ other, .executed other ∈ S.trace →
      id ∈ since other (S.trace ++ recordedAll [id]) := by
    intro other hmem
    rw [since_append hmem, recordedIn_recordedAll]
    exact Finset.mem_union_right _ (by simp)
  refine ⟨fun p' hp' => ?_, fun other hmem => ?_, fun other hother hmem => ?_, kept.once.recorded _⟩
  · cases hp'
    rcases hnext with rfl | rfl
    · refine ⟨handling.nodup, fun id' h => ?_, fun id' h => (by cases h), fun id' h => ?_,
        fun id' h => ?_⟩
      · cases h
        exact ⟨started, unknown, epoch⟩
      · cases h
        exact executed_append_recorded.mpr entered
      · cases h
        refine ⟨line.imp_left fun h => by rw [h]; simp, fun other _ hmem => ?_⟩
        exact seen other (executed_append_recorded.mp hmem)
    · exact ⟨handling.nodup, fun id h => (by cases h), fun id h => (by cases h),
        fun id h => (by cases h), fun id h => (by cases h)⟩
  · rw [executed_append_recorded]
    rcases line with hline | hcorrupt
    · rw [hline, List.mem_append, List.mem_singleton] at hmem
      rcases hmem with hmem | rfl
      · exact (kept.lines other hmem).imp_right corrupt
      · exact .inl entered
    · exact .inr hcorrupt
  · rw [executed_append_recorded] at hmem
    have old := kept.remembered other hother hmem
    have grown := since_subset other S.trace (recordedAll [id])
    refine ⟨fun hl => ?_, ?_, fun p' hp' => ?_, fun p' hp' hin => ?_⟩
    · rcases line with hline | hcorrupt
      · show ledger.Corrupt ∨ Recent.Followed _ (Recent.keepFirst ledger.named) other
        rw [hline, Recent.keepFirst_append_one]
        by_cases hold : other ∈ S.ledger.named
        · exact (old.ledger hold).imp corrupt fun f =>
            (f.mono grown).push (.inr (seen other hmem))
        · rw [show (Device.ledger _).named = S.ledger.named ++ [id] from hline, List.mem_append,
            List.mem_singleton] at hl
          obtain rfl := hl.resolve_left hold
          refine .inr ?_
          unfold Recent.push
          rw [if_neg fun h => hold ((Recent.mem_keepFirst _ _).mp h)]
          exact Recent.followed_append_self _ _ _
      · exact .inl hcorrupt
    · rcases old.disk with h | h | h | h | h
      · exact .inl h
      · exact .inr (.inl h)
      · rcases line with hline | hcorrupt
        · refine .inr (.inr (.inl ?_))
          show other ∈ ledger.named
          rw [hline]
          exact List.mem_append_left _ h
        · exact .inr (.inr (.inr (.inl hcorrupt)))
      · exact .inr (.inr (.inr (.inl (corrupt h))))
      · exact .inr (.inr (.inr (.inr (h.mono grown))))
    · cases hp'
      rcases old.memory p hp with h | h | h | ⟨todo, recovered, hphase, -⟩
      · exact .inl h
      · exact .inr (.inl (h.mono grown))
      · exact .inr (.inr (.inl h))
      · rw [phase] at hphase
        cases hphase
    · cases hp'
      exact (old.known p hp hin).imp (fun f => f.mono grown) fun c => c.mono grown

theorem Kept.append (kept : Kept readOnly S) (hp : S.process = some p)
    (phase : p.phase = .spooled id) {characters : ℕ} {written : Bool}
    (h : S.append p id characters written = .ok S') : Kept readOnly S' := by
  unfold Device.append at h
  split at h
  · cases h
  · rename_i whole
    cases h
    unfold Ledger.write
    by_cases long : id.length < characters
    · simp only [if_pos long]
      refine kept.record hp phase _ ?_
      cases written <;> simp
    · have failed : written = false := by
        cases written with
        | false => rfl
        | true => simp [long] at whole
      subst failed
      simp only [if_neg long, List.append_nil]
      exact kept.torn hp phase _

theorem Kept.finish (kept : Kept readOnly S) (hp : S.process = some p)
    (phase : p.phase = .recorded id) (removed : Bool) :
    Kept readOnly { S with
      process := some ⟨Recent.insert executedCap p.executed id, .idle⟩
      started := if removed then S.started.erase id else S.started } := by
  have handling := kept.handling p hp
  obtain ⟨-, unknown, -⟩ := handling.busy id (by rw [phase]; rfl)
  obtain ⟨written, seen⟩ := handling.recorded id phase
  refine ⟨fun p' hp' => ?_, kept.lines, fun other hother hmem => ?_, kept.once⟩
  · cases hp'
    exact ⟨Recent.nodup_insert handling.nodup _ _, fun id h => (by cases h),
      fun id h => (by cases h), fun id h => (by cases h), fun id h => (by cases h)⟩
  · have old := kept.remembered other hother hmem
    have self : Followed S (Recent.insert executedCap p.executed id) id :=
      Recent.followed_insert_self (by decide) unknown
    have kept_started : other ≠ id → other ∈ S.started →
        other ∈ (if removed then S.started.erase id else S.started) := by
      intro hne hs
      split
      · exact Finset.mem_erase.mpr ⟨hne, hs⟩
      · exact hs
    by_cases heq : other = id
    · subst heq
      refine ⟨old.ledger, ?_, fun p' hp' => ?_, fun p' hp' _ => ?_⟩
      · exact .inr (.inr (written.elim .inl fun h => .inr (.inl h)))
      · cases hp'
        exact .inr (.inr (.inl self.mem))
      · cases hp'
        exact .inl self
    · have known := fun hin => (old.known p hp hin).elim
        (fun f => f.insert handling.nodup (.inr (seen other heq hmem))) .inr
      refine ⟨old.ledger, ?_, fun p' hp' => ?_, fun p' hp' hin => ?_⟩
      · exact old.disk.imp_left (kept_started heq)
      · cases hp'
        rcases old.memory p hp with h | h | h | ⟨todo, recovered, hphase, -⟩
        · exact .inl (kept_started heq h)
        · exact .inr (.inl h)
        · rcases known h with hf | hc
          · exact .inr (.inr (.inl hf.mem))
          · exact .inr (.inl hc)
        · rw [phase] at hphase
          cases hphase
      · cases hp'
        exact known (Recent.mem_of_mem_insert hin heq)

/-! ### The start -/

theorem Ledger.load_some {l : Ledger} {ids : List String} (h : l.load = some ids) :
    ¬l.Corrupt ∧ ∃ all, all = Recent.keepFirst (l.named ++ if l.rest = "" then [] else [l.rest]) ∧
      ids = all.drop (all.length - executedCap) := by
  refine ⟨fun corrupt => ?_, ?_⟩
  · rw [load_corrupt corrupt] at h
    cases h
  · unfold load at h
    rw [texts_named] at h
    generalize l.named ++ (if l.rest = "" then [] else [l.rest]) = texts at h ⊢
    dsimp only at h
    split at h
    · exact ⟨_, rfl, (Option.some.inj h).symm⟩
    · cases h

theorem followed_load {l : Ledger} {R : Finset String}
    (named : id ∈ l.named → Recent.Followed R (Recent.keepFirst l.named) id)
    (rest : l.rest ≠ "" → l.rest ∈ R)
    (h : id ∈ Recent.keepFirst (l.named ++ if l.rest = "" then [] else [l.rest])) :
    Recent.Followed R (Recent.keepFirst (l.named ++ if l.rest = "" then [] else [l.rest])) id := by
  by_cases hrest : l.rest = ""
  · rw [if_pos hrest, List.append_nil] at h ⊢
    exact named ((Recent.mem_keepFirst _ _).mp h)
  · rw [if_neg hrest, Recent.mem_keepFirst, List.mem_append, List.mem_singleton] at h
    rw [if_neg hrest, Recent.keepFirst_append_one]
    by_cases hold : id ∈ l.named
    · exact (named hold).push (.inr (rest hrest))
    · unfold Recent.push
      rw [← h.resolve_left hold, if_neg fun h => hold ((Recent.mem_keepFirst _ _).mp h)]
      exact Recent.followed_append_self _ _ _

theorem Kept.boot (kept : Kept readOnly S) {pending todo : List String}
    (h : S.boot pending todo = .ok S') : Kept readOnly S' := by
  unfold Device.boot at h
  split at h
  · rename_i ids hnone hload
    split at h
    · rename_i listed
      cases h
      obtain ⟨sane, all, hall, hids⟩ := Ledger.load_some hload
      set tail := if S.ledger.rest = "" then [] else [S.ledger.rest] with htail
      have allNodup : all.Nodup := hall ▸ Recent.nodup_keepFirst _
      have idsNodup : ids.Nodup := hids ▸ allNodup.sublist (List.drop_sublist _ _)
      have room : ids.length ≤ executedCap := by
        rw [hids, List.length_drop]
        omega
      have loaded : ids.foldl (Recent.insert executedCap) [] = ids :=
        Recent.foldl_insert_of_nodup (s := []) idsNodup room
      rw [loaded]
      refine ⟨fun p' hp' => ?_, fun id hid => ?_, fun id hid hmem => ?_, kept.once.recorded _⟩
      · cases hp'
        exact ⟨Recent.nodup_foldl_insert idsNodup _ _, fun id h => (by cases h),
          fun id h => (by cases h), fun id h => (by cases h), fun id h => (by cases h)⟩
      · rw [executed_append_recorded]
        exact kept.lines id hid
      · rw [executed_append_recorded] at hmem
        have old := kept.remembered id hid hmem
        set R := since id (S.trace ++ recordedAll (tail ++ pending)) with hR
        have grown : since id S.trace ⊆ R := since_subset _ _ _
        have news : ∀ y ∈ tail ++ pending, y ∈ R := by
          intro y hy
          rw [hR, since_append hmem, recordedIn_recordedAll]
          exact Finset.mem_union_right _ (List.mem_toFinset.mpr hy)
        have followed : id ∈ all → Recent.Followed R ids id ∨ Recent.Crowded executedCap R id := by
          intro hin
          rw [hids]
          refine Recent.Followed.drop ?_ allNodup
          rw [hall] at hin ⊢
          refine followed_load (fun hnamed => ?_) (fun hrest => news _ ?_) hin
          · exact ((old.ledger hnamed).resolve_left sane).mono grown
          · rw [htail, if_neg hrest]
            simp
        have known : id ∈ ids → Recent.Followed R ids id ∨ Recent.Crowded executedCap R id :=
          fun hin => followed (hids ▸ hin |> List.mem_of_mem_drop)
        have later : ∀ y ∈ pending, y = id ∨ y ∈ R := fun y hy =>
          .inr (news y (List.mem_append_right _ hy))
        refine ⟨fun hl => (old.ledger hl).imp_right fun f => f.mono grown, ?_, fun p' hp' => ?_,
          fun p' hp' hin => ?_⟩
        · rcases old.disk with h | h | h | h | h
          · exact .inl h
          · exact .inr (.inl h)
          · exact .inr (.inr (.inl h))
          · exact .inr (.inr (.inr (.inl h)))
          · exact .inr (.inr (.inr (.inr (h.mono grown))))
        · cases hp'
          have settle : ∀ {l : List String}, Recent.Followed R l id ∨
              Recent.Crowded executedCap R id → Recent.Crowded executedCap R id ∨ id ∈ l :=
            fun h => h.symm.imp_right Recent.Followed.mem
          have inSet : id ∈ S.started ∨ Recent.Crowded executedCap R id ∨
              id ∈ pending.foldl (Recent.insert executedCap) ids := by
            rcases old.disk with h | h | h | h | h
            · exact .inl h
            · have hpending : id ∈ pending := by
                rw [← List.mem_toFinset, listed.1]
                exact h
              exact .inr (settle (Recent.followed_foldl_mem (by decide) known idsNodup later
                hpending))
            · have hin : id ∈ all := by
                rw [hall, Recent.mem_keepFirst]
                exact List.mem_append_left _ h
              exact .inr (settle (Recent.Followed.foldl (followed hin) idsNodup later))
            · exact absurd h sane
            · exact .inr (.inl (h.mono grown))
          rcases inSet with h | h | h
          · exact .inl h
          · exact .inr (.inl h)
          · exact .inr (.inr (.inl h))
        · cases hp'
          exact Recent.followed_of_mem_foldl (by decide) known idsNodup later hin
    · cases h
  · cases h

/-! ### Runs -/

theorem Kept.step (kept : Kept readOnly S) {e : RunnerEvent} (careful : Careful readOnly S e)
    (h : S.step readOnly e = .ok S') : Kept readOnly S' := by
  unfold Device.step at h
  split at h
  · exact kept.boot h
  · cases h
    exact kept.crash
  · split at h
    · cases h
    · rename_i p hp
      split at h
      · exact kept.spoolUnknown hp ‹_› h
      · exact kept.clearStarted hp ‹_› h
      · cases h
        exact kept.ready hp ‹_›
      · cases h
        exact kept.poll hp ‹_› careful
      · cases h
        exact kept.enter hp ‹_›
      · have hphase : p.phase = .executing _ := ‹_›
        split at h
        · cases h
          exact kept.spool hp hphase
        · cases h
          refine kept.move hp rfl fun todo recovered hrecovering => ?_
          rw [hphase] at hrecovering
          cases hrecovering
      · have hphase : p.phase = .spooled _ := ‹_›
        exact kept.append hp hphase h
      · cases h
        exact kept.finish hp ‹_› _
      · split at h
        · cases h
          exact kept.deliver careful
        · cases h
      · cases h

theorem kept_init : Kept readOnly .init :=
  ⟨fun p hp => (by cases hp), fun id hid => (by cases hid), fun id _ hmem => (by cases hmem),
    fun id _ before after heq => by simp [Device.init] at heq⟩

/-- In a run of careful steps, an id that is not `read_only` enters `execute` again only after as
many other ids were recorded as the client remembers. -/
theorem executes_once (readOnly : String → Bool) (events : List RunnerEvent)
    (careful : Transaction.Meets (Device.step readOnly) (Careful readOnly) .init events) :
    Once readOnly (Device.run readOnly events).trace :=
  (Transaction.run_invariant (t := Device.step readOnly) (I := Kept readOnly)
    (fun ho h kept => kept.step ho h) careful kept_init).once

/-! ### Ids that are forgotten -/

def sampleId : String := "inv-00000000000000000a1b2c3d"

/-- The response is repeated after the spool could not be written. -/
def lostResult : List RunnerEvent :=
  [.boot [] [], .ready, .poll sampleId 0 true, .enter, .spool false, .poll sampleId 0 true, .enter]

/-- A crash in the executor; the uncertain result is delivered; and the client starts once more. -/
def forgottenRecovery : List RunnerEvent :=
  [.boot [] [], .ready, .poll sampleId 0 true, .enter, .crash,
    .boot [] [sampleId], .spoolUnknown true, .clearStarted true, .ready, .deliver sampleId, .crash,
    .boot [] [], .ready, .poll sampleId 0 true, .enter]

/-- A whole invocation, and its response repeated after a restart. -/
def handled : List RunnerEvent :=
  [.boot [] [], .ready, .poll sampleId 0 true, .enter, .spool true, .record 29 true, .finish true,
    .deliver sampleId, .crash, .boot [] [], .ready, .poll sampleId 0 true]

theorem executes_once_sample : Once (fun _ => false) (Device.run (fun _ => false) handled).trace := by
  refine executes_once (fun _ => false) handled ⟨trivial, trivial, ?_, trivial, trivial, trivial,
    trivial, ?_, trivial, trivial, trivial, ?_, trivial⟩
  · intro _ hstarted
    exact absurd hstarted (by decide +kernel)
  · intro _
    exact .inl (by decide +kernel)
  · intro _ hstarted
    exact absurd hstarted (by decide +kernel)

theorem not_once {t : List Entry} (before : List Entry) (id : String)
    (again : t = before ++ [.executed id]) (first : .executed id ∈ before)
    (few : ((since id before).erase id).card < executedCap) : ¬Once (fun _ => false) t :=
  fun once => absurd (once id rfl before [] again first) (Nat.not_le_of_lt few)

theorem executes_again :
    ¬(∀ events, Once (fun _ => false) (Device.run (fun _ => false) events).trace) ∧
    ¬Once (fun _ => false) (Device.run (fun _ => false) lostResult).trace ∧
    ¬Once (fun _ => false) (Device.run (fun _ => false) forgottenRecovery).trace := by
  have lost : ¬Once (fun _ => false) (Device.run (fun _ => false) lostResult).trace :=
    not_once [.executed sampleId] sampleId (by decide +kernel) (by decide) (by decide +kernel)
  refine ⟨fun h => lost (h lostResult), lost, ?_⟩
  exact not_once [.executed sampleId, .recorded sampleId] sampleId (by decide +kernel) (by decide)
    (by decide +kernel)

end Metnos.Client
