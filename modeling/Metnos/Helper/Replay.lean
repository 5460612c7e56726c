import Metnos.Helper.Service

/-!
# Helper.Replay — an action runs once for its key

A key that was appended to a journal whose last line was ended has a line of its own there.  The
line stays until as many other lines as the limit stand behind it, whatever the later writes
leave, and as long as it stands every request with the key is refused.  The last section shows
the two ways in which a key comes back: behind an unfinished line it is never on a line of its
own, and with as many other keys as the limit behind it it is dropped.
-/

namespace Metnos.Helper

open Texts

/-! ## Keys and lines -/

theorem mem_dropWhile {p : Char → Bool} {l : Text} {c : Char} (h : c ∈ l.dropWhile p) : c ∈ l :=
  (List.dropWhile_sublist p).subset h

theorem mem_trim {l : Text} {c : Char} (h : c ∈ trim l) : c ∈ l := by
  rw [trim, List.mem_reverse] at h
  exact mem_dropWhile (List.mem_reverse.mp (mem_dropWhile h))

theorem trim_eq_self {l : Text} (h : ∀ c ∈ l, isWhitespace c = false) : trim l = l := by
  have dropped : ∀ l : Text, (∀ c ∈ l, isWhitespace c = false) → l.dropWhile isWhitespace = l := by
    intro l h
    cases l with
    | nil => rfl
    | cons c l =>
      rw [List.dropWhile_cons_of_neg]
      rw [h c (List.mem_cons_self ..)]
      decide
  rw [trim, dropped l h, dropped _ (fun c hc => h c (List.mem_reverse.mp hc)), List.reverse_reverse]

/-- A key with a valid shape is a line that `trim` leaves alone. -/
structure IsKey (key : Text) : Prop where
  trimmed : trim key = key
  line : '\n' ∉ key
  ne_nil : key ≠ []

theorem isWhitespace_of_hex {c : Char} (h : isHexDigit c = true) :
    isWhitespace c = false ∧ c ≠ '\n' := by
  have range : (48 ≤ c.toNat ∧ c.toNat ≤ 57) ∨ (97 ≤ c.toNat ∧ c.toNat ≤ 102) ∨
      (65 ≤ c.toNat ∧ c.toNat ≤ 70) := by
    simp only [isHexDigit, Bool.or_eq_true, decide_eq_true_eq, Char.isDigit_iff_toNat, Char.le_def,
      UInt32.le_iff_toNat_le] at h
    obtain (h | h) | h := h
    · exact .inl h
    · exact .inr (.inl h)
    · exact .inr (.inr h)
  constructor
  · simp only [isWhitespace, Bool.or_eq_false_iff, decide_eq_false_iff_not, List.contains_eq_mem,
      List.mem_cons, List.not_mem_nil, or_false]
    omega
  · rintro rfl
    revert range
    decide

theorem isKey_of_valid {key : String} (h : isValidIdempotencyKey key = true) :
    IsKey key.toList := by
  simp only [isValidIdempotencyKey, Bool.and_eq_true, decide_eq_true_eq] at h
  obtain ⟨hlen, hall⟩ := h
  have hex : ∀ c ∈ key.toList, isWhitespace c = false ∧ c ≠ '\n' :=
    fun c hc => isWhitespace_of_hex (List.all_eq_true.mp hall c hc)
  refine ⟨trim_eq_self fun c hc => (hex c hc).1, fun hmem => (hex _ hmem).2 rfl, fun hnil => ?_⟩
  have empty : key = "" := String.toList_injective hnil
  subst empty
  revert hlen
  decide

theorem keys_append {a b : Text} (h : Terminated '\n' a) : keys (a ++ b) = keys a ++ keys b := by
  simp only [keys, lines_append h, List.map_append, List.filter_append]

theorem keys_line {key : Text} (h : IsKey key) (text : Text) :
    keys (key ++ '\n' :: text) = key :: keys text := by
  simp [keys, lines_line h.line, h.trimmed, h.ne_nil]

theorem not_mem_keys {text key : Text} (h : key ∈ keys text) : '\n' ∉ key := by
  simp only [keys, List.mem_filter, List.mem_map] at h
  obtain ⟨⟨l, hl, rfl⟩, -⟩ := h
  exact fun hmem => not_mem_lines hl (mem_trim hmem)

theorem length_keys_le {text : Text} (h : Terminated '\n' text) :
    (keys text).length ≤ text.count '\n' := by
  rw [← length_lines h, keys]
  exact (List.length_filter_le _ _).trans (by rw [List.length_map])

theorem count_render {ls : List Text} (h : ∀ l ∈ ls, '\n' ∉ l) :
    (render '\n' ls).count '\n' = ls.length := by
  rw [← length_lines (terminated_render ls), lines_render h]

theorem terminated_suffix {a b : Text} (h : Terminated '\n' (a ++ '\n' :: b)) :
    Terminated '\n' b := by
  obtain h | ⟨init, h⟩ := h
  · simp at h
  · cases b using List.reverseRecOn with
    | nil => exact .inl rfl
    | append_singleton b c =>
      have last := congrArg List.getLast? h
      simp only [List.getLast?_append, List.getLast?_cons, Option.some_or, Option.some.injEq] at last
      refine .inr ⟨b, ?_⟩
      simp_all

/-! ## A recorded key -/

/-- The key has a line of its own, with at most `n` lines behind it. -/
def Recorded (key text : Text) (n : ℕ) : Prop :=
  ∃ before after, text = before ++ key ++ '\n' :: after ∧ Terminated '\n' before ∧
    after.count '\n' ≤ n

theorem Recorded.mem {key text : Text} {n : ℕ} (hk : IsKey key) (h : Recorded key text n) :
    key ∈ keys text := by
  obtain ⟨before, after, rfl, terminated, -⟩ := h
  rw [List.append_assoc, keys_append terminated, keys_line hk]
  exact List.mem_append_right _ (List.mem_cons_self ..)

theorem Recorded.append {key text : Text} {n : ℕ} (h : Recorded key text n) (part : Text) :
    Recorded key (text ++ part) (n + part.count '\n') := by
  obtain ⟨before, after, rfl, terminated, hcount⟩ := h
  refine ⟨before, after ++ part, by simp, terminated, ?_⟩
  rw [List.count_append]
  omega

theorem Recorded.compact {key text : Text} {n : ℕ} (hk : IsKey key) (h : Recorded key text n)
    (terminated : Terminated '\n' text) (few : n < maxKeys) : Recorded key (compact text) n := by
  obtain ⟨before, after, rfl, hbefore, hcount⟩ := h
  have hafter : Terminated '\n' after := terminated_suffix terminated
  have behind : (keys after).length ≤ n := (length_keys_le hafter).trans hcount
  have all : keys (before ++ key ++ '\n' :: after) = keys before ++ key :: keys after := by
    rw [List.append_assoc, keys_append hbefore, keys_line hk]
  have cut : kept (keys before ++ key :: keys after) =
      (keys before).drop ((keys before ++ key :: keys after).length - maxKeys) ++
        key :: keys after := by
    rw [kept, List.drop_append_of_le_length]
    rw [List.length_append, List.length_cons]
    omega
  refine ⟨render '\n' ((keys before).drop ((keys before ++ key :: keys after).length - maxKeys)),
    render '\n' (keys after), ?_, terminated_render _, ?_⟩
  · rw [Helper.compact, all, cut, render_append]
    simp [render]
  · rw [count_render fun l hl => not_mem_keys hl]
    exact behind

/-! ## One call -/

section
variable {host : Host} {file : Option Text} {call : Call} {journal : Journal}

theorem Journal.open_some {readable : Bool} (h : Journal.open file readable = some journal) :
    journal.text = file.getD [] ∧ journal.seen = keys (file.getD []) := by
  unfold Journal.open at h
  split at h
  · cases h
    exact ⟨rfl, rfl⟩
  · split at h
    · cases h
      exact ⟨rfl, rfl⟩
    · cases h

theorem Journal.consume_cases (journal : Journal) (key : String) (append compaction : Written) :
    ((journal.consume key append compaction).1 = journal.text ++ append.part (keyLine key) ∨
      append = .done ∧ (journal.consume key append compaction).1 =
        compact (journal.text ++ append.part (keyLine key))) ∧
    ((journal.consume key append compaction).2 = .ok → append = .done) := by
  unfold Journal.consume
  cases append with
  | done =>
    dsimp only
    split
    · cases compaction with
      | done =>
        dsimp only
        exact ⟨.inr ⟨rfl, rfl⟩, fun _ => rfl⟩
      | failed bytes => exact ⟨.inl rfl, fun _ => rfl⟩
      | cut bytes => exact ⟨.inl rfl, fun _ => rfl⟩
    · exact ⟨.inl rfl, fun _ => rfl⟩
  | failed bytes => exact ⟨.inl rfl, fun h => (by cases h)⟩
  | cut bytes => exact ⟨.inl rfl, fun h => (by cases h)⟩

/-- A call that gets to `consume`. -/
structure Consumes (host : Host) (file : Option Text) (call : Call) (journal : Journal) : Prop where
  opened : Journal.open file call.readable = some journal
  shape : isValidIdempotencyKey call.request.idempotencyKey = true
  fresh : journal.alreadyUsed call.request.idempotencyKey = false
  leaves : (host.handle file call).file =
    some (journal.consume call.request.idempotencyKey call.append call.compaction).1
  consumed : (host.handle file call).consumed =
    if call.append.complete (keyLine call.request.idempotencyKey) then
      some call.request.idempotencyKey else none
  ran : (host.handle file call).ran =
    if (journal.consume call.request.idempotencyKey call.append call.compaction).2 = .ok then
      call.request.action else none

theorem authorize_ok {crypto : Crypto} {pairing : Pairing} {callerSid : String}
    {request : WireRequest} {used : String → Bool}
    (h : authorize crypto pairing callerSid request used = .ok ()) :
    isValidIdempotencyKey request.idempotencyKey = true ∧ used request.idempotencyKey = false := by
  simp only [authorize, Transaction.bind_eq_ok, refuseUnless_eq_ok, Bool.not_eq_true'] at h
  obtain ⟨_, shape, -, -, -, -, -, -, fresh⟩ := h
  exact ⟨checkShape_idempotencyKey shape, fresh⟩

theorem Consumes.of_authorized {pairing : Pairing} (hpair : Pairing.load call.pairing = some pairing)
    (hopen : Journal.open file call.readable = some journal)
    (hauth : authorize host.crypto pairing call.callerSid call.request journal.alreadyUsed =
      .ok ()) : Consumes host file call journal := by
  obtain ⟨shape, fresh⟩ := authorize_ok hauth
  refine ⟨hopen, shape, fresh, ?_, ?_, ?_⟩
  all_goals
    simp only [Host.handle, hpair, hopen, hauth]
    cases hconsume : journal.consume call.request.idempotencyKey call.append call.compaction with
    | mk text outcome => cases outcome <;> rfl

theorem Host.handle_cases (host : Host) (file : Option Text) (call : Call) :
    ((host.handle file call).file = file ∧ (host.handle file call).ran = none ∧
      (host.handle file call).consumed = none) ∨ ∃ journal, Consumes host file call journal := by
  cases hpair : Pairing.load call.pairing with
  | none => exact .inl (by simp [Host.handle, hpair])
  | some pairing =>
    cases hopen : Journal.open file call.readable with
    | none => exact .inl (by simp [Host.handle, hpair, hopen])
    | some journal =>
      cases hauth : authorize host.crypto pairing call.callerSid call.request
          journal.alreadyUsed with
      | error refusal => exact .inl (by simp [Host.handle, hpair, hopen, hauth])
      | ok u => exact .inr ⟨journal, .of_authorized hpair hopen hauth⟩

end

/-! ## Runs -/

variable {host : Host} {key : String} {text : Text} {n : ℕ}

/-- The keys other than `key`. -/
def others (key : String) (consumed : List String) : List String :=
  consumed.filter (fun k => k ≠ key)

theorem count_part {line : String} (h : IsKey line.toList) (append : Written) :
    (append.part (keyLine line)).count '\n' =
      if append.complete (keyLine line) then 1 else 0 := by
  have whole : (keyLine line).count '\n' = 1 := by
    rw [keyLine, List.count_append, List.count_eq_zero.mpr h.line]
    simp
  have cut : ∀ m, ((keyLine line).take m).count '\n' =
      if (decide ((keyLine line).length ≤ m)) = true then 1 else 0 := by
    intro m
    by_cases hm : (keyLine line).length ≤ m
    · rw [List.take_of_length_le hm, whole, if_pos (decide_eq_true hm)]
    · rw [if_neg (by simpa using hm), List.count_eq_zero]
      intro hmem
      have short : m ≤ line.toList.length := by
        rw [keyLine, List.length_append, List.length_singleton] at hm
        omega
      rw [keyLine, List.take_append_of_le_length short] at hmem
      exact h.line (List.mem_of_mem_take hmem)
  cases append with
  | done => simpa [Written.part, Written.complete] using whole
  | failed bytes => exact cut bytes
  | cut bytes => exact cut bytes

theorem terminated_keyLine (text : Text) (line : String) :
    Terminated '\n' (text ++ keyLine line) :=
  .inr ⟨text ++ line.toList, by rw [keyLine, List.append_assoc]⟩

/-- A call with the recorded key is refused; another call leaves the key recorded, or it is one of
as many as the limit. -/
theorem Recorded.handle (host : Host) (hk : IsKey key.toList)
    (recorded : Recorded key.toList text n) (call : Call) :
    (host.handle (some text) call).consumed ≠ some key ∧
    ((host.handle (some text) call).ran.isSome → call.request.idempotencyKey ≠ key) ∧
    ((∃ text', (host.handle (some text) call).file = some text' ∧ Recorded key.toList text'
        (n + (others key (host.handle (some text) call).consumed.toList).length)) ∨
      maxKeys ≤ n + (others key (host.handle (some text) call).consumed.toList).length) := by
  obtain ⟨hfile, hran, hconsumed⟩ | ⟨journal, consumes⟩ := host.handle_cases (some text) call
  · rw [hfile, hran, hconsumed]
    exact ⟨by simp, by simp, .inl ⟨text, rfl, recorded⟩⟩
  · obtain ⟨htext, hseen⟩ := Journal.open_some consumes.opened
    rw [Option.getD_some] at htext hseen
    have other : call.request.idempotencyKey ≠ key := by
      intro heq
      have fresh := consumes.fresh
      rw [Journal.alreadyUsed, hseen, heq] at fresh
      have used : (keys text).contains key.toList = true := by
        simpa using recorded.mem hk
      rw [used] at fresh
      cases fresh
    have line := count_part (isKey_of_valid consumes.shape) call.append
    refine ⟨?_, fun _ => other, ?_⟩
    · rw [consumes.consumed]
      split
      · simpa using other
      · simp
    · have count : (others key (host.handle (some text) call).consumed.toList).length =
          (call.append.part (keyLine call.request.idempotencyKey)).count '\n' := by
        rw [consumes.consumed, line]
        split
        · simp [others, other]
        · rfl
      have appended := recorded.append (call.append.part (keyLine call.request.idempotencyKey))
      rw [count, consumes.leaves]
      obtain hleft | ⟨hdone, hleft⟩ :=
        (journal.consume_cases call.request.idempotencyKey call.append call.compaction).1
      · exact .inl ⟨_, by rw [hleft, htext], appended⟩
      · by_cases few :
          n + (call.append.part (keyLine call.request.idempotencyKey)).count '\n' < maxKeys
        · refine .inl ⟨_, by rw [hleft, htext], appended.compact hk ?_ few⟩
          rw [hdone]
          exact terminated_keyLine text _
        · exact .inr (by omega)

theorem Host.consumedBy_cons (host : Host) (file : Option Text) (call : Call) (calls : List Call) :
    host.consumedBy file (call :: calls) = (host.handle file call).consumed.toList ++
      host.consumedBy (host.handle file call).file calls := rfl

theorem Recorded.journalAfter (host : Host) (hk : IsKey key.toList)
    (recorded : Recorded key.toList text n) (calls : List Call) :
    (∃ text', host.journalAfter (some text) calls = some text' ∧ Recorded key.toList text'
        (n + (others key (host.consumedBy (some text) calls)).length)) ∨
      maxKeys ≤ n + (others key (host.consumedBy (some text) calls)).length := by
  induction calls generalizing text n with
  | nil => exact .inl ⟨text, rfl, recorded⟩
  | cons call calls ih =>
    have split : (others key (host.consumedBy (some text) (call :: calls))).length =
        (others key (host.handle (some text) call).consumed.toList).length +
          (others key (host.consumedBy (host.handle (some text) call).file calls)).length := by
      rw [host.consumedBy_cons, others, List.filter_append, List.length_append]
      rfl
    rw [split, ← Nat.add_assoc]
    obtain ⟨text', hfile, recorded'⟩ | many := (recorded.handle host hk call).2.2
    · show (∃ text'', host.journalAfter (host.handle (some text) call).file calls = some text'' ∧ _) ∨ _
      rw [hfile]
      exact ih recorded'
    · exact .inr (by omega)

theorem maxKeys_pos : 0 < maxKeys := by decide

theorem Recorded.of_ran {file : Option Text} {call : Call}
    (started : Terminated '\n' (file.getD []))
    (ran : (host.handle file call).ran.isSome = true) :
    IsKey call.request.idempotencyKey.toList ∧ ∃ text, (host.handle file call).file = some text ∧
      Recorded call.request.idempotencyKey.toList text 0 := by
  obtain ⟨-, hran, -⟩ | ⟨journal, consumes⟩ := host.handle_cases file call
  · rw [hran] at ran
    cases ran
  · have hk := isKey_of_valid consumes.shape
    obtain ⟨htext, -⟩ := Journal.open_some consumes.opened
    obtain ⟨hleft, hdone⟩ := journal.consume_cases call.request.idempotencyKey
      call.append call.compaction
    have done : call.append = .done := by
      apply hdone
      by_contra failed
      rw [consumes.ran, if_neg failed] at ran
      cases ran
    have line : journal.text ++ call.append.part (keyLine call.request.idempotencyKey) =
        file.getD [] ++ keyLine call.request.idempotencyKey := by rw [htext, done, Written.part]
    rw [line] at hleft
    have appended : Recorded call.request.idempotencyKey.toList
        (file.getD [] ++ keyLine call.request.idempotencyKey) 0 :=
      ⟨file.getD [], [], by rw [keyLine, List.append_assoc], started, le_rfl⟩
    refine ⟨hk, _, consumes.leaves, ?_⟩
    obtain hleft | ⟨-, hleft⟩ := hleft
    · rw [hleft]
      exact appended
    · rw [hleft]
      exact appended.compact hk (terminated_keyLine _ _) maxKeys_pos

theorem Host.journalAfter_append (host : Host) (file : Option Text) (calls calls' : List Call) :
    host.journalAfter file (calls ++ calls') =
      host.journalAfter (host.journalAfter file calls) calls' := List.foldl_append ..

/-- Whatever is requested and however writes end: when the key of an action that runs was appended
at the start of a line, the journal holds its complete line, and no action runs for the key again
before as many other keys as the limit were completely written. -/
theorem key_runs_once {file : Option Text} {before between : List Call} {call again : Call}
    (started : Terminated '\n' ((host.journalAfter file before).getD []))
    (ran : (host.handle (host.journalAfter file before) call).ran.isSome = true) :
    (∃ text, host.journalAfter file (before ++ [call]) = some text ∧
      Recorded call.request.idempotencyKey.toList text 0) ∧
    (again.request.idempotencyKey = call.request.idempotencyKey →
      (host.handle (host.journalAfter file (before ++ call :: between)) again).ran.isSome = true →
      maxKeys ≤ (others call.request.idempotencyKey
        (host.consumedBy (host.journalAfter file (before ++ [call])) between)).length) := by
  obtain ⟨hk, text, htext, recorded⟩ := Recorded.of_ran started ran
  have after : host.journalAfter file (before ++ [call]) = some text := by
    rw [host.journalAfter_append]
    exact htext
  refine ⟨⟨text, after, recorded⟩, fun hkey hagain => ?_⟩
  rw [after]
  obtain ⟨text', hfile, recorded'⟩ | many := recorded.journalAfter host hk between
  · have same : host.journalAfter file (before ++ call :: between) = some text' := by
      rw [show before ++ call :: between = (before ++ [call]) ++ between by simp,
        host.journalAfter_append, after, hfile]
    rw [same] at hagain
    exact absurd hkey ((recorded'.handle host hk again).2.1 hagain)
  · omega

/-! ## Keys that come back -/

/-- A helper that accepts every signature of the right length. -/
def sampleHost : Host where
  crypto :=
    { hexDecode := fun s => some (List.replicate (s.length / 2) 0)
      base64Decode := fun _ => none
      isKey := fun _ => true
      verify := fun _ _ _ => true }
  version := "1"
  run := fun _ => ⟨true, none, some 0, "", none⟩

def zeros (n : ℕ) : String := String.ofList (List.replicate n '0')

theorem zeros_length (n : ℕ) : (zeros n).length = n := by simp [zeros]

/-- The owner asks to start a package, and the append ends as `append` says. -/
def sampleCall (key : String) (append : Written) : Call where
  request := .managedStart ⟨.winget, "a", .session, key, zeros 128⟩
  callerSid := "S-1"
  pairing := some ⟨"S-1", zeros 64, ""⟩
  readable := true
  append := append
  compaction := .done

def hexChar (d : ℕ) : Char :=
  (['0', '1', '2', '3', '4', '5', '6', '7', '8', '9', 'a', 'b', 'c', 'd', 'e', 'f'][d]?).getD '0'

/-- The digits of a number to base 16, the last one first. -/
def sampleKey (i : ℕ) : String :=
  String.ofList ((List.range 32).map fun j => hexChar (i / 16 ^ j % 16))

theorem hexChar_injective {d d' : ℕ} (h : d < 16) (h' : d' < 16) (heq : hexChar d = hexChar d') :
    d = d' := by
  have all : ∀ d < 16, ∀ d' < 16, hexChar d = hexChar d' → d = d' := by decide
  exact all d h d' h' heq

theorem byteLength_ofList {l : Text} (h : ∀ c ∈ l, c.utf8Size = 1) :
    byteLength (String.ofList l) = l.length := by
  induction l with
  | nil => rfl
  | cons c l ih =>
    have hc := h c (List.mem_cons_self ..)
    have hl := ih fun c hc => h c (List.mem_cons_of_mem _ hc)
    unfold byteLength at hl ⊢
    rw [show c :: l = [c] ++ l from rfl, String.ofList_append, String.utf8ByteSize_append, hl,
      show String.ofList [c] = String.singleton c from rfl, String.utf8ByteSize_singleton, hc,
      List.length_append, List.length_singleton]

theorem sampleKey_valid (i : ℕ) : isValidIdempotencyKey (sampleKey i) = true := by
  have digit : ∀ d < 16, isHexDigit (hexChar d) = true ∧ (hexChar d).utf8Size = 1 := by decide
  have mem : ∀ c ∈ (List.range 32).map fun j => hexChar (i / 16 ^ j % 16),
      isHexDigit c = true ∧ c.utf8Size = 1 := by
    intro c hc
    obtain ⟨j, -, rfl⟩ := List.mem_map.mp hc
    exact digit _ (Nat.mod_lt _ (by decide))
  have length : byteLength (sampleKey i) = 32 := by
    rw [sampleKey, byteLength_ofList fun c hc => (mem c hc).2, List.length_map, List.length_range]
  rw [isValidIdempotencyKey, length, sampleKey, String.toList_ofList]
  exact List.all_eq_true.mpr fun c hc => (mem c hc).1

theorem sampleKey_injective {i i' : ℕ} (h : i < 65536) (h' : i' < 65536)
    (heq : sampleKey i = sampleKey i') : i = i' := by
  have digits := congrArg String.toList heq
  simp only [sampleKey, String.toList_ofList] at digits
  have digit : ∀ j < 32, i / 16 ^ j % 16 = i' / 16 ^ j % 16 := by
    intro j hj
    have at_j := congrArg (fun l : Text => l[j]?) digits
    simp only [List.getElem?_map, List.getElem?_range hj, Option.map_some, Option.some.injEq] at at_j
    exact hexChar_injective (Nat.mod_lt _ (by decide)) (Nat.mod_lt _ (by decide)) at_j
  have d0 := digit 0 (by decide)
  have d1 := digit 1 (by decide)
  have d2 := digit 2 (by decide)
  have d3 := digit 3 (by decide)
  omega

theorem kept_kept (all : List Text) (key : Text) : kept (kept all ++ [key]) = kept (all ++ [key]) := by
  simp only [kept, List.length_append, List.length_drop, List.length_singleton]
  generalize maxKeys = m
  by_cases h : all.length ≤ m
  · rw [Nat.sub_eq_zero_of_le h, List.drop_zero, Nat.sub_zero]
  · rw [← List.drop_append_of_le_length (by omega), List.drop_drop]
    congr 1
    omega

theorem keys_render {all : List Text} (h : ∀ key ∈ all, IsKey key) :
    keys (render '\n' all) = all := by
  rw [keys, lines_render fun key hkey => (h key hkey).line]
  rw [List.map_congr_left (g := id) fun key hkey => (h key hkey).trimmed, List.map_id,
    List.filter_eq_self]
  intro key hkey
  simpa using (h key hkey).ne_nil

theorem sampleCall_authorized {key : String} (h : isValidIdempotencyKey key = true)
    {used : String → Bool} (fresh : used key = false) :
    authorize sampleHost.crypto ⟨"S-1", zeros 64, ""⟩ "S-1" (sampleCall key .done).request used =
      .ok () := by
  have shape : (sampleCall key .done).request.checkShape = .ok () := by
    have packageId : isValidPackageId "a" = true := by decide +kernel
    simp only [sampleCall, WireRequest.checkShape, ManagedStartRequest.checkShape, packageId, h]
    rfl
  have owner : Pairing.isOwner ⟨"S-1", zeros 64, ""⟩ "S-1" = true := by simp [Pairing.isOwner]
  have publicKey : sampleHost.crypto.hexDecode (zeros 64) = some (List.replicate 32 0) := by
    simp [sampleHost, zeros_length]
  have signature : sampleHost.crypto.hexDecode (zeros 128) = some (List.replicate 64 0) := by
    simp [sampleHost, zeros_length]
  have signed : Pairing.verifySignature sampleHost.crypto ⟨"S-1", zeros 64, ""⟩
      (sampleCall key .done).request = true := by
    simp only [Pairing.verifySignature, sampleCall, WireRequest.signature, publicKey, signature]
    rfl
  have unused : used (sampleCall key .done).request.idempotencyKey = false := fresh
  simp only [authorize, shape, owner, signed, unused]
  rfl

theorem sampleCall_handle {all : List Text} {key : String} (hall : ∀ key ∈ all, IsKey key)
    (nodup : all.Nodup) (valid : isValidIdempotencyKey key = true) (fresh : key.toList ∉ all) :
    (sampleHost.handle (some (render '\n' (kept all))) (sampleCall key .done)).file =
        some (render '\n' (kept (all ++ [key.toList]))) ∧
      (sampleHost.handle (some (render '\n' (kept all))) (sampleCall key .done)).ran.isSome = true ∧
      (sampleHost.handle (some (render '\n' (kept all))) (sampleCall key .done)).consumed =
        some key := by
  have sub : ∀ k ∈ kept all, k ∈ all := fun k hk => List.mem_of_mem_drop hk
  have hkept : keys (render '\n' (kept all)) = kept all :=
    keys_render fun k hk => hall k (sub k hk)
  have unused : (Journal.mk (render '\n' (kept all)) (kept all)).alreadyUsed key = false := by
    simpa [Journal.alreadyUsed] using fun hk => fresh (sub _ hk)
  have hopen : Journal.open (some (render '\n' (kept all))) true =
      some ⟨render '\n' (kept all), kept all⟩ := by
    simp [Journal.open, hkept]
  have isKey := isKey_of_valid valid
  have append : render '\n' (kept all) ++ keyLine key = render '\n' (kept all ++ [key.toList]) := by
    rw [render_append, render_singleton, keyLine]
  have length : (key.toList :: kept all).dedup.length = (kept all).length + 1 := by
    have distinct : (key.toList :: kept all).Nodup :=
      List.nodup_cons.mpr ⟨fun hk => fresh (sub _ hk), nodup.sublist (List.drop_sublist _ _)⟩
    rw [List.dedup_eq_self.mpr distinct, List.length_cons]
  have consumed : (Journal.mk (render '\n' (kept all)) (kept all)).consume key .done .done =
      (render '\n' (kept (all ++ [key.toList])), .ok) := by
    simp only [Journal.consume, Written.part, append, length]
    split
    · rw [compact, keys_render, kept_kept]
      intro k hk
      rcases List.mem_append.mp hk with hk | hk
      · exact hall k (sub k hk)
      · rw [List.mem_singleton.mp hk]
        exact isKey
    · rename_i few
      have short : (kept all ++ [key.toList]).length ≤ maxKeys := by
        rw [List.length_append, List.length_singleton]
        omega
      rw [← kept_kept, kept.eq_def (kept all ++ _), Nat.sub_eq_zero_of_le short, List.drop_zero]
  have load : Pairing.load (sampleCall key .done).pairing = some ⟨"S-1", zeros 64, ""⟩ := by
    show Pairing.load (some ⟨"S-1", zeros 64, ""⟩) = _
    decide +kernel
  have consumes : Consumes sampleHost (some (render '\n' (kept all))) (sampleCall key .done)
      ⟨render '\n' (kept all), kept all⟩ :=
    .of_authorized load hopen (sampleCall_authorized valid unused)
  have outcome : (Journal.mk (render '\n' (kept all)) (kept all)).consume
      (sampleCall key .done).request.idempotencyKey (sampleCall key .done).append
      (sampleCall key .done).compaction =
        (render '\n' (kept (all ++ [key.toList])), .ok) := consumed
  refine ⟨?_, ?_, ?_⟩
  · rw [consumes.leaves, outcome]
  · rw [consumes.ran, outcome]
    rfl
  · rw [consumes.consumed]
    rfl

theorem sampleCalls_journalAfter (all : List Text) {more : List String}
    (hall : ∀ key ∈ all, IsKey key) (valid : ∀ key ∈ more, isValidIdempotencyKey key = true)
    (nodup : (all ++ more.map String.toList).Nodup) :
    sampleHost.journalAfter (some (render '\n' (kept all))) (more.map (sampleCall · .done)) =
        some (render '\n' (kept (all ++ more.map String.toList))) ∧
      sampleHost.consumedBy (some (render '\n' (kept all))) (more.map (sampleCall · .done)) =
        more := by
  induction more generalizing all with
  | nil =>
    rw [List.map_nil, List.map_nil, List.append_nil]
    exact ⟨rfl, rfl⟩
  | cons key more ih =>
    rw [List.map_cons, List.append_cons] at nodup
    have prefixed := (List.nodup_append.mp nodup).1
    have hkey := valid key (List.mem_cons_self ..)
    have hall' : ∀ k ∈ all ++ [key.toList], IsKey k := by
      intro k hk
      rcases List.mem_append.mp hk with hk | hk
      · exact hall k hk
      · rw [List.mem_singleton.mp hk]
        exact isKey_of_valid hkey
    have fresh : key.toList ∉ all := fun hk =>
      (List.nodup_append.mp prefixed).2.2 _ hk _ (List.mem_singleton_self _) rfl
    obtain ⟨hfile, -, hconsumed⟩ := sampleCall_handle hall (List.nodup_append.mp prefixed).1 hkey
      fresh
    obtain ⟨hafter, hby⟩ := ih _ hall' (fun k hk => valid k (List.mem_cons_of_mem _ hk)) nodup
    constructor
    · rw [List.map_cons, List.map_cons, List.append_cons, ← hafter, ← hfile]
      rfl
    · rw [List.map_cons, Host.consumedBy_cons, hfile, hconsumed, hby]
      rfl

theorem sampleCall_first (i : ℕ) :
    (sampleHost.handle (some []) (sampleCall (sampleKey i) .done)).file =
        some (render '\n' (kept [(sampleKey i).toList])) ∧
      (sampleHost.handle (some []) (sampleCall (sampleKey i) .done)).ran.isSome = true := by
  obtain ⟨hfile, hran, -⟩ := @sampleCall_handle [] (sampleKey i) (fun k hk => (by cases hk))
    .nil (sampleKey_valid i) (by simp)
  exact ⟨hfile, hran⟩

theorem key_runs_once_sample :
    (∃ text, sampleHost.journalAfter (some []) ([] ++ [sampleCall (sampleKey 1) .done]) = some text ∧
      Recorded (sampleKey 1).toList text 0) ∧
    ¬(sampleHost.handle (sampleHost.journalAfter (some []) ([] ++ sampleCall (sampleKey 1) .done ::
      [sampleCall (sampleKey 2) (.cut 5)])) (sampleCall (sampleKey 1) .done)).ran.isSome = true :=
  have once := @key_runs_once sampleHost (some []) [] [sampleCall (sampleKey 2) (.cut 5)]
    (sampleCall (sampleKey 1) .done) (sampleCall (sampleKey 1) .done) (.inl rfl)
    (sampleCall_first 1).2
  ⟨once.1, fun ran => absurd (once.2 rfl ran) (by decide +kernel)⟩

/-- The keys of the numbers from 1 to the limit. -/
def laterKeys : List String := (List.range maxKeys).map fun i => sampleKey (i + 1)

theorem laterKeys_length : laterKeys.length = maxKeys := by
  rw [laterKeys, List.length_map, List.length_range]

theorem laterKeys_nodup :
    ([(sampleKey 0).toList] ++ laterKeys.map String.toList).Nodup := by
  have bound : ∀ i ∈ List.range maxKeys, i + 1 < 65536 := by
    intro i hi
    have := List.mem_range.mp hi
    unfold maxKeys at this
    omega
  have keys : laterKeys.map String.toList =
      (List.range maxKeys).map fun i => (sampleKey (i + 1)).toList := by
    rw [laterKeys, List.map_map]
    rfl
  rw [keys, List.singleton_append, List.nodup_cons]
  constructor
  · intro hmem
    obtain ⟨i, hi, heq⟩ := List.mem_map.mp hmem
    have := sampleKey_injective (bound i hi) (by decide) (String.toList_injective heq)
    omega
  · refine List.nodup_range.map_on fun i hi i' hi' heq => ?_
    have := sampleKey_injective (bound i hi) (bound i' hi') (String.toList_injective heq)
    omega

/-- A key whose action ran does not run an action again before more other keys than the limit were
consumed. -/
def RunsOnce (host : Host) (file : Option Text) (between : List Call) (call again : Call) : Prop :=
  (host.handle file call).ran.isSome = true →
    again.request.idempotencyKey = call.request.idempotencyKey →
    (host.handle (host.journalAfter (host.handle file call).file between) again).ran.isSome = true →
    maxKeys < (others call.request.idempotencyKey
      (host.consumedBy (host.handle file call).file between)).length

theorem key_dropped : ¬RunsOnce sampleHost (some []) (laterKeys.map (sampleCall · .done))
    (sampleCall (sampleKey 0) .done) (sampleCall (sampleKey 0) .done) := by
  intro once
  have distinct := laterKeys_nodup
  rw [List.singleton_append, List.nodup_cons] at distinct
  have valid : ∀ key ∈ laterKeys, isValidIdempotencyKey key = true := by
    intro key hkey
    obtain ⟨i, -, rfl⟩ := List.mem_map.mp hkey
    exact sampleKey_valid _
  have isKeys : ∀ key ∈ laterKeys.map String.toList, IsKey key := by
    intro key hkey
    obtain ⟨k, hk, rfl⟩ := List.mem_map.mp hkey
    exact isKey_of_valid (valid k hk)
  obtain ⟨first, ran⟩ := sampleCall_first 0
  obtain ⟨after, consumed⟩ := sampleCalls_journalAfter [(sampleKey 0).toList]
    (fun k hk => by rw [List.mem_singleton.mp hk]; exact isKey_of_valid (sampleKey_valid 0)) valid
    laterKeys_nodup
  -- the first key is dropped, and the later ones fill the journal
  have dropped : kept ([(sampleKey 0).toList] ++ laterKeys.map String.toList) =
      kept (laterKeys.map String.toList) := by
    have length : (laterKeys.map String.toList).length = maxKeys := by
      rw [List.length_map, laterKeys_length]
    rw [kept, kept, List.length_append, length, List.length_singleton, Nat.add_sub_cancel,
      Nat.sub_self, List.singleton_append, List.drop_succ_cons]
  have again := (sampleCall_handle isKeys distinct.2 (sampleKey_valid 0) distinct.1).2.1
  have many := once ran rfl (by rw [first, after, dropped]; exact again)
  rw [first, consumed] at many
  have all : others (sampleKey 0) laterKeys = laterKeys := by
    rw [others, List.filter_eq_self]
    intro key hkey
    have ne : key ≠ sampleKey 0 := by
      rintro rfl
      exact distinct.1 (List.mem_map_of_mem hkey)
    simpa using ne
  rw [show (sampleCall (sampleKey 0) .done).request.idempotencyKey = sampleKey 0 from rfl, all,
    laterKeys_length] at many
  exact lt_irrefl _ many

/-- A key runs a second time right after the first when its line continues an unfinished one; and
any key does when exactly as many other keys as the limit were consumed after it. -/
theorem key_runs_again :
    ¬RunsOnce sampleHost (sampleHost.journalAfter none [sampleCall (sampleKey 1) (.cut 1)]) []
      (sampleCall (sampleKey 2) .done) (sampleCall (sampleKey 2) .done) ∧
    ¬RunsOnce sampleHost (some []) (laterKeys.map (sampleCall · .done))
      (sampleCall (sampleKey 0) .done) (sampleCall (sampleKey 0) .done) := by
  refine ⟨fun once => ?_, key_dropped⟩
  have many := once (by decide +kernel) rfl (by decide +kernel)
  revert many
  decide +kernel

end Metnos.Helper
