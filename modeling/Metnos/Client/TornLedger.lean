import Mathlib
import Metnos.Client.AtMostOnce
import Metnos.Helper.Replay

/-!
# Client.TornLedger — the ledger of executed ids after crashes

`executed.log` is a file of lines without a frame.  An append that a crash cuts leaves a prefix of
its line, the next append goes on from there, and `load_executed_ledger` refuses the whole file for
one line that is no id.  The client starts again exactly when no append left a part of an id and
nothing was written after an id without its newline.
-/

namespace Metnos.Client

open Helper (Text trim isWhitespace)
open Texts

/-- The loop of `load_executed_ledger` over the lines, from line `index`. -/
def readLedger : ℕ → List String → List Text → Except String (List String)
  | _, ids, [] => .ok ids
  | index, ids, raw :: lines =>
    let id := String.ofList (trim raw)
    if id = "" then readLedger (index + 1) ids lines
    else if (invocationEpoch id).isNone then
      .error ("ledger replay corrotto alla riga " ++ toString index)
    else readLedger (index + 1) (Recent.push ids id) lines

/-- `load_executed_ledger`, by the text of the file; a file that cannot be read is empty. -/
def loadExecutedLedger (file : Option Text) : Except String (List String) :=
  match file with
  | none => .ok []
  | some text =>
    match readLedger 1 [] (lines '\n' text) with
    | .error e => .error e
    | .ok ids => .ok (if executedCap < ids.length then ids.drop (ids.length - executedCap) else ids)

/-- What `writeln!` appends for an id. -/
def ledgerLine (id : String) : Text := id.toList ++ ['\n']

/-- `record_executed`; an id of another form is refused before the file is opened. -/
def recordExecuted (file : Option Text) (id : String) : Except Unit (Option Text) :=
  if (invocationEpoch id).isNone then .error ()
  else .ok (some (file.getD [] ++ ledgerLine id))

/-- The file after a crash inside `record_executed`, with `n` bytes of the line written. -/
def cutExecuted (file : Option Text) (id : String) (n : ℕ) : Option Text :=
  if (invocationEpoch id).isNone then file
  else some (file.getD [] ++ (ledgerLine id).take n)

/-- A call of `record_executed` that returns, or a crash inside of it and the restart. -/
inductive Call
  | record (id : String)
  | crash (id : String) (n : ℕ)

namespace Call

/-- The client only goes on after a crash if the ledger loads. -/
def apply (file : Option Text) : Call → Except String (Option Text)
  | .record id =>
    match recordExecuted file id with
    | .ok file' => .ok file'
    | .error _ => .ok file
  | .crash id n =>
    match loadExecutedLedger (cutExecuted file id n) with
    | .ok _ => .ok (cutExecuted file id n)
    | .error e => .error e

/-- The id of the call and how much of its line is written, if the id has the form. -/
def written : Call → Option (String × ℕ)
  | .record id => if (invocationEpoch id).isSome then some (id, id.length + 1) else none
  | .crash id n => if (invocationEpoch id).isSome then some (id, n) else none

/-- The id whose `record_executed` returned successfully. -/
def returned : Call → Option String
  | .record id => if (invocationEpoch id).isSome then some id else none
  | .crash _ _ => none

/-- The id that is in the file as a whole. -/
def complete (c : Call) : Option String :=
  c.written.bind fun (id, n) => if id.length ≤ n then some id else none

def Torn (c : Call) : Prop := ∃ id n, c.written = some (id, n) ∧ 0 < n ∧ n < id.length

/-- The id is written without its newline. -/
def Unfinished (c : Call) : Prop := ∃ id, c.written = some (id, id.length)

def Writes (c : Call) : Prop := ∃ id n, c.written = some (id, n) ∧ 0 < n

end Call

/-- The calls from an empty spool directory. -/
def runCalls (calls : List Call) : Except String (Option Text) := calls.foldlM Call.apply none

/-- No call leaves a part of an id, or writes behind an id without its newline. -/
structure Clean (calls : List Call) : Prop where
  whole : ∀ c ∈ calls, ¬c.Torn
  apart : calls.Pairwise fun c later => c.Unfinished → ¬later.Writes

/-- The last `EXECUTED_CAP` ids whose `record_executed` returned. -/
def lastReturned (calls : List Call) : List String :=
  let ids := calls.filterMap Call.returned
  ids.drop (ids.length - executedCap)

/-- The client starts after every crash, and after the last call, and then knows these ids. -/
def StartsWithMemory (calls : List Call) : Prop :=
  ∃ file ids, runCalls calls = .ok file ∧ loadExecutedLedger file = .ok ids ∧
    ∀ id ∈ lastReturned calls, id ∈ ids

/-! ### The text of a ledger -/

namespace Ledger

def text (l : Ledger) : Text := render '\n' (l.lines.map String.toList) ++ l.rest.toList

/-- Nothing in the file is white space, but for the newlines. -/
def Tidy (l : Ledger) : Prop := ∀ t ∈ l.rest :: l.lines, ∀ c ∈ t.toList, isWhitespace c = false

end Ledger

theorem newline_notMem {t : Text} (tidy : ∀ c ∈ t, isWhitespace c = false) : '\n' ∉ t := by
  intro hmem
  have := tidy _ hmem
  revert this
  decide

theorem lines_last {t : Text} (h : '\n' ∉ t) : lines '\n' t = if t = [] then [] else [t] := by
  induction t with
  | nil => rfl
  | cons c t ih =>
    rw [List.mem_cons, not_or] at h
    rw [lines, if_neg (Ne.symm h.1), ih h.2, if_neg (List.cons_ne_nil c t)]
    by_cases ht : t = []
    · rw [if_pos ht, ht]
    · rw [if_neg ht]

theorem Ledger.lines_text {l : Ledger} (tidy : l.Tidy) :
    Texts.lines '\n' l.text = l.texts.map String.toList := by
  have free : ∀ t ∈ l.lines.map String.toList, '\n' ∉ t := by
    intro t ht
    obtain ⟨line, hline, rfl⟩ := List.mem_map.mp ht
    exact newline_notMem (tidy line (List.mem_cons_of_mem _ hline))
  unfold text texts
  rw [lines_append (terminated_render _), lines_render free,
    lines_last (newline_notMem (tidy l.rest List.mem_cons_self)), List.map_append]
  by_cases h : l.rest = "" <;> simp [h]

theorem readLedger_texts {texts : List String}
    (tidy : ∀ t ∈ texts, ∀ c ∈ t.toList, isWhitespace c = false) (index : ℕ) (ids : List String) :
    (readLedger index ids (texts.map String.toList)).toOption =
      if (texts.filter fun t => t ≠ "").all fun t => (invocationEpoch t).isSome then
        some ((texts.filter fun t => t ≠ "").foldl Recent.push ids)
      else none := by
  induction texts generalizing index ids with
  | nil => rfl
  | cons t texts ih =>
    have rest := ih fun t ht => tidy t (List.mem_cons_of_mem _ ht)
    have same : String.ofList (trim t.toList) = t := by
      rw [Helper.trim_eq_self (tidy t List.mem_cons_self), String.ofList_toList]
    rw [List.map_cons, readLedger, same]
    by_cases empty : t = ""
    · rw [if_pos empty, rest, List.filter_cons_of_neg (by simpa using empty)]
    · rw [if_neg empty, List.filter_cons_of_pos (by simpa using empty), List.all_cons]
      cases hid : invocationEpoch t with
      | none => rfl
      | some nanos =>
        show (readLedger (index + 1) (Recent.push ids t) _).toOption = _
        rw [rest, Option.isSome_some, Bool.true_and, List.foldl_cons]

theorem load_text {l : Ledger} (tidy : l.Tidy) :
    (loadExecutedLedger (some l.text)).toOption = l.load := by
  have inTexts : ∀ t ∈ l.texts, ∀ c ∈ t.toList, isWhitespace c = false := by
    intro t ht
    unfold Ledger.texts at ht
    rcases List.mem_append.mp ht with ht | ht
    · exact tidy t (List.mem_cons_of_mem _ ht)
    · split at ht
      · cases ht
      · exact List.mem_singleton.mp ht ▸ tidy l.rest List.mem_cons_self
  have read := readLedger_texts inTexts 1 []
  unfold loadExecutedLedger Ledger.load
  dsimp only
  rw [Ledger.lines_text tidy]
  by_cases all : (l.texts.filter fun t => t ≠ "").all (fun t => (invocationEpoch t).isSome) = true
  · rw [if_pos all] at read ⊢
    cases hread : readLedger 1 [] (l.texts.map String.toList) with
    | error e =>
      rw [hread] at read
      cases read
    | ok ids =>
      rw [hread] at read
      have hids : ids = Recent.keepFirst (l.texts.filter fun t => t ≠ "") := Option.some.inj read
      rw [← hids]
      show some (if executedCap < ids.length then _ else ids) = some _
      split
      · rfl
      · rename_i room
        have dropped : ids.length - executedCap = 0 := by omega
        rw [dropped, List.drop_zero]
  · rw [if_neg all] at read ⊢
    cases hread : readLedger 1 [] (l.texts.map String.toList) with
    | error e => rfl
    | ok ids =>
      rw [hread] at read
      cases read

/-! ### One call -/

theorem length_ledgerLine (id : String) : (ledgerLine id).length = id.length + 1 := by
  unfold ledgerLine
  rw [List.length_append, String.length_toList, List.length_singleton]

theorem loadExecutedLedger_getD (file : Option Text) :
    loadExecutedLedger file = loadExecutedLedger (some (file.getD [])) := by
  cases file <;> rfl

/-- The file holds the text of the ledger. -/
structure Holds (file : Option Text) (l : Ledger) : Prop where
  text : file.getD [] = l.text
  tidy : l.Tidy

theorem Holds.load {file : Option Text} {l : Ledger} (h : Holds file l) :
    (loadExecutedLedger file).toOption = l.load := by
  rw [loadExecutedLedger_getD, h.text, load_text h.tidy]

theorem isWhitespace_of_safe {c : Char} (h : (c.isAlphanum || c = '-' || c = '_') = true) :
    isWhitespace c = false := by
  have range : 0x21 ≤ c.toNat ∧ c.toNat ≤ 0x7e := by
    simp only [Char.isAlphanum, Char.isAlpha, Char.isUpper, Char.isLower, Char.isDigit,
      Bool.or_eq_true, Bool.and_eq_true, decide_eq_true_eq] at h
    rcases h with (((⟨lo, hi⟩ | ⟨lo, hi⟩) | ⟨lo, hi⟩) | rfl) | rfl
    · have := UInt32.le_iff_toNat_le.mp lo
      have := UInt32.le_iff_toNat_le.mp hi
      show 0x21 ≤ c.val.toNat ∧ c.val.toNat ≤ 0x7e
      simp at *
      omega
    · have := UInt32.le_iff_toNat_le.mp lo
      have := UInt32.le_iff_toNat_le.mp hi
      show 0x21 ≤ c.val.toNat ∧ c.val.toNat ≤ 0x7e
      simp at *
      omega
    · have := UInt32.le_iff_toNat_le.mp lo
      have := UInt32.le_iff_toNat_le.mp hi
      show 0x21 ≤ c.val.toNat ∧ c.val.toNat ≤ 0x7e
      simp at *
      omega
    · decide
    · decide
  simp only [isWhitespace, Bool.or_eq_false_iff, decide_eq_false_iff_not, List.contains_eq_mem,
    List.mem_cons, List.not_mem_nil, or_false]
  omega

theorem epoch_safe {id : String} (h : (invocationEpoch id).isSome) :
    safeInvocationId id = true := by
  unfold invocationEpoch at h
  split at h
  · cases h
  · rename_i safe
    simpa using safe

theorem epoch_tidy {id : String} (h : (invocationEpoch id).isSome) :
    ∀ c ∈ id.toList, isWhitespace c = false := by
  have safe := epoch_safe h
  simp only [safeInvocationId, Bool.and_eq_true, List.all_eq_true] at safe
  intro c hc
  exact isWhitespace_of_safe (safe.2 c hc)

theorem Holds.write {file : Option Text} {l : Ledger} {id : String} (h : Holds file l)
    (valid : (invocationEpoch id).isSome) (n : ℕ) :
    Holds (some (file.getD [] ++ (ledgerLine id).take n)) (l.write id n) := by
  have chars := epoch_tidy valid
  have ofRest := h.tidy l.rest List.mem_cons_self
  unfold Ledger.write
  split
  · rename_i long
    refine ⟨?_, ?_⟩
    · rw [Option.getD_some, h.text, List.take_of_length_le (length_ledgerLine id ▸ long)]
      simp [Ledger.text, ledgerLine, render_append, render_singleton]
    · intro t ht
      rcases List.mem_cons.mp ht with rfl | ht
      · intro c hc
        cases hc
      · rcases List.mem_append.mp ht with ht | ht
        · exact h.tidy t (List.mem_cons_of_mem _ ht)
        · rw [List.mem_singleton.mp ht]
          intro c hc
          rw [String.toList_append, List.mem_append] at hc
          exact hc.elim (ofRest c) (chars c)
  · rename_i short
    refine ⟨?_, ?_⟩
    · rw [Option.getD_some, h.text, ledgerLine, List.take_append_of_le_length (Nat.le_of_not_lt short)]
      simp [Ledger.text]
    · intro t ht
      rcases List.mem_cons.mp ht with rfl | ht
      · intro c hc
        rw [String.toList_append, List.mem_append, String.toList_ofList] at hc
        exact hc.elim (ofRest c) fun hc => chars c (List.mem_of_mem_take hc)
      · exact h.tidy t (List.mem_cons_of_mem _ ht)

/-! ### What a call does to the file -/

namespace Call

/-- The file after the call, whether or not the client starts again. -/
def after (file : Option Text) (c : Call) : Option Text :=
  match c.written with
  | none => file
  | some (id, n) => some (file.getD [] ++ (ledgerLine id).take n)

theorem written_record (id : String) : (record id).written =
    if (invocationEpoch id).isSome then some (id, id.length + 1) else none := rfl

theorem written_crash (id : String) (n : ℕ) : (crash id n).written =
    if (invocationEpoch id).isSome then some (id, n) else none := rfl

theorem written_valid {c : Call} {id : String} {n : ℕ} (h : c.written = some (id, n)) :
    (invocationEpoch id).isSome := by
  cases c with
  | record other =>
    rw [written_record, Option.ite_none_right_eq_some] at h
    obtain ⟨valid, same⟩ := h
    exact (Prod.mk.inj (Option.some.inj same)).1 ▸ valid
  | crash other m =>
    rw [written_crash, Option.ite_none_right_eq_some] at h
    obtain ⟨valid, same⟩ := h
    exact (Prod.mk.inj (Option.some.inj same)).1 ▸ valid

theorem after_none {c : Call} (h : c.written = none) (file : Option Text) :
    c.after file = file := by
  unfold after
  rw [h]

theorem after_some {c : Call} {id : String} {n : ℕ} (h : c.written = some (id, n))
    (file : Option Text) : c.after file = some (file.getD [] ++ (ledgerLine id).take n) := by
  unfold after
  rw [h]

theorem apply_record (file : Option Text) (id : String) :
    (record id).apply file = .ok ((record id).after file) := by
  have whole : (ledgerLine id).take (id.length + 1) = ledgerLine id :=
    List.take_of_length_le (Nat.le_of_eq (length_ledgerLine id))
  by_cases valid : (invocationEpoch id).isSome
  · have known : ¬(invocationEpoch id).isNone = true := by
      simpa [Option.isSome_iff_ne_none] using valid
    rw [after_some ((written_record id).trans (if_pos valid)), whole]
    show (match recordExecuted file id with | .ok file' => _ | .error _ => _) = _
    rw [recordExecuted, if_neg known]
  · have unknown : (invocationEpoch id).isNone = true := by simpa using valid
    rw [after_none ((written_record id).trans (if_neg valid))]
    show (match recordExecuted file id with | .ok file' => _ | .error _ => _) = _
    rw [recordExecuted, if_pos unknown]

theorem after_crash (file : Option Text) (id : String) (n : ℕ) :
    (crash id n).after file = cutExecuted file id n := by
  by_cases valid : (invocationEpoch id).isSome
  · have known : ¬(invocationEpoch id).isNone = true := by
      simpa [Option.isSome_iff_ne_none] using valid
    rw [after_some ((written_crash id n).trans (if_pos valid)), cutExecuted, if_neg known]
  · have unknown : (invocationEpoch id).isNone = true := by simpa using valid
    rw [after_none ((written_crash id n).trans (if_neg valid)), cutExecuted, if_pos unknown]

theorem apply_crash (file : Option Text) (id : String) (n : ℕ) :
    (crash id n).apply file =
      match loadExecutedLedger ((crash id n).after file) with
      | .ok _ => .ok ((crash id n).after file)
      | .error e => .error e := by
  rw [after_crash]
  rfl

theorem apply_of_load {c : Call} {file : Option Text}
    (h : (loadExecutedLedger (c.after file)).toOption.isSome) :
    c.apply file = .ok (c.after file) := by
  cases c with
  | record id => exact apply_record file id
  | crash id n =>
    rw [apply_crash]
    cases hload : loadExecutedLedger ((crash id n).after file) with
    | ok ids => rfl
    | error e =>
      rw [hload] at h
      cases h

theorem apply_ok {c : Call} {file file' : Option Text} (h : c.apply file = .ok file') :
    file' = c.after file := by
  cases c with
  | record id =>
    rw [apply_record] at h
    exact (Except.ok.inj h).symm
  | crash id n =>
    rw [apply_crash] at h
    split at h
    · exact (Except.ok.inj h).symm
    · cases h

theorem apply_short {c : Call} {file file' : Option Text} {id : String} {n : ℕ}
    (hc : c.written = some (id, n)) (short : n ≤ id.length) (h : c.apply file = .ok file') :
    (loadExecutedLedger (c.after file)).toOption.isSome := by
  cases c with
  | record other =>
    rw [written_record, Option.ite_none_right_eq_some] at hc
    have same := Prod.mk.inj (Option.some.inj hc.2)
    rw [← same.1, ← same.2] at short
    omega
  | crash other m =>
    rw [apply_crash] at h
    split at h
    · rename_i ids hload
      rw [hload]
      rfl
    · cases h

end Call

theorem Ledger.load_none {l : Ledger} {t : String} (mem : t ∈ l.texts) (ne : t ≠ "")
    (bad : invocationEpoch t = none) : l.load = none := by
  unfold load
  refine if_neg fun all => ?_
  have := List.all_eq_true.mp all t (List.mem_filter.mpr ⟨mem, by simpa using ne⟩)
  rw [bad] at this
  cases this

theorem Ledger.rest_mem {l : Ledger} (h : l.rest ≠ "") : l.rest ∈ l.texts := by
  unfold texts
  rw [if_neg h]
  exact List.mem_append_right _ (List.mem_singleton_self _)

theorem Ledger.write_long {l : Ledger} {id : String} {n : ℕ} (h : id.length < n) :
    l.write id n = ⟨l.lines ++ [l.rest ++ id], ""⟩ := if_pos h

theorem Ledger.write_short {l : Ledger} {id : String} {n : ℕ} (h : n ≤ id.length) :
    l.write id n = ⟨l.lines, l.rest ++ String.ofList (id.toList.take n)⟩ :=
  if_neg (Nat.not_lt_of_le h)

theorem Ledger.Corrupt.write {l : Ledger} (h : l.Corrupt) (id : String) (n : ℕ) :
    (l.write id n).Corrupt := by
  obtain ⟨t, mem, ne, bad⟩ := h
  unfold Ledger.write
  split
  · exact ⟨t, List.mem_append_left _ mem, ne, bad⟩
  · exact ⟨t, mem, ne, bad⟩

theorem Holds.after {file : Option Text} {l : Ledger} (h : Holds file l) (c : Call) :
    Holds (c.after file) (match c.written with | none => l | some (id, n) => l.write id n) := by
  unfold Call.after
  cases hc : c.written with
  | none => exact h
  | some p =>
    obtain ⟨id, n⟩ := p
    exact h.write (Call.written_valid hc) n

/-! ### A run of calls -/

theorem Call.complete_some {c : Call} {id : String} {n : ℕ} (h : c.written = some (id, n)) :
    c.complete = if id.length ≤ n then some id else none := by
  unfold complete
  rw [h]
  rfl

theorem Call.complete_none {c : Call} (h : c.written = none) : c.complete = none := by
  unfold complete
  rw [h]
  rfl

theorem complete_valid {calls : List Call} {t : String} (h : t ∈ calls.filterMap Call.complete) :
    (invocationEpoch t).isSome := by
  obtain ⟨c, -, hc⟩ := List.mem_filterMap.mp h
  cases hw : c.written with
  | none =>
    rw [Call.complete_none hw] at hc
    cases hc
  | some p =>
    obtain ⟨id, n⟩ := p
    rw [Call.complete_some hw, Option.ite_none_right_eq_some] at hc
    exact Option.some.inj hc.2 ▸ Call.written_valid hw

theorem valid_ne {t : String} (h : (invocationEpoch t).isSome) : t ≠ "" := by
  rintro rfl
  have length := epoch_length h
  cases length

/-- The file holds the whole ids of the calls, and ends inside of a line after an id without its
newline. -/
structure Intact (calls : List Call) (l : Ledger) : Prop where
  texts : l.texts = calls.filterMap Call.complete
  rest : l.rest ≠ "" → ∃ c ∈ calls, c.Unfinished
  unfinished : ∀ c ∈ calls, c.Unfinished → l.rest ≠ ""

theorem Intact.load {calls : List Call} {l : Ledger} (h : Intact calls l) :
    l.load = some ((Recent.keepFirst (calls.filterMap Call.complete)).drop
      ((Recent.keepFirst (calls.filterMap Call.complete)).length - executedCap)) := by
  have named : l.texts.filter (fun t => t ≠ "") = calls.filterMap Call.complete := by
    rw [h.texts, List.filter_eq_self]
    intro t ht
    simpa using valid_ne (complete_valid ht)
  have all : (calls.filterMap Call.complete).all (fun t => (invocationEpoch t).isSome) = true :=
    List.all_eq_true.mpr fun t ht => complete_valid ht
  unfold Ledger.load
  rw [named]
  exact if_pos all

theorem clean_append {calls : List Call} {c : Call} (clean : Clean calls) (whole : ¬c.Torn)
    (apart : c.Writes → ∀ d ∈ calls, ¬d.Unfinished) : Clean (calls ++ [c]) := by
  refine ⟨fun d hd => ?_, List.pairwise_append.mpr ⟨clean.apart, List.pairwise_singleton _ _, ?_⟩⟩
  · rcases List.mem_append.mp hd with hd | hd
    · exact clean.whole d hd
    · exact List.mem_singleton.mp hd ▸ whole
  · intro d hd e he unfinished writes
    rw [List.mem_singleton.mp he] at writes
    exact apart writes d hd unfinished

theorem Clean.before {calls : List Call} {c : Call} (h : Clean (calls ++ [c])) :
    Clean calls ∧ ¬c.Torn ∧ (c.Writes → ∀ d ∈ calls, ¬d.Unfinished) := by
  obtain ⟨before, -, cross⟩ := List.pairwise_append.mp h.apart
  refine ⟨⟨fun d hd => h.whole d (List.mem_append_left _ hd), before⟩,
    h.whole c (List.mem_append_right _ (List.mem_singleton_self c)), ?_⟩
  intro writes d hd unfinished
  exact cross d hd c (List.mem_singleton_self c) unfinished writes

theorem Intact.idle {calls : List Call} {l : Ledger} (h : Intact calls l) {c : Call}
    (nothing : c.complete = none) (still : ¬c.Unfinished) : Intact (calls ++ [c]) l := by
  refine ⟨?_, fun rest => ?_, fun d hd unfinished => ?_⟩
  · rw [List.filterMap_append, ← h.texts, List.filterMap_cons_none nothing, List.filterMap_nil,
      List.append_nil]
  · obtain ⟨d, hd, unfinished⟩ := h.rest rest
    exact ⟨d, List.mem_append_left _ hd, unfinished⟩
  · rcases List.mem_append.mp hd with hd | hd
    · exact h.unfinished d hd unfinished
    · exact absurd (List.mem_singleton.mp hd ▸ unfinished) still

theorem Intact.whole {calls : List Call} {l : Ledger} (h : Intact calls l) {c : Call} {id : String}
    {n : ℕ} (hc : c.written = some (id, n)) (start : l.rest = "") (long : id.length ≤ n) :
    Intact (calls ++ [c]) (l.write id n) := by
  have complete : c.complete = some id := (Call.complete_some hc).trans (if_pos long)
  have texts : l.lines = calls.filterMap Call.complete := by
    rw [← h.texts, Ledger.texts, if_pos start, List.append_nil]
  have none_before : ∀ d ∈ calls, ¬d.Unfinished := fun d hd unfinished =>
    h.unfinished d hd unfinished start
  have named : id ≠ "" := valid_ne (Call.written_valid hc)
  rcases Nat.lt_or_eq_of_le long with newline | ends
  · rw [Ledger.write_long newline, start, String.empty_append]
    refine ⟨?_, fun rest => absurd rfl rest, fun d hd unfinished => ?_⟩
    · rw [List.filterMap_append, ← texts, List.filterMap_cons_some complete, List.filterMap_nil,
        Ledger.texts, if_pos rfl, List.append_nil]
    · rcases List.mem_append.mp hd with hd | hd
      · exact absurd unfinished (none_before d hd)
      · obtain ⟨other, hother⟩ := List.mem_singleton.mp hd ▸ unfinished
        have same := Prod.mk.inj (Option.some.inj (hc.symm.trans hother))
        rw [same.1, same.2] at newline
        exact absurd newline (Nat.lt_irrefl _)
  · have unfinished : c.Unfinished := ⟨id, hc.trans (by rw [ends])⟩
    have all : String.ofList (id.toList.take n) = id := by
      rw [List.take_of_length_le (by rw [String.length_toList]; omega), String.ofList_toList]
    rw [Ledger.write_short (Nat.le_of_eq ends.symm), start, String.empty_append, all]
    refine ⟨?_, fun _ => ⟨c, List.mem_append_right _ (List.mem_singleton_self c), unfinished⟩,
      fun _ _ _ => named⟩
    rw [List.filterMap_append, ← texts, List.filterMap_cons_some complete, List.filterMap_nil,
      Ledger.texts, if_neg named]

theorem write_spoils {l : Ledger} {id : String} {n : ℕ} (valid : (invocationEpoch id).isSome)
    (whole : l.rest = "" ∨ l.rest.length = 28) (pos : 0 < n)
    (bad : l.rest = "" → n < id.length) :
    (l.write id n).Corrupt ∨ n ≤ id.length ∧ (l.write id n).load = none := by
  have length := epoch_length valid
  by_cases long : id.length < n
  · left
    have behind : l.rest ≠ "" := fun start => by have := bad start; omega
    rw [Ledger.write_long long]
    obtain ⟨empty, -⟩ | ⟨ne, noId⟩ := finished_line l.rest length
    · exact absurd empty behind
    · exact ⟨_, List.mem_append_right _ (List.mem_singleton_self _), ne, noId⟩
  · right
    have short : n ≤ id.length := Nat.le_of_not_lt long
    refine ⟨short, ?_⟩
    have rest : (l.write id n).rest = l.rest ++ String.ofList (id.toList.take n) := by
      rw [Ledger.write_short short]
    have taken : (String.ofList (id.toList.take n)).length = n := by
      rw [String.length_ofList, List.length_take, String.length_toList]
      omega
    have size : (l.write id n).rest.length = l.rest.length + n := by
      rw [rest, String.length_append, taken]
    have other : (l.write id n).rest.length ≠ 28 := by
      rcases whole with start | full
      · have := bad start
        rw [start, String.length_empty] at size
        omega
      · omega
    have ne : (l.write id n).rest ≠ "" := by
      intro empty
      rw [empty, String.length_empty] at size
      omega
    have noId : invocationEpoch (l.write id n).rest = none := by
      by_contra some_
      exact other (epoch_length (Option.isSome_iff_ne_none.mpr some_))
    exact Ledger.load_none (Ledger.rest_mem ne) ne noId

theorem Intact.rest_length {calls : List Call} {l : Ledger} (h : Intact calls l) :
    l.rest = "" ∨ l.rest.length = 28 := by
  by_cases rest : l.rest = ""
  · exact .inl rest
  · have mem := Ledger.rest_mem rest
    rw [h.texts] at mem
    exact .inr (epoch_length (complete_valid mem))

theorem runCalls_append (calls : List Call) (c : Call) :
    runCalls (calls ++ [c]) = runCalls calls >>= fun file => c.apply file := by
  unfold runCalls
  rw [List.foldlM_append]
  congr 1
  funext file
  exact List.foldlM_cons.trans (bind_pure _)

/-- The file of a run with good calls only. -/
def Good (calls : List Call) : Prop :=
  Clean calls ∧ ∃ file l, runCalls calls = .ok file ∧ Holds file l ∧ Intact calls l

/-- After a bad call the client never starts again. -/
def Bad (calls : List Call) : Prop :=
  ¬Clean calls ∧ ∀ file, runCalls calls = .ok file → ∃ l, Holds file l ∧ l.Corrupt

theorem Bad.append {calls : List Call} (h : Bad calls) (c : Call) : Bad (calls ++ [c]) := by
  refine ⟨fun clean => h.1 clean.before.1, fun file' run => ?_⟩
  rw [runCalls_append, Transaction.bind_eq_ok] at run
  obtain ⟨file, run, applied⟩ := run
  obtain ⟨l, holds, corrupt⟩ := h.2 file run
  rw [Call.apply_ok applied]
  refine ⟨_, holds.after c, ?_⟩
  cases hc : c.written with
  | none => exact corrupt
  | some p => exact corrupt.write p.1 p.2

theorem Good.keep {calls : List Call} {c : Call} {file : Option Text} {l' : Ledger}
    (run : runCalls calls = .ok file) (clean : Clean (calls ++ [c]))
    (holds : Holds (c.after file) l') (intact : Intact (calls ++ [c]) l') :
    Good (calls ++ [c]) := by
  have loads : (loadExecutedLedger (c.after file)).toOption.isSome := by
    rw [holds.load, intact.load]
    rfl
  refine ⟨clean, c.after file, l', ?_, holds, intact⟩
  rw [runCalls_append, run]
  exact Call.apply_of_load loads

theorem Good.append {calls : List Call} (h : Good calls) (c : Call) :
    Good (calls ++ [c]) ∨ Bad (calls ++ [c]) := by
  obtain ⟨clean, file, l, run, holds, intact⟩ := h
  have next := holds.after c
  cases hc : c.written with
  | none =>
    left
    rw [hc] at next
    have writes : ¬c.Writes := by
      rintro ⟨id, n, h, -⟩
      rw [hc] at h
      cases h
    have torn : ¬c.Torn := fun ⟨id, n, h, pos, _⟩ => writes ⟨id, n, h, pos⟩
    have still : ¬c.Unfinished := by
      rintro ⟨id, h⟩
      rw [hc] at h
      cases h
    exact Good.keep run (clean_append clean torn fun w => absurd w writes) next
      (intact.idle (Call.complete_none hc) still)
  | some p =>
    obtain ⟨id, n⟩ := p
    rw [hc] at next
    replace next : Holds (c.after file) (l.write id n) := next
    have valid := Call.written_valid hc
    have length := epoch_length valid
    have only : ∀ {id' n'}, c.written = some (id', n') → id' = id ∧ n' = n := fun h =>
      Prod.mk.inj (Option.some.inj (h.symm.trans hc))
    by_cases zero : n = 0
    · -- nothing of the line was written
      left
      have same : l.write id n = l := by
        rw [zero, Ledger.write_short (Nat.zero_le _), List.take_zero]
        show Ledger.mk l.lines (l.rest ++ "") = l
        rw [String.append_empty]
      rw [same] at next
      have writes : ¬c.Writes := by
        rintro ⟨id', n', h, pos⟩
        have := (only h).2
        omega
      have torn : ¬c.Torn := fun ⟨id', n', h, pos, _⟩ => writes ⟨id', n', h, pos⟩
      have still : ¬c.Unfinished := by
        rintro ⟨id', h⟩
        have := only h
        rw [this.1] at this
        omega
      have nothing : c.complete = none := (Call.complete_some hc).trans (if_neg (by omega))
      exact Good.keep run (clean_append clean torn fun w => absurd w writes) next
        (intact.idle nothing still)
    · have writes : c.Writes := ⟨id, n, hc, Nat.pos_of_ne_zero zero⟩
      by_cases fits : l.rest = "" ∧ id.length ≤ n
      · left
        have torn : ¬c.Torn := by
          rintro ⟨id', n', h, -, short⟩
          have := only h
          rw [this.1, this.2] at short
          omega
        exact Good.keep run (clean_append clean torn fun _ d hd unfinished =>
          intact.unfinished d hd unfinished fits.1) next (intact.whole hc fits.1 fits.2)
      · right
        have bad : l.rest = "" → n < id.length := fun start =>
          Nat.lt_of_not_le fun long => fits ⟨start, long⟩
        refine ⟨fun after => ?_, fun file' ran => ?_⟩
        · obtain ⟨-, torn, apart⟩ := after.before
          by_cases start : l.rest = ""
          · exact torn ⟨id, n, hc, Nat.pos_of_ne_zero zero, bad start⟩
          · obtain ⟨d, hd, unfinished⟩ := intact.rest start
            exact apart writes d hd unfinished
        · rw [runCalls_append, run] at ran
          have applied : c.apply file = .ok file' := ran
          rw [Call.apply_ok applied]
          refine ⟨_, next, ?_⟩
          rcases write_spoils valid intact.rest_length (Nat.pos_of_ne_zero zero) bad with
            corrupt | ⟨short, refused⟩
          · exact corrupt
          · have started := Call.apply_short hc short applied
            rw [next.load, refused] at started
            cases started

theorem good_or_bad (calls : List Call) : Good calls ∨ Bad calls := by
  induction calls using List.reverseRecOn with
  | nil =>
    left
    refine ⟨⟨fun c hc => (by cases hc), List.Pairwise.nil⟩, none, ⟨[], ""⟩, rfl, ⟨rfl, ?_⟩, rfl, ?_, ?_⟩
    · intro t ht c hc
      rw [List.mem_singleton.mp ht] at hc
      cases hc
    · exact fun rest => absurd rfl rest
    · intro c hc
      cases hc
  | append_singleton calls c ih =>
    rcases ih with good | bad
    · exact good.append c
    · exact .inr (bad.append c)

theorem good_of_starts {calls : List Call} (h : StartsWithMemory calls) : Good calls := by
  obtain ⟨file, ids, run, loaded, -⟩ := h
  refine (good_or_bad calls).resolve_right fun bad => ?_
  obtain ⟨l, holds, corrupt⟩ := bad.2 file run
  have := holds.load
  rw [loaded, Ledger.load_corrupt corrupt] at this
  cases this

theorem Call.complete_of_returned {c : Call} {id : String} (h : c.returned = some id) :
    c.complete = some id := by
  cases c with
  | crash other n => cases h
  | record other =>
    have h' : (if (invocationEpoch other).isSome then some other else none) = some id := h
    rw [Option.ite_none_right_eq_some] at h'
    obtain ⟨valid, same⟩ := h'
    have hw := (written_record other).trans (if_pos valid)
    rw [complete_some hw, if_pos (Nat.le_succ _)]
    exact same

theorem complete_of_lastReturned {calls : List Call} {id : String} (h : id ∈ lastReturned calls) :
    id ∈ calls.filterMap Call.complete := by
  obtain ⟨c, hc, returned⟩ := List.mem_filterMap.mp (List.mem_of_mem_drop h)
  exact List.mem_filterMap.mpr ⟨c, hc, Call.complete_of_returned returned⟩

/-- The client starts with its memory exactly when no call left a part of an id or wrote behind an
unfinished line, and fewer other ids than the ledger keeps came into the file for the first time
after each of the last ids. -/
theorem starts_with_memory_iff (calls : List Call) :
    StartsWithMemory calls ↔ Clean calls ∧ ∀ id ∈ lastReturned calls,
      (Recent.later (calls.filterMap Call.complete) id).card < executedCap := by
  constructor
  · intro h
    obtain ⟨clean, file, l, run, holds, intact⟩ := good_of_starts h
    obtain ⟨file', ids, run', loaded, known⟩ := h
    refine ⟨clean, fun id hid => ?_⟩
    obtain rfl : file = file' := Except.ok.inj (run.symm.trans run')
    have hids := holds.load
    rw [loaded, intact.load] at hids
    rw [← Recent.mem_last_keepFirst (complete_of_lastReturned hid), ← Option.some.inj hids]
    exact known id hid
  · rintro ⟨clean, few⟩
    obtain ⟨-, file, l, run, holds, intact⟩ := (good_or_bad calls).resolve_right fun bad =>
      bad.1 clean
    have loads := holds.load
    rw [intact.load] at loads
    cases hload : loadExecutedLedger file with
    | error e =>
      rw [hload] at loads
      cases loads
    | ok ids =>
      rw [hload] at loads
      refine ⟨file, ids, run, hload, fun id hid => ?_⟩
      have hids : ids = _ := Option.some.inj loads
      rw [hids, Recent.mem_last_keepFirst (complete_of_lastReturned hid)]
      exact few id hid

/-- Ten bytes of the first line, and then a crash. -/
theorem torn_first_line : ¬∀ calls, StartsWithMemory calls := by
  intro h
  refine (good_of_starts (h [.crash sampleId 10])).1.whole _ (List.mem_singleton_self _) ?_
  exact ⟨sampleId, 10, by decide, by decide, by decide⟩

end Metnos.Client
