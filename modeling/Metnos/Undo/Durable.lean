import Mathlib
import Metnos.Undo.Selection

/-!
# Undo.Durable — when the log yields everything that was written to it

The lines of the records that a purge has not yet made outdated are among the ended lines of the
log.  A line is added to them when it is written to the file that is still the log, behind an ended
line; a purge keeps them when what it wrote is what it keeps of the log as it is replaced.  The
last section has a run for each way in which a record gets lost.
-/

namespace Metnos.Undo

open Texts

/-! ## Bytes and lines -/

theorem decode_encode (t : Text) : decode (encode t) = some t := by
  simp [decode, encode]

theorem encode_append (t t' : Text) : encode (t ++ t') = encode t ++ encode t' := by
  simp [encode, String.ofList_append]

theorem encode_of_decode {b : ByteArray} {t : Text} (h : decode b = some t) : b = encode t := by
  obtain ⟨chars, hb, rfl⟩ := Option.map_eq_some_iff.mp h
  have isSome : b.utf8Decode?.isSome = true := by rw [hb]; rfl
  have back := ByteArray.utf8Encode_get_utf8Decode? (b := b) (h := isSome)
  simp only [hb, Option.get_some] at back
  rw [encode, String.toByteArray_ofList, back]

theorem prefix_of_extract {t p : Text} {n : ℕ} (h : decode ((encode t).extract 0 n) = some p) :
    p <+: t := by
  have hp := encode_of_decode h
  refine List.isPrefix_of_utf8Encode_append_eq_utf8Encode
    ((encode t).extract n (encode t).size) ?_
  rw [← String.toByteArray_ofList, ← String.toByteArray_ofList]
  show encode p ++ _ = encode t
  rw [← hp, ByteArray.extract_append_extract]
  simp

theorem universal_eq {t : Text} (h : '\r' ∉ t) : universal t = t := by
  fun_induction universal t with
  | case1 => rfl
  | case2 text ih => exact absurd (List.mem_cons_self ..) h
  | case3 text _ ih => exact absurd (List.mem_cons_self ..) h
  | case4 c text _ _ ih => rw [ih fun hmem => h (List.mem_cons_of_mem _ hmem)]

/-- The lines `ls` are among the ended lines of the file, in their order. -/
def Holds (b : ByteArray) (ls : List Text) : Prop :=
  ∃ ended rest, b = encode (ended ++ rest) ∧ Terminated '\n' ended ∧ '\r' ∉ ended ++ rest ∧
    ls.Sublist (lines '\n' ended)

/-- The file can be read, and its last line is ended. -/
def isEnded (b : ByteArray) : Bool :=
  (decode b).any (fun text => text.getLast?.all (fun c => decide (c = '\n')))

namespace Holds

variable {b : ByteArray} {ls : List Text}

theorem empty : Holds .empty [] := ⟨[], [], rfl, .inl rfl, List.not_mem_nil, .refl _⟩

theorem fewer {ls' : List Text} (h : Holds b ls) (sub : ls'.Sublist ls) : Holds b ls' := by
  obtain ⟨ended, rest, hb, terminated, carriage, hls⟩ := h
  exact ⟨ended, rest, hb, terminated, carriage, sub.trans hls⟩

theorem read (h : Holds b ls) : ∃ all, fileLines b = some all ∧ ls.Sublist all ∧
    ∀ l ∈ all, '\n' ∉ l ∧ '\r' ∉ l := by
  obtain ⟨ended, rest, rfl, terminated, carriage, hls⟩ := h
  refine ⟨lines '\n' (ended ++ rest), ?_, ?_, fun l hl => ⟨not_mem_lines hl, fun hc => ?_⟩⟩
  · rw [fileLines, decode_encode, Option.map_some, universal_eq carriage]
  · rw [lines_append terminated]
    exact hls.trans (List.sublist_append_left ..)
  · exact carriage (mem_of_mem_lines hl hc)

theorem write {l : Text} (h : Holds b ls) (end_ : isEnded b = true) (newline : '\n' ∉ l)
    (carriage : '\r' ∉ l) : Holds (b ++ encode (l ++ ['\n'])) (ls ++ [l]) := by
  obtain ⟨ended, rest, rfl, terminated, clean, hls⟩ := h
  have all : Terminated '\n' (ended ++ rest) := by
    rw [isEnded, decode_encode, Option.any_some] at end_
    generalize ended ++ rest = text at end_
    induction text using List.reverseRecOn with
    | nil => exact .inl rfl
    | append_singleton init c ih =>
      rw [List.getLast?_concat, Option.all_some, decide_eq_true_eq] at end_
      exact .inr ⟨init, by rw [end_]⟩
  refine ⟨ended ++ rest ++ (l ++ ['\n']), [], ?_, ?_, ?_, ?_⟩
  · rw [List.append_nil, encode_append (ended ++ rest)]
  · exact .inr ⟨ended ++ rest ++ l, by simp only [List.append_assoc]⟩
  · simp only [List.append_nil, List.mem_append, List.mem_singleton] at clean ⊢
    rintro (hc | hc | hc)
    · exact clean hc
    · exact carriage hc
    · exact absurd hc (by decide)
  · rw [lines_append all, lines_append terminated]
    have last : lines '\n' (l ++ ['\n']) = [l] := lines_line newline []
    rw [last]
    exact (hls.trans (List.sublist_append_left ..)).append (.refl _)

theorem cut {t : Text} {n : ℕ} (h : Holds b ls) (carriage : '\r' ∉ t)
    (whole : (decode ((encode t).extract 0 n)).isSome = true) :
    Holds (b ++ (encode t).extract 0 n) ls := by
  obtain ⟨p, hp⟩ := Option.isSome_iff_exists.mp whole
  obtain ⟨ended, rest, rfl, terminated, clean, hls⟩ := h
  refine ⟨ended, rest ++ p, ?_, terminated, ?_, hls⟩
  · rw [encode_of_decode hp, ← List.append_assoc, encode_append (ended ++ rest)]
  · rw [← List.append_assoc, List.mem_append, not_or]
    exact ⟨clean, fun hc => carriage ((prefix_of_extract hp).subset hc)⟩

theorem rendered {all : List Text} (sub : ls.Sublist all) (clean : ∀ l ∈ all, '\n' ∉ l ∧ '\r' ∉ l) :
    Holds (encode (render '\n' all)) ls := by
  refine ⟨render '\n' all, [], by rw [List.append_nil], terminated_render all, ?_, ?_⟩
  · rw [List.append_nil]
    intro hc
    obtain ⟨l, hl, hc⟩ := List.mem_flatMap.mp hc
    rw [List.mem_append, List.mem_singleton] at hc
    obtain hc | hc := hc
    · exact (clean l hl).2 hc
    · exact absurd hc (by decide)
  · rw [lines_render fun l hl => (clean l hl).1]
    exact sub

end Holds

/-! ## Records -/

section
variable {Record Time : Type} (codec : Codec Record Time)

theorem strip_dumps (r : Record) : strip (codec.dumps r) = codec.dumps r := by
  obtain ⟨body, hbody⟩ := codec.braces r
  have opening : isSpace '{' = false := by decide
  have closing : isSpace '}' = false := by decide
  rw [strip, hbody, List.cons_append, List.dropWhile_cons_of_neg (by simp [opening]),
    ← List.cons_append, List.reverse_append, List.reverse_singleton, List.singleton_append,
    List.dropWhile_cons_of_neg (by simp [closing])]
  simp

theorem dumps_ne_nil (r : Record) : codec.dumps r ≠ [] := by
  obtain ⟨body, hbody⟩ := codec.braces r
  simp [hbody]

theorem filterMap_loads (rs : List Record) :
    (((rs.map codec.dumps).map strip).filter (fun l => l ≠ [])).filterMap codec.loads = rs := by
  have stripped : (rs.map codec.dumps).map strip = rs.map codec.dumps := by
    rw [List.map_map]
    exact List.map_congr_left fun r _ => strip_dumps codec r
  have nonempty : (rs.map codec.dumps).filter (fun l => l ≠ []) = rs.map codec.dumps := by
    rw [List.filter_eq_self]
    intro l hl
    obtain ⟨r, -, rfl⟩ := List.mem_map.mp hl
    simpa using dumps_ne_nil codec r
  rw [stripped, nonempty, List.filterMap_map]
  have loads : codec.loads ∘ codec.dumps = some := funext codec.loads_dumps
  rw [loads, List.filterMap_some]

theorem filter_strip_dumps (rs : List Record) :
    (rs.map codec.dumps).filter (fun l => strip l ≠ []) = rs.map codec.dumps := by
  rw [List.filter_eq_self]
  intro l hl
  obtain ⟨r, -, rfl⟩ := List.mem_map.mp hl
  simpa [strip_dumps] using dumps_ne_nil codec r

theorem Holds.yields {b : ByteArray} {rs : List Record} (h : Holds b (rs.map codec.dumps)) :
    ∃ yielded, iterRecords codec b = some yielded ∧ rs.Sublist yielded := by
  obtain ⟨all, hall, sub, -⟩ := h.read
  refine ⟨_, by rw [iterRecords, hall]; rfl, ?_⟩
  conv => lhs; rw [← filterMap_loads codec rs]
  exact ((sub.map strip).filter _).filterMap _

variable [LinearOrder Time] {cutoff : Time}

theorem outdated_dumps (r : Record) :
    outdated codec cutoff (codec.dumps r) = decide (codec.ts r < cutoff) := by
  rw [outdated, codec.loads_dumps, Option.any_some]

theorem Holds.purge {b : ByteArray} {rs : List Record} {ls : List Text}
    (h : Holds b (rs.map codec.dumps)) (hls : purgeLines b = some ls) :
    Holds (encode (render '\n' (kept codec cutoff ls)))
      ((rs.filter (fun r => decide (cutoff ≤ codec.ts r))).map codec.dumps) := by
  obtain ⟨all, hall, sub, clean⟩ := h.read
  rw [purgeLines, hall, Option.map_some, Option.some.injEq] at hls
  subst hls
  refine .rendered ?_ fun l hl => clean l (List.mem_of_mem_filter (List.mem_of_mem_filter hl))
  have lines := (sub.filter (fun l => strip l ≠ [])).filter (fun l => !outdated codec cutoff l)
  rw [filter_strip_dumps, List.filter_map] at lines
  have same : (fun l => !outdated codec cutoff l) ∘ codec.dumps =
      fun r => decide (cutoff ≤ codec.ts r) := by
    funext r
    rw [Function.comp_apply, outdated_dumps, ← decide_not, decide_eq_decide]
    exact not_lt
  rw [same] at lines
  exact lines

end

/-! ## Runs that lose nothing -/

namespace Log

variable {Record Time : Type} [LinearOrder Time] (codec : Codec Record Time)

/-- A line is written to its end behind an ended line of the file that the path leads to, and a
part of it only up to the end of a character; what a purge writes goes to another file, and is
what it keeps of the log at the time when it replaces it. -/
def Undisturbed (s : Log Record Time) : Action Record Time → Bool
  | .next p =>
    match s.phase p with
    | .writing _ i => decide (i = s.path) && isEnded (s.files i)
    | .replacing cutoff =>
      s.tmp.all fun i => (purgeLines (s.files s.path)).any fun ls =>
        decide (s.files i = encode (render '\n' (kept codec cutoff ls)))
    | _ => true
  | .fill p _ =>
    match s.phase p with
    | .filling _ i _ _ => decide (i ≠ s.path)
    | _ => true
  | .cut p n =>
    match s.phase p with
    | .writing r i =>
      decide (i ≠ s.path) || (decode ((encode (line codec r)).extract 0 n)).isSome
    | _ => true
  | _ => true

structure Sound (s : Log Record Time) : Prop where
  holds : Holds (s.files s.path) ((s.written.filter (s.current codec)).map codec.dumps)
  path : s.path < s.unused
  tmp : ∀ i, s.tmp = some i → i < s.unused ∧ i ≠ s.path

variable {codec} {s s' : Log Record Time}

theorem sound_empty : (empty : Log Record Time).Sound codec where
  holds := Holds.empty
  path := Nat.one_pos
  tmp := fun _ h => (by cases h)

theorem Sound.goto {p : ℕ} {phase : Phase Record Time} (sound : s.Sound codec) :
    (s.goto p phase).Sound codec := ⟨sound.holds, sound.path, sound.tmp⟩

theorem Sound.lock {holder : ℕ → Option ℕ} (sound : s.Sound codec) :
    ({ s with holder := holder } : Log Record Time).Sound codec :=
  ⟨sound.holds, sound.path, sound.tmp⟩

theorem Sound.crash {p : ℕ} (sound : s.Sound codec) : (s.crash p).Sound codec :=
  sound.lock.goto

theorem Sound.other {i : ℕ} {b : ByteArray} (sound : s.Sound codec) (ne : i ≠ s.path) :
    ({ s with files := Function.update s.files i b } : Log Record Time).Sound codec where
  holds := by
    dsimp only
    rw [Function.update_of_ne (Ne.symm ne)]
    exact sound.holds
  path := sound.path
  tmp := sound.tmp

theorem Sound.openTmp (sound : s.Sound codec) : s.openTmp.1.Sound codec := by
  unfold Log.openTmp
  split
  · rename_i i htmp
    exact sound.other (sound.tmp i htmp).2
  · have other := sound.other (i := s.unused) (b := .empty) (Nat.ne_of_gt sound.path)
    refine ⟨other.holds, Nat.lt_succ_of_lt sound.path, fun i htmp => ?_⟩
    rw [← Option.some.inj htmp]
    exact ⟨Nat.lt_succ_self _, Nat.ne_of_gt sound.path⟩

theorem Sound.write {r : Record} (sound : s.Sound codec) (end_ : isEnded (s.files s.path) = true) :
    ({ s with written := s.written ++ [r] }.append s.path
      (encode (line codec r)) : Log Record Time).Sound codec where
  holds := by
    have lines := sound.holds.write end_ (codec.newline r) (codec.carriage r)
    dsimp only [Log.append]
    rw [Function.update_self]
    refine lines.fewer ?_
    show (((s.written ++ [r]).filter (s.current codec)).map codec.dumps).Sublist _
    rw [List.filter_append, List.map_append]
    exact (List.Sublist.refl _).append ((List.filter_sublist (l := [r])).map codec.dumps)
  path := sound.path
  tmp := sound.tmp

theorem Sound.cut {r : Record} {i n : ℕ} (sound : s.Sound codec)
    (whole : i = s.path → (decode ((encode (line codec r)).extract 0 n)).isSome = true) :
    (s.append i ((encode (line codec r)).extract 0 n)).Sound codec := by
  by_cases hi : i = s.path
  · subst hi
    refine ⟨?_, sound.path, sound.tmp⟩
    have carriage : '\r' ∉ line codec r := by
      simpa [line] using codec.carriage r
    have lines := sound.holds.cut carriage (whole rfl)
    dsimp only [Log.append]
    rw [Function.update_self]
    exact lines
  · exact sound.other hi

theorem current_replaced {cutoff : Time} {i : ℕ} (htmp : s.tmp = some i) (r : Record) :
    (s.replace cutoff).current codec r =
      (decide (cutoff ≤ codec.ts r) && s.current codec r) := by
  simp only [Log.replace, htmp, current, Option.all_some]
  cases s.latest with
  | none => exact (Bool.and_true _).symm
  | some latest => simp

theorem Sound.replace {cutoff : Time} (sound : s.Sound codec)
    (kept : ∀ i, s.tmp = some i → ∃ ls, purgeLines (s.files s.path) = some ls ∧
      s.files i = encode (render '\n' (kept codec cutoff ls))) :
    (s.replace cutoff).Sound codec := by
  cases htmp : s.tmp with
  | none =>
    rw [Log.replace, htmp]
    exact sound
  | some i =>
    obtain ⟨ls, hls, hi⟩ := kept i htmp
    have current : ((s.replace cutoff).written.filter ((s.replace cutoff).current codec)) =
        (s.written.filter (s.current codec)).filter (fun r => decide (cutoff ≤ codec.ts r)) := by
      have replaced : (s.replace cutoff).current codec =
          fun r => decide (cutoff ≤ codec.ts r) && s.current codec r :=
        funext fun r => current_replaced htmp r
      rw [replaced, List.filter_filter]
      simp only [Log.replace, htmp]
    refine ⟨?_, ?_, ?_⟩
    · rw [current]
      simp only [Log.replace, htmp]
      rw [hi]
      exact sound.holds.purge codec hls
    · simp only [Log.replace, htmp]
      exact (sound.tmp i htmp).1
    · simp [Log.replace, htmp]

theorem Sound.next {p : ℕ} (sound : s.Sound codec)
    (undisturbed : Undisturbed codec s (.next p) = true)
    (h : s.next codec p (s.phase p) = some s') : s'.Sound codec := by
  unfold Undisturbed at undisturbed
  cases hphase : s.phase p with
  | idle =>
    rw [hphase] at h
    cases h
  | locking r i =>
    simp only [hphase, Log.next] at h
    split at h
    · cases h
      exact sound.lock.goto
    · cases h
  | writing r i =>
    simp only [hphase, Bool.and_eq_true, decide_eq_true_eq] at undisturbed
    obtain ⟨rfl, ended⟩ := undisturbed
    simp only [hphase, Log.next, Option.some.injEq] at h
    subst h
    exact (sound.write ended).goto
  | syncing i =>
    simp only [hphase, Log.next, Option.some.injEq] at h
    subst h
    exact sound.lock.goto
  | reading cutoff i =>
    simp only [hphase, Log.next] at h
    split at h
    · cases h
      exact sound.goto
    · split at h <;> cases h <;> exact sound.goto
  | saving cutoff ls =>
    simp only [hphase, Log.next, Option.some.injEq] at h
    subst h
    exact sound.openTmp.goto
  | filling cutoff i pos rest =>
    simp only [hphase, Log.next] at h
    split at h
    · cases h
      exact sound.goto
    · cases h
  | replacing cutoff =>
    simp only [hphase, Log.next, Option.some.injEq] at h
    subst h
    refine (sound.replace fun i htmp => ?_).goto
    simp only [hphase, htmp, Option.all_some, Option.any_eq_true, decide_eq_true_eq] at undisturbed
    exact undisturbed

theorem Sound.step {action : Action Record Time} (sound : s.Sound codec)
    (undisturbed : Undisturbed codec s action = true) (h : s.step codec action = some s') :
    s'.Sound codec := by
  cases action with
  | append p r =>
    simp only [Log.step] at h
    split at h
    · cases h
      exact sound.goto
    · cases h
  | purge p cutoff =>
    simp only [Log.step] at h
    split at h
    · cases h
      exact sound.goto
    · cases h
  | next p => exact sound.next undisturbed h
  | fill p n =>
    simp only [Log.step] at h
    split at h
    · rename_i cutoff i pos rest hphase
      simp only [Undisturbed, hphase, decide_eq_true_eq] at undisturbed
      cases h
      exact (sound.other undisturbed).goto
    · cases h
  | cut p n =>
    simp only [Log.step] at h
    split at h
    · rename_i r i hphase
      simp only [Undisturbed, hphase, Bool.or_eq_true, decide_eq_true_eq] at undisturbed
      cases h
      exact (sound.cut fun same => undisturbed.resolve_left (not_not_intro same)).crash
    · cases h
  | crash p =>
    cases h
    exact sound.crash

theorem Sound.transition {action : Action Record Time} (sound : s.Sound codec)
    (undisturbed : Undisturbed codec s action = true)
    (h : s.transition codec action = .ok s') : s'.Sound codec := by
  unfold Log.transition at h
  cases hstep : s.step codec action with
  | none =>
    rw [hstep] at h
    cases h
  | some next =>
    rw [hstep] at h
    cases h
    exact sound.step undisturbed hstep

/-- In a run that keeps off the windows the log yields, in every state, the records that were
written and are not outdated, in the order in which they were written. -/
theorem log_durable {actions : List (Action Record Time)}
    (undisturbed : Transaction.Meets (transition codec)
      (fun s action => Undisturbed codec s action = true) empty actions) :
    (empty.run codec actions).Durable codec := by
  have sound : (empty.run codec actions).Sound codec :=
    Transaction.run_invariant (fun ok h sound => Sound.transition sound ok h) undisturbed
      sound_empty
  exact sound.holds.yields codec

/-! ## The windows -/

instance [DecidableEq Record] (s : Log Record Time) : Decidable (s.Durable codec) :=
  decidable_of_iff (((iterRecords codec (s.files s.path)).any fun yielded =>
    decide ((s.written.filter (s.current codec)).Sublist yielded)) = true)
    (by simp [Durable, Option.any_eq_true])

end Log

inductive Sample
  | pending | done | closed
deriving DecidableEq

namespace Sample

def all : List Sample := [.pending, .done, .closed]

def text : Sample → String
  | .pending => "\x7b\"type\": \"pending\", \"ts\": 10, \"op_id\": \"è\"\x7d"
  | .done => "\x7b\"type\": \"done\", \"ts\": 20\x7d"
  | .closed => "\x7b\"type\": \"closed\", \"ts\": 30\x7d"

def codec : Codec Sample ℕ where
  ts
    | .pending => 10
    | .done => 20
    | .closed => 30
  dumps r := r.text.toList
  loads l := all.find? (fun r => decide (r.text.toList = l))
  loads_dumps r := by cases r <;> simp [all, text]
  braces r := ⟨r.text.toList.tail.dropLast, by cases r <;> simp [text]⟩
  newline r := by cases r <;> simp [text]
  carriage r := by cases r <;> simp [text]

/-- Process `p` appends `r` and returns. -/
def append (p : ℕ) (r : Sample) : List (Action Sample ℕ) :=
  .append p r :: List.replicate 3 (.next p)

/-- Process `p` purges up to the replacement. -/
def purge (p cutoff : ℕ) : List (Action Sample ℕ) :=
  [.purge p cutoff, .next p, .next p, .fill p 200, .next p]

/-- A record is appended after the purge has read the log. -/
def readBefore : List (Action Sample ℕ) :=
  append 0 .pending ++ purge 1 15 ++ append 0 .done ++ [.next 1]

/-- The log is replaced between the open of an append and its lock. -/
def openedBefore : List (Action Sample ℕ) :=
  append 0 .pending ++ [.append 0 .done] ++ purge 1 15 ++ [.next 1] ++ List.replicate 3 (.next 0)

/-- A line is cut, and the next one continues it. -/
def cutLine : List (Action Sample ℕ) := [.append 0 .pending, .next 0, .cut 0 20] ++ append 0 .done

/-- A line is cut between the two bytes of a character. -/
def cutCharacter : List (Action Sample ℕ) :=
  append 0 .done ++ [.append 0 .pending, .next 0, .cut 0 41]

theorem log_durable_sample :
    ((Log.empty.run codec (append 0 .pending ++ append 1 .done ++ purge 2 15 ++
      [.next 2] ++ append 0 .closed ++ [.append 1 .pending, .next 1, .cut 1 20])).Durable codec) :=
  Log.log_durable (by decide +kernel)

/-- Each of the runs loses the receipt of an operation. -/
theorem log_loses : ¬(Log.empty.run codec readBefore).Durable codec ∧
    ¬(Log.empty.run codec openedBefore).Durable codec ∧
    ¬(Log.empty.run codec cutLine).Durable codec ∧
    ¬(Log.empty.run codec cutCharacter).Durable codec := by
  decide +kernel

end Sample

end Metnos.Undo
