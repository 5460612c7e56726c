import Mathlib.Data.List.Induction
import Mathlib.Tactic.IntervalCases
import Metnos.Filesystem.Grants
import Metnos.Lib.Texts

/-!
# Filesystem.Normal — the normal forms of paths

The server and the device normalise a path alike, but for the control characters above the ASCII
ones and for a drive with several separators behind it.  A normal form is a root with clean parts
behind it; it is its own normal form, and both sides compute its directory to the same text.
-/

namespace Metnos.Filesystem

variable {style : Style} {path : Text} {sep : Char}

/-! ## Characters -/

/-- A control character that only the device refuses. -/
def isC1 (c : Char) : Bool := decide (128 ≤ c.toNat ∧ c.toNat ≤ 159)

theorem isControlCc_eq (c : Char) : isControlCc c = (isControl c || isC1 c) := by
  rw [Bool.eq_iff_iff]
  simp only [isControlCc, isControl, isC1, Bool.or_eq_true, decide_eq_true_eq]
  omega

theorem any_isControlCc (h : path.any isC1 = false) :
    path.any isControlCc = path.any isControl := by
  induction path with
  | nil => rfl
  | cons c path ih =>
    simp only [List.any_cons, Bool.or_eq_false_iff] at h ⊢
    rw [isControlCc_eq, h.1, Bool.or_false, ih h.2]

theorem toNat_ofNat {n : ℕ} (h : n < 128) : (Char.ofNat n).toNat = n := by
  have valid : n.isValidChar := .inl (by omega)
  simp [Char.ofNat, valid, Char.ofNatAux, Char.toNat]

theorem utf8Size_of_lt {c : Char} (h : c.toNat < 128) : c.utf8Size = 1 := by
  have small : c.val ≤ 127 := by
    rw [UInt32.le_iff_toNat_le]
    exact Nat.le_of_lt_succ h
  exact if_pos small

theorem upper_toNat (c : Char) :
    (upper c).toNat = if 97 ≤ c.toNat ∧ c.toNat ≤ 122 then c.toNat - 32 else c.toNat := by
  have bounds : ('a' ≤ c ∧ c ≤ 'z') ↔ 97 ≤ c.toNat ∧ c.toNat ≤ 122 := Iff.rfl
  unfold upper
  by_cases h : 97 ≤ c.toNat ∧ c.toNat ≤ 122
  · rw [if_pos (bounds.mpr h), if_pos h, toNat_ofNat (by omega)]
  · rw [if_neg (fun hb => h (bounds.mp hb)), if_neg h]

theorem lower_toNat (c : Char) :
    (lower c).toNat = if 65 ≤ c.toNat ∧ c.toNat ≤ 90 then c.toNat + 32 else c.toNat := by
  have bounds : ('A' ≤ c ∧ c ≤ 'Z') ↔ 65 ≤ c.toNat ∧ c.toNat ≤ 90 := Iff.rfl
  unfold lower
  by_cases h : 65 ≤ c.toNat ∧ c.toNat ≤ 90
  · rw [if_pos (bounds.mpr h), if_pos h, toNat_ofNat (by omega)]
  · rw [if_neg (fun hb => h (bounds.mp hb)), if_neg h]

theorem upper_eq_iff {c d : Char} (h : isAsciiLetter d = false) : upper c = d ↔ c = d := by
  simp only [isAsciiLetter, Bool.or_eq_false_iff, decide_eq_false_iff_not] at h
  have low : ¬(97 ≤ d.toNat ∧ d.toNat ≤ 122) := h.1
  have high : ¬(65 ≤ d.toNat ∧ d.toNat ≤ 90) := h.2
  rw [← Char.toNat_inj, ← Char.toNat_inj, upper_toNat]
  split <;> omega

theorem lower_eq_iff {c d : Char} (h : isAsciiLetter d = false) : lower c = d ↔ c = d := by
  simp only [isAsciiLetter, Bool.or_eq_false_iff, decide_eq_false_iff_not] at h
  have low : ¬(97 ≤ d.toNat ∧ d.toNat ≤ 122) := h.1
  have high : ¬(65 ≤ d.toNat ∧ d.toNat ≤ 90) := h.2
  rw [← Char.toNat_inj, ← Char.toNat_inj, lower_toNat]
  split <;> omega

/-! ## Separators -/

section
variable {α : Type} {p : α → Bool}

theorem rdropWhile_append (l : List α) {q : List α} (h : ∀ c ∈ q, p c = true) :
    (l ++ q).rdropWhile p = l.rdropWhile p := by
  induction q using List.reverseRecOn with
  | nil => rw [List.append_nil]
  | append_singleton q c ih =>
    rw [← List.append_assoc, List.rdropWhile_concat_pos _ _ _ (h c (by simp)),
      ih fun d hd => h d (List.mem_append_left _ hd)]

theorem rdropWhile_all {l : List α} (h : ∀ c ∈ l, p c = true) : l.rdropWhile p = [] := by
  rw [List.rdropWhile_eq_nil_iff]
  exact h

theorem rdropWhile_self {l q : List α} {c : α} (hl : l = q ++ [c]) (h : p c = false) :
    l.rdropWhile p = l := by
  rw [hl, List.rdropWhile_concat_neg _ _ _ (by simp [h])]

end

theorem intercalate_concat (sep : Char) {parts : List Text} (ne : parts ≠ []) (last : Text) :
    [sep].intercalate (parts ++ [last]) = [sep].intercalate parts ++ sep :: last := by
  induction parts with
  | nil => exact absurd rfl ne
  | cons part parts ih =>
    cases parts with
    | nil => simp [List.intercalate_cons_cons]
    | cons part' parts =>
      have ih := ih (List.cons_ne_nil _ _)
      rw [List.cons_append, List.cons_append, List.intercalate_cons_cons, List.intercalate_cons_cons,
        ← List.cons_append, ih]
      simp only [List.append_assoc]

/-- Parts that are not empty and hold no separator. -/
def Clean (sep : Char) (parts : List Text) : Prop :=
  ∀ part ∈ parts, part ≠ [] ∧ sep ∉ part ∧ '/' ∉ part

theorem Clean.fewer {parts : List Text} {last : Text} (h : Clean sep (parts ++ [last])) :
    Clean sep parts ∧ last ≠ [] ∧ sep ∉ last ∧ '/' ∉ last :=
  ⟨fun part hpart => h part (List.mem_append_left _ hpart), h last (by simp)⟩

theorem Clean.last {parts : List Text} (h : Clean sep parts) (ne : parts ≠ []) :
    ∃ init c, [sep].intercalate parts = init ++ [c] ∧ c ≠ sep ∧ c ≠ '/' := by
  induction parts using List.reverseRecOn with
  | nil => exact absurd rfl ne
  | append_singleton parts last _ =>
    obtain ⟨-, hne, hsep, hslash⟩ := h.fewer
    obtain ⟨init, c, rfl⟩ : ∃ init c, last = init ++ [c] :=
      ⟨_, _, (List.dropLast_append_getLast hne).symm⟩
    have end_ : c ≠ sep ∧ c ≠ '/' :=
      ⟨fun hc => hsep (by simp [hc]), fun hc => hslash (by simp [hc])⟩
    by_cases hparts : parts = []
    · subst hparts
      exact ⟨init, c, by simp, end_⟩
    · exact ⟨[sep].intercalate parts ++ sep :: init, c,
        by rw [intercalate_concat sep hparts, List.append_assoc, List.cons_append], end_⟩

theorem Clean.ne_nil {parts : List Text} (h : Clean sep parts) (ne : parts ≠ []) :
    [sep].intercalate parts ≠ [] := by
  obtain ⟨init, c, heq, -⟩ := h.last ne
  rw [heq]
  simp

theorem Clean.cut {parts : List Text} (h : Clean sep parts) :
    (∀ c ∈ [sep].intercalate parts, c ≠ sep ∧ c ≠ '/') ∨
      ∃ init last, [sep].intercalate parts = init ++ sep :: last ∧
        (∀ c ∈ last, c ≠ sep ∧ c ≠ '/') ∧ ∃ q c, init = q ++ [c] ∧ c ≠ sep ∧ c ≠ '/' := by
  induction parts using List.reverseRecOn with
  | nil => exact .inl (by simp)
  | append_singleton parts last _ =>
    obtain ⟨hparts, -, hsep, hslash⟩ := h.fewer
    have free : ∀ c ∈ last, c ≠ sep ∧ c ≠ '/' :=
      fun c hc => ⟨fun heq => hsep (heq ▸ hc), fun heq => hslash (heq ▸ hc)⟩
    by_cases ne : parts = []
    · subst ne
      exact .inl (by simpa using free)
    · obtain ⟨q, c, heq, hc⟩ := hparts.last ne
      exact .inr ⟨_, last, intercalate_concat sep ne last, free, q, c, heq, hc⟩

/-! ## The directory of a normalised path -/

/-- A normalised path: a root, and clean parts behind it. -/
def Normal : Style → Text → Prop
  | .windows, path => ∃ d parts, d.toNat < 128 ∧ Clean '\\' parts ∧
      path = d :: ':' :: '\\' :: ['\\'].intercalate parts
  | .posix, path => ∃ parts, Clean '/' parts ∧ path = '/' :: ['/'].intercalate parts

theorem rsplitOnce_append (root : Text) {rest : Text} (h : ∀ c ∈ rest, c ≠ sep) :
    rsplitOnce sep (root ++ [sep] ++ rest) = some root := by
  have mem : sep ∈ root ++ [sep] ++ rest := by simp
  rw [rsplitOnce, if_pos mem, rdropWhile_append _ fun c hc => by simpa using h c hc,
    List.rdropWhile_concat_neg _ _ _ (by simp), List.dropLast_concat]

theorem parent_windows {t : Text} (h : Normal .windows t) :
    parent true '\\' t = some (ntDirname t) := by
  obtain ⟨d, parts, hd, clean, rfl⟩ := h
  obtain free | ⟨init, last, heq, free, q, c, rfl, hc⟩ := clean.cut
  · -- a file in the root of the drive
    have split : rsplitOnce '\\' (d :: ':' :: '\\' :: ['\\'].intercalate parts) = some [d, ':'] :=
      rsplitOnce_append [d, ':'] fun c hc => (free c hc).1
    have bytes : byteLength [d, ':'] = 2 := by
      show d.utf8Size + (1 + 0) = 2
      rw [utf8Size_of_lt hd]
    have head : ntHead (['\\'].intercalate parts) = [] := by
      have none : (['\\'].intercalate parts).rdropWhile (fun c => !isSeparator c) = [] :=
        rdropWhile_all fun c hc => by simpa [isSeparator] using free c hc
      rw [ntHead, none, List.rdropWhile_nil]
    rw [parent, split, Option.map_some, if_pos ⟨bytes, rfl⟩]
    show some _ = some (d :: ':' :: '\\' :: ntHead (['\\'].intercalate parts))
    rw [head]
    rfl
  · have split : rsplitOnce '\\' (d :: ':' :: '\\' :: ['\\'].intercalate parts) =
        some (d :: ':' :: '\\' :: (q ++ [c])) := by
      rw [heq]
      have := rsplitOnce_append (d :: ':' :: '\\' :: (q ++ [c])) fun c hc => (free c hc).1
      simpa using this
    have bytes : byteLength (d :: ':' :: '\\' :: (q ++ [c])) ≠ 2 := by
      show d.utf8Size + (1 + (1 + byteLength (q ++ [c]))) ≠ 2
      rw [utf8Size_of_lt hd]
      omega
    have head : ntHead (['\\'].intercalate parts) = q ++ [c] := by
      rw [heq, ntHead, show q ++ [c] ++ '\\' :: last = q ++ [c] ++ ['\\'] ++ last by simp,
        rdropWhile_append _ fun c hc => by simpa [isSeparator] using free c hc,
        List.rdropWhile_concat_neg _ _ _ (by simp [isSeparator]),
        List.rdropWhile_concat_pos _ _ _ (by simp [isSeparator]),
        List.rdropWhile_concat_neg _ _ _ (by simpa [isSeparator] using hc)]
    rw [parent, split, Option.map_some, if_neg fun h => bytes h.1, if_neg (List.cons_ne_nil _ _)]
    show some _ = some (d :: ':' :: '\\' :: ntHead (['\\'].intercalate parts))
    rw [head]

theorem parent_posix {t : Text} (h : Normal .posix t) :
    parent false '/' t = some (posixDirname t) := by
  obtain ⟨parts, clean, rfl⟩ := h
  obtain free | ⟨init, last, heq, free, q, c, rfl, hc⟩ := clean.cut
  · have split : rsplitOnce '/' ('/' :: ['/'].intercalate parts) = some [] :=
      rsplitOnce_append [] fun c hc => (free c hc).1
    have head : ('/' :: ['/'].intercalate parts).rdropWhile (fun c => decide (c ≠ '/')) = ['/'] := by
      rw [show '/' :: ['/'].intercalate parts = ['/'] ++ ['/'].intercalate parts from rfl,
        rdropWhile_append _ fun c hc => by simpa using (free c hc).1]
      rfl
    rw [parent, split, Option.map_some, posixDirname, head]
    rfl
  · have split : rsplitOnce '/' ('/' :: ['/'].intercalate parts) = some ('/' :: (q ++ [c])) := by
      rw [heq]
      have := rsplitOnce_append ('/' :: (q ++ [c])) fun c hc => (free c hc).1
      simpa using this
    have head : ('/' :: ['/'].intercalate parts).rdropWhile (fun c => decide (c ≠ '/')) =
        '/' :: (q ++ [c]) ++ ['/'] := by
      rw [heq, show '/' :: (q ++ [c] ++ '/' :: last) = '/' :: (q ++ [c]) ++ ['/'] ++ last by simp,
        rdropWhile_append _ fun c hc => by simpa using (free c hc).1,
        List.rdropWhile_concat_neg _ _ _ (by simp)]
    have some_ : ('/' :: (q ++ [c]) ++ ['/']).all (fun c => decide (c = '/')) = false := by
      simp [hc.1]
    have strip : rstrip '/' ('/' :: (q ++ [c]) ++ ['/']) = '/' :: (q ++ [c]) := by
      rw [rstrip, List.rdropWhile_concat_pos _ _ _ (by simp), ← List.cons_append,
        List.rdropWhile_concat_neg _ _ _ (by simpa using hc.1)]
    rw [parent, split, Option.map_some, if_neg (by simp), if_neg (List.cons_ne_nil _ _),
      posixDirname, head, some_, strip]
    rfl

/-! ## Reserved names -/

theorem head_splitOn (l : Text) :
    ((l.splitOn '.').head?).getD [] = l.takeWhile (fun c => decide (c ≠ '.')) := by
  induction l with
  | nil => rfl
  | cons c l ih =>
    rw [List.splitOn_cons_eq_if_modifyHead]
    by_cases hc : c = '.'
    · simp [hc]
    · cases hparts : l.splitOn '.' with
      | nil => exact absurd hparts (List.splitOn_ne_nil _ _)
      | cons part parts =>
        rw [hparts] at ih
        simp only [List.head?_cons, Option.getD_some] at ih
        simp [hc, ih]

theorem one_byte {l : Text} (h : byteLength l = 1) : ∃ c, l = [c] := by
  match l with
  | [] => cases h
  | [c] => exact ⟨c, rfl⟩
  | c :: d :: l =>
    have hc := c.utf8Size_pos
    have hd := d.utf8Size_pos
    have : c.utf8Size + (d.utf8Size + byteLength l) = 1 := h
    omega

theorem digit_of_isDigit {c : Char} (h : c.isDigit = true) (ne : c ≠ '0') :
    c ∈ ['1', '2', '3', '4', '5', '6', '7', '8', '9'] := by
  rw [Char.isDigit_iff_toNat] at h
  have low : 48 ≤ c.toNat := h.1
  have high : c.toNat ≤ 57 := h.2
  have back := Char.ofNat_toNat c
  generalize c.toNat = n at low high back
  subst back
  interval_cases n
  · exact absurd rfl ne
  all_goals decide

theorem contains_ports (stem : Text) : ports.contains stem =
    (decide (byteLength stem = 4) &&
      (['C', 'O', 'M'].isPrefixOf stem || ['L', 'P', 'T'].isPrefixOf stem) &&
      (stem[3]?).any (fun c => c.isDigit && decide (c ≠ '0'))) := by
  rw [Bool.eq_iff_iff]
  constructor
  · intro h
    have all : ∀ stem ∈ ports, (decide (byteLength stem = 4) &&
      (['C', 'O', 'M'].isPrefixOf stem || ['L', 'P', 'T'].isPrefixOf stem) &&
      (stem[3]?).any (fun c => c.isDigit && decide (c ≠ '0'))) = true := by decide
    exact all stem (List.contains_iff_mem.mp h)
  · intro h
    simp only [Bool.and_eq_true, Bool.or_eq_true, decide_eq_true_eq, List.isPrefixOf_iff_prefix,
      Option.any_eq_true] at h
    obtain ⟨⟨bytes, begins⟩, c, hc, digit, ne⟩ := h
    have letters : ∀ port ∈ [['C', 'O', 'M'], ['L', 'P', 'T']],
        byteLength port = 3 ∧ port.length = 3 := by decide
    have known : ∀ port ∈ [['C', 'O', 'M'], ['L', 'P', 'T']], port <+: stem →
        ports.contains stem = true := by
      rintro port hport ⟨rest, rfl⟩
      have three := letters port hport
      have one : byteLength rest = 1 := by
        have sum : byteLength (port ++ rest) = byteLength port + byteLength rest := by
          simp [byteLength]
        omega
      obtain ⟨d, rfl⟩ := one_byte one
      rw [List.getElem?_append_right (by omega), three.2] at hc
      cases hc
      rw [List.contains_iff_mem, ports, List.mem_flatMap]
      exact ⟨port, hport, List.mem_map.mpr ⟨c, digit_of_isDigit digit ne, rfl⟩⟩
    rcases begins with begins | begins
    · exact known _ (by simp) begins
    · exact known _ (by simp) begins

theorem takeWhile_dot {stem rest : Text} (free : '.' ∉ stem)
    (h : rest = [] ∨ ∃ suffix, rest = '.' :: suffix) :
    (stem ++ rest).takeWhile (fun c => decide (c ≠ '.')) = stem := by
  have all : ∀ c ∈ stem, decide (c ≠ '.') = true := by
    intro c hc
    apply decide_eq_true
    rintro rfl
    exact free hc
  rw [List.takeWhile_append_of_pos all]
  rcases h with rfl | ⟨suffix, rfl⟩ <;> simp

theorem matchesReserved_eq {part : Text} (newline : '\n' ∉ part) : matchesReserved part =
    (devices ++ ports).contains ((part.takeWhile (fun c => decide (c ≠ '.'))).map upper) := by
  have dotless : ∀ name ∈ devices ++ ports, '.' ∉ name := by decide
  have upper_dot : ∀ {l : Text}, '.' ∈ l.map upper ↔ '.' ∈ l := by
    intro l
    rw [List.mem_map]
    constructor
    · rintro ⟨c, hc, heq⟩
      rwa [(upper_eq_iff (by decide)).mp heq] at hc
    · intro hc
      exact ⟨'.', hc, (upper_eq_iff (by decide)).mpr rfl⟩
  rw [Bool.eq_iff_iff, List.contains_iff_mem, matchesReserved, List.any_eq_true]
  constructor
  · rintro ⟨name, hname, h⟩
    rw [Bool.and_eq_true, decide_eq_true_eq] at h
    obtain ⟨stem, suffix⟩ := h
    have free : '.' ∉ part.take name.length := by
      rw [← upper_dot, stem]
      exact dotless name hname
    have split : part.takeWhile (fun c => decide (c ≠ '.')) = part.take name.length := by
      conv_lhs => rw [← List.take_append_drop name.length part]
      apply takeWhile_dot free
      revert suffix
      cases part.drop name.length with
      | nil => exact fun _ => .inl rfl
      | cons c rest =>
        intro h
        simp only [Bool.and_eq_true, decide_eq_true_eq] at h
        exact .inr ⟨rest, by rw [h.1]⟩
    rw [split, stem]
    exact hname
  · intro hname
    refine ⟨_, hname, ?_⟩
    have split := List.takeWhile_append_dropWhile (p := fun c : Char => decide (c ≠ '.')) (l := part)
    generalize hstem : part.takeWhile (fun c => decide (c ≠ '.')) = stem at split hname ⊢
    have rest : ∀ c ∈ (part.dropWhile fun c => decide (c ≠ '.')).head?, c = '.' := by
      intro c hc
      have := List.head?_dropWhile_not (fun c : Char => decide (c ≠ '.')) part
      rw [hc] at this
      simpa using this
    have clean : '\n' ∉ part.dropWhile fun c => decide (c ≠ '.') :=
      fun hc => newline ((List.dropWhile_sublist _).subset hc)
    generalize part.dropWhile (fun c => decide (c ≠ '.')) = suffix at split rest clean
    rw [← split, List.length_map, List.take_left, List.drop_left, Bool.and_eq_true]
    refine ⟨decide_eq_true rfl, ?_⟩
    cases suffix with
    | nil => rfl
    | cons c suffix =>
      rw [List.mem_cons, not_or] at clean
      show (decide (c = '.') && suffix.all _) = true
      rw [rest c rfl]
      simpa using fun d hd (heq : d = '\n') => clean.2 (heq ▸ hd)

theorem stemReserved_eq {part : Text} (newline : '\n' ∉ part) :
    stemReserved part = matchesReserved part := by
  rw [matchesReserved_eq newline, stemReserved, head_splitOn]
  show (_ || _) = _
  rw [← contains_ports, Bool.eq_iff_iff]
  simp only [Bool.or_eq_true, List.contains_iff_mem, List.mem_append]

/-! ## Normalisation -/

theorem badPart_eq {part : Text} (newline : '\n' ∉ part) :
    badPart stemReserved part = badPart matchesReserved part := by
  rw [badPart, badPart, stemReserved_eq newline]

/-- The path leads to the root of a drive, with several separators behind the drive. -/
def overRoot (style : Style) (path : Text) : Bool :=
  decide (style = .windows) &&
    match backslashes path with
    | _ :: ':' :: '\\' :: rest => decide (rest ≠ []) && rest.all (fun c => decide (c = '\\'))
    | _ => false

theorem rstrip_eq_nil {l : Text} : rstrip sep l = [] ↔ ∀ c ∈ l, c = sep := by
  rw [rstrip, List.rdropWhile_eq_nil_iff]
  simp

theorem rstrip_isPrefix (l : Text) : rstrip sep l <+: l := List.rdropWhile_prefix _ _

theorem mem_of_part {rest part : Text} {c : Char} (hpart : part ∈ (rstrip sep rest).splitOn sep)
    (hc : c ∈ part) : c ∈ rest := by
  apply (rstrip_isPrefix rest).subset
  have back : [sep].intercalate ((rstrip sep rest).splitOn sep) = rstrip sep rest :=
    List.intercalate_splitOn sep
  rw [← back]
  generalize (rstrip sep rest).splitOn sep = parts at hpart
  induction parts with
  | nil => cases hpart
  | cons first parts ih =>
    cases parts with
    | nil =>
      rw [List.mem_singleton] at hpart
      rw [List.intercalate_singleton, ← hpart]
      exact hc
    | cons second parts =>
      rw [List.intercalate_cons_cons, List.mem_append, List.mem_append]
      rcases List.mem_cons.mp hpart with rfl | hpart
      · exact .inl (.inl hc)
      · exact .inr (ih hpart)

theorem mem_backslashes {c : Char} (h : c ∈ backslashes path) : (c ∈ path ∨ c = '\\') ∧ c ≠ '/' := by
  obtain ⟨d, hd, rfl⟩ := List.mem_map.mp h
  by_cases hslash : d = '/'
  · rw [if_pos hslash]
    exact ⟨.inr rfl, by decide⟩
  · rw [if_neg hslash]
    exact ⟨.inl hd, hslash⟩

theorem not_control_newline (h : path.any isControl = false) : '\n' ∉ path :=
  fun hmem => List.any_eq_false.mp h _ hmem (by decide)

theorem any_congr {α : Type} {p q : α → Bool} {l : List α} (h : ∀ a ∈ l, p a = q a) :
    l.any p = l.any q := by
  induction l with
  | nil => rfl
  | cons a l ih =>
    rw [List.any_cons, List.any_cons, h a (List.mem_cons_self ..),
      ih fun b hb => h b (List.mem_cons_of_mem _ hb)]

theorem normalize_eq (c1 : path.any isC1 = false) (inside : overRoot style path = false) :
    normalize path (decide (style = .windows)) = normalizePath path style := by
  rw [normalize.eq_def, normalizePath.eq_def, any_isControlCc c1]
  by_cases refused : path = [] ∨ 2048 < path.length ∨ path.any isControl = true
  · rw [if_pos refused, if_pos refused]
  rw [if_neg refused, if_neg refused]
  have printable : path.any isControl = false := by
    simp only [not_or, Bool.not_eq_true] at refused
    exact refused.2.2
  cases style with
  | windows =>
    rw [if_pos (by decide)]
    dsimp only
    cases htext : backslashes path with
    | nil => rfl
    | cons d text =>
      split
      · rename_i d' tail heq
        cases heq
        have newline : '\n' ∉ tail := by
          intro hmem
          have inText : '\n' ∈ backslashes path := by simp [htext, hmem]
          rcases (mem_backslashes inText).1 with h | h
          · exact not_control_newline printable h
          · exact absurd h (by decide)
        have hover : tail = [] ∨ rstrip '\\' tail ≠ [] := by
          simp only [overRoot, htext, decide_true, Bool.true_and, Bool.and_eq_false_iff,
            decide_eq_false_iff_not, not_not, List.all_eq_false] at inside
          rcases inside with h | ⟨c, hc, ne⟩
          · exact .inl h
          · exact .inr fun hnil => ne (decide_eq_true (rstrip_eq_nil.mp hnil c hc))
        have parts : (if rstrip '\\' tail = [] then [] else (rstrip '\\' tail).splitOn '\\') =
            if tail = [] then [] else (rstrip '\\' tail).splitOn '\\' := by
          rcases hover with rfl | hrest
          · rfl
          · rw [if_neg hrest, if_neg]
            rintro rfl
            exact hrest rfl
        have bad : (if tail = [] then [] else (rstrip '\\' tail).splitOn '\\').any
              (badPart stemReserved) =
            (if tail = [] then [] else (rstrip '\\' tail).splitOn '\\').any
              (badPart matchesReserved) := by
          apply any_congr
          intro part hpart
          apply badPart_eq
          split at hpart
          · cases hpart
          · exact fun hmem => newline (mem_of_part hpart hmem)
        have joined : ['\\'].intercalate
            (if tail = [] then [] else (rstrip '\\' tail).splitOn '\\') = rstrip '\\' tail := by
          split
          · rename_i hnil
            rw [hnil]
            rfl
          · exact List.intercalate_splitOn '\\'
        rw [parts, bad, joined]
      · rfl
  | posix =>
    rw [if_neg (by decide)]
    split
    · rename_i tail
      by_cases begins : tail.head? = some '/'
      · rw [if_pos (.inl begins), if_pos (.inl begins)]
      have whole : tail.dropWhile (fun c => decide (c = '/')) = tail := by
        cases tail with
        | nil => rfl
        | cons c tail =>
          apply List.dropWhile_cons_of_neg
          simpa using begins
      have hrest : rstrip '/' tail = [] ↔ tail = [] := by
        constructor
        · intro hnil
          cases tail with
          | nil => rfl
          | cons c tail =>
            have := rstrip_eq_nil.mp hnil c (List.mem_cons_self ..)
            exact absurd (by rw [this]; rfl) begins
        · rintro rfl
          rfl
      rw [whole]
      by_cases hnil : tail = []
      · subst hnil
        rfl
      · have ne : rstrip '/' tail ≠ [] := fun h => hnil (hrest.mp h)
        have joined : ['/'].intercalate ((rstrip '/' tail).splitOn '/') = rstrip '/' tail :=
          List.intercalate_splitOn '/'
        simp only [begins, ne, hnil, false_or, ne_eq, not_false_eq_true, true_and, if_false, joined]
    · rfl

theorem not_mem_splitOn {l part : Text} (h : part ∈ l.splitOn sep) : sep ∉ part := by
  induction l generalizing part with
  | nil =>
    rw [List.mem_singleton.mp h]
    exact List.not_mem_nil
  | cons c l ih =>
    rw [List.splitOn_cons_eq_if_modifyHead] at h
    split at h
    · rcases List.mem_cons.mp h with rfl | h
      · exact List.not_mem_nil
      · exact ih h
    · rename_i ne
      cases hparts : l.splitOn sep with
      | nil => exact absurd hparts (List.splitOn_ne_nil _ _)
      | cons first rest =>
        rw [hparts] at h ih
        rcases List.mem_cons.mp h with rfl | h
        · rw [List.mem_cons, not_or]
          exact ⟨fun heq => ne (by simp [heq]), ih (List.mem_cons_self ..)⟩
        · exact ih (List.mem_cons_of_mem _ h)

/-- A part that the server refuses in a path of the style. -/
def refusedPart : Style → Text → Bool
  | .windows => badPart matchesReserved
  | .posix => dotPart

def root (style : Style) (d : Char) : Text :=
  match style with
  | .windows => [d, ':', '\\']
  | .posix => ['/']

/-- The normal form of a path, by its parts. -/
structure Shape (style : Style) (path n : Text) (d : Char) (parts : List Text) : Prop where
  eq : n = root style (upper d) ++ [style.sep].intercalate parts
  letter : style = .windows → isAsciiLetter d = true
  accepted : ∀ part ∈ parts, refusedPart style part = false
  free : ∀ part ∈ parts, style.sep ∉ part ∧ '/' ∉ part
  sub : ∀ part ∈ parts, ∀ c ∈ part, c ∈ path
  printable : path.any isControl = false
  length : n.length ≤ path.length
  short : path.length ≤ 2048

theorem normalizePath_shape {n : Text} (h : normalizePath path style = some n) :
    ∃ d parts, Shape style path n d parts := by
  rw [normalizePath.eq_def] at h
  split at h
  · cases h
  rename_i refused
  simp only [not_or, Nat.not_lt, Bool.not_eq_true] at refused
  obtain ⟨-, short, printable⟩ := refused
  cases style with
  | windows =>
    dsimp only at h
    split at h
    · rename_i d tail htext
      have inPath : ∀ c ∈ tail, (c ∈ path ∨ c = '\\') ∧ c ≠ '/' := by
        intro c hc
        exact mem_backslashes (htext ▸ by simp [hc])
      generalize hparts : (if tail = [] then [] else (rstrip '\\' tail).splitOn '\\') = parts at h
      split at h
      · cases h
      rename_i good
      simp only [not_or, Bool.not_eq_false, Bool.not_eq_true, List.any_eq_false] at good
      have joined : ['\\'].intercalate parts = rstrip '\\' tail := by
        rw [← hparts]
        split
        · rename_i hnil
          rw [hnil]
          rfl
        · exact List.intercalate_splitOn '\\'
      have mem : ∀ part ∈ parts, part ∈ (rstrip '\\' tail).splitOn '\\' := by
        intro part hpart
        rw [← hparts] at hpart
        split at hpart
        · cases hpart
        · exact hpart
      cases h
      refine ⟨d, parts, rfl, fun _ => good.1, good.2, fun part hpart =>
        ⟨not_mem_splitOn (mem part hpart), fun hc => ?_⟩, fun part hpart c hc => ?_, printable, ?_,
        short⟩
      · exact (inPath _ (mem_of_part (mem part hpart) hc)).2 rfl
      · obtain hc' | rfl := (inPath c (mem_of_part (mem part hpart) hc)).1
        · exact hc'
        · exact absurd hc (not_mem_splitOn (mem part hpart))
      · have len := congrArg List.length htext
        rw [backslashes, List.length_map] at len
        rw [len, joined]
        have := (@rstrip_isPrefix '\\' tail).length_le
        simp only [List.length_cons]
        omega
    · cases h
  | posix =>
    dsimp only at h
    split at h
    · rename_i tail
      generalize hparts : (if tail = [] then [] else (rstrip '/' tail).splitOn '/') = parts at h
      split at h
      · cases h
      rename_i good
      simp only [not_or, Bool.not_eq_true, List.any_eq_false] at good
      have joined : ['/'].intercalate parts = rstrip '/' tail := by
        rw [← hparts]
        split
        · rename_i hnil
          rw [hnil]
          rfl
        · exact List.intercalate_splitOn '/'
      have mem : ∀ part ∈ parts, part ∈ (rstrip '/' tail).splitOn '/' := by
        intro part hpart
        rw [← hparts] at hpart
        split at hpart
        · cases hpart
        · exact hpart
      cases h
      refine ⟨'/', parts, rfl, fun h => (by cases h), good.2, fun part hpart => ?_,
        fun part hpart c hc => ?_, printable, ?_, short⟩
      · have free : '/' ∉ part := not_mem_splitOn (mem part hpart)
        exact ⟨free, free⟩
      · exact List.mem_cons_of_mem _ (mem_of_part (mem part hpart) hc)
      · rw [joined]
        exact Nat.succ_le_succ (rstrip_isPrefix tail).length_le
    · cases h

theorem letter_toNat {d : Char} (h : isAsciiLetter d = true) :
    97 ≤ d.toNat ∧ d.toNat ≤ 122 ∨ 65 ≤ d.toNat ∧ d.toNat ≤ 90 := by
  simp only [isAsciiLetter, Bool.or_eq_true, decide_eq_true_eq] at h
  exact h

theorem upper_letter {d : Char} (h : isAsciiLetter d = true) :
    65 ≤ (upper d).toNat ∧ (upper d).toNat ≤ 90 := by
  have := letter_toNat h
  rw [upper_toNat]
  split <;> omega

theorem upper_upper (d : Char) : upper (upper d) = upper d := by
  have once := upper_toNat d
  rw [← Char.toNat_inj, upper_toNat (upper d)]
  split at once <;> split <;> omega

theorem Clean.cut_again {parts : List Text} (h : Clean sep parts) :
    (if [sep].intercalate parts = [] then []
      else (rstrip sep ([sep].intercalate parts)).splitOn sep) = parts := by
  by_cases ne : parts = []
  · subst ne
    rfl
  · obtain ⟨init, c, heq, hc, -⟩ := h.last ne
    have kept : rstrip sep ([sep].intercalate parts) = [sep].intercalate parts :=
      rdropWhile_self heq (by simpa using hc)
    rw [if_neg (h.ne_nil ne), kept, List.splitOn_intercalate sep (fun part hpart => (h part hpart).2.1) ne]

theorem Clean.head {parts : List Text} (h : Clean sep parts) :
    ([sep].intercalate parts).head? ≠ some sep := by
  intro hhead
  cases parts with
  | nil => cases hhead
  | cons part parts =>
    obtain ⟨ne, free, -⟩ := h part (List.mem_cons_self ..)
    obtain ⟨c, part, rfl⟩ := List.exists_cons_of_ne_nil ne
    have begins : ([sep].intercalate ((c :: part) :: parts)).head? = some c := by
      cases parts with
      | nil => rw [List.intercalate_singleton, List.head?_cons]
      | cons second parts => rw [List.intercalate_cons_cons]; rfl
    rw [begins, Option.some.injEq] at hhead
    exact free (by simp [hhead])

namespace Shape

variable {n : Text} {d : Char} {parts : List Text}

theorem clean (shape : Shape style path n d parts) : Clean style.sep parts := by
  intro part hpart
  refine ⟨?_, shape.free part hpart⟩
  rintro rfl
  have bad : refusedPart style [] = true := by cases style <;> rfl
  rw [shape.accepted [] hpart] at bad
  cases bad

theorem normal (shape : Shape style path n d parts) : Normal style n := by
  have clean := shape.clean
  rw [shape.eq]
  cases style with
  | windows =>
    have := upper_letter (shape.letter rfl)
    exact ⟨upper d, parts, by omega, clean, rfl⟩
  | posix => exact ⟨parts, clean, rfl⟩

theorem mem (shape : Shape style path n d parts) {c : Char} (hc : c ∈ n) :
    c ∈ root style (upper d) ∨ c = style.sep ∨ c ∈ path := by
  rw [shape.eq, List.mem_append] at hc
  obtain hc | hc := hc
  · exact .inl hc
  · obtain hc | ⟨part, hpart, hc⟩ := Texts.mem_intercalate hc
    · exact .inr (.inl (List.mem_singleton.mp hc))
    · exact .inr (.inr (shape.sub part hpart c hc))

theorem root_ascii (shape : Shape style path n d parts) {c : Char}
    (hc : c ∈ root style (upper d)) : 32 ≤ c.toNat ∧ c.toNat < 127 ∧ (c = '/' → style = .posix) := by
  cases style with
  | windows =>
    have letter := upper_letter (shape.letter rfl)
    simp only [root, List.mem_cons, List.not_mem_nil, or_false] at hc
    obtain rfl | rfl | rfl := hc
    · refine ⟨by omega, by omega, fun heq => ?_⟩
      rw [heq] at letter
      exact absurd letter (by decide)
    · decide
    · decide
  | posix =>
    rw [List.mem_singleton.mp hc]
    decide

theorem c1 (shape : Shape style path n d parts) {c : Char} (hc : c ∈ n) (h : isC1 c = true) :
    c ∈ path := by
  have range : 128 ≤ c.toNat ∧ c.toNat ≤ 159 := of_decide_eq_true h
  obtain hroot | rfl | hpath := shape.mem hc
  · have := shape.root_ascii hroot
    omega
  · exact absurd h (by cases style <;> decide)
  · exact hpath

theorem not_control (shape : Shape style path n d parts) : n.any isControl = false := by
  rw [List.any_eq_false]
  intro c hc
  obtain hroot | rfl | hpath := shape.mem hc
  · have := shape.root_ascii hroot
    simp only [isControl, Bool.or_eq_true, decide_eq_true_eq]
    omega
  · cases style <;> decide
  · exact List.any_eq_false.mp shape.printable c hpath

theorem no_slash (shape : Shape .windows path n d parts) : '/' ∉ n := by
  intro hc
  rw [shape.eq, List.mem_append] at hc
  obtain hc | hc := hc
  · cases (shape.root_ascii hc).2.2 rfl
  · obtain hc | ⟨part, hpart, hc⟩ := Texts.mem_intercalate hc
    · exact absurd (List.mem_singleton.mp hc) (by decide)
    · exact (shape.free part hpart).2 hc

theorem again (shape : Shape style path n d parts) : normalizePath n style = some n := by
  have cut := shape.clean.cut_again
  have head := shape.clean.head
  have accepted : parts.any (refusedPart style) = false := by
    rw [List.any_eq_false]
    exact fun part hpart => by rw [shape.accepted part hpart]; decide
  have hn := shape.eq
  have taken : ¬(n = [] ∨ 2048 < n.length ∨ n.any isControl = true) := by
    have len := shape.length
    have short := shape.short
    rw [shape.not_control]
    simp only [not_or, Nat.not_lt, Bool.false_eq_true, not_false_eq_true, and_true]
    refine ⟨?_, by omega⟩
    rw [hn]
    cases style <;> exact List.cons_ne_nil _ _
  rw [normalizePath.eq_def, if_neg taken]
  cases style with
  | windows =>
    have hn : n = upper d :: ':' :: '\\' :: ['\\'].intercalate parts := hn
    have same : backslashes n = upper d :: ':' :: '\\' :: ['\\'].intercalate parts := by
      rw [← hn]
      conv_rhs => rw [← List.map_id n]
      apply List.map_congr_left
      intro c hc
      apply if_neg
      rintro rfl
      exact shape.no_slash hc
    have letter : isAsciiLetter (upper d) = true := by
      have := upper_letter (shape.letter rfl)
      simp only [isAsciiLetter, Bool.or_eq_true, decide_eq_true_eq]
      exact .inr this
    show (match backslashes n with
      | d :: ':' :: '\\' :: rest =>
        if isAsciiLetter d = false ∨ (if rest = [] then [] else
            (rstrip '\\' rest).splitOn '\\').any (badPart matchesReserved) = true then none
        else some (upper d :: ':' :: '\\' :: ['\\'].intercalate
          (if rest = [] then [] else (rstrip '\\' rest).splitOn '\\'))
      | _ => none) = some n
    rw [same]
    show (if isAsciiLetter (upper d) = false ∨ (if ['\\'].intercalate parts = [] then [] else
            (rstrip '\\' (['\\'].intercalate parts)).splitOn '\\').any
              (badPart matchesReserved) = true then none
        else some (upper (upper d) :: ':' :: '\\' :: ['\\'].intercalate
          (if ['\\'].intercalate parts = [] then [] else
            (rstrip '\\' (['\\'].intercalate parts)).splitOn '\\'))) = some n
    rw [show (if ['\\'].intercalate parts = [] then [] else
      (rstrip '\\' (['\\'].intercalate parts)).splitOn '\\') = parts from cut, letter,
      show parts.any (badPart matchesReserved) = false from accepted, upper_upper, hn]
    rfl
  | posix =>
    rw [hn]
    show (if (['/'].intercalate parts).head? = some '/' ∨ (if ['/'].intercalate parts = [] then []
          else (rstrip '/' (['/'].intercalate parts)).splitOn '/').any dotPart = true then none
        else some ('/' :: ['/'].intercalate (if ['/'].intercalate parts = [] then [] else
          (rstrip '/' (['/'].intercalate parts)).splitOn '/'))) =
      some ('/' :: ['/'].intercalate parts)
    rw [show (if ['/'].intercalate parts = [] then [] else
      (rstrip '/' (['/'].intercalate parts)).splitOn '/') = parts from cut,
      show parts.any dotPart = false from accepted, if_neg]
    simp only [Bool.false_eq_true, or_false]
    exact head

end Shape

/-! ## Folding -/

theorem map_intercalate (f : Char → Char) (parts : List Text) :
    ([sep].intercalate parts).map f = [f sep].intercalate (parts.map (List.map f)) := by
  induction parts with
  | nil => rfl
  | cons part parts ih =>
    cases parts with
    | nil => simp only [List.map_cons, List.map_nil, List.intercalate_singleton]
    | cons second parts =>
      rw [List.map_cons, List.map_cons, List.intercalate_cons_cons, List.intercalate_cons_cons,
        List.map_append, List.map_append, ih]
      rfl

theorem Normal.fold {t : Text} (h : Normal style t) : Normal style (fold style t) := by
  cases style with
  | posix => exact h
  | windows =>
    obtain ⟨d, parts, hd, clean, rfl⟩ := h
    refine ⟨lower d, parts.map (List.map lower), ?_, ?_, ?_⟩
    · rw [lower_toNat]
      split <;> omega
    · intro part hpart
      obtain ⟨before, hbefore, rfl⟩ := List.mem_map.mp hpart
      obtain ⟨ne, free, slash⟩ := clean before hbefore
      refine ⟨by simpa using ne, fun hc => ?_, fun hc => ?_⟩
      · obtain ⟨c, hc, heq⟩ := List.mem_map.mp hc
        exact free ((lower_eq_iff (by decide)).mp heq ▸ hc)
      · obtain ⟨c, hc, heq⟩ := List.mem_map.mp hc
        exact slash ((lower_eq_iff (by decide)).mp heq ▸ hc)
    · have same := @map_intercalate '\\' lower parts
      rw [show lower '\\' = '\\' by decide] at same
      show lower d :: lower ':' :: lower '\\' :: (['\\'].intercalate parts).map lower = _
      rw [same]
      rfl

theorem isC1_lower (c : Char) : isC1 (lower c) = isC1 c := by
  simp only [isC1, lower_toNat]
  split
  · rw [decide_eq_decide]
    omega
  · rfl

theorem any_isC1_fold (t : Text) : (fold style t).any isC1 = t.any isC1 := by
  unfold fold
  split
  · rw [List.any_map]
    exact any_congr fun c _ => isC1_lower c
  · rfl

theorem mem_rstrip {l : Text} {c : Char} (hc : c ∈ l) (ne : c ≠ sep) : c ∈ rstrip sep l := by
  rw [← List.rdropWhile_append_rtakeWhile (p := fun c => decide (c = sep)) (l := l),
    List.mem_append] at hc
  obtain hc | hc := hc
  · exact hc
  · have := List.mem_rtakeWhile_imp (p := fun c => decide (c = sep)) hc
    exact absurd (of_decide_eq_true this) ne

end Metnos.Filesystem
