import Mathlib.Data.List.Forall2

/-!
# Lib.Regex — backtracking patterns

Patterns as a backtracking engine reads them: alternatives in order, greedy and lazy repetition,
groups, the characters beside.  A pattern is run to the list of its successes, the preferred one
first; a search takes the first match from the left again and again.
-/

namespace Metnos.Regex

inductive Pattern
  | char (p : Char → Bool)
  | seq (a b : Pattern)
  | alt (a b : Pattern)
  | nothing
  | star (greedy : Bool) (a : Pattern)
  | group (n : ℕ) (a : Pattern)
  /-- The character before is none of these. -/
  | notAfter (p : Char → Bool)
  /-- The character that follows is none of these. -/
  | notBefore (p : Char → Bool)

/-- The texts of the groups, the last one read first. -/
abbrev Groups := List (ℕ × List Char)

def Groups.get (g : Groups) (n : ℕ) : List Char := (g.lookup n).getD []

/-- A place in a text. -/
structure At where
  prev : Option Char
  rest : List Char
  groups : Groups

/-- Repetition; a round that reads nothing ends it. -/
def repeated (greedy : Bool) (f : At → List At) : ℕ → At → List At
  | 0, s => [s]
  | fuel + 1, s =>
    let more := ((f s).filter fun t => t.rest.length < s.rest.length).flatMap
      (repeated greedy f fuel)
    if greedy then more ++ [s] else s :: more

/-- Where the pattern may end, in the order of preference. -/
def run : Pattern → At → List At
  | .char p, s =>
    match s.rest with
    | [] => []
    | c :: rest => if p c then [⟨some c, rest, s.groups⟩] else []
  | .seq a b, s => (run a s).flatMap (run b)
  | .alt a b, s => run a s ++ run b s
  | .nothing, s => [s]
  | .star greedy a, s => repeated greedy (run a) s.rest.length s
  | .group n a, s => (run a s).map fun t =>
      { t with groups := (n, s.rest.take (s.rest.length - t.rest.length)) :: t.groups }
  | .notAfter p, s => if s.prev.any p then [] else [s]
  | .notBefore p, s => if s.rest.head?.any p then [] else [s]

namespace Pattern

def lit : List Char → Pattern
  | [] => .nothing
  | c :: l => .seq (.char (· = c)) (lit l)

def chars : List (Char → Bool) → Pattern
  | [] => .nothing
  | p :: ps => .seq (.char p) (chars ps)

/-- `a+` -/
def some (greedy : Bool) (a : Pattern) : Pattern := .seq a (.star greedy a)

end Pattern

def matchAt (p : Pattern) (prev : Option Char) (rest : List Char) : Option At :=
  (run p ⟨prev, rest, []⟩).head?

/-- A text that was searched: the characters that were left, and the matches. -/
inductive Segment
  | left (c : Char)
  | hit (groups : Groups)

/-- The matches from the left, none of which overlaps another one or is empty. -/
def segmentsFrom (p : Pattern) : ℕ → Option Char → List Char → List Segment
  | 0, _, _ => []
  | _ + 1, _, [] => []
  | fuel + 1, prev, c :: rest =>
    match matchAt p prev (c :: rest) with
    | none => .left c :: segmentsFrom p fuel (some c) rest
    | some t =>
      if t.rest.length ≤ rest.length then .hit t.groups :: segmentsFrom p fuel t.prev t.rest
      else .left c :: segmentsFrom p fuel (some c) rest

def segments (p : Pattern) (text : List Char) : List Segment :=
  segmentsFrom p text.length none text

/-! ## What a pattern reads -/

section
variable {p : Pattern} {s t : At}

theorem run_char (q : Char → Bool) (s : At) : run (.char q) s = match s.rest with
    | [] => []
    | c :: rest => if q c then [⟨some c, rest, s.groups⟩] else [] := rfl

theorem run_group (n : ℕ) (a : Pattern) (s : At) : run (.group n a) s = (run a s).map fun t =>
    { t with groups := (n, s.rest.take (s.rest.length - t.rest.length)) :: t.groups } := rfl

theorem run_notAfter (q : Char → Bool) (s : At) :
    run (.notAfter q) s = if s.prev.any q then [] else [s] := rfl

theorem run_notBefore (q : Char → Bool) (s : At) :
    run (.notBefore q) s = if s.rest.head?.any q then [] else [s] := rfl

theorem mem_char {q : Char → Bool} : t ∈ run (.char q) s ↔
    ∃ c rest, s.rest = c :: rest ∧ q c = true ∧ t = ⟨some c, rest, s.groups⟩ := by
  rw [run_char]
  split
  · rename_i h
    simp [h]
  · rename_i c rest h
    split_ifs with hq
    · simp [h, hq]
    · simp [h, hq]

theorem mem_seq {a b : Pattern} : t ∈ run (.seq a b) s ↔ ∃ u ∈ run a s, t ∈ run b u :=
  List.mem_flatMap

theorem mem_alt {a b : Pattern} : t ∈ run (.alt a b) s ↔ t ∈ run a s ∨ t ∈ run b s :=
  List.mem_append

theorem mem_nothing : t ∈ run .nothing s ↔ t = s := List.mem_singleton

theorem mem_group {n : ℕ} {a : Pattern} : t ∈ run (.group n a) s ↔ ∃ u ∈ run a s,
    t = ⟨u.prev, u.rest, (n, s.rest.take (s.rest.length - u.rest.length)) :: u.groups⟩ := by
  simp only [run_group, List.mem_map, eq_comm]

theorem mem_notAfter {q : Char → Bool} :
    t ∈ run (.notAfter q) s ↔ (∀ c ∈ s.prev, q c = false) ∧ t = s := by
  rw [run_notAfter]
  cases hprev : s.prev with
  | none => simp
  | some c => cases hq : q c <;> simp [hq]

theorem mem_notBefore {q : Char → Bool} :
    t ∈ run (.notBefore q) s ↔ (∀ c ∈ s.rest.head?, q c = false) ∧ t = s := by
  rw [run_notBefore]
  cases hhead : s.rest.head? with
  | none => simp
  | some c => cases hq : q c <;> simp [hq]

theorem getLast?_cons_or (c : Char) (m : List Char) (x : Option Char) :
    (c :: m).getLast?.or x = m.getLast?.or (some c) := by
  cases hm : m.getLast? <;> simp [List.getLast?_cons, hm]

/-- Reading a given text. -/
theorem mem_lit {l : List Char} : t ∈ run (.lit l) s ↔ s.rest = l ++ t.rest ∧
    t = ⟨l.getLast?.or s.prev, t.rest, s.groups⟩ := by
  induction l generalizing s with
  | nil =>
    rw [Pattern.lit, mem_nothing]
    constructor
    · rintro rfl
      exact ⟨rfl, rfl⟩
    · rintro ⟨hrest, heq⟩
      obtain ⟨prev, rest, groups⟩ := s
      rw [heq]
      exact congrArg (fun r => (⟨prev, r, groups⟩ : At)) hrest.symm
  | cons c l ih =>
    rw [Pattern.lit, mem_seq]
    constructor
    · rintro ⟨u, hu, ht⟩
      obtain ⟨d, rest, hrest, hd, rfl⟩ := mem_char.mp hu
      obtain ⟨hl, heq⟩ := ih.mp ht
      obtain rfl : d = c := of_decide_eq_true hd
      rw [getLast?_cons_or]
      refine ⟨?_, heq⟩
      rw [hrest]
      exact congrArg (d :: ·) hl
    · rintro ⟨hrest, heq⟩
      rw [getLast?_cons_or] at heq
      refine ⟨⟨some c, l ++ t.rest, s.groups⟩, ?_, ih.mpr ⟨rfl, heq⟩⟩
      exact mem_char.mpr ⟨c, _, hrest, decide_eq_true rfl, rfl⟩

/-- Reading one character of each kind. -/
theorem mem_chars {ps : List (Char → Bool)} : t ∈ run (.chars ps) s ↔
    ∃ m, List.Forall₂ (fun p c => p c = true) ps m ∧ s.rest = m ++ t.rest ∧
      t = ⟨m.getLast?.or s.prev, t.rest, s.groups⟩ := by
  induction ps generalizing s with
  | nil =>
    rw [Pattern.chars, mem_nothing]
    constructor
    · rintro rfl
      exact ⟨[], .nil, rfl, rfl⟩
    · rintro ⟨m, hm, hrest, heq⟩
      cases hm
      obtain ⟨prev, rest, groups⟩ := s
      rw [heq]
      exact congrArg (fun r => (⟨prev, r, groups⟩ : At)) hrest.symm
  | cons p ps ih =>
    rw [Pattern.chars, mem_seq]
    constructor
    · rintro ⟨u, hu, ht⟩
      obtain ⟨c, rest, hrest, hc, rfl⟩ := mem_char.mp hu
      obtain ⟨m, hm, hl, heq⟩ := ih.mp ht
      refine ⟨c :: m, .cons hc hm, ?_, ?_⟩
      · rw [hrest]
        exact congrArg (c :: ·) hl
      · rw [getLast?_cons_or]
        exact heq
    · rintro ⟨m, hm, hrest, heq⟩
      obtain ⟨c, l, hc, hl, rfl⟩ := List.forall₂_cons_left_iff.mp hm
      rw [getLast?_cons_or] at heq
      exact ⟨⟨some c, l ++ t.rest, s.groups⟩, mem_char.mpr ⟨c, _, hrest, hc, rfl⟩,
        ih.mpr ⟨l, hl, rfl, heq⟩⟩

/-! ## A pattern reads a beginning of what is there -/

theorem repeated_suffix {f : At → List At} (hf : ∀ s, ∀ t ∈ f s, t.rest <:+ s.rest) {greedy : Bool}
    {fuel : ℕ} {s t : At} (h : t ∈ repeated greedy f fuel s) : t.rest <:+ s.rest := by
  induction fuel generalizing s with
  | zero =>
    cases List.mem_singleton.mp h
    exact List.suffix_rfl
  | succ fuel ih =>
    have round : t ∈ ((f s).filter fun t => t.rest.length < s.rest.length).flatMap
        (repeated greedy f fuel) → t.rest <:+ s.rest := by
      intro h
      obtain ⟨u, hu, ht⟩ := List.mem_flatMap.mp h
      exact (ih ht).trans (hf s u (List.mem_filter.mp hu).1)
    rw [repeated] at h
    split_ifs at h
    · rcases List.mem_append.mp h with h | h
      · exact round h
      · cases List.mem_singleton.mp h
        exact List.suffix_rfl
    · rcases List.mem_cons.mp h with rfl | h
      · exact List.suffix_rfl
      · exact round h

theorem run_suffix (h : t ∈ run p s) : t.rest <:+ s.rest := by
  induction p generalizing s t with
  | char q =>
    obtain ⟨c, rest, hrest, -, rfl⟩ := mem_char.mp h
    rw [hrest]
    exact List.suffix_cons c rest
  | seq a b iha ihb =>
    obtain ⟨u, hu, ht⟩ := mem_seq.mp h
    exact (ihb ht).trans (iha hu)
  | alt a b iha ihb =>
    rcases mem_alt.mp h with h | h
    · exact iha h
    · exact ihb h
  | nothing =>
    cases mem_nothing.mp h
    exact List.suffix_rfl
  | star greedy a ih => exact repeated_suffix (fun s t ht => ih ht) h
  | group n a ih =>
    obtain ⟨u, hu, rfl⟩ := mem_group.mp h
    have hread := ih hu
    exact hread
  | notAfter q =>
    obtain ⟨-, rfl⟩ := mem_notAfter.mp h
    exact List.suffix_rfl
  | notBefore q =>
    obtain ⟨-, rfl⟩ := mem_notBefore.mp h
    exact List.suffix_rfl

/-- The text that a group holds, once the whole is taken apart. -/
theorem take_sub {m rest : List Char} :
    (m ++ rest).take ((m ++ rest).length - rest.length) = m := by
  rw [List.length_append, Nat.add_sub_cancel, List.take_left' rfl]

theorem matchAt_mem {prev : Option Char} {rest : List Char} (h : matchAt p prev rest = some t) :
    t ∈ run p ⟨prev, rest, []⟩ := List.mem_of_mem_head? h

/-! ## Searching -/

/-- What is shown of every search: `u` was copied since the last match. -/
theorem segmentsFrom_induction (p : Pattern) {P : List Char → List Char → List Segment → Prop}
    (nil : ∀ u, P u [] [])
    (left : ∀ u c rest l, P (u ++ [c]) rest l → P u (c :: rest) (.left c :: l))
    (hit : ∀ u prev rest t l, (∀ c ∈ u.getLast?, prev = some c) → t ∈ run p ⟨prev, rest, []⟩ →
      P [] t.rest l → P u rest (.hit t.groups :: l))
    (fuel : ℕ) (u : List Char) (prev : Option Char) (rest : List Char) (hfuel : rest.length ≤ fuel)
    (hprev : ∀ c ∈ u.getLast?, prev = some c) : P u rest (segmentsFrom p fuel prev rest) := by
  induction fuel generalizing u prev rest with
  | zero =>
    obtain rfl := List.eq_nil_of_length_eq_zero (Nat.le_zero.mp hfuel)
    exact nil u
  | succ fuel ih =>
    cases rest with
    | nil => exact nil u
    | cons c rest =>
      have hlen : rest.length ≤ fuel := Nat.le_of_succ_le_succ hfuel
      have copied : P u (c :: rest) (.left c :: segmentsFrom p fuel (some c) rest) := by
        refine left u c rest _ (ih (u ++ [c]) (some c) rest hlen fun d hd => ?_)
        rw [List.getLast?_concat] at hd
        cases hd
        rfl
      rw [segmentsFrom]
      split
      · exact copied
      · rename_i t ht
        split_ifs with hshort
        · refine hit u prev (c :: rest) t _ hprev (matchAt_mem ht) ?_
          exact ih [] t.prev t.rest (Nat.le_trans hshort hlen) nofun
        · exact copied

theorem segments_induction (p : Pattern) {P : List Char → List Char → List Segment → Prop}
    (nil : ∀ u, P u [] [])
    (left : ∀ u c rest l, P (u ++ [c]) rest l → P u (c :: rest) (.left c :: l))
    (hit : ∀ u prev rest t l, (∀ c ∈ u.getLast?, prev = some c) → t ∈ run p ⟨prev, rest, []⟩ →
      P [] t.rest l → P u rest (.hit t.groups :: l)) (text : List Char) :
    P [] text (segments p text) :=
  segmentsFrom_induction p nil left hit text.length [] none text (Nat.le_refl _) nofun

theorem exists_hit_from {p : Pattern} {fuel : ℕ} {prev : Option Char} {rest : List Char}
    (hfuel : rest.length ≤ fuel) : (∃ g, .hit g ∈ segmentsFrom p fuel prev rest) ↔
      ∃ u after t, rest = u ++ after ∧ matchAt p (u.getLast?.or prev) after = some t ∧
        t.rest.length < after.length := by
  induction fuel generalizing prev rest with
  | zero =>
    obtain rfl := List.eq_nil_of_length_eq_zero (Nat.le_zero.mp hfuel)
    simp [segmentsFrom]
  | succ fuel ih =>
    cases rest with
    | nil => simp [segmentsFrom]
    | cons c rest =>
      have hlen : rest.length ≤ fuel := Nat.le_of_succ_le_succ hfuel
      -- a match at a later place is one of the rest
      have later : (∀ t, matchAt p prev (c :: rest) = some t → ¬ t.rest.length ≤ rest.length) →
          ((∃ g, .hit g ∈ Segment.left c :: segmentsFrom p fuel (some c) rest) ↔
            ∃ u after t, c :: rest = u ++ after ∧ matchAt p (u.getLast?.or prev) after = some t ∧
              t.rest.length < after.length) := by
        intro hhere
        have hmem : (∃ g, .hit g ∈ Segment.left c :: segmentsFrom p fuel (some c) rest) ↔
            ∃ g, .hit g ∈ segmentsFrom p fuel (some c) rest := by simp
        rw [hmem, ih hlen]
        constructor
        · rintro ⟨u, after, t, rfl, hmatch, hshort⟩
          exact ⟨c :: u, after, t, rfl, by rw [getLast?_cons_or]; exact hmatch, hshort⟩
        · rintro ⟨u, after, t, heq, hmatch, hshort⟩
          cases u with
          | nil =>
            obtain rfl : c :: rest = after := heq
            exact absurd (Nat.le_of_lt_succ hshort) (hhere t hmatch)
          | cons d u =>
            obtain ⟨rfl, hrest⟩ := List.cons.inj heq
            rw [getLast?_cons_or] at hmatch
            exact ⟨u, after, t, hrest, hmatch, hshort⟩
      rw [segmentsFrom]
      cases hmatch : matchAt p prev (c :: rest) with
      | none => exact later fun t ht => by rw [hmatch] at ht; cases ht
      | some t =>
        dsimp only
        split_ifs with hshort
        · refine ⟨fun _ => ⟨[], c :: rest, t, rfl, ?_, Nat.lt_succ_of_le hshort⟩,
            fun _ => ⟨t.groups, by simp⟩⟩
          exact hmatch
        · refine later fun t' ht => ?_
          rw [hmatch] at ht
          obtain rfl := Option.some.inj ht
          exact hshort

/-- A search finds something exactly if the pattern reads something at some place. -/
theorem exists_hit_iff {p : Pattern} {text : List Char} : (∃ g, .hit g ∈ segments p text) ↔
    ∃ u rest t, text = u ++ rest ∧ matchAt p u.getLast? rest = some t ∧
      t.rest.length < rest.length := by
  unfold segments
  rw [exists_hit_from (Nat.le_refl _)]
  simp only [Option.or_none]

/-! ## Patterns that look at nothing beside -/

/-- The pattern reads no bad character, and looks at no character beside. -/
def Pattern.Free (bad : Char → Prop) : Pattern → Prop
  | .char q => ∀ c, bad c → q c = false
  | .seq a b => a.Free bad ∧ b.Free bad
  | .alt a b => a.Free bad ∧ b.Free bad
  | .nothing => True
  | .star _ a => a.Free bad
  | .group _ a => a.Free bad
  | .notAfter _ => False
  | .notBefore _ => False

/-- From one place to the other no bad character was read. -/
def Reads (bad : Char → Prop) (s t : At) : Prop :=
  ∃ m, s.rest = m ++ t.rest ∧ ∀ c ∈ m, ¬ bad c

section
variable {bad : Char → Prop}

theorem Reads.refl (s : At) : Reads bad s s := ⟨[], rfl, nofun⟩

theorem Reads.trans {u : At} (su : Reads bad s u) (ut : Reads bad u t) : Reads bad s t := by
  obtain ⟨m, hm, good⟩ := su
  obtain ⟨m', hm', good'⟩ := ut
  refine ⟨m ++ m', by rw [hm, hm', List.append_assoc], fun c hc => ?_⟩
  rcases List.mem_append.mp hc with hc | hc
  · exact good c hc
  · exact good' c hc

theorem repeated_reads {f : At → List At} (hf : ∀ s, ∀ t ∈ f s, Reads bad s t) {greedy : Bool}
    {fuel : ℕ} (h : t ∈ repeated greedy f fuel s) : Reads bad s t := by
  induction fuel generalizing s with
  | zero =>
    cases List.mem_singleton.mp h
    exact .refl _
  | succ fuel ih =>
    have round : t ∈ ((f s).filter fun t => t.rest.length < s.rest.length).flatMap
        (repeated greedy f fuel) → Reads bad s t := by
      intro h
      obtain ⟨u, hu, ht⟩ := List.mem_flatMap.mp h
      exact (hf s u (List.mem_filter.mp hu).1).trans (ih ht)
    rw [repeated] at h
    split_ifs at h
    · rcases List.mem_append.mp h with h | h
      · exact round h
      · cases List.mem_singleton.mp h
        exact .refl _
    · rcases List.mem_cons.mp h with rfl | h
      · exact .refl _
      · exact round h

theorem run_reads (free : p.Free bad) (h : t ∈ run p s) : Reads bad s t := by
  induction p generalizing s t with
  | char q =>
    obtain ⟨c, rest, hrest, hc, rfl⟩ := mem_char.mp h
    refine ⟨[c], hrest, fun d hd hbad => ?_⟩
    rw [List.mem_singleton.mp hd] at hbad
    rw [free c hbad] at hc
    cases hc
  | seq a b iha ihb =>
    obtain ⟨u, hu, ht⟩ := mem_seq.mp h
    exact (iha free.1 hu).trans (ihb free.2 ht)
  | alt a b iha ihb =>
    rcases mem_alt.mp h with h | h
    · exact iha free.1 h
    · exact ihb free.2 h
  | nothing =>
    cases mem_nothing.mp h
    exact .refl _
  | star greedy a ih => exact repeated_reads (fun s t ht => ih free ht) h
  | group n a ih =>
    obtain ⟨u, hu, rfl⟩ := mem_group.mp h
    have read : Reads bad s u := ih free hu
    exact read
  | notAfter q => exact absurd free id
  | notBefore q => exact absurd free id

end

variable {bad : Char → Prop} {x : List Char}

end

end Metnos.Regex
