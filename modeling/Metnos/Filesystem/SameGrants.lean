import Metnos.Filesystem.Normal

/-!
# Filesystem.SameGrants — on which paths the server and the device agree

Both sides compare normalised paths alike, so that they answer the same unless one of them refuses
what the other takes: these are the disputed paths, and for each of them there is a grant on which
the answers differ.
-/

namespace Metnos.Filesystem

variable {style : Style} {path : Text}

/-! ## One grant -/

theorem covers_eq {g : Grant} {target root : Text} {request : Request} (hstyle : g.pathStyle = style)
    (normal : Normal style target) :
    covers g target root request = reaches g (decide (style = .windows)) target root request := by
  have sep : (if decide (style = .windows) = true then '\\' else '/') = style.sep := by
    cases style <;> rfl
  have dir : parent (decide (style = .windows)) style.sep target = some (dirname style target) := by
    cases style with
    | windows => exact parent_windows normal
    | posix => exact parent_posix normal
  rw [covers, reaches, hstyle, sep, dir]
  simp only [Option.some.injEq]
  cases g.kind with
  | file => rfl
  | folder =>
    generalize decide (target = root) = same
    generalize (rstrip style.sep root ++ [style.sep]).isPrefixOf target = descendant
    generalize (!(request.recursive && !g.recursive)) = deep
    generalize (!request.directory && decide (dirname style target = root)) = direct
    cases same <;> cases descendant <;> cases deep <;> cases g.recursive <;> cases direct <;> rfl

theorem covers_c1 {g : Grant} {target root : Text} {request : Request}
    (htarget : target.any isC1 = false) (hroot : root.any isC1 = true) :
    covers g target root request = false := by
  obtain ⟨c, hc, h⟩ := List.any_eq_true.mp hroot
  have outside : c ∉ target := fun hmem => by
    have := List.any_eq_false.mp htarget c hmem
    exact this h
  have ne : c ≠ g.pathStyle.sep := by
    rintro rfl
    revert h
    cases g.pathStyle <;> decide
  have same : decide (target = root) = false := by
    apply decide_eq_false
    rintro rfl
    exact outside hc
  have descendant : (rstrip g.pathStyle.sep root ++ [g.pathStyle.sep]).isPrefixOf target = false := by
    rw [Bool.eq_false_iff]
    intro hprefix
    have sub := (List.isPrefixOf_iff_prefix.mp hprefix).subset
    exact outside (sub (List.mem_append_left _ (mem_rstrip hc ne)))
  rw [covers, same, descendant]
  cases g.kind <;> rfl

/-! ## Disputed paths -/

/-- The server accepts a control character that the device refuses, or the device takes for the
root of a drive what the server refuses. -/
def disputed (style : Style) (path : Text) : Bool :=
  path.any isC1 && (normalizePath path style).isSome ||
    overRoot style path && (normalize path true).isSome

theorem normalize_c1 (windows : Bool) (h : path.any isC1 = true) : normalize path windows = none := by
  obtain ⟨c, hc, h⟩ := List.any_eq_true.mp h
  have control : path.any isControlCc = true :=
    List.any_eq_true.mpr ⟨c, hc, by rw [isControlCc_eq, h, Bool.or_true]⟩
  rw [normalize.eq_def, if_pos (.inr (.inr control))]

theorem normalizePath_overRoot (h : overRoot style path = true) : normalizePath path style = none := by
  simp only [overRoot, Bool.and_eq_true, decide_eq_true_eq] at h
  obtain ⟨rfl, h⟩ := h
  rw [normalizePath.eq_def]
  split
  · rfl
  dsimp only
  split
  · rename_i d tail htext
    simp only [htext, Bool.and_eq_true, decide_eq_true_eq, List.all_eq_true] at h
    have empty : rstrip '\\' tail = [] := rstrip_eq_nil.mpr h.2
    rw [if_neg h.1, empty, if_pos]
    exact .inr rfl
  · rfl

theorem not_overRoot {n : Text} (h : normalizePath path style = some n) :
    overRoot style path = false := by
  rw [Bool.eq_false_iff]
  intro hover
  rw [normalizePath_overRoot hover] at h
  cases h

/-- A row that the server stored for a device of the style. -/
def Stored (style : Style) (g : Grant) : Prop :=
  ∃ path kind read write recursive overwrite expiresAt now row revokedAt,
    createGrant style path kind read write recursive overwrite expiresAt now = some row ∧
      g = { row with revokedAt := revokedAt }

theorem Stored.normal {g : Grant} (h : Stored style g) :
    g.pathStyle = style ∧ normalizePath g.path style = some g.path := by
  obtain ⟨path, kind, read, write, recursive, overwrite, expiresAt, now, row, revokedAt, h, rfl⟩ := h
  obtain ⟨n, hn, h⟩ := Option.bind_eq_some_iff.mp h
  split at h
  · cases h
  · cases h
    obtain ⟨d, parts, shape⟩ := normalizePath_shape hn
    exact ⟨rfl, shape.again⟩

/-- What `permits` finds with one grant. -/
def serverFinds (g : Grant) (path : Text) (request : Request) : Bool :=
  match normalizePath path g.pathStyle, normalizePath g.path g.pathStyle with
  | some target, some root => covers g (fold g.pathStyle target) (fold g.pathStyle root) request
  | _, _ => false

theorem serverFinds_none {g : Grant} {request : Request}
    (h : normalizePath path g.pathStyle = none) : serverFinds g path request = false := by
  rw [serverFinds, h]

/-- What `allowed` finds with one grant. -/
def deviceFinds (g : Grant) (path : Text) (request : Request) : Bool :=
  let windows := decide (g.pathStyle = .windows)
  match normalize path windows, normalize g.path windows with
  | some target, some root =>
    if windows then reaches g windows (target.map lower) (root.map lower) request
    else reaches g windows target root request
  | _, _ => false

theorem deviceFinds_eq {g : Grant} {target root : Text} {request : Request}
    (hstyle : g.pathStyle = style)
    (htarget : normalize path (decide (style = .windows)) = some target)
    (hroot : normalize g.path (decide (style = .windows)) = some root) :
    deviceFinds g path request =
      reaches g (decide (style = .windows)) (fold style target) (fold style root) request := by
  rw [deviceFinds, hstyle, htarget, hroot]
  cases style <;> rfl

theorem finds_eq {g : Grant} (request : Request) (stored : Stored style g)
    (undisputed : disputed style path = false) :
    serverFinds g path request = deviceFinds g path request := by
  obtain ⟨hstyle, hroot⟩ := stored.normal
  simp only [disputed, Bool.or_eq_false_iff, Bool.and_eq_false_iff] at undisputed
  obtain ⟨c1, inside⟩ := undisputed
  cases htarget : normalizePath path style with
  | none =>
    have refused : normalize path (decide (style = .windows)) = none := by
      by_cases hc1 : path.any isC1 = true
      · exact normalize_c1 _ hc1
      by_cases hover : overRoot style path = true
      · have windows : style = .windows := by
          simp only [overRoot, Bool.and_eq_true, decide_eq_true_eq] at hover
          exact hover.1
        rw [hover] at inside
        subst windows
        simpa using inside
      · rw [normalize_eq (Bool.eq_false_iff.mpr hc1) (Bool.eq_false_iff.mpr hover), htarget]
    rw [serverFinds, deviceFinds, hstyle, htarget, refused]
  | some target =>
    have clean : path.any isC1 = false := by
      rw [htarget] at c1
      simpa using c1
    have same : normalize path (decide (style = .windows)) = some target := by
      rw [normalize_eq clean (not_overRoot htarget), htarget]
    obtain ⟨d, parts, shape⟩ := normalizePath_shape htarget
    have normal := shape.normal.fold
    have server : serverFinds g path request =
        covers g (fold style target) (fold style g.path) request := by
      rw [serverFinds, hstyle, htarget, hroot]
    by_cases hc1 : g.path.any isC1 = true
    · have refused := normalize_c1 (decide (style = .windows)) hc1
      have targetClean : target.any isC1 = false := by
        rw [List.any_eq_false]
        intro c hc h
        exact List.any_eq_false.mp clean c (shape.c1 hc h) h
      rw [server, covers_c1 (by rw [any_isC1_fold, targetClean]) (by rw [any_isC1_fold, hc1]),
        deviceFinds, hstyle, same, refused]
    · have root : normalize g.path (decide (style = .windows)) = some g.path := by
        rw [normalize_eq (Bool.eq_false_iff.mpr hc1) (not_overRoot hroot), hroot]
      rw [server, deviceFinds_eq hstyle same root, covers_eq hstyle normal]

/-! ## Agreement -/

/-- With every set of stored grants and every request, both sides answer the same for the path. -/
def Agree (style : Style) (path : Text) : Prop :=
  ∀ grants : List Grant, (∀ g ∈ grants, Stored style g) → ∀ (request : Request) (now : ℕ),
    permits grants path request now = allowed (listGrants grants now) path request now

theorem agree_of_undisputed (undisputed : disputed style path = false) : Agree style path := by
  intro grants stored request now
  rw [permits, allowed, listGrants, List.any_filter]
  apply any_congr
  intro g hg
  have same := finds_eq request (stored g hg) undisputed
  show (_ && _ && serverFinds g path request) = (_ && (_ && _ && deviceFinds g path request))
  rw [same, Grant.isActive]
  generalize g.revokedAt.isNone = valid
  generalize (!g.expiresAt.any fun t => decide (t ≤ now)) = fresh
  generalize g.allows request = allows
  generalize deviceFinds g path request = finds
  cases valid <;> cases fresh <;> cases allows <;> cases finds <;> rfl

/-- A folder that may be read, without a limit in time. -/
def readable (style : Style) (path : Text) : Grant where
  path := path
  pathStyle := style
  kind := .folder
  recursive := false
  canRead := true
  canWrite := false
  canOverwrite := false
  expiresAt := none
  revokedAt := none

def reading : Request := ⟨.read, false, false, false⟩

theorem stored_readable {n : Text} (h : normalizePath path style = some n) :
    Stored style (readable style n) :=
  ⟨path, .folder, true, false, false, false, none, 0, readable style n, none,
    by rw [createGrant, h]; rfl, rfl⟩

theorem covers_self (t : Text) : covers (readable style path) t t reading = true := by
  simp [covers, readable, reading]

theorem reaches_self {windows : Bool} (t : Text) :
    reaches (readable style path) windows t t reading = true := by
  simp [reaches, readable, reading]

theorem not_agree_c1 {n : Text} (hc1 : path.any isC1 = true)
    (hn : normalizePath path style = some n) : ¬Agree style path := by
  intro agree
  obtain ⟨d, parts, shape⟩ := normalizePath_shape hn
  have answers := agree [readable style n]
    (fun g hg => List.mem_singleton.mp hg ▸ stored_readable hn) reading 0
  have server : permits [readable style n] path reading 0 = true := by
    rw [permits, List.any_cons]
    show (true && true && serverFinds (readable style n) path reading || _) = true
    have finds : serverFinds (readable style n) path reading = true := by
      rw [serverFinds]
      show (match normalizePath path style, normalizePath n style with
        | some target, some root =>
          covers (readable style n) (fold style target) (fold style root) reading
        | _, _ => false) = true
      rw [hn, shape.again]
      exact covers_self _
    rw [finds]
    rfl
  have device : allowed (listGrants [readable style n] 0) path reading 0 = false := by
    rw [allowed, List.any_eq_false]
    intro g _
    show ¬(_ && deviceFinds g path reading) = true
    have refused : deviceFinds g path reading = false := by
      rw [deviceFinds, normalize_c1 _ hc1]
    rw [refused, Bool.and_false]
    exact Bool.false_ne_true
  rw [server, device] at answers
  cases answers

theorem not_agree_overRoot {n : Text} (hover : overRoot style path = true)
    (hn : normalize path true = some n) : ¬Agree style path := by
  intro agree
  have windows : style = .windows := by
    simp only [overRoot, Bool.and_eq_true, decide_eq_true_eq] at hover
    exact hover.1
  subst windows
  have shape : ∃ d, isAsciiLetter d = true ∧ n = [upper d, ':', '\\'] := by
    rw [normalize.eq_def] at hn
    split at hn
    · cases hn
    rw [if_pos rfl] at hn
    split at hn
    · rename_i d tail htext
      simp only [overRoot, htext, decide_true, Bool.true_and, Bool.and_eq_true, decide_eq_true_eq,
        List.all_eq_true] at hover
      have empty : rstrip '\\' tail = [] := rstrip_eq_nil.mpr hover.2
      simp only [empty, if_true, List.any_nil, Bool.false_eq_true, or_false] at hn
      split at hn
      · cases hn
      · rename_i good
        cases hn
        rw [Bool.not_eq_false] at good
        exact ⟨d, good, rfl⟩
    · cases hn
  obtain ⟨d, letter, rfl⟩ := shape
  have range := upper_letter letter
  have upperLetter : isAsciiLetter (upper d) = true := by
    simp only [isAsciiLetter, Bool.or_eq_true, decide_eq_true_eq]
    exact .inr range
  -- the root of the drive is its own normal form
  have own : Shape .windows [upper d, ':', '\\'] [upper d, ':', '\\'] (upper d) [] := by
    refine ⟨by rw [upper_upper]; rfl, fun _ => upperLetter, fun _ h => (by cases h),
      fun _ h => (by cases h), fun _ h => (by cases h), ?_, Nat.le_refl _, ?_⟩
    swap
    · show 3 ≤ 2048
      omega
    rw [List.any_eq_false]
    intro c hc
    simp only [List.mem_cons, List.not_mem_nil, or_false] at hc
    obtain rfl | rfl | rfl := hc
    · simp only [isControl, Bool.or_eq_true, decide_eq_true_eq]
      omega
    · decide
    · decide
  have answers := agree [readable .windows [upper d, ':', '\\']]
    (fun g hg => List.mem_singleton.mp hg ▸ stored_readable own.again) reading 0
  have server : permits [readable .windows [upper d, ':', '\\']] path reading 0 = false := by
    rw [permits, List.any_eq_false]
    intro g hg
    rw [List.mem_singleton.mp hg]
    show ¬(_ && serverFinds (readable .windows [upper d, ':', '\\']) path reading) = true
    have refused : serverFinds (readable .windows [upper d, ':', '\\']) path reading = false :=
      serverFinds_none (normalizePath_overRoot hover)
    rw [refused]
    simp
  have device : allowed (listGrants [readable .windows [upper d, ':', '\\']] 0) path reading 0 =
      true := by
    have c1 : List.any [upper d, ':', '\\'] isC1 = false := by
      rw [List.any_eq_false]
      intro c hc h
      have range : 128 ≤ c.toNat ∧ c.toNat ≤ 159 := of_decide_eq_true h
      have := own.root_ascii (c := c) (by rw [upper_upper]; exact hc)
      omega
    have root : normalize [upper d, ':', '\\'] true = some [upper d, ':', '\\'] := by
      have same := normalize_eq c1 (not_overRoot own.again)
      rw [own.again] at same
      exact same
    have finds : deviceFinds (readable .windows [upper d, ':', '\\']) path reading = true := by
      rw [deviceFinds_eq rfl hn root]
      exact reaches_self _
    show (true && true && deviceFinds (readable .windows [upper d, ':', '\\']) path reading || _) =
      true
    rw [finds]
    rfl
  rw [server, device] at answers
  cases answers

/-- The two sides agree on exactly the paths that are not disputed. -/
theorem grants_agree_iff (style : Style) (path : Text) :
    Agree style path ↔ disputed style path = false := by
  refine ⟨fun agree => ?_, agree_of_undisputed⟩
  rw [Bool.eq_false_iff]
  intro h
  simp only [disputed, Bool.or_eq_true, Bool.and_eq_true, Option.isSome_iff_exists] at h
  obtain ⟨hc1, n, hn⟩ | ⟨hover, n, hn⟩ := h
  · exact not_agree_c1 hc1 hn agree
  · exact not_agree_overRoot hover hn agree

/-- A name with a control character above the ASCII ones, and a drive with two separators. -/
theorem grants_disagree : ¬Agree .posix ['/', 'a', Char.ofNat 0x85] ∧
    ¬Agree .windows ['C', ':', '\\', '\\'] :=
  ⟨@not_agree_c1 _ _ ['/', 'a', Char.ofNat 0x85] (by decide) (by decide),
    @not_agree_overRoot _ _ ['C', ':', '\\'] (by decide) (by decide)⟩

end Metnos.Filesystem
