import Mathlib.Data.List.Flatten
import Metnos.Lib.Dynamic
import Metnos.Lib.PosixPath
import Metnos.Lib.Transaction

/-!
# Contracts.CodeDigest — the digest of the declared code files

`_code_digest` reads the files of a manifest in the order of their declaration and hashes their
bytes one after the other.  Nothing marks where a file ends.
-/

namespace Metnos.Contracts

open PosixPath Dynamic Transaction

abbrev Bytes := List UInt8

/-- `ContractStoreError`, by its code. -/
inductive ContractStoreError
  | codeFilesInvalid | codeRootInvalid | codeRootsMissing | codePathAbsolute | codePathEscape
  | codeFileMissing | codeTargetEscape | codeFileInvalid | codeFileUnreadable | codeDigestMismatch
  | reattestationSnapshotInvalid | reattestationSourceChanged
  | other (code : String)
deriving DecidableEq

def orRaise {α : Type} (e : ContractStoreError) : Option α → Except ContractStoreError α
  | some a => .ok a
  | none => .error e

def require (e : ContractStoreError) (b : Bool) : Except ContractStoreError Unit :=
  if b then .ok () else .error e

/-- What the file system answers about paths, given by their parts. -/
structure Tree where
  /-- `resolve(strict=True)` -/
  resolve : List Text → Option (List Text)
  isFile : List Text → Bool
  read : List Text → Option Bytes

structure ManifestRef where
  manifestDir : Text
  allowedCodeRoots : List Text
  /-- The working directory, for `os.path.abspath`. -/
  cwd : Text

/-! ## Paths -/

/-- `Path(path).parts` -/
def pathParts (path : Text) : List Text :=
  (if root path = [] then [] else [root path]) ++
    (path.splitOn '/').filter (fun part => part ≠ [] ∧ part ≠ dot)

def isAbsolute (path : Text) : Bool := path.head? = some '/'

/-- The parts of `os.path.abspath(path)`. -/
def abspath (cwd path : Text) : List Text :=
  let full := if isAbsolute path then path else cwd ++ '/' :: path
  root full :: components full

/-- The parts of `os.path.abspath(base / candidate)`. -/
def abspathUnder (base : List Text) (candidate : Text) : List Text :=
  match base with
  | [] => []
  | anchor :: parts => anchor :: resolve true [] (parts ++ candidate.splitOn '/')

/-- `_inside` -/
def inside (path root : List Text) : Bool := root.isPrefixOf path

/-! ## Reading -/

/-- `code.files`, when it is a list of names. -/
def codeFiles (parsed : Dict) : Option (List String) := do
  let code ← asDict (parsed.get "code")
  let files ← asList (code.get "files")
  let names ← files.mapM asStr
  if files.isEmpty ∨ names.any (fun name => name.isEmpty) then none else some names

section
variable (ref : ManifestRef) (t : Tree)

/-- One round of the loop of `_code_digest`: the bytes of a declared file. -/
def readDeclared (resolvedRoots : List (List Text)) (declared : String) :
    Except ContractStoreError Bytes := do
  let candidate := declared.toList
  require .codePathAbsolute (!isAbsolute candidate)
  let lexical := abspathUnder (abspath ref.cwd ref.manifestDir) candidate
  require .codePathEscape ((ref.allowedCodeRoots.map (abspath ref.cwd)).any (inside lexical))
  let resolved ← orRaise .codeFileMissing (t.resolve lexical)
  require .codeTargetEscape (resolvedRoots.any (inside resolved))
  require .codeFileInvalid (t.isFile resolved)
  orRaise .codeFileUnreadable (t.read resolved)

def codeRoots : Except ContractStoreError (List (List Text)) := do
  let roots ← orRaise .codeRootInvalid
    (ref.allowedCodeRoots.mapM (fun root => t.resolve (pathParts root)))
  require .codeRootsMissing (!ref.allowedCodeRoots.isEmpty)
  return roots

variable {δ : Type} (sha256 : Bytes → δ)

/-- `_code_digest`; `sha256` gives the digest as it is written. -/
def codeDigest (parsed : Dict) : Except ContractStoreError δ := do
  let files ← orRaise .codeFilesInvalid (codeFiles parsed)
  let roots ← codeRoots ref t
  let contents ← files.mapM (readDeclared ref t roots)
  return sha256 contents.flatten

/-- The content of a declared file, as `_code_digest` reads it. -/
def content (declared : String) : Option Bytes :=
  (codeRoots ref t >>= fun roots => readDeclared ref t roots declared).toOption

/-! ## Checks -/

/-- What `_authenticate_payloads` returns of the signed manifest. -/
structure Authenticated (δ : Type) where
  parsed : Dict
  declaredCodeDigest : δ

/-- `_verify_payloads`, once the manifest is authenticated and compared with the current
standard. -/
def verifyPayloads [DecidableEq δ] (authenticated : Except ContractStoreError (Authenticated δ))
    (standard : Dict → Except ContractStoreError Unit) : Except ContractStoreError δ := do
  let a ← authenticated
  standard a.parsed
  let actual ← codeDigest ref t sha256 a.parsed
  require .codeDigestMismatch (a.declaredCodeDigest = actual)
  return actual

/-- The check of `acquire_current_reattestation_snapshot` on its own copy of the files. -/
def checkSnapshot [DecidableEq δ] (current : Authenticated δ) (snapshot : String → Option Bytes) :
    Except ContractStoreError Unit := do
  let files ← orRaise .reattestationSnapshotInvalid
    ((asDict (current.parsed.get "code")).bind fun code => asList (code.get "files"))
  let contents ← orRaise .reattestationSnapshotInvalid
    (files.mapM (fun item => (asStr item).bind snapshot))
  require .reattestationSourceChanged (sha256 contents.flatten = current.declaredCodeDigest)

end

/-! ## Boundaries -/

theorem joined_eq {α : Type} {names : List α} {f g : α → Option Bytes} {xs ys : List Bytes}
    (hf : names.map f = xs.map some) (hg : names.map g = ys.map some)
    (joined : xs.flatten = ys.flatten) :
    (∀ n ∈ names, f n = g n) ↔ ∀ n ∈ names, (f n).map List.length = (g n).map List.length := by
  constructor
  · intro h n hn
    rw [h n hn]
  · intro h
    have lengths : xs.map List.length = ys.map List.length := by
      have hmap : (names.map f).map (Option.map List.length) =
          (names.map g).map (Option.map List.length) := by
        rw [List.map_map, List.map_map]
        exact List.map_congr_left h
      rw [hf, hg, List.map_map, List.map_map] at hmap
      refine List.map_injective_iff.mpr (Option.some_injective ℕ) ?_
      rw [List.map_map, List.map_map]
      exact hmap
    have same : xs = ys := List.eq_iff_flatten_eq.mpr ⟨joined, lengths⟩
    rw [← same, ← hf] at hg
    exact fun n hn => (List.map_inj_left.mp hg n hn).symm

@[simp] theorem orRaise_eq_ok {α : Type} {e : ContractStoreError} {x : Option α} {a : α} :
    orRaise e x = .ok a ↔ x = some a := by
  cases x <;> simp [orRaise]

@[simp] theorem require_eq_ok {e : ContractStoreError} {b : Bool} {u : Unit} :
    require e b = .ok u ↔ b = true := by
  cases b <;> simp [require]

theorem mapM_contents {ε α : Type} {f : α → Except ε Bytes} :
    ∀ {names : List α} {xs : List Bytes}, names.mapM f = .ok xs →
      names.map (fun n => (f n).toOption) = xs.map some
  | [], xs, h => by
    cases h
    rfl
  | n :: names, xs, h => by
    rw [List.mapM_cons] at h
    cases hn : f n with
    | error e =>
      rw [hn] at h
      cases h
    | ok x =>
      rw [hn] at h
      cases hrest : names.mapM f with
      | error e =>
        rw [hrest] at h
        cases h
      | ok rest =>
        rw [hrest] at h
        cases h
        rw [List.map_cons, List.map_cons, hn, mapM_contents hrest]
        rfl

section
variable {ref : ManifestRef} {t : Tree} {δ : Type} {sha256 : Bytes → δ} {parsed : Dict}

theorem codeDigest_ok {d : δ} (h : codeDigest ref t sha256 parsed = .ok d) :
    ∃ (files : List String) (xs : List Bytes), codeFiles parsed = some files ∧
      files.map (content ref t) = xs.map some ∧ d = sha256 xs.flatten := by
  unfold codeDigest at h
  simp only [bind_eq_ok, pure_eq_ok, orRaise_eq_ok] at h
  obtain ⟨files, hfiles, roots, hroots, xs, hxs, rfl⟩ := h
  refine ⟨files, xs, hfiles, ?_, rfl⟩
  rw [← mapM_contents hxs]
  refine List.map_congr_left fun n _ => ?_
  unfold content
  rw [hroots]
  rfl

theorem verifyPayloads_ok [DecidableEq δ] {a : Authenticated δ}
    {standard : Dict → Except ContractStoreError Unit} {d : δ}
    (h : verifyPayloads ref t sha256 (.ok a) standard = .ok d) :
    codeDigest ref t sha256 a.parsed = .ok a.declaredCodeDigest := by
  unfold verifyPayloads at h
  simp only [bind_eq_ok, pure_eq_ok, require_eq_ok, decide_eq_true_eq] at h
  obtain ⟨b, hb, -, -, actual, hactual, -, same, -⟩ := h
  obtain rfl : a = b := by cases hb; rfl
  rw [same]
  exact hactual

theorem mapM_names {items : List Json} {names : List String} (h : items.mapM asStr = some names)
    {f : String → Option Bytes} {xs : List Bytes}
    (hxs : items.mapM (fun item => (asStr item).bind f) = some xs) :
    names.map f = xs.map some := by
  induction items generalizing names xs with
  | nil =>
    rw [List.mapM_nil] at h hxs
    cases h
    cases hxs
    rfl
  | cons item items ih =>
    simp only [List.mapM_cons, Option.bind_eq_bind, Option.bind_eq_some_iff] at h hxs
    obtain ⟨name, hname, names', hnames, h⟩ := h
    obtain ⟨x, ⟨name', hname', hx⟩, xs', hxs', hrest⟩ := hxs
    cases h
    cases hrest
    obtain rfl := Option.some.inj (hname.symm.trans hname')
    rw [List.map_cons, List.map_cons, hx, ih hnames hxs']

theorem checkSnapshot_ok [DecidableEq δ] {a : Authenticated δ} {snapshot : String → Option Bytes}
    {files : List String} (declared : codeFiles a.parsed = some files)
    (h : checkSnapshot sha256 a snapshot = .ok ()) : ∃ xs : List Bytes,
      files.map snapshot = xs.map some ∧ a.declaredCodeDigest = sha256 xs.flatten := by
  unfold checkSnapshot at h
  simp only [bind_eq_ok, orRaise_eq_ok, require_eq_ok, decide_eq_true_eq,
    Option.bind_eq_some_iff] at h
  obtain ⟨items, ⟨code, hcode, hitems⟩, xs, hxs, same⟩ := h
  unfold codeFiles at declared
  simp only [Option.bind_eq_bind, Option.bind_eq_some_iff, hcode, hitems, Option.some.injEq,
    exists_eq_left'] at declared
  obtain ⟨names, hnames, hfiles⟩ := declared
  split at hfiles
  · cases hfiles
  · obtain rfl := Option.some.inj hfiles
    exact ⟨xs, mapM_names hnames hxs, same.symm⟩

/-- **What the signed digest binds.**  Where a tree hashes to the declared digest, another tree with
the same digest, a tree that passes verification, or a snapshot that passes its check has the same
declared files exactly when every file has the same length. -/
theorem code_digest_binds_iff [DecidableEq δ] (injective : Function.Injective sha256)
    {a : Authenticated δ} {files : List String} (declared : codeFiles a.parsed = some files)
    (signed : codeDigest ref t sha256 a.parsed = .ok a.declaredCodeDigest) :
    (∀ t' : Tree, codeDigest ref t' sha256 a.parsed = .ok a.declaredCodeDigest →
      ((∀ n ∈ files, content ref t' n = content ref t n) ↔
        ∀ n ∈ files, (content ref t' n).map List.length = (content ref t n).map List.length)) ∧
    (∀ (t' : Tree) (standard : Dict → Except ContractStoreError Unit) (d : δ),
      verifyPayloads ref t' sha256 (.ok a) standard = .ok d →
      ((∀ n ∈ files, content ref t' n = content ref t n) ↔
        ∀ n ∈ files, (content ref t' n).map List.length = (content ref t n).map List.length)) ∧
    ∀ snapshot : String → Option Bytes, checkSnapshot sha256 a snapshot = .ok () →
      ((∀ n ∈ files, snapshot n = content ref t n) ↔
        ∀ n ∈ files, (snapshot n).map List.length = (content ref t n).map List.length) := by
  obtain ⟨files', xs, hfiles, hxs, hd⟩ := codeDigest_ok signed
  obtain rfl := Option.some.inj (declared.symm.trans hfiles)
  have trees : ∀ t' : Tree, codeDigest ref t' sha256 a.parsed = .ok a.declaredCodeDigest →
      ((∀ n ∈ files, content ref t' n = content ref t n) ↔
        ∀ n ∈ files, (content ref t' n).map List.length = (content ref t n).map List.length) := by
    intro t' h'
    obtain ⟨files', ys, hfiles', hys, hd'⟩ := codeDigest_ok h'
    obtain rfl := Option.some.inj (declared.symm.trans hfiles')
    exact joined_eq hys hxs (injective (hd'.symm.trans hd))
  refine ⟨trees, fun t' standard d h' => trees t' (verifyPayloads_ok h'), fun snapshot h' => ?_⟩
  obtain ⟨ys, hys, hd'⟩ := checkSnapshot_ok declared h'
  exact joined_eq hys hxs (injective (hd'.symm.trans hd))

end

/-! ### Two files -/

def plainTree (dirs : List (List Text)) (files : List (List Text × Bytes)) : Tree where
  resolve p := if dirs.contains p || (files.lookup p).isSome then some p else none
  isFile p := (files.lookup p).isSome
  read p := files.lookup p

def sampleRef : ManifestRef := ⟨"/e/x".toList, ["/e/x".toList], "/".toList⟩

def sampleParsed : Dict := [("code", .obj [("files", .arr [.str "a.py", .str "b.py"])])]

/-- Both files in the directory of the manifest. -/
def sampleTree (a b : Bytes) : Tree :=
  let dir := ["/", "e", "x"].map String.toList
  plainTree [dir] [(dir ++ ["a.py".toList], a), (dir ++ ["b.py".toList], b)]

/-- The second tree differs in a path that is not declared. -/
theorem code_digest_binds_sample : content sampleRef (sampleTree [1] [2]) "a.py" = some [1] ∧
    ∀ n ∈ ["a.py", "b.py"], content sampleRef { sampleTree [1] [2] with
      isFile := fun p => (sampleTree [1] [2]).isFile p || p.isEmpty } n =
        content sampleRef (sampleTree [1] [2]) n := by
  refine ⟨by decide +kernel, ?_⟩
  have declared : codeFiles sampleParsed = some ["a.py", "b.py"] := by decide +kernel
  have signed : codeDigest sampleRef (sampleTree [1] [2]) id sampleParsed = .ok [1, 2] := by
    decide +kernel
  have bound := code_digest_binds_iff Function.injective_id (a := ⟨sampleParsed, [1, 2]⟩) declared
    signed
  exact (bound.1 _ (by decide +kernel)).mpr (by decide +kernel)

/-- A byte moves from the second file to the first. -/
theorem moved_boundary : ¬ ∀ (δ : Type) (sha256 : Bytes → δ), Function.Injective sha256 →
    ∀ (ref : ManifestRef) (parsed : Dict) (files : List String) (t t' : Tree) (d : δ),
      codeFiles parsed = some files → codeDigest ref t sha256 parsed = .ok d →
      codeDigest ref t' sha256 parsed = .ok d → ∀ n ∈ files, content ref t' n = content ref t n := by
  intro h
  have same := h Bytes id Function.injective_id sampleRef sampleParsed ["a.py", "b.py"]
    (sampleTree [1] [2]) (sampleTree [1, 2] []) [1, 2] (by decide +kernel) (by decide +kernel)
    (by decide +kernel) "a.py" (List.mem_cons_self ..)
  revert same
  decide +kernel

end Metnos.Contracts
