import Mathlib.Data.List.Basic
import Mathlib.Logic.Function.Basic

/-!
# Lib.Files — names, inodes and what `stat` shows of them

A name leads to an inode, and several names may lead to one.  A process that opened a file keeps
its inode; unlinking a name leaves the inode alone.  Times are readings of a clock that the
library knows nothing about: two changes may carry the same time.
-/

namespace Files

/-- File type and permission bits. -/
structure Mode where
  regular : Bool
  permissions : ℕ
deriving DecidableEq

structure Inode where
  mode : Mode
  content : List UInt8
  mtime : ℕ
  ctime : ℕ
deriving DecidableEq

/-- The columns of a `stat` result that tell one version of one file from another. -/
structure Stat where
  ino : ℕ
  mode : Mode
  size : ℕ
  mtime : ℕ
  ctime : ℕ
deriving DecidableEq

/-- The directory entries, the newest first, and the inodes. -/
structure FileSystem (N : Type) where
  entries : List (N × ℕ)
  inodes : ℕ → Inode

inductive Errno
  | noEntry | exists_
deriving DecidableEq

namespace FileSystem

variable {N : Type} (fs : FileSystem N)

def content (i : ℕ) : List UInt8 := (fs.inodes i).content

def mode (i : ℕ) : Mode := (fs.inodes i).mode

/-- `fstat`. -/
def stat (i : ℕ) : Stat :=
  let inode := fs.inodes i
  ⟨i, inode.mode, inode.content.length, inode.mtime, inode.ctime⟩

/-- `write` at the end of an open file. -/
def append (i : ℕ) (bytes : List UInt8) (now : ℕ) : FileSystem N :=
  let inode : Inode := ⟨fs.mode i, fs.content i ++ bytes, now, now⟩
  { fs with inodes := Function.update fs.inodes i inode }

/-- A change of the links of an inode shows in its `ctime`. -/
def touch (i : ℕ) (now : ℕ) : FileSystem N :=
  let inode : Inode := { fs.inodes i with ctime := now }
  { fs with inodes := Function.update fs.inodes i inode }

section
variable {fs} {n : N} {i j now : ℕ} {bytes : List UInt8}

@[simp] theorem stat_ino : (fs.stat i).ino = i := rfl

theorem append_content_self : (fs.append i bytes now).content i = fs.content i ++ bytes := by
  simp [append, content]

theorem append_content_ne (h : j ≠ i) : (fs.append i bytes now).content j = fs.content j := by
  simp [append, content, Function.update_of_ne h]

@[simp] theorem append_mode : (fs.append i bytes now).mode j = fs.mode j := by
  by_cases h : j = i
  · subst h
    simp [append, mode]
  · simp [append, mode, Function.update_of_ne h]

theorem append_stat_ne (h : j ≠ i) : (fs.append i bytes now).stat j = fs.stat j := by
  simp [append, stat, Function.update_of_ne h]

@[simp] theorem touch_content : (fs.touch i now).content j = fs.content j := by
  by_cases h : j = i
  · subst h
    simp [touch, content]
  · simp [touch, content, Function.update_of_ne h]

@[simp] theorem touch_mode : (fs.touch i now).mode j = fs.mode j := by
  by_cases h : j = i
  · subst h
    simp [touch, mode]
  · simp [touch, mode, Function.update_of_ne h]

theorem touch_stat_ne (h : j ≠ i) : (fs.touch i now).stat j = fs.stat j := by
  simp [touch, stat, Function.update_of_ne h]

end

/-! ### Changes of the directory -/

variable [DecidableEq N]

def names (n : N) : Option ℕ := (fs.entries.find? (fun e => e.1 = n)).map Prod.snd

def Free (i : ℕ) : Prop := ∀ e ∈ fs.entries, e.2 ≠ i

instance (i : ℕ) : Decidable (fs.Free i) := inferInstanceAs (Decidable (∀ e ∈ fs.entries, e.2 ≠ i))

def bind (n : N) (i : ℕ) : FileSystem N := { fs with entries := (n, i) :: fs.entries }

def unbind (n : N) : FileSystem N :=
  { fs with entries := fs.entries.filter (fun e => e.1 ≠ n) }

/-- `open` with `O_CREAT | O_EXCL`, which gives the new file the inode `i`. -/
def create (n : N) (mode : Mode) (i now : ℕ) : Except Errno (FileSystem N) :=
  match fs.names n with
  | some _ => .error .exists_
  | none => .ok
    { fs.bind n i with inodes := Function.update fs.inodes i ⟨mode, [], now, now⟩ }

/-- `link`: never over a name in use. -/
def link (source target : N) (now : ℕ) : Except Errno (FileSystem N) :=
  match fs.names source with
  | none => .error .noEntry
  | some i =>
    match fs.names target with
    | some _ => .error .exists_
    | none => .ok ((fs.touch i now).bind target i)

def unlink (n : N) (now : ℕ) : Except Errno (FileSystem N) :=
  match fs.names n with
  | none => .error .noEntry
  | some i => .ok ((fs.touch i now).unbind n)

variable {fs} {fs' : FileSystem N} {n source target : N} {i j now : ℕ} {bytes : List UInt8}

@[simp] theorem append_names : (fs.append i bytes now).names = fs.names := rfl

@[simp] theorem touch_names : (fs.touch i now).names = fs.names := rfl

theorem Free.names (h : fs.Free i) (n : N) : fs.names n ≠ some i := by
  intro hn
  obtain ⟨e, he, rfl⟩ := Option.map_eq_some_iff.mp hn
  exact h e (List.mem_of_find?_eq_some he) rfl

theorem bind_names : (fs.bind n i).names = Function.update fs.names n (some i) := by
  ext m : 1
  unfold FileSystem.names bind
  rw [List.find?_cons]
  by_cases h : n = m
  · subst h
    simp
  · simp [h, Function.update_of_ne (Ne.symm h)]

theorem unbind_names : (fs.unbind n).names = Function.update fs.names n none := by
  ext m : 1
  unfold FileSystem.names unbind
  rw [List.find?_filter]
  by_cases h : m = n
  · subst h
    simp
  · have same : (fun e : N × ℕ => decide (decide (e.1 ≠ n) = true ∧ decide (e.1 = m) = true)) =
        fun e => decide (e.1 = m) := by
      ext e
      by_cases he : e.1 = m
      · simp [he, h]
      · simp [he]
    simp only [same, Function.update_of_ne h]

/-- A new file is empty and has its name; every other file and name is as before. -/
structure Created (n : N) (mode : Mode) (i : ℕ) (fs fs' : FileSystem N) : Prop where
  free : fs.names n = none
  names : fs'.names = Function.update fs.names n (some i)
  content : fs'.content i = []
  mode : fs'.mode i = mode
  others : ∀ j, j ≠ i → fs'.inodes j = fs.inodes j

theorem create_ok {mode : Mode} (h : fs.create n mode i now = .ok fs') :
    Created n mode i fs fs' := by
  unfold create at h
  split at h
  · cases h
  · rename_i free
    cases h
    refine ⟨free, bind_names, ?_, ?_, fun j hj => Function.update_of_ne hj _ _⟩
    · simp [FileSystem.content]
    · simp [FileSystem.mode]

/-- A link adds one name of a file and changes the time of that file. -/
structure Linked (source target : N) (i : ℕ) (fs fs' : FileSystem N) : Prop where
  source : fs.names source = some i
  free : fs.names target = none
  names : fs'.names = Function.update fs.names target (some i)
  content : ∀ j, fs'.content j = fs.content j
  mode : ∀ j, fs'.mode j = fs.mode j
  others : ∀ j, j ≠ i → fs'.stat j = fs.stat j

theorem link_ok (h : fs.link source target now = .ok fs') : ∃ i, Linked source target i fs fs' := by
  unfold link at h
  split at h
  · cases h
  · rename_i i hsource
    split at h
    · cases h
    · rename_i free
      cases h
      exact ⟨i, hsource, free, bind_names, fun j => touch_content, fun j => touch_mode,
        fun j hj => touch_stat_ne hj⟩

/-- An unlink takes one name of a file away and changes the time of that file. -/
structure Unlinked (n : N) (i : ℕ) (fs fs' : FileSystem N) : Prop where
  name : fs.names n = some i
  names : fs'.names = Function.update fs.names n none
  content : ∀ j, fs'.content j = fs.content j
  mode : ∀ j, fs'.mode j = fs.mode j
  others : ∀ j, j ≠ i → fs'.stat j = fs.stat j

theorem unlink_ok (h : fs.unlink n now = .ok fs') : ∃ i, Unlinked n i fs fs' := by
  unfold unlink at h
  split at h
  · cases h
  · rename_i i hname
    cases h
    exact ⟨i, hname, unbind_names, fun j => touch_content, fun j => touch_mode,
      fun j hj => touch_stat_ne hj⟩

end FileSystem

end Files
