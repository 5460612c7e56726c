import Mathlib

/-!
# Filesystem.Grants — which paths a grant opens, on the server and on the device

The server and the client of a device read the same grants.  Each side normalises the requested
path and the path of the grant, in its own language, and compares the two.  Both sides are given
here as they are written; names that are the same on both sides are defined once.
-/

namespace Metnos.Filesystem

abbrev Text := List Char

/-- `path_style`. -/
inductive Style
  | windows | posix
deriving DecidableEq

def Style.sep : Style → Char
  | .windows => '\\'
  | .posix => '/'

inductive Kind
  | file | folder
deriving DecidableEq

/-- A row of `filesystem_grants`, without its owner and its device. -/
structure Grant where
  path : Text
  pathStyle : Style
  kind : Kind
  recursive : Bool
  canRead : Bool
  canWrite : Bool
  canOverwrite : Bool
  expiresAt : Option ℕ
  revokedAt : Option ℕ
deriving DecidableEq

inductive Access
  | read | write
deriving DecidableEq

/-- What is asked for besides the path. -/
structure Request where
  action : Access
  directory : Bool
  recursive : Bool
  overwrite : Bool
deriving DecidableEq

/-! ## Characters and names -/

/-- `str.rstrip` and `trim_end_matches`. -/
def rstrip (sep : Char) (l : Text) : Text := l.rdropWhile (fun c => decide (c = sep))

/-- `value.replace("/", "\\")`. -/
def backslashes (value : Text) : Text := value.map fun c => if c = '/' then '\\' else c

def isAsciiLetter (c : Char) : Bool :=
  decide ('a' ≤ c ∧ c ≤ 'z') || decide ('A' ≤ c ∧ c ≤ 'Z')

def upper (c : Char) : Char := if 'a' ≤ c ∧ c ≤ 'z' then Char.ofNat (c.toNat - 32) else c

def lower (c : Char) : Char := if 'A' ≤ c ∧ c ≤ 'Z' then Char.ofNat (c.toNat + 32) else c

/-- The characters that the server refuses. -/
def isControl (c : Char) : Bool := decide (c.toNat < 32) || decide (c.toNat = 127)

/-- `char::is_control`: the general category `Cc`. -/
def isControlCc (c : Char) : Bool :=
  decide (c.toNat < 32) || decide (127 ≤ c.toNat ∧ c.toNat ≤ 159)

def devices : List Text := [['C', 'O', 'N'], ['P', 'R', 'N'], ['A', 'U', 'X'], ['N', 'U', 'L']]

/-- `COM[1-9]` and `LPT[1-9]`. -/
def ports : List Text :=
  [['C', 'O', 'M'], ['L', 'P', 'T']].flatMap fun port =>
    ['1', '2', '3', '4', '5', '6', '7', '8', '9'].map fun d => port ++ [d]

/-- The pattern of a reserved name: one of the names in any case, and a suffix behind a dot. -/
def matchesReserved (part : Text) : Bool :=
  (devices ++ ports).any fun name =>
    decide ((part.take name.length).map upper = name) &&
      match part.drop name.length with
      | [] => true
      | c :: rest => decide (c = '.') && rest.all (fun c => decide (c ≠ '\n'))

def byteLength (l : Text) : ℕ := (l.map Char.utf8Size).sum

/-- `reserved`, on the part up to the first dot. -/
def stemReserved (part : Text) : Bool :=
  let stem := (((part.splitOn '.').head?).getD []).map upper
  devices.contains stem ||
    decide (byteLength stem = 4) &&
      (['C', 'O', 'M'].isPrefixOf stem || ['L', 'P', 'T'].isPrefixOf stem) &&
      (stem[3]?).any (fun c => c.isDigit && decide (c ≠ '0'))

/-- A part that neither side accepts in a Windows path. -/
def badPart (reserved : Text → Bool) (part : Text) : Bool :=
  decide (part = []) || decide (part = ['.']) || decide (part = ['.', '.']) ||
    part.getLast?.any (fun c => decide (c = '.') || decide (c = ' ')) ||
    part.any (fun c => [':', '*', '?', '<', '>', '|', '"'].contains c) || reserved part

/-- A part that neither side accepts in a path of the other systems. -/
def dotPart (part : Text) : Bool :=
  decide (part = []) || decide (part = ['.']) || decide (part = ['.', '.'])

/-! ## The server -/

/-- `normalize_path`. -/
def normalizePath (value : Text) (style : Style) : Option Text :=
  if value = [] ∨ 2048 < value.length ∨ value.any isControl = true then none
  else match style with
    | .windows =>
      match backslashes value with
      | d :: ':' :: '\\' :: rest =>
        let parts := if rest = [] then [] else (rstrip '\\' rest).splitOn '\\'
        if isAsciiLetter d = false ∨ parts.any (badPart matchesReserved) = true then none
        else some (upper d :: ':' :: '\\' :: ['\\'].intercalate parts)
      | _ => none
    | .posix =>
      match value with
      | '/' :: rest =>
        let parts := if rest = [] then [] else (rstrip '/' rest).splitOn '/'
        if rest.head? = some '/' ∨ parts.any dotPart = true then none
        else some ('/' :: ['/'].intercalate parts)
      | _ => none

/-- `posixpath.dirname`. -/
def posixDirname (path : Text) : Text :=
  let head := path.rdropWhile (fun c => decide (c ≠ '/'))
  if head.all (fun c => decide (c = '/')) then head else rstrip '/' head

def isSeparator (c : Char) : Bool := decide (c = '\\') || decide (c = '/')

def ntHead (rest : Text) : Text :=
  (rest.rdropWhile (fun c => !isSeparator c)).rdropWhile isSeparator

/-- `ntpath.dirname`, on a path with a drive and a root; and on one without them. -/
def ntDirname (path : Text) : Text :=
  match path with
  | d :: ':' :: '\\' :: rest => d :: ':' :: '\\' :: ntHead rest
  | _ => ntHead path

def dirname : Style → Text → Text
  | .windows => ntDirname
  | .posix => posixDirname

/-- ASCII letters are folded in Windows paths. -/
def fold (style : Style) (path : Text) : Text :=
  if style = .windows then path.map lower else path

/-- The loop of `permits` on one grant that is neither revoked nor expired. -/
def covers (g : Grant) (target root : Text) (request : Request) : Bool :=
  let sep := g.pathStyle.sep
  let exact := decide (target = root)
  let descendant := (rstrip sep root ++ [sep]).isPrefixOf target
  match g.kind with
  | .file => exact && !request.directory && !request.recursive
  | .folder =>
    (exact || descendant) && !(request.recursive && !g.recursive) &&
      (exact || g.recursive || !request.directory && decide (dirname g.pathStyle target = root))

/-- The columns of the grant allow the access. -/
def Grant.allows (g : Grant) (request : Request) : Bool :=
  (match request.action with
    | .read => g.canRead
    | .write => g.canWrite) && !(request.overwrite && !g.canOverwrite)

def Grant.isActive (g : Grant) (now : ℕ) : Bool :=
  g.revokedAt.isNone && !g.expiresAt.any (fun t => decide (t ≤ now))

/-- `permits`. -/
def permits (grants : List Grant) (path : Text) (request : Request) (now : ℕ) : Bool :=
  grants.any fun g =>
    g.isActive now && g.allows request &&
      match normalizePath path g.pathStyle, normalizePath g.path g.pathStyle with
      | some target, some root =>
        covers g (fold g.pathStyle target) (fold g.pathStyle root) request
      | _, _ => false

/-- `create_grant`, up to the row that it inserts. -/
def createGrant (style : Style) (path : Text) (kind : Kind) (read write recursive overwrite : Bool)
    (expiresAt : Option ℕ) (now : ℕ) : Option Grant :=
  (normalizePath path style).bind fun path =>
    if (!read && !write) || recursive && decide (kind ≠ .folder) || overwrite && !write ||
        expiresAt.any (fun t => decide (t ≤ now)) then none
    else some
      { path := path
        pathStyle := style
        kind := kind
        recursive := recursive
        canRead := read
        canWrite := write
        canOverwrite := overwrite
        expiresAt := expiresAt
        revokedAt := none }

/-- The grants that the device is sent: `list_grants` with `active_only`. -/
def listGrants (grants : List Grant) (now : ℕ) : List Grant :=
  grants.filter (fun g => g.isActive now)

/-! ## The device -/

/-- `normalize`. -/
def normalize (value : Text) (windows : Bool) : Option Text :=
  if value = [] ∨ 2048 < value.length ∨ value.any isControlCc = true then none
  else if windows then
    match backslashes value with
    | d :: ':' :: '\\' :: tail =>
      let rest := rstrip '\\' tail
      let parts := if rest = [] then [] else rest.splitOn '\\'
      if isAsciiLetter d = false ∨ parts.any (badPart stemReserved) = true then none
      else some (upper d :: ':' :: '\\' :: rest)
    | _ => none
  else
    match value with
    | '/' :: tail =>
      let rest := rstrip '/' (tail.dropWhile (fun c => decide (c = '/')))
      if tail.head? = some '/' ∨ rest ≠ [] ∧ (rest.splitOn '/').any dotPart = true then none
      else some ('/' :: rest)
    | _ => none

/-- `rsplit_once`, the part before the separator. -/
def rsplitOnce (sep : Char) (l : Text) : Option Text :=
  if sep ∈ l then some ((l.rdropWhile (fun c => decide (c ≠ sep))).dropLast) else none

/-- The directory that `allowed` compares with the path of the grant. -/
def parent (windows : Bool) (sep : Char) (target : Text) : Option Text :=
  (rsplitOnce sep target).map fun p =>
    if byteLength p = 2 ∧ windows = true then p ++ ['\\'] else if p = [] then ['/'] else p

/-- `allowed`, on one grant and two normalised paths. -/
def reaches (g : Grant) (windows : Bool) (target root : Text) (request : Request) : Bool :=
  let sep := if windows then '\\' else '/'
  match g.kind with
  | .file => decide (target = root) && !request.directory && !request.recursive
  | .folder =>
    !(request.recursive && !g.recursive) &&
      (decide (target = root) ||
        (rstrip sep root ++ [sep]).isPrefixOf target &&
          (g.recursive ||
            !request.directory && decide (parent windows sep target = some root)))

/-- `allowed`. -/
def allowed (grants : List Grant) (path : Text) (request : Request) (now : ℕ) : Bool :=
  grants.any fun g =>
    !g.expiresAt.any (fun t => decide (t ≤ now)) && g.allows request &&
      let windows := decide (g.pathStyle = .windows)
      match normalize path windows, normalize g.path windows with
      | some target, some root =>
        if windows then reaches g windows (target.map lower) (root.map lower) request
        else reaches g windows target root request
      | _, _ => false

end Metnos.Filesystem
