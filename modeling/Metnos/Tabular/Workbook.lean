import Mathlib.Data.Int.Notation
import Mathlib.Data.List.Nodup
import Metnos.Lib.Transaction
import Metnos.Undo.Selection

/-!
# Tabular.Workbook — values of a dynamic language, and what may be shown of them

A value is a tree of containers.  What is shown of one has no private field, no field that is
declared sensitive and no record that says it is sensitive, at any depth.
-/

namespace Metnos.Tabular

open Undo (Text strip)

/-- What an object is that is no container. -/
inductive Kind
  | float | decimal | date | datetime | object
deriving DecidableEq

inductive Key
  | str (name : String)
  | other (text : String)
deriving DecidableEq

/-- `isinstance(key, str)` -/
def Key.isStr : Key → Bool
  | .str _ => true
  | .other _ => false

inductive Value where
  | null
  | bool (b : Bool)
  | int (n : ℤ)
  | str (s : String)
  | other (kind : Kind) (text : String)
  | list (items : List Value)
  | tuple (items : List Value)
  | set (items : List Value)
  | dict (fields : List (Key × Value))

abbrev Dict := List (Key × Value)

inductive Error
  | table (reason : String)
  | projection (unresolved fields : List String) (reason : String)
  /-- Another exception, by its name. -/
  | raised (name : String)
deriving DecidableEq

def typeError : Error := .raised "TypeError"

/-! ## Reads -/

/-- `d[k]`, when it is there. -/
def get? (d : Dict) (k : String) : Option Value :=
  (d.find? fun field => field.1 = .str k).map Prod.snd

/-- `d.get(k, default)` -/
def getD (d : Dict) (k : String) (default : Value) : Value := (get? d k).getD default

/-- `v is True` -/
def Value.isTrue : Value → Bool
  | .bool true => true
  | _ => false

def Value.isDict : Value → Bool
  | .dict _ => true
  | _ => false

/-- `isinstance(v, (list, tuple))` -/
def Value.isRow : Value → Bool
  | .list _ | .tuple _ => true
  | _ => false

/-- `isinstance(v, dict) and v.get(k) is True` -/
def Value.flagged (v : Value) (k : String) : Bool :=
  match v with
  | .dict d => (getD d k .null).isTrue
  | _ => false

mutual

/-- A value that may be the member of a set. -/
def hashable : Value → Bool
  | .list _ | .set _ | .dict _ => false
  | .tuple items => allHashable items
  | .null | .bool _ | .int _ | .str _ | .other _ _ => true

def allHashable : List Value → Bool
  | [] => true
  | v :: rest => hashable v && allHashable rest

end

/-! ## What may be shown -/

/-- `key.startswith("_")` -/
def isPrivate (key : String) : Bool := decide (key.toList.head? = some '_')

mutual

/-- `_clean` -/
def clean (sensitive : List String) : Value → Except Error Value
  | .dict fields =>
    if fields.all (fun field => field.1.isStr) = false then
      .error (.table "invalid_record_key")
    else if (getD fields "sensitive" .null).isTrue = true then .ok .null
    else (cleanFields sensitive fields).map .dict
  | .list items => (cleanItems sensitive items).map .list
  | .tuple items => (cleanItems sensitive items).map .list
  | .null => .ok .null
  | .bool b => .ok (.bool b)
  | .int n => .ok (.int n)
  | .str s => .ok (.str s)
  | .other kind text => .ok (.other kind text)
  | .set items => .ok (.set items)

def cleanItems (sensitive : List String) : List Value → Except Error (List Value)
  | [] => .ok []
  | v :: rest =>
    (clean sensitive v).bind fun item => (cleanItems sensitive rest).map (item :: ·)

def cleanFields (sensitive : List String) : List (Key × Value) → Except Error Dict
  | [] => .ok []
  | (.other _, _) :: rest => cleanFields sensitive rest
  | (.str key, v) :: rest =>
    if isPrivate key = true ∨ key ∈ sensitive then cleanFields sensitive rest
    else
      (clean sensitive v).bind fun item =>
        (cleanFields sensitive rest).map ((.str key, item) :: ·)

end

def names? : List Value → Option (List String)
  | [] => some []
  | .str s :: rest => (names? rest).map (s :: ·)
  | _ :: _ => none

/-- `_sensitive_fields` -/
def sensitiveFields : List Dict → Except Error (List String)
  | [] => .ok []
  | declaration :: rest =>
    match getD declaration "sensitive_fields" (.list []) with
    | .list items | .tuple items =>
      match names? items with
      | some names => (sensitiveFields rest).map (names ++ ·)
      | none => .error (.table "invalid_sensitive_fields")
    | _ => .error (.table "invalid_sensitive_fields")

end Metnos.Tabular

/-!
## The typed workbook, and what its making takes from elsewhere

There is no formula cell.  A cell, a column and a sheet can only be built when they pass their checks.
-/

namespace Metnos.Tabular

/-- `CELL_TYPES` -/
inductive CellType
  | blank | text | number | currency | date | datetime | boolean | url
deriving DecidableEq

/-- `COLUMN_TYPES`, by their names. -/
def CellType.ofName : String → Option CellType
  | "text" => some .text
  | "number" => some .number
  | "currency" => some .currency
  | "date" => some .date
  | "datetime" => some .datetime
  | "boolean" => some .boolean
  | "url" => some .url
  | _ => none

/-- `TRANSFORMS` -/
inductive Transform
  | identity | basename | dirname
deriving DecidableEq

def Transform.ofName : String → Option Transform
  | "identity" => some .identity
  | "basename" => some .basename
  | "dirname" => some .dirname
  | _ => none

def Value.isNumber : Value → Bool
  | .int _ | .other .float _ => true
  | _ => false

/-- What comes from outside of the compilation; it hands on the answers and does not look into them. -/
structure Outside where
  /-- `str(v)`, of what is no string. -/
  repr : Value → String
  /-- `v == w` -/
  eq : Value → Value → Bool
  /-- `bool(v)`, of what is no container. -/
  truthy : Kind → String → Bool
  /-- `len(v)` is there, of what is no container. -/
  sized : Kind → String → Bool
  /-- What iterating gives, of what is no container. -/
  members : Kind → String → Option (List Value)
  /-- `json.dumps(v, ensure_ascii=False, sort_keys=True)`; some objects raise. -/
  dumps : Value → Option String
  /-- `json.dumps(v, ensure_ascii=False, default=str)` -/
  dumpsAny : Value → String
  /-- `json.dumps` of the cells of a row. -/
  dumpsRow : List (CellType × Value) → String
  /-- The characters that one stands for in `str.casefold`. -/
  fold : Char → List Char
  /-- `basename` and `dirname`, of `ntpath` or of `posixpath`. -/
  basename : Bool → String → String
  dirname : Bool → String → String
  /-- `_number` -/
  number : Value → String → Value → Bool → Except Error (Option { v : Value // v.isNumber = true })
  isoformat : Value → String
  /-- `normalize_observed_date`, with the names of the months. -/
  normalizeObservedDate : Value → String → String
  /-- What a cell for a date or a datetime holds of a normalized text, if it holds all of it. -/
  fromIso : CellType → String → Option String
  /-- `scrub_sensitive_text` -/
  scrub : String → String
  /-- `merge_source_metadata` -/
  mergeSourceMetadata : Value → Value → Option (List Dict)

variable (py : Outside)

/-- `str(v)` -/
def str : Value → String
  | .str s => s
  | v => py.repr v

/-- `str.casefold` -/
def casefold (s : String) : String := String.ofList (s.toList.flatMap py.fold)

/-- `bool(v)` -/
def truthy : Value → Bool
  | .null => false
  | .bool b => b
  | .int n => decide (n ≠ 0)
  | .str s => decide (s ≠ "")
  | .other kind text => py.truthy kind text
  | .list items | .tuple items | .set items => !items.isEmpty
  | .dict fields => !fields.isEmpty

/-! ## Cells, columns and sheets -/

def holds : CellType → Value → Bool
  | .blank, .null => true
  | .number, v | .currency, v => v.isNumber
  | .boolean, .bool _ => true
  | .text, .str _ | .url, .str _ | .date, .str _ | .datetime, .str _ => true
  | _, _ => false

structure Cell where
  type : CellType
  value : Value
  valid : holds type value = true

def Cell.text? (c : Cell) : Option String :=
  match c.value with
  | .str s => some s
  | _ => none

structure Column where
  header : String
  source : String
  transform : Transform
  type : CellType
  currency : Value
  named : header ≠ "" ∧ source ≠ "" ∧ isPrivate source = false

/-- `Column(...)` -/
def Column.make (header source : String) (transform : Transform) (type currency : Value) :
    Except Error Column :=
  if named : header ≠ "" ∧ source ≠ "" ∧ isPrivate source = false then
    match type with
    | .str name =>
      match CellType.ofName name with
      | none => .error (.table "invalid_column")
      | some type =>
        if truthy py currency = false then .ok ⟨header, source, transform, type, currency, named⟩
        else
          match currency with
          | .str code =>
            if code.toList.length = 3 ∧ code.toList.all (fun c => 'A' ≤ c ∧ c ≤ 'Z') = true then
              .ok ⟨header, source, transform, type, currency, named⟩
            else .error (.table "invalid_currency")
          | _ => .error typeError
    | type => .error (if hashable type = true then .table "invalid_column" else typeError)
  else .error (.table "invalid_column")

/-- The column with its header cut; its other fields passed the check before. -/
def Column.cut (column : Column) (maxChars : ℕ) : Except Error Column :=
  let header := String.ofList (column.header.toList.take maxChars)
  if named : header ≠ "" then .ok { column with header := header, named := ⟨named, column.named.2⟩ }
  else .error (.table "invalid_column")

def isForbidden (c : Char) : Bool := "[]:*?/\\".toList.contains c || decide (c.toNat < 0x20)

structure Sheet where
  name : String
  columns : List Column
  rows : List (List Cell)
  hasHeader : Bool
  title : name ≠ "" ∧ name.toList.length ≤ 31 ∧ name.toList.all (fun c => !isForbidden c) = true
  width : ∀ row ∈ rows, row.length = columns.length

/-- `Sheet(...)` -/
def Sheet.make (name : String) (columns : List Column) (rows : List (List Cell)) (hasHeader : Bool) :
    Except Error Sheet :=
  if title : name ≠ "" ∧ name.toList.length ≤ 31 ∧
      name.toList.all (fun c => !isForbidden c) = true then
    if width : ∀ row ∈ rows, row.length = columns.length then
      .ok ⟨name, columns, rows, hasHeader, title, width⟩
    else .error (.table "invalid_row_width")
  else .error (.table "invalid_sheet_name")

def Sheet.headerRows (sheet : Sheet) : ℕ := if sheet.hasHeader = true ∧ sheet.columns ≠ [] then 1 else 0

/-- The cells of a sheet, with those of its header. -/
def Sheet.cells (sheet : Sheet) : ℕ := (sheet.rows.length + sheet.headerRows) * sheet.columns.length

structure Workbook where
  title : String
  sheets : List Sheet
  filled : sheets ≠ []
  distinct : (sheets.map Sheet.name).Nodup

/-- `Workbook(...)` -/
def Workbook.make (title : String) (sheets : List Sheet) : Except Error Workbook :=
  if filled : sheets ≠ [] then
    if folded : (sheets.map fun sheet => casefold py sheet.name).Nodup then
      .ok ⟨title, sheets, filled, List.Nodup.of_map (casefold py) (by rwa [List.map_map])⟩
    else .error (.table "duplicate_sheet_names")
  else .error (.table "unsupported_workbook")

structure Capabilities where
  types : List CellType
  multiSheet : Bool
  maxRows : ℤ
  maxColumns : ℤ
  maxCellChars : ℤ
  maxCells : ℤ

end Metnos.Tabular
