import Metnos.Tabular.Workbook

/-!
# Tabular.Reading — columns of records, and the texts of values
-/

namespace Metnos.Tabular

open Undo (strip)

variable (py : Outside)

/-! ## Values of a column -/

/-- `_cell` -/
def cell : Value → Except Error Value
  | .null => .ok (.str "")
  | .dict fields =>
    match py.dumps (.dict fields) with
    | some text => .ok (.str text)
    | none => .error typeError
  | .list items | .tuple items | .set items => .ok (.str (", ".intercalate (items.map (str py))))
  | v => .ok v

/-- `_text` -/
def text (v : Value) : Except Error String :=
  (cell py v).map fun shown =>
    match shown with
    | .null => ""
    | shown => str py shown

/-- `_transform` -/
def transform (v : Value) : Transform → Value
  | .identity => v
  | .basename => .str (py.basename (written.contains '\\') (String.ofList written))
  | .dirname => .str (py.dirname (written.contains '\\') (String.ofList written))
where
  written : List Char :=
    match v with
    | .null => []
    | v => (str py v).toList

def project (record : Dict) (column : Column) : Except Error Value :=
  cell py (transform py (getD record column.source .null) column.transform)

/-! ## Projections -/

structure ColumnProjection where
  header : String
  source : String
  transform : Transform

/-- `_fields`: the public keys, in the order in which they first appear. -/
def fieldsOf (records : List Dict) : List String :=
  ((records.flatMap id).filterMap fun field =>
    match field.1 with
    | .str key => if isPrivate key = true then none else some key
    | .other _ => none).reverse.dedup.reverse

/-- `str(spec.get(key) or default).strip()` -/
def option (spec : Dict) (key default : String) : String :=
  let v := getD spec key .null
  let v := if truthy py v = true then v else .str default
  String.ofList (strip (str py v).toList)

/-- What an explicit column asks for; without it, the name by which the error calls it. -/
def explicitProjection (fields : List String) (spec : Dict) (index : ℕ) :
    String ⊕ ColumnProjection :=
  let header := option py spec "header" ""
  let source := option py spec "source" ""
  let name := if header = "" then s!"#{index}" else header
  match Transform.ofName (option py spec "transform" "identity").toLower with
  | some transform =>
    if header = "" ∨ source ∉ fields then .inl name else .inr ⟨header, source, transform⟩
  | none => .inl name

/-- `compile_projection`, of records without legacy headers. -/
def compileProjection (records : List Dict) (explicit : List Dict) :
    Except Error (List ColumnProjection) :=
  let fields := fieldsOf records
  if explicit = [] then .ok (fields.map fun field => ⟨field, field, .identity⟩)
  else
    let asked := explicit.zipIdx.map fun s => explicitProjection py fields s.1 (s.2 + 1)
    let invalid := asked.filterMap Sum.getLeft?
    if invalid = [] then .ok (asked.filterMap Sum.getRight?)
    else .error (.projection invalid fields "invalid_column_specs")

end Metnos.Tabular

/-!
## A table as columns and rows of values

The rows are records or lists; what a producer rejected stays out of them.  No row of values has a
field that is declared sensitive.
-/

namespace Metnos.Tabular

variable (py : Outside)

structure Reading where
  columns : List Column
  kinds : List (Option CellType)
  values : List (List Value)

/-! ## Declarations -/

/-- The items of a list of dictionaries. -/
def dicts? : List Value → Option (List Dict)
  | [] => some []
  | .dict d :: rest => (dicts? rest).map (d :: ·)
  | _ :: _ => none

/-- `table_spec.get("column_specs") or []` -/
def explicitColumns (tableSpec : Dict) : Except Error (List Dict) :=
  let v := getD tableSpec "column_specs" .null
  match if truthy py v = true then v else .list [] with
  | .list items =>
    match dicts? items with
    | some explicit => .ok explicit
    | none => .error (.table "invalid_column_specs")
  | _ => .error (.table "invalid_column_specs")

/-- The sources of the columns that are flagged become sensitive. -/
def flaggedSources : List Dict → Except Error (List Value)
  | [] => .ok []
  | item :: rest =>
    if (getD item "sensitive" .null).isTrue = true then
      if hashable (getD item "source" .null) = true then
        (flaggedSources rest).map (getD item "source" .null :: ·)
      else .error typeError
    else flaggedSources rest

/-- `item.get("source") in sensitive` -/
def asksSensitive (declared : List String) (flagged : List Value) (item : Dict) : Bool :=
  let source := getD item "source" .null
  (getD item "sensitive" .null).isTrue || flagged.any (py.eq source) ||
    match source with
    | .str name => decide (name ∈ declared)
    | _ => false

/-- No column asks for what is sensitive. -/
def checkColumns (declared : List String) (flagged : List Value) : List Dict → Except Error Unit
  | [] => .ok ()
  | item :: rest =>
    if hashable (getD item "source" .null) = false then .error typeError
    else if asksSensitive py declared flagged item = true then
      .error (.table "sensitive_column_requested")
    else checkColumns declared flagged rest

def namesOf (vs : List Value) : List String :=
  vs.filterMap fun v => match v with | .str name => some name | _ => none

/-- `table.get("values", table.get("entries", []))` -/
def rowsOf (table : Dict) : Except Error (List Value) :=
  match getD table "values" (getD table "entries" (.list [])) with
  | .list rows => .ok rows
  | _ => .error (.table "invalid_rows")

/-- Rows that the producer rejected stay out of the data. -/
def isRejected (row : Value) : Bool := row.flagged "_record_rejected"

/-! ## Columns and values -/

/-- A column and the type that was asked for. -/
def columnOf (header source : String) (transform : Transform) (declaration : Dict) :
    Except Error (Column × Option CellType) :=
  (Column.make py header source transform (getD declaration "type" (.str "text"))
    (getD declaration "currency" (.str ""))).map fun column =>
      (column, (get? declaration "type").map fun _ => column.type)

def readRecords (sensitive : List String) (explicit : List Dict) (raw : List Value) :
    Except Error Reading := do
  let records ← raw.mapM (clean sensitive)
  match dicts? records with
  | none => .error (.table "sensitive_record_requested")
  | some records =>
    let projections ← compileProjection py records explicit
    let columns ← projections.zipIdx.mapM fun p =>
      columnOf py p.1.header p.1.source p.1.transform (explicit.getD p.2 [])
    let values ← records.mapM fun record => (columns.map Prod.fst).mapM (project py record)
    pure ⟨columns.map Prod.fst, columns.map Prod.snd, values⟩

/-- `_clean(list(row), sensitive)` -/
def cleanRow (sensitive : List String) : Value → Except Error (List Value)
  | .list items | .tuple items => cleanItems sensitive items
  | _ => .ok []

/-- Headers are texts that are not empty. -/
def headers? : List Value → Option (List String)
  | [] => some []
  | .str header :: rest => if header = "" then none else (headers? rest).map (header :: ·)
  | _ :: _ => none

def readMatrix (sensitive : List String) (explicit : List Dict) (columnsArg raw : List Value) :
    Except Error Reading := do
  let values ← raw.mapM (cleanRow sensitive)
  let given := if explicit.isEmpty then columnsArg else explicit.map fun item => getD item "header" (.str "")
  let widest := (values.map List.length).foldr max 0
  let headers := if given.isEmpty && !values.isEmpty then
    (List.range widest).map fun position => .str (toString (position + 1)) else given
  match headers? headers with
  | none => .error (.table "invalid_headers")
  | some headers =>
    let columns ← headers.zipIdx.mapM fun h =>
      columnOf py h.1 (toString h.2) .identity (explicit.getD h.2 [])
    if values.all (fun row => decide (row.length = columns.length)) = true then
      pure ⟨columns.map Prod.fst, columns.map Prod.snd, values⟩
    else .error (.table "invalid_row_width")

/-- The rows that are left, as columns and values. -/
def read (sensitive : List String) (explicit : List Dict) (columnsArg raw : List Value) :
    Except Error Reading :=
  if raw.isEmpty = false ∧ raw.all Value.isDict = false ∧ raw.all Value.isRow = false then
    .error (.table "mixed_record_and_matrix_rows")
  else if raw.isEmpty = false ∧ raw.all Value.isDict = true then
    if columnsArg.isEmpty = false ∧ explicit = [] then
      -- what a cleaned record looks like is checked before the headers
      (raw.mapM (clean sensitive)).bind fun records =>
        match dicts? records with
        | none => .error (.table "sensitive_record_requested")
        | some _ => .error (.table "column_specs_required_for_record_headers")
    else readRecords py sensitive explicit raw
  else readMatrix py sensitive explicit columnsArg raw

/-! ## A table -/

/-- What a table declares and gives. -/
structure Opened where
  sensitive : List String
  explicit : List Dict
  columnsArg : List Value
  hasHeader : Bool
  rejected : List Value
  raw : List Value
  reading : Reading

/-- `table_spec.get("columns", [])` -/
def columnsArgOf (tableSpec : Dict) : Except Error (List Value) :=
  match getD tableSpec "columns" (.list []) with
  | .list columns => .ok columns
  | _ => .error (.table "invalid_columns")

def hasHeaderOf (tableSpec : Dict) : Except Error Bool :=
  match getD tableSpec "has_header" (.bool true) with
  | .bool b => .ok b
  | _ => .error (.table "invalid_has_header")

/-- The names that are sensitive in a table: those that the source, the specification and the table
declare, and the flagged columns. -/
def sensitiveNames (source spec table tableSpec : Dict) : Except Error (List String) := do
  let declared ← sensitiveFields [source, spec, table, tableSpec]
  let explicit ← explicitColumns py tableSpec
  let flagged ← flaggedSources explicit
  pure (declared ++ namesOf flagged)

/-- From the declarations to the values. -/
def openTable (source spec table tableSpec : Dict) : Except Error Opened := do
  let declared ← sensitiveFields [source, spec, table, tableSpec]
  let rows ← rowsOf table
  let explicit ← explicitColumns py tableSpec
  let flagged ← flaggedSources explicit
  checkColumns py declared flagged explicit
  let columnsArg ← columnsArgOf tableSpec
  let hasHeader ← hasHeaderOf tableSpec
  let raw := rows.filter fun row => !isRejected row
  let reading ← read py (declared ++ namesOf flagged) explicit columnsArg raw
  if reading.values.isEmpty = false ∧ reading.columns.isEmpty = true then
    .error (.table "empty_rows_without_schema")
  else
    pure
      { sensitive := declared ++ namesOf flagged
        explicit := explicit
        columnsArg := columnsArg
        hasHeader := hasHeader
        rejected := rows.filter isRejected
        raw := raw
        reading := reading }

end Metnos.Tabular
