import Mathlib
import Metnos.Tabular.Reading

/-!
# Tabular.Compile — what is said about the rows of a table

Conflicts keep the alternatives that were observed, merged and rejected rows keep their values, and
an envelope tells what a producer left out.
-/

namespace Metnos.Tabular

variable (py : Outside)

abbrev Notice := List (String × Value)

/-- `bool(d.get(k))` -/
def has (d : Dict) (k : String) : Bool := truthy py (getD d k .null)

/-! ## Conflicts -/

/-- `valid_reference` -/
def validReference : Value → Bool
  | .str s =>
    decide (0 < s.toList.length ∧ s.toList.length ≤ 256) && s.toList.head?.any Char.isAlphanum &&
      s.toList.all fun c => c.isAlphanum || "._:/-".toList.contains c
  | _ => false

def observation (sensitive : List String) (field : String) : Value → Except Error (Option Value)
  | .dict witness =>
    if (getD witness "sensitive" .null).isTrue = true then .ok none
    else
      match get? witness field with
      | none => .ok none
      | some v =>
        let source := getD witness "_record_source" .null
        if validReference source = false then .ok none
        else (clean sensitive v).map fun shown =>
          match shown with
          | .null => none
          | shown => some (.dict [(.str "source", source), (.str "value", shown)])
  | _ => .ok none

/-- The witnesses of a record, or the record itself. -/
def conflictWitnesses (record : Dict) : List Value :=
  match getD record "_record_provenance" .null with
  | .list [] => [.dict record]
  | .list witnesses => witnesses
  | _ => [.dict record]

def conflictOn (sensitive : List String) (sheet : String) (number : ℕ) (record : Dict) :
    Value → Except Error (List Notice)
  | .str field =>
    if isPrivate field = true ∨ field ∈ sensitive ∨ (get? record field).isNone = true then .ok []
    else
      ((conflictWitnesses record).mapM (observation sensitive field)).map fun seen =>
        let observations := seen.filterMap id
        if observations.isEmpty = true then []
        else
          let detail := py.dumpsAny (.dict [(.str "record", .int number), (.str "field", .str field),
            (.str "observations", .list observations)])
          [[("code", .str "MSG_TABLE_CONFLICT_DETAIL"), ("label", .str "INVALID_DATA"),
            ("sheet", .str sheet), ("detail", .str (py.scrub detail))]]
  | _ => .ok []

def conflictsIn (sensitive : List String) (sheet : String) (number : ℕ) :
    Value → Except Error (List Notice)
  | .dict record =>
    if (getD record "sensitive" .null).isTrue = true then .ok []
    else
      match getD record "_record_conflicts" .null with
      | .list conflicts =>
        (conflicts.mapM (conflictOn py sensitive sheet number record)).map List.flatten
      | _ => .ok []
  | _ => .ok []

/-- `_conflict_details` -/
def conflictDetails (records : List Value) (sensitive : List String) (sheet : String) :
    Except Error (List Notice) :=
  (records.zipIdx.mapM fun r => conflictsIn py sensitive sheet (r.2 + 1) r.1).map List.flatten

/-! ## Rows -/

/-- A column of a row as the sheet would show it. -/
def columnText (shown : Dict) (column : Column) : Except Error String := do
  let t ← match get? shown column.source with
    | some v => (cell py (transform py v column.transform)).bind (text py)
    | none => text py .null
  pure (column.header ++ ": " ++ if t = "" then "-" else t)

/-- `_row_text` -/
def rowText (record : Value) (columns : List Column) (sensitive : List String) :
    Except Error String := do
  let shown ← clean sensitive record
  let parts ← columns.mapM (columnText py (match shown with | .dict shown => shown | _ => []))
  pure ("; ".intercalate parts)

def iterate : Value → Except Error (List Value)
  | .list items | .tuple items | .set items => .ok items
  | .dict fields => .ok (fields.map fun field =>
      match field.1 with
      | .str name => .str name
      | .other name => .other .object name)
  | .str s => .ok (s.toList.map fun c => .str (String.ofList [c]))
  | .other kind text =>
    match py.members kind text with
    | some items => .ok items
    | none => .error typeError
  | .null | .bool _ | .int _ => .error typeError

/-- The rows that were merged into a record. -/
def mergedRows (columns : List Column) (sensitive : List String) (sheet : String) (number : ℕ) :
    Value → Except Error (List Notice)
  | .dict record =>
    if (getD record "sensitive" .null).isTrue = true then .ok []
    else do
      let provenance := getD record "_record_provenance" .null
      let members ← if truthy py provenance = true then iterate py provenance else .ok []
      let witnesses := members.filter Value.isDict
      if witnesses.length < 2 then pure []
      else witnesses.mapM fun witness => (rowText py witness columns sensitive).map fun detail =>
        [("code", .str "MSG_TABLE_ROW_MERGED"), ("label", .str "MERGED"), ("sheet", .str sheet),
          ("row", .int number), ("detail", .str (py.scrub detail))]
  | _ => .ok []

def rejectedRow (columns : List Column) (sensitive : List String) (sheet : String) (record : Value) :
    Except Error (List Notice) :=
  if record.flagged "sensitive" = true then .ok []
  else (rowText py record columns sensitive).map fun detail =>
    [[("code", .str "MSG_TABLE_ROW_REJECTED"), ("label", .str "REJECTED"), ("sheet", .str sheet),
      ("detail", .str (py.scrub detail))]]

/-- `_row_actions` -/
def rowActions (records rejected : List Value) (columns : List Column) (sensitive : List String)
    (sheet : String) : Except Error (List Notice) := do
  let merged ← records.zipIdx.mapM fun r => mergedRows py columns sensitive sheet (r.2 + 1) r.1
  let refused ← rejected.mapM (rejectedRow py columns sensitive sheet)
  pure (merged.flatten ++ refused.flatten)

/-- `_ROW_ACTION_CODES` -/
def rowActionLabel : Value → Option String
  | .str "MSG_TABLE_ROW_MERGED" => some "MERGED"
  | .str "MSG_TABLE_ROW_REJECTED" => some "REJECTED"
  | .str "MSG_TABLE_CONFLICT_DETAIL" => some "INVALID_DATA"
  | _ => none

/-- A note that a writer derived before. -/
def providedRowAction (sheet : String) (action : Value) : Except Error Notice :=
  let refused := Error.table "invalid_row_actions"
  match action with
  | .dict action =>
    let code := getD action "code" .null
    if hashable code = false then .error typeError
    else
      match rowActionLabel code, getD action "detail" .null with
      | some label, .str detail =>
        let note : Notice := [("code", code), ("label", .str label), ("sheet", .str sheet),
          ("detail", .str (py.scrub detail))]
        if 4000 < detail.toList.length then .error refused
        else
          match get? action "row" with
          | none => .ok note
          | some (.int row) => if row < 1 then .error refused else .ok (note ++ [("row", .int row)])
          | some _ => .error refused
      | _, _ => .error refused
  | _ => .error refused

/-- `_provided_row_actions` -/
def providedRowActions (sheet : String) : Value → Except Error (List Notice)
  | .null => .ok []
  | .list actions =>
    if 2048 < actions.length then .error (.table "invalid_row_actions")
    else actions.mapM (providedRowAction py sheet)
  | _ => .error (.table "invalid_row_actions")

/-! ## Evidence of the source -/

/-- `SOURCE_METADATA_FIELDS` -/
def sourceMetadataFields : List String :=
  ["partial", "collection_partial", "truncated", "used", "available_total", "truncated_what",
    "cap_field", "cap_value", "truncations", "partial_reason"]

/-- `_source_metadata` -/
def sourceMetadata (table source : Dict) (sensitive : List String) : Except Error Dict :=
  (clean sensitive (.dict (sourceMetadataFields.filterMap fun key =>
    ((get? table key).or (get? source key)).map fun v => (.str key, v)))).map fun shown =>
      match shown with
      | .dict shown => shown
      | _ => []

/-- `_source_is_partial` -/
def sourceIsPartial (metadata : Dict) : Bool :=
  ["partial", "collection_partial", "truncated"].any (fun key =>
    (getD metadata key .null).isTrue) || has py metadata "partial_reason"

/-- The counts that an evidence may have, with the codes of their notices. -/
def mergeCounts : List (String × String) :=
  [("merged", "WARN_TABLE_MERGED_ROWS"), ("suspected", "WARN_TABLE_SUSPECTED_DUPLICATES"),
    ("conflicted", "WARN_TABLE_CONFLICTING_ROWS"), ("absorbed", "WARN_TABLE_UNIDENTIFIED_ABSORBED")]

def isReason (item : Dict) (reasons : List String) : Bool :=
  match getD item "reason_code" .null with
  | .str reason => reasons.contains reason
  | _ => false

def partialNotice (sheet : String) (item : Dict) : Except Error (List Notice) :=
  if sourceIsPartial py item = false then .ok []
  else
    let runtimeEvidence := (get? item "producer").isSome
    let detail := if runtimeEvidence = true then .str ""
      else if item.any (fun field => decide (field.1 ≠ .str "partial_reason")) = true then .dict item
      else getD item "partial_reason" .null
    (text py detail).map fun detail =>
      [[("code", .str "WARN_TABLE_PARTIAL_SOURCE"), ("sheet", .str sheet), ("detail", .str detail)] ++
        if runtimeEvidence = true then
          ("reason_code", getD item "reason_code" (.str "")) ::
            ["cap_field", "cap_value"].filterMap fun key => (get? item key).map (key, ·)
        else []]

def evidenceNotices (sheet : String) (item : Dict) : Except Error (List Notice) := do
  let first ← partialNotice py sheet item
  let produced := (get? item "producer").isSome
  let counts := if produced && isReason item ["identifier_merge", "record_enrichment"] then
      mergeCounts.filterMap fun c => if has py item c.1 = true then
        some [("code", .str c.2), ("sheet", .str sheet), ("count", getD item c.1 .null)] else none
    else []
  let foreign := if produced && isReason item ["foreign_section"] && has py item "excluded" then
      [[("code", .str "WARN_TABLE_FOREIGN_SECTIONS"), ("sheet", .str sheet),
        ("count", getD item "excluded" .null)]]
    else []
  let origin : List Notice ← if has py item "provenance" = true then
      match getD item "provenance" .null with
      | .dict provenance =>
        match get? provenance "url" with
        | some url => .ok [[("code", .str "MSG_TABLE_PROVENANCE"), ("sheet", .str sheet), ("detail", url)]]
        | none => .error (.raised "KeyError")
      | _ => .error typeError
    else .ok []
  pure (first ++ counts ++ foreign ++ origin)

/-- The evidence of a table: what the envelope declares, then what the runtime says.  Where the
runtime says something, the declared fields are kept without a notice. -/
def evidenceOf (sheet : String) (source table : Dict) (sensitive : List String) :
    Except Error (List Dict × List Notice) := do
  match py.mergeSourceMetadata (getD source "source_metadata" .null)
      (getD table "source_metadata" .null) with
  | none => .error (.table "invalid_source_metadata")
  | some evidence =>
    let metadata ← sourceMetadata table source sensitive
    let declared := if metadata.isEmpty = true then [] else [metadata]
    let spoken := if evidence.isEmpty = true then declared else evidence
    let notices ← spoken.mapM (evidenceNotices py sheet)
    pure ((declared ++ evidence).map fun item => (.str "sheet", .str sheet) :: item, notices.flatten)

end Metnos.Tabular

/-!
## Tables to a workbook, within what a backend holds

A sheet keeps the first columns and rows that fit; what it leaves out is declared as a truncation.
The sheets share the cells that the backend holds.
-/

namespace Metnos.Tabular

open Undo (strip)

variable (py : Outside)

/-! ## Names and limits -/

def numberedName (base : String) (number : ℕ) : String :=
  let suffix := "_" ++ toString number
  String.ofList (base.toList.take (31 - suffix.toList.length)) ++ suffix

/-- What a sheet is called before others are looked at. -/
def baseName (raw : String) : String :=
  let plain := raw.toList.map fun c => if isForbidden c = true then '_' else c
  let quiet := fun c : Char => c = ' ' || c = '\''
  let trimmed := ((plain.dropWhile quiet).reverse.dropWhile quiet).reverse
  let base := String.ofList (trimmed.take 31)
  if base = "" then "Sheet1" else base

/-- `_sheet_name`: as many numbers are tried as there are names, and one more. -/
def sheetName (raw : String) (used : List String) : Option String :=
  (baseName raw :: (List.range (used.length + 1)).map fun i => numberedName (baseName raw) (i + 2)).find?
    fun name => decide (casefold py name ∉ used)

/-- `_positive_limit` -/
def positiveLimit (spec : Dict) (key : String) (maximum : ℤ) : Except Error ℤ :=
  match getD spec key (.int maximum) with
  | .int n =>
    if n < 0 ∨ maximum < n then .error (.table ("invalid_" ++ key))
    else .ok (if n = 0 then maximum else n)
  | _ => .error (.table ("invalid_" ++ key))

structure Truncation where
  sheet : String
  truncatedWhat : String
  availableTotal : Option ℕ
  used : ℤ
  count : Option ℕ
  capField : String
  capValue : ℤ
deriving DecidableEq

def Truncation.notice (t : Truncation) : Notice :=
  [("code", .str "WARN_TABLE_TRUNCATED"), ("sheet", .str t.sheet),
    ("truncated_what", .str t.truncatedWhat),
    ("available_total", t.availableTotal.elim .null fun n => .int n), ("used", .int t.used)] ++
  (t.count.toList.map fun n => ("count", .int n)) ++
  [("cap_field", .str t.capField), ("cap_value", .int t.capValue)]

/-- What a sheet takes of a table. -/
structure Layout where
  maxChars : ℕ
  headerRows : ℕ
  columns : List (Column × Option CellType)
  rowCap : ℕ
  truncations : List Truncation

/-- The rows that the header of a table takes. -/
def headerRowsOf (hasHeader : Bool) (reading : Reading) : ℕ :=
  if hasHeader = true ∧ reading.columns.isEmpty = false then 1 else 0

/-- The limits of a sheet, where others used some cells before. -/
def layout (capabilities : Capabilities) (tableSpec : Dict) (name : String) (hasHeader : Bool)
    (reading : Reading) (cellsUsed : ℤ) : Except Error Layout := do
  let maxCols ← positiveLimit tableSpec "max_columns" capabilities.maxColumns
  let headerRows := headerRowsOf hasHeader reading
  let maxRows ← positiveLimit tableSpec "max_rows" (capabilities.maxRows - headerRows)
  let maxChars ← positiveLimit tableSpec "max_cell_chars" capabilities.maxCellChars
  let columns := (reading.columns.zip reading.kinds).take maxCols.toNat
  let cellRowCap := max 0
    ((capabilities.maxCells - cellsUsed) / (max 1 columns.length : ℕ) - headerRows)
  let rowCap := min maxRows cellRowCap
  let ofColumns := if maxCols < reading.columns.length then
      [⟨name, "columns", some reading.columns.length, maxCols, none, "max_columns", maxCols⟩] else []
  let ofRows := if rowCap < reading.values.length then
      [⟨name, "rows", some reading.values.length, rowCap, none,
        if rowCap = maxRows then "max_rows" else "max_cells",
        if rowCap = maxRows then maxRows else capabilities.maxCells⟩] else []
  pure ⟨maxChars.toNat, headerRows, columns, rowCap.toNat, ofColumns ++ ofRows⟩

/-! ## Cells -/

/-- The type of a value that no one declared. -/
def legacyKind : Value → CellType
  | .bool _ => .boolean
  | .int _ | .other .float _ | .other .decimal _ => .number
  | .other .datetime _ => .datetime
  | .other .date _ => .date
  | _ => .text

def textCell (type : { t : CellType // ∀ s, holds t (.str s) = true }) (s : String) : Cell :=
  ⟨type, .str s, type.property s⟩

def plainText : { t : CellType // ∀ s, holds t (.str s) = true } := ⟨.text, fun _ => rfl⟩

/-- The cell of a value that has the wrong type: its text. -/
def uninterpreted (value : Value) : Except Error (Cell × Bool) :=
  (text py value).map fun t => (textCell plainText t, true)

def convertMoment (type : { t : CellType // ∀ s, holds t (.str s) = true }) (value monthNames : Value) :
    Except Error (Cell × Bool) := do
  let raw ← match value with
    | .other .date _ | .other .datetime _ => pure (py.isoformat value)
    | value => text py value
  match py.fromIso type (py.normalizeObservedDate monthNames raw) with
  | some iso => pure (textCell type iso, false)
  | none => uninterpreted py value

def convertNumber (type : { t : CellType // ∀ v, v.isNumber = true → holds t v = true }) (value : Value)
    (locale : String) (currency : Value) : Except Error (Cell × Bool) := do
  match ← py.number value locale currency (decide (type.val = .currency)) with
  | some parsed => pure (⟨type, parsed, type.property parsed parsed.property⟩, false)
  | none => uninterpreted py value

/-- `_convert` -/
def convert (value : Value) (kind : Option CellType) (locale : String) (currency monthNames : Value) :
    Except Error (Cell × Bool) :=
  match value with
  | .null | .str "" => .ok (⟨.blank, .null, rfl⟩, false)
  | value =>
    match kind.getD (legacyKind value) with
    | .number => convertNumber py ⟨.number, fun _ h => h⟩ value locale currency
    | .currency => convertNumber py ⟨.currency, fun _ h => h⟩ value locale currency
    | .date => convertMoment py ⟨.date, fun _ => rfl⟩ value monthNames
    | .datetime => convertMoment py ⟨.datetime, fun _ => rfl⟩ value monthNames
    | .boolean =>
      match value with
      | .bool b => .ok (⟨.boolean, .bool b, rfl⟩, false)
      | value => uninterpreted py value
    | .text => (text py value).map fun t => (textCell plainText t, false)
    | .url => (text py value).map fun t => (textCell ⟨.url, fun _ => rfl⟩ t, false)
    | .blank => uninterpreted py value

/-- A cell as it is kept, whether its value had the wrong type, and whether its text was cut. -/
structure Kept where
  cell : Cell
  failed : Bool
  long : Bool

def cutCell (maxChars : ℕ) (c : Cell × Bool) : Kept :=
  match c.1.text? with
  | some t =>
    if maxChars < t.toList.length then
      ⟨textCell plainText (String.ofList (t.toList.take maxChars)), c.2, true⟩
    else ⟨c.1, c.2, false⟩
  | none => ⟨c.1, c.2, false⟩

def convertRow (locale : String) (monthNames : Value) (maxChars : ℕ)
    (columns : List (Column × Option CellType)) (row : List Value) : Except Error (List Kept) :=
  (columns.zip row).mapM fun c =>
    (convert py c.2 c.1.2 locale c.1.1.currency monthNames).map (cutCell maxChars)

/-! ## A sheet -/

/-- What is said about the cells of a sheet. -/
def cellNotices (name : String) (columns : List Column) (headers : List String)
    (rows : List (List Kept)) : List Notice :=
  let failures := rows.flatMap fun row =>
    (headers.zip row).filterMap fun c => if c.2.failed = true then some c.1 else none
  let uninterpreted : List Notice := failures.reverse.dedup.reverse.map fun header =>
    [("code", .str "WARN_TABLE_UNINTERPRETED"), ("sheet", .str name), ("column", .str header),
      ("count", .int (failures.count header))]
  let empty : List Notice := columns.zipIdx.filterMap fun c =>
    if rows.isEmpty = false ∧ rows.all (fun row =>
        (row[c.2]?).any fun kept => decide (kept.cell.type = .blank)) = true then
      some [("code", .str "WARN_TABLE_EMPTY_COLUMN"), ("sheet", .str name),
        ("column", .str c.1.header), ("count", .int rows.length)]
    else none
  let different := (rows.map fun row =>
    py.dumpsRow (row.map fun kept => (kept.cell.type, kept.cell.value))).dedup.length
  let identical : List Notice := if different < rows.length then
      [[("code", .str "WARN_TABLE_IDENTICAL_ROWS"), ("sheet", .str name),
        ("count", .int (rows.length - different))]] else []
  uninterpreted ++ empty ++ identical

/-- What compiling a table gives. -/
structure Part where
  sheet : Sheet
  truncations : List Truncation
  notices : List Notice
  sourceMetadata : List Dict
  availableTotal : ℕ
  headerRows : ℕ

/-- What all tables share. -/
structure Job where
  source : Dict
  spec : Dict
  single : Bool
  locale : String
  monthNames : Value
  capabilities : Capabilities

/-- What is said about the rows of a table that are kept. -/
def rowNotices (job : Job) (name : String) (table : Dict) (opened : Opened) (kept : List Value)
    (columns : List Column) : Except Error (List Notice) := do
  let actions ← rowActions py kept opened.rejected columns opened.sensitive name
  let provided ← providedRowActions py name (getD table "row_actions"
    (if job.single = true then getD job.source "row_actions" .null else .null))
  let rejected := if opened.rejected.isEmpty = true then
      (provided.filter fun note => note.any fun field =>
        field.1 == "label" && (match field.2 with | .str "REJECTED" => true | _ => false)).length
    else opened.rejected.length
  let conflicts ← conflictDetails py kept opened.sensitive name
  let refused : List Notice := if rejected = 0 then [] else
    [[("code", .str "WARN_TABLE_UNIDENTIFIED_REJECTED"), ("sheet", .str name),
      ("count", .int rejected)]]
  pure (actions ++ provided ++ conflicts ++ refused)

/-- The provenance that an envelope declares. -/
def provenanceNotices (name : String) (source table : Dict) (sensitive : List String) :
    Except Error (List Notice) := do
  let provenance := getD table "provenance" (getD source "provenance" .null)
  if truthy py provenance = false then pure []
  else
    let shown ← clean sensitive provenance
    let detail ← text py shown
    pure [[("code", .str "MSG_TABLE_PROVENANCE"), ("sheet", .str name), ("detail", .str detail)]]

/-- A backend of texts that is given other cells. -/
def backendNotices (capabilities : Capabilities) (name : String) (rows : List (List Cell)) :
    List Notice :=
  let textOnly := capabilities.types.all (fun t => decide (t = .text)) && capabilities.types.contains .text
  if textOnly = true ∧ rows.any (fun row => row.any fun c =>
      decide (c.type ≠ .text ∧ c.type ≠ .url ∧ c.type ≠ .blank)) = true then
    [[("code", .str "WARN_TABLE_TEXT_BACKEND"), ("sheet", .str name), ("count", .int rows.length)]]
  else []

/-- The texts of a sheet that are cut: cells, and headers that are shown. -/
def longCells (hasHeader : Bool) (maxChars : ℕ) (columns : List (Column × Option CellType))
    (rows : List (List Kept)) : ℕ :=
  (rows.map fun row => row.countP Kept.long).sum +
    if hasHeader = true then columns.countP fun c => decide (maxChars < c.1.header.toList.length) else 0

/-- A table has the locale of the workbook. -/
def checkLocale (job : Job) (tableSpec : Dict) : Except Error Unit :=
  match getD tableSpec "locale" (.str job.locale) with
  | .str locale => if locale = job.locale then .ok () else .error (.table "sheet_locale_not_supported")
  | _ => .error (.table "sheet_locale_not_supported")

def nameOf (names : List String) (index : ℕ) (tableSpec : Dict) : Except Error String :=
  match sheetName py (str py (getD tableSpec "name"
      (getD tableSpec "sheet_name" (.str ("Sheet" ++ toString index))))) names with
  | some name => .ok name
  | none => .error (.raised "loop")

/-- One table, in the loop of `compile_workbook`. -/
def compileSheet (job : Job) (names : List String) (cellsUsed : ℤ) (index : ℕ) (table tableSpec : Value) :
    Except Error Part := do
  match table, tableSpec with
  | .dict table, .dict tableSpec =>
    checkLocale job tableSpec
    let name ← nameOf py names index tableSpec
    let opened ← openTable py job.source job.spec table tableSpec
    let plan ← layout job.capabilities tableSpec name opened.hasHeader opened.reading cellsUsed
    let rows ← (opened.reading.values.take plan.rowCap).mapM
      (convertRow py job.locale job.monthNames plan.maxChars plan.columns)
    let columns ← plan.columns.mapM fun c => c.1.cut plan.maxChars
    let long := longCells opened.hasHeader plan.maxChars plan.columns rows
    let ofTexts := if long = 0 then [] else
      [⟨name, "cell_characters", none, plan.maxChars, some long, "max_cell_chars", plan.maxChars⟩]
    let (metadata, evidence) ← evidenceOf py name job.source table opened.sensitive
    let said ← rowNotices py job name table opened (opened.raw.take plan.rowCap) columns
    let origin ← provenanceNotices py name job.source table opened.sensitive
    let cells := rows.map fun row => row.map Kept.cell
    let sheet ← Sheet.make name columns cells opened.hasHeader
    pure
      { sheet := sheet
        truncations := plan.truncations ++ ofTexts
        notices := cellNotices py name columns (plan.columns.map fun c => c.1.header) rows ++
          evidence ++ said ++ origin ++ backendNotices job.capabilities name cells ++
          if opened.raw.isEmpty = true then
            [[("code", .str "WARN_TABLE_EMPTY_SOURCE"), ("sheet", .str name), ("count", .int 0)]]
          else []
        sourceMetadata := metadata
        availableTotal := opened.reading.values.length
        headerRows := plan.headerRows }
  | _, _ => .error (.table "invalid_sheet_source")

def Part.cells (part : Part) : ℕ :=
  (part.sheet.rows.length + part.headerRows) * part.sheet.columns.length

/-- The loop of `compile_workbook`, with the names and the cells that were used before. -/
def compileSheets (job : Job) :
    List String → ℤ → ℕ → List (Value × Value) → Except Error (List Part)
  | _, _, _, [] => .ok []
  | names, cellsUsed, index, (table, tableSpec) :: rest => do
    let part ← compileSheet py job names cellsUsed index table tableSpec
    let parts ← compileSheets job (casefold py part.sheet.name :: names)
      (cellsUsed + part.cells) (index + 1) rest
    pure (part :: parts)

/-! ## A workbook -/

structure CompiledTable where
  workbook : Workbook
  notices : List Notice
  dataRows : ℕ
  availableTotal : ℕ
  truncations : List Truncation
  sourceMetadata : List Dict

/-- `spec or {}` -/
def specOf (spec : Value) : Except Error Dict :=
  if truthy py spec = false then .ok []
  else
    match spec with
    | .dict spec => .ok spec
    | _ => .error (.table "invalid_spec")

def sourceOf : Value → Except Error Dict
  | .list rows => .ok [(.str "entries", .list rows)]
  | .dict source => .ok source
  | _ => .error (.table "invalid_source")

/-- `len(v)` is there. -/
def sized : Value → Bool
  | .null | .bool _ | .int _ => false
  | .other kind text => py.sized kind text
  | _ => true

/-- The tables with their specifications. -/
def tablesOf (source spec : Dict) : Except Error (List (Value × Value)) :=
  match getD source "sheets" (.list [.dict source]) with
  | .list sources =>
    match getD spec "sheets" (.list (sources.map fun _ => .dict spec)) with
    | .list specs =>
      if sources.isEmpty = true ∨ sources.length ≠ specs.length then .error (.table "invalid_sheets")
      else .ok (sources.zip specs)
    | _ => .error (.table "invalid_sheets")
  | sources =>
    .error (if truthy py sources = true ∧ sized py sources = false then typeError
      else .table "invalid_sheets")

def localeOf (spec : Dict) : Except Error String :=
  match getD spec "locale" (.str "") with
  | .str locale => .ok locale
  | _ => .error (.table "invalid_locale")

/-- What the tables share, and the tables with their specifications. -/
def jobOf (source spec : Value) (capabilities : Capabilities) (monthNames : Value) :
    Except Error (Job × List (Value × Value)) := do
  let spec ← specOf py spec
  let source ← sourceOf source
  let tables ← tablesOf py source spec
  if capabilities.multiSheet = false ∧ 1 < tables.length then
    .error (.table "backend_does_not_support_multiple_data_sheets")
  else
    let locale ← localeOf spec
    pure (⟨source, spec, decide (tables.length = 1), locale, monthNames, capabilities⟩, tables)

/-- `compile_workbook` -/
def compileWorkbook (source spec : Value) (capabilities : Capabilities) (monthNames : Value) :
    Except Error CompiledTable := do
  let (job, tables) ← jobOf py source spec capabilities monthNames
  let parts ← compileSheets py job [] 0 1 tables
  let truncations := parts.flatMap Part.truncations
  let workbook ← Workbook.make py (str py (getD job.spec "title" (.str "spreadsheet")))
    (parts.map Part.sheet)
  pure
    { workbook := workbook
      notices := parts.flatMap Part.notices ++ truncations.map Truncation.notice
      dataRows := (parts.map fun part => part.sheet.rows.length).sum
      availableTotal := (parts.map Part.availableTotal).sum
      truncations := truncations
      sourceMetadata := parts.flatMap Part.sourceMetadata }

/-! ## Tables of plain texts -/

/-- What tables of short ASCII texts need of the outside. -/
def plainOutside : Outside where
  repr v := match v with
    | .null => "None"
    | .bool true => "True"
    | .bool false => "False"
    | .int n => toString n
    | _ => ""
  eq v w := match v, w with
    | .str s, .str t => decide (s = t)
    | .null, .null => true
    | _, _ => false
  truthy _ _ := true
  sized _ _ := false
  members _ _ := none
  dumps _ := none
  dumpsAny _ := ""
  dumpsRow cells := String.join (cells.map fun c => match c.2 with | .str s => "\"" ++ s ++ "\"" | _ => "")
  fold c := [c.toLower]
  basename _ s := s
  dirname _ _ := ""
  number v _ _ _ := match v with
    | .int n => .ok (some ⟨.int n, rfl⟩)
    | _ => .ok none
  isoformat _ := ""
  normalizeObservedDate _ s := s
  fromIso _ _ := none
  scrub s := s
  mergeSourceMetadata v w := match v, w with
    | .null, .null => some []
    | _, _ => none

end Metnos.Tabular
