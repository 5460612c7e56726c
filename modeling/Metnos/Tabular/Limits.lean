import Metnos.Lib.Reservation
import Metnos.Tabular.Compile

/-!
# Tabular.Limits — what a sheet keeps of a table, and what it declares to be cut

A sheet keeps the first columns and rows of its table.  Each limit has its own truncation, which is
declared exactly when something was cut by it.
-/

namespace Metnos.Tabular

open SharedBudget (Demand)

variable {py : Outside}

/-! ## Limits -/

theorem positiveLimit_ok {spec : Dict} {key : String} {maximum n : ℤ}
    (h : positiveLimit spec key maximum = .ok n) : 0 ≤ n ∧ n ≤ maximum := by
  unfold positiveLimit at h
  split at h
  · rename_i k _
    by_cases bad : k < 0 ∨ maximum < k
    · rw [if_pos bad] at h
      cases h
    · rw [if_neg bad] at h
      have value := Except.ok.inj h
      rw [← value]
      split <;> omega
  · cases h

theorem mem_optional {α : Type} {P : Prop} [Decidable P] {x t : α} :
    t ∈ (if P then [x] else []) ↔ P ∧ t = x := by
  by_cases h : P
  · rw [if_pos h, List.mem_singleton, and_iff_right h]
  · rw [if_neg h]
    exact ⟨fun mem => (nomatch mem), fun mem => absurd mem.1 h⟩

/-- What a layout takes of the limits. -/
structure Planned (capabilities : Capabilities) (tableSpec : Dict) (name : String) (hasHeader : Bool)
    (reading : Reading) (cellsUsed cols rows : ℤ) (plan : Layout) : Prop where
  maxCols : positiveLimit tableSpec "max_columns" capabilities.maxColumns = .ok cols
  maxRows : positiveLimit tableSpec "max_rows"
    (capabilities.maxRows - headerRowsOf hasHeader reading) = .ok rows
  maxChars : (plan.maxChars : ℤ) ≤ capabilities.maxCellChars
  headerRows : plan.headerRows = headerRowsOf hasHeader reading
  columns : plan.columns = (reading.columns.zip reading.kinds).take cols.toNat
  rowCap : (plan.rowCap : ℤ) = min rows (max 0
    ((capabilities.maxCells - cellsUsed) / (max 1 plan.columns.length : ℕ) - plan.headerRows))
  named : ∀ t ∈ plan.truncations, t.sheet = name
  ofColumns : (∃ t ∈ plan.truncations, t.truncatedWhat = "columns") ↔
    cols.toNat < reading.columns.length
  ofRows : (∃ t ∈ plan.truncations, t.truncatedWhat = "rows") ↔ plan.rowCap < reading.values.length
  noTexts : ∀ t ∈ plan.truncations, t.truncatedWhat ≠ "cell_characters"

theorem layout_ok {capabilities : Capabilities} {tableSpec : Dict} {name : String} {hasHeader : Bool}
    {reading : Reading} {cellsUsed : ℤ} {plan : Layout}
    (h : layout capabilities tableSpec name hasHeader reading cellsUsed = .ok plan) :
    ∃ cols rows, Planned capabilities tableSpec name hasHeader reading cellsUsed cols rows plan := by
  unfold layout at h
  simp only [Transaction.bind_eq_ok, Transaction.pure_eq_ok] at h
  obtain ⟨cols, ofCols, rows, ofRows, chars, ofChars, rfl⟩ := h
  have colsFit := positiveLimit_ok ofCols
  have rowsFit := positiveLimit_ok ofRows
  have charsFit := positiveLimit_ok ofChars
  refine ⟨cols, rows, ofCols, ofRows, ?_, rfl, rfl, ?_, ?_, ?_, ?_, ?_⟩
  · show ((chars.toNat : ℕ) : ℤ) ≤ _
    omega
  · exact Int.toNat_of_nonneg (le_min rowsFit.1 (le_max_left ..))
  · intro t mem
    simp only [List.mem_append, mem_optional] at mem
    obtain ⟨_, rfl⟩ | ⟨_, rfl⟩ := mem <;> rfl
  · simp only [List.mem_append, mem_optional]
    constructor
    · rintro ⟨t, ⟨cut, rfl⟩ | ⟨_, rfl⟩, what⟩
      · omega
      · simp at what
    · intro cut
      exact ⟨_, .inl ⟨by omega, rfl⟩, rfl⟩
  · simp only [List.mem_append, mem_optional]
    constructor
    · rintro ⟨t, ⟨_, rfl⟩ | ⟨cut, rfl⟩, what⟩
      · simp at what
      · omega
    · intro cut
      exact ⟨_, .inr ⟨by omega, rfl⟩, rfl⟩
  · intro t mem
    simp only [List.mem_append, mem_optional] at mem
    obtain ⟨_, rfl⟩ | ⟨_, rfl⟩ := mem
    · show "columns" ≠ "cell_characters"
      decide
    · show "rows" ≠ "cell_characters"
      decide

/-! ## Cells and headers -/

theorem cutCell_fits {maxChars : ℕ} {c : Cell × Bool} {t : String}
    (h : (cutCell maxChars c).cell.text? = some t) : t.toList.length ≤ maxChars := by
  unfold cutCell at h
  obtain missing | ⟨s, found⟩ := Option.eq_none_or_eq_some c.1.text?
  · simp only [missing] at h
    cases h
  · simp only [found] at h
    by_cases long : maxChars < s.toList.length
    · rw [if_pos long] at h
      have cut : String.ofList (s.toList.take maxChars) = t := Option.some.inj h
      rw [← cut, String.toList_ofList, List.length_take]
      omega
    · rw [if_neg long, found] at h
      rw [← Option.some.inj h]
      omega

theorem cutCell_long {maxChars : ℕ} {c : Cell × Bool} :
    (cutCell maxChars c).long = true ↔ ∃ t, c.1.text? = some t ∧ maxChars < t.toList.length := by
  unfold cutCell
  obtain missing | ⟨s, found⟩ := Option.eq_none_or_eq_some c.1.text?
  · simp [missing]
  · by_cases long : maxChars < s.toList.length
    · simp [found, long]
    · simp only [found, if_neg long, Bool.false_eq_true, Option.some.injEq, false_iff]
      rintro ⟨t, rfl, more⟩
      exact long more

/-- A header in a sheet: the first characters of that of its column. -/
structure ShowsColumn (maxChars : ℕ) (column shown : Column) : Prop where
  header : shown.header.toList = column.header.toList.take maxChars
  source : shown.source = column.source
  transform : shown.transform = column.transform
  type : shown.type = column.type
  currency : shown.currency = column.currency

theorem cut_shows {column shown : Column} {maxChars : ℕ} (h : column.cut maxChars = .ok shown) :
    ShowsColumn maxChars column shown := by
  unfold Column.cut at h
  dsimp only at h
  split at h
  · cases h
    exact ⟨String.toList_ofList, rfl, rfl, rfl, rfl⟩
  · cases h

/-- A cell of a sheet: the value of a column as it is converted, with its text cut. -/
def ShowsValue (py : Outside) (job : Job) (maxChars : ℕ) (column : Column × Option CellType)
    (value : Value) (c : Cell) : Prop :=
  ∃ converted, convert py value column.2 job.locale column.1.currency job.monthNames = .ok converted ∧
    c = (cutCell maxChars converted).cell

def IsLong (py : Outside) (job : Job) (maxChars : ℕ) (column : Column × Option CellType)
    (value : Value) : Prop :=
  ∃ converted t, convert py value column.2 job.locale column.1.currency job.monthNames = .ok converted ∧
    converted.1.text? = some t ∧ maxChars < t.toList.length

/-- A cell that is kept of a value. -/
structure Keeps (py : Outside) (job : Job) (maxChars : ℕ) (c : (Column × Option CellType) × Value)
    (kept : Kept) : Prop where
  shows_ : ShowsValue py job maxChars c.1 c.2 kept.cell
  long : kept.long = true ↔ IsLong py job maxChars c.1 c.2
  fits : ∀ t, kept.cell.text? = some t → t.toList.length ≤ maxChars

theorem convertRow_keeps {job : Job} {maxChars : ℕ} {columns : List (Column × Option CellType)}
    {row : List Value} {kept : List Kept}
    (h : convertRow py job.locale job.monthNames maxChars columns row = .ok kept) :
    List.Forall₂ (Keeps py job maxChars) (columns.zip row) kept := by
  refine (Transaction.mapM_forall₂ h).imp fun c k made => ?_
  obtain fails | ⟨converted, gives⟩ : (∃ e, convert py c.2 c.1.2 job.locale c.1.1.currency
      job.monthNames = .error e) ∨ ∃ converted, convert py c.2 c.1.2 job.locale c.1.1.currency
      job.monthNames = .ok converted := by
    cases convert py c.2 c.1.2 job.locale c.1.1.currency job.monthNames with
    | error e => exact .inl ⟨e, rfl⟩
    | ok converted => exact .inr ⟨converted, rfl⟩
  · obtain ⟨e, fails⟩ := fails
    rw [fails] at made
    cases made
  · rw [gives] at made
    have cut : cutCell maxChars converted = k := Except.ok.inj made
    subst cut
    refine ⟨⟨converted, gives, rfl⟩, ?_, fun t => cutCell_fits⟩
    rw [cutCell_long]
    constructor
    · rintro ⟨t, text, more⟩
      exact ⟨converted, t, gives, text, more⟩
    · rintro ⟨converted', t, gives', text, more⟩
      rw [gives] at gives'
      cases gives'
      exact ⟨t, text, more⟩

/-- Some text of the rows and columns that are kept was cut. -/
def SomeLong (py : Outside) (job : Job) (hasHeader : Bool) (maxChars : ℕ)
    (columns : List (Column × Option CellType)) (values : List (List Value)) : Prop :=
  (∃ row ∈ values, ∃ c ∈ columns.zip row, IsLong py job maxChars c.1 c.2) ∨
    hasHeader = true ∧ ∃ c ∈ columns, maxChars < c.1.header.toList.length

theorem mem_right {α β : Type} {R : α → β → Prop} {l : List α} {r : List β}
    (h : List.Forall₂ R l r) {b : β} (mem : b ∈ r) : ∃ a ∈ l, R a b := by
  induction h with
  | nil => cases mem
  | cons head _ ih =>
    rcases List.mem_cons.mp mem with rfl | later
    · exact ⟨_, List.mem_cons_self .., head⟩
    · obtain ⟨a, here, related⟩ := ih later
      exact ⟨a, List.mem_cons_of_mem _ here, related⟩

theorem mem_left {α β : Type} {R : α → β → Prop} {l : List α} {r : List β}
    (h : List.Forall₂ R l r) {a : α} (mem : a ∈ l) : ∃ b ∈ r, R a b :=
  mem_right h.flip mem

theorem longCells_pos {job : Job} {hasHeader : Bool} {maxChars : ℕ}
    {columns : List (Column × Option CellType)} {values : List (List Value)} {rows : List (List Kept)}
    (h : List.Forall₂ (fun row kept => List.Forall₂ (Keeps py job maxChars) (columns.zip row) kept)
      values rows) :
    longCells hasHeader maxChars columns rows ≠ 0 ↔ SomeLong py job hasHeader maxChars columns values := by
  have ofRows : (rows.map fun row => row.countP Kept.long).sum ≠ 0 ↔
      ∃ row ∈ values, ∃ c ∈ columns.zip row, IsLong py job maxChars c.1 c.2 := by
    rw [ne_eq, List.sum_eq_zero_iff_forall_eq_nat]
    constructor
    · intro some_
      simp only [List.mem_map, not_forall] at some_
      obtain ⟨n, ⟨kept, mem, rfl⟩, positive⟩ := some_
      obtain ⟨k, here, long⟩ := List.countP_pos_iff.mp (Nat.pos_of_ne_zero positive)
      obtain ⟨row, inValues, each⟩ := mem_right h mem
      obtain ⟨c, inRow, keeps⟩ := mem_right each here
      exact ⟨row, inValues, c, inRow, keeps.long.mp long⟩
    · rintro ⟨row, inValues, c, inRow, long⟩ none_
      obtain ⟨kept, mem, each⟩ := mem_left h inValues
      obtain ⟨k, here, keeps⟩ := mem_left each inRow
      have zero := none_ _ (List.mem_map.mpr ⟨kept, mem, rfl⟩)
      exact absurd (keeps.long.mpr long) (List.countP_eq_zero.mp zero k here)
  have ofHeaders : (if hasHeader = true then
        columns.countP fun c => decide (maxChars < c.1.header.toList.length) else 0) ≠ 0 ↔
      hasHeader = true ∧ ∃ c ∈ columns, maxChars < c.1.header.toList.length := by
    by_cases shown : hasHeader = true
    · rw [if_pos shown, and_iff_right shown, ← Nat.pos_iff_ne_zero, List.countP_pos_iff]
      simp only [decide_eq_true_eq]
    · rw [if_neg shown]
      exact ⟨fun h => absurd rfl h, fun h => absurd h.1 shown⟩
  unfold longCells SomeLong
  rw [← ofRows, ← ofHeaders]
  omega

/-! ## One table -/

/-- How a part came from a table. -/
structure Compiled (py : Outside) (job : Job) (cellsUsed : ℤ) (table tableSpec : Dict) (opened : Opened)
    (plan : Layout) (rows : List (List Kept)) (part : Part) : Prop where
  ofOpened : openTable py job.source job.spec table tableSpec = .ok opened
  ofPlan : layout job.capabilities tableSpec part.sheet.name opened.hasHeader opened.reading cellsUsed =
    .ok plan
  ofRows : (opened.reading.values.take plan.rowCap).mapM
    (convertRow py job.locale job.monthNames plan.maxChars plan.columns) = .ok rows
  ofColumns : plan.columns.mapM (fun c => c.1.cut plan.maxChars) = .ok part.sheet.columns
  cells : part.sheet.rows = rows.map fun row => row.map Kept.cell
  hasHeader : part.sheet.hasHeader = opened.hasHeader
  headerRows : part.headerRows = plan.headerRows
  truncations : part.truncations = plan.truncations ++
    if longCells opened.hasHeader plan.maxChars plan.columns rows = 0 then [] else
      [⟨part.sheet.name, "cell_characters", none, plan.maxChars,
        some (longCells opened.hasHeader plan.maxChars plan.columns rows), "max_cell_chars",
        plan.maxChars⟩]

theorem make_ok {name : String} {columns : List Column} {rows : List (List Cell)} {hasHeader : Bool}
    {sheet : Sheet} (h : Sheet.make name columns rows hasHeader = .ok sheet) :
    sheet.name = name ∧ sheet.columns = columns ∧ sheet.rows = rows ∧ sheet.hasHeader = hasHeader := by
  unfold Sheet.make at h
  split at h
  · split at h
    · cases h
      exact ⟨rfl, rfl, rfl, rfl⟩
    · cases h
  · cases h

theorem compileSheet_ok {job : Job} {names : List String} {cellsUsed : ℤ} {index : ℕ}
    {table tableSpec : Value} {part : Part}
    (h : compileSheet py job names cellsUsed index table tableSpec = .ok part) :
    ∃ t s opened plan rows, table = .dict t ∧ tableSpec = .dict s ∧
      Compiled py job cellsUsed t s opened plan rows part := by
  unfold compileSheet at h
  split at h
  · rename_i t s
    simp only [Transaction.bind_eq_ok, Transaction.pure_eq_ok] at h
    obtain ⟨_, _, name, _, opened, ofOpened, plan, ofPlan, rows, ofRows, columns, ofColumns, _, _, _, _,
      _, _, sheet, ofSheet, rfl⟩ := h
    obtain ⟨rfl, rfl, cells, hasHeader⟩ := make_ok ofSheet
    exact ⟨t, s, opened, plan, rows, rfl, rfl, ofOpened, ofPlan, ofRows, ofColumns, cells, hasHeader,
      rfl, rfl⟩
  · cases h

/-! ## Rows of values -/

/-- The values of a row: what may be shown of it, in the columns. -/
def RowOf (py : Outside) (S : List String) (columns : List Column) (row : Value) (values : List Value) :
    Prop :=
  (∃ record, clean S row = .ok (.dict record) ∧ columns.mapM (project py record) = .ok values) ∨
    row.isRow = true ∧ cleanRow S row = .ok values

theorem dicts?_some : ∀ {vs : List Value} {ds : List Dict}, dicts? vs = some ds → vs = ds.map .dict
  | [], ds, h => by
    cases h
    rfl
  | .dict d :: vs, ds, h => by
    simp only [dicts?, Option.map_eq_some_iff] at h
    obtain ⟨rest, found, rfl⟩ := h
    rw [List.map_cons, ← dicts?_some found]

theorem forall₂_comp {α β γ : Type} {R : α → β → Prop} {Q : β → γ → Prop} {l : List α} {m : List β}
    {r : List γ} (h : List.Forall₂ R l m) (h' : List.Forall₂ Q m r) :
    List.Forall₂ (fun a c => ∃ b, R a b ∧ Q b c) l r := by
  induction h generalizing r with
  | nil =>
    cases h'
    exact .nil
  | cons head _ ih =>
    cases h' with
    | cons head' rest' => exact .cons ⟨_, head, head'⟩ (ih rest')

theorem read_ok {S : List String} {explicit : List Dict} {columnsArg raw : List Value}
    {reading : Reading} (h : read py S explicit columnsArg raw = .ok reading) :
    reading.kinds.length = reading.columns.length ∧
      List.Forall₂ (RowOf py S reading.columns) raw reading.values := by
  unfold read at h
  split at h
  · cases h
  · rename_i mixed
    split at h
    · rename_i records
      split at h
      · cases cleaned : raw.mapM (clean S) with
        | error e =>
          rw [cleaned] at h
          cases h
        | ok shown =>
          rw [cleaned] at h
          simp only [Except.bind] at h
          split at h <;> cases h
      · unfold readRecords at h
        simp only [Transaction.bind_eq_ok] at h
        obtain ⟨shown, ofShown, h⟩ := h
        split at h
        · cases h
        · rename_i ds ofDicts
          simp only [Transaction.bind_eq_ok, Transaction.pure_eq_ok] at h
          obtain ⟨projections, _, columns, _, values, ofValues, rfl⟩ := h
          rw [dicts?_some ofDicts] at ofShown
          have cleaned := List.forall₂_map_right_iff.mp (Transaction.mapM_forall₂ ofShown)
          refine ⟨by simp, (forall₂_comp cleaned (Transaction.mapM_forall₂ ofValues)).imp ?_⟩
          rintro row values ⟨record, shows_, projected⟩
          exact .inl ⟨record, shows_, projected⟩
    · rename_i noRecords
      unfold readMatrix at h
      simp only [Transaction.bind_eq_ok] at h
      obtain ⟨values, ofValues, h⟩ := h
      split at h
      · cases h
      · simp only [Transaction.bind_eq_ok] at h
        obtain ⟨columns, _, h⟩ := h
        split at h
        · rw [Transaction.pure_eq_ok] at h
          subst h
          refine ⟨by simp, ?_⟩
          have rows : ∀ row ∈ raw, row.isRow = true := by
            intro row mem
            have some_ : raw.isEmpty = false := by
              cases raw with
              | nil => cases mem
              | cons => rfl
            have notAll : raw.all Value.isDict = false := by
              rw [← Bool.not_eq_true]
              exact fun all => noRecords ⟨some_, all⟩
            have all : raw.all Value.isRow = true := by
              rw [← Bool.not_eq_false]
              exact fun none_ => mixed ⟨some_, notAll, none_⟩
            exact List.all_eq_true.mp all row mem
          exact ((List.forall₂_and_left raw values).mpr
            ⟨rows, Transaction.mapM_forall₂ ofValues⟩).imp fun _ _ both => .inr both
        · cases h

theorem openTable_ok {source spec table tableSpec : Dict} {opened : Opened}
    (h : openTable py source spec table tableSpec = .ok opened) :
    ∃ rows, rowsOf table = .ok rows ∧ opened.reading.kinds.length = opened.reading.columns.length ∧
      List.Forall₂ (RowOf py opened.sensitive opened.reading.columns)
        (rows.filter fun row => !isRejected row) opened.reading.values := by
  unfold openTable at h
  simp only [Transaction.bind_eq_ok] at h
  obtain ⟨declared, _, rows, ofRows, explicit, _, flagged, _, _, _, columnsArg, _, hasHeader, _, reading,
    ofReading, h⟩ := h
  split at h
  · cases h
  · rw [Transaction.pure_eq_ok] at h
    subst h
    exact ⟨rows, ofRows, read_ok ofReading⟩

/-! ## What a sheet keeps -/

/-- A truncation of a sheet is declared. -/
def Declared (truncations : List Truncation) (sheet : Sheet) (what : String) : Prop :=
  ∃ t ∈ truncations, t.sheet = sheet.name ∧ t.truncatedWhat = what

/-- A sheet keeps the first columns and the first rows that were not rejected, and declares what it
cuts. -/
structure KeepsFirst (py : Outside) (job : Job) (truncations : List Truncation) (table : Dict)
    (opened : Opened) (width height maxChars : ℕ) (sheet : Sheet) : Prop where
  values : ∃ rows, rowsOf table = .ok rows ∧
    List.Forall₂ (RowOf py opened.sensitive opened.reading.columns)
      (rows.filter fun row => !isRejected row) opened.reading.values
  withinChars : (maxChars : ℤ) ≤ job.capabilities.maxCellChars
  columns : List.Forall₂ (ShowsColumn maxChars) (opened.reading.columns.take width) sheet.columns
  rows : List.Forall₂ (fun values cells => List.Forall₂ (fun c => ShowsValue py job maxChars c.1 c.2)
      (((opened.reading.columns.zip opened.reading.kinds).take width).zip values) cells)
    (opened.reading.values.take height) sheet.rows
  ofColumns : Declared truncations sheet "columns" ↔
    sheet.columns.length < opened.reading.columns.length
  ofRows : Declared truncations sheet "rows" ↔ sheet.rows.length < opened.reading.values.length
  ofTexts : Declared truncations sheet "cell_characters" ↔ SomeLong py job sheet.hasHeader maxChars
    ((opened.reading.columns.zip opened.reading.kinds).take width) (opened.reading.values.take height)

def Faithful (py : Outside) (job : Job) (truncations : List Truncation) (pair : Value × Value)
    (sheet : Sheet) : Prop :=
  ∃ table tableSpec opened width height maxChars, pair = (.dict table, .dict tableSpec) ∧
    openTable py job.source job.spec table tableSpec = .ok opened ∧
    KeepsFirst py job truncations table opened width height maxChars sheet

namespace Compiled

variable {job : Job} {cellsUsed : ℤ} {table tableSpec : Dict} {opened : Opened} {plan : Layout}
  {rows : List (List Kept)} {part : Part}

theorem keeps (h : Compiled py job cellsUsed table tableSpec opened plan rows part) :
    List.Forall₂ (fun row kept =>
      List.Forall₂ (Keeps py job plan.maxChars) (plan.columns.zip row) kept)
      (opened.reading.values.take plan.rowCap) rows :=
  (Transaction.mapM_forall₂ h.ofRows).imp fun _ _ made => convertRow_keeps made

theorem shows_columns (h : Compiled py job cellsUsed table tableSpec opened plan rows part) :
    List.Forall₂ (fun c shown => ShowsColumn plan.maxChars c.1 shown) plan.columns
      part.sheet.columns :=
  (Transaction.mapM_forall₂ h.ofColumns).imp fun _ _ made => cut_shows made

theorem truncations_named (h : Compiled py job cellsUsed table tableSpec opened plan rows part) :
    ∀ t ∈ part.truncations, t.sheet = part.sheet.name := by
  obtain ⟨_, _, planned⟩ := layout_ok h.ofPlan
  intro t mem
  rw [h.truncations, List.mem_append] at mem
  rcases mem with mem | mem
  · exact planned.named t mem
  · split at mem
    · cases mem
    · rw [List.mem_singleton.mp mem]

theorem truncated_iff (h : Compiled py job cellsUsed table tableSpec opened plan rows part)
    (what : String) : (∃ t ∈ part.truncations, t.truncatedWhat = what) ↔
      (∃ t ∈ plan.truncations, t.truncatedWhat = what) ∨
        "cell_characters" = what ∧ longCells opened.hasHeader plan.maxChars plan.columns rows ≠ 0 := by
  rw [h.truncations]
  simp only [List.mem_append, or_and_right, exists_or]
  by_cases none_ : longCells opened.hasHeader plan.maxChars plan.columns rows = 0
  · rw [if_pos none_]
    simp [none_]
  · rw [if_neg none_]
    simp [none_]

end Compiled

end Metnos.Tabular

/-!
## The sheets of a workbook within the limits of a backend

Each sheet keeps to its own limits.  All sheets together keep to the limit of cells exactly when each
header finds room in what the sheets before it leave: a header is written whether it fits or not.
-/

namespace Metnos.Tabular

open SharedBudget (Demand Fits spent spent_le_iff)

variable {py : Outside}

namespace Compiled

variable {job : Job} {cellsUsed : ℤ} {table tableSpec : Dict} {opened : Opened} {plan : Layout}
  {rows : List (List Kept)} {part : Part}

theorem width (h : Compiled py job cellsUsed table tableSpec opened plan rows part) :
    part.sheet.columns.length = plan.columns.length := h.shows_columns.length_eq.symm

theorem height (h : Compiled py job cellsUsed table tableSpec opened plan rows part) :
    part.sheet.rows.length = min plan.rowCap opened.reading.values.length := by
  rw [h.cells, List.length_map, ← h.keeps.length_eq, List.length_take]

theorem keepsFirst (h : Compiled py job cellsUsed table tableSpec opened plan rows part)
    {truncations : List Truncation}
    (own : ∀ t, t ∈ truncations ∧ t.sheet = part.sheet.name ↔ t ∈ part.truncations) :
    ∃ width height maxChars,
      KeepsFirst py job truncations table opened width height maxChars part.sheet := by
  obtain ⟨values, ofValues, kinds, read⟩ := openTable_ok h.ofOpened
  obtain ⟨cols, rowsMax, planned⟩ := layout_ok h.ofPlan
  have declared : ∀ what, Declared truncations part.sheet what ↔
      ∃ t ∈ part.truncations, t.truncatedWhat = what := by
    intro what
    unfold Declared
    simp only [← and_assoc, own]
  have same : (opened.reading.columns.zip opened.reading.kinds).map Prod.fst =
      opened.reading.columns := List.map_fst_zip kinds.ge
  have wide : plan.columns.length = min cols.toNat opened.reading.columns.length := by
    rw [planned.columns, List.length_take, List.length_zip, kinds, Nat.min_self]
  refine ⟨cols.toNat, plan.rowCap, plan.maxChars, ⟨values, ofValues, read⟩, planned.maxChars, ?_, ?_,
    ?_, ?_, ?_⟩
  · have shown := h.shows_columns
    rw [planned.columns] at shown
    have first := List.forall₂_map_left_iff.mpr shown
    rwa [List.map_take, same] at first
  · rw [← planned.columns, h.cells]
    refine List.forall₂_map_right_iff.mpr (h.keeps.imp fun row kept each => ?_)
    exact List.forall₂_map_right_iff.mpr (each.imp fun _ _ keeps => keeps.shows_)
  · rw [declared, h.truncated_iff, planned.ofColumns, h.width, wide]
    constructor
    · rintro (cut | ⟨what, _⟩)
      · omega
      · simp at what
    · intro cut
      left
      omega
  · rw [declared, h.truncated_iff, planned.ofRows, h.height]
    constructor
    · rintro (cut | ⟨what, _⟩)
      · omega
      · simp at what
    · intro cut
      left
      omega
  · rw [declared, h.truncated_iff, h.hasHeader, ← planned.columns, ← longCells_pos h.keeps]
    constructor
    · rintro (⟨t, mem, what⟩ | ⟨_, long⟩)
      · exact absurd what (planned.noTexts t mem)
      · exact long
    · exact fun long => .inr ⟨rfl, long⟩

theorem headerRows_le (h : Compiled py job cellsUsed table tableSpec opened plan rows part) :
    part.sheet.headerRows ≤ part.headerRows ∧
      (part.sheet.columns ≠ [] → part.sheet.headerRows = part.headerRows) := by
  obtain ⟨cols, rowsMax, planned⟩ := layout_ok h.ofPlan
  have columns : part.sheet.columns ≠ [] → opened.reading.columns.isEmpty = false := by
    intro some_
    have long : plan.columns.length ≤ opened.reading.columns.length := by
      rw [planned.columns, List.length_take, List.length_zip]
      omega
    have := List.length_pos_iff.mpr some_
    rw [h.width] at this
    rw [List.isEmpty_eq_false_iff, ← List.length_pos_iff]
    omega
  unfold Sheet.headerRows
  rw [h.headerRows, planned.headerRows, h.hasHeader]
  unfold headerRowsOf
  by_cases header : opened.hasHeader = true
  · by_cases some_ : part.sheet.columns = []
    · rw [if_neg fun shown => shown.2 some_]
      exact ⟨Nat.zero_le _, fun h => absurd some_ h⟩
    · rw [if_pos ⟨header, some_⟩, if_pos ⟨header, columns some_⟩]
      exact ⟨le_rfl, fun _ => rfl⟩
  · rw [if_neg fun shown => header shown.1, if_neg fun shown => header shown.1]
    exact ⟨le_rfl, fun _ => rfl⟩

theorem cells_eq (h : Compiled py job cellsUsed table tableSpec opened plan rows part) :
    part.sheet.cells = part.cells := by
  unfold Sheet.cells Part.cells
  by_cases none_ : part.sheet.columns = []
  · rw [none_, List.length_nil, Nat.mul_zero, Nat.mul_zero]
  · rw [h.headerRows_le.2 none_]

end Compiled

/-! ## The cells that are left -/

/-- What a table asks for: its columns, its header, and the rows that it has and may have. -/
def demandOf (py : Outside) (job : Job) (pair : Value × Value) : Option Demand :=
  match pair with
  | (.dict table, .dict tableSpec) =>
    match openTable py job.source job.spec table tableSpec with
    | .ok opened =>
      let header := headerRowsOf opened.hasHeader opened.reading
      match positiveLimit tableSpec "max_columns" job.capabilities.maxColumns,
        positiveLimit tableSpec "max_rows" (job.capabilities.maxRows - header) with
      | .ok cols, .ok rows => some
          ⟨min cols.toNat opened.reading.columns.length, header,
            min rows.toNat opened.reading.values.length⟩
      | _, _ => none
    | .error _ => none
  | _ => none

/-- The header of each sheet fits in the cells that the sheets before it leave. -/
def HeadersFit (py : Outside) (job : Job) (tables : List (Value × Value)) : Prop :=
  ∃ demands, tables.mapM (demandOf py job) = some demands ∧ Fits job.capabilities.maxCells 0 demands

theorem Compiled.demand {job : Job} {cellsUsed : ℤ} {table tableSpec : Dict} {opened : Opened}
    {plan : Layout} {rows : List (List Kept)} {part : Part}
    (h : Compiled py job cellsUsed table tableSpec opened plan rows part) :
    ∃ d, demandOf py job (.dict table, .dict tableSpec) = some d ∧
      part.cells = d.spends (job.capabilities.maxCells - cellsUsed) := by
  obtain ⟨cols, rowsMax, planned⟩ := layout_ok h.ofPlan
  obtain ⟨_, _, kinds, _⟩ := openTable_ok h.ofOpened
  have wide : plan.columns.length = min cols.toNat opened.reading.columns.length := by
    rw [planned.columns, List.length_take, List.length_zip, kinds, Nat.min_self]
  refine ⟨⟨min cols.toNat opened.reading.columns.length, headerRowsOf opened.hasHeader opened.reading,
    min rowsMax.toNat opened.reading.values.length⟩, ?_, ?_⟩
  · simp only [demandOf, h.ofOpened, planned.maxCols, planned.maxRows]
  · have cap := planned.rowCap
    unfold Part.cells Demand.spends
    dsimp only
    rw [planned.headerRows, wide] at cap
    rw [h.width, h.height, h.headerRows, planned.headerRows, wide]
    congr 2
    omega

/-! ## The loop over the tables -/

def Parts (py : Outside) (job : Job) (pair : Value × Value) (part : Part) : Prop :=
  ∃ cellsUsed table tableSpec opened plan rows, pair = (.dict table, .dict tableSpec) ∧
    Compiled py job cellsUsed table tableSpec opened plan rows part

theorem compileSheets_ok {job : Job} {names : List String} {cellsUsed : ℤ} {index : ℕ}
    {pairs : List (Value × Value)} {parts : List Part}
    (h : compileSheets py job names cellsUsed index pairs = .ok parts) :
    List.Forall₂ (Parts py job) pairs parts ∧
      ∃ demands, pairs.mapM (demandOf py job) = some demands ∧
        cellsUsed + (parts.map Part.cells).sum = spent job.capabilities.maxCells cellsUsed demands := by
  induction pairs generalizing names cellsUsed index parts with
  | nil =>
    cases h
    exact ⟨.nil, [], rfl, by simp [spent]⟩
  | cons pair pairs ih =>
    obtain ⟨table, tableSpec⟩ := pair
    unfold compileSheets at h
    simp only [Transaction.bind_eq_ok, Transaction.pure_eq_ok] at h
    obtain ⟨part, ofPart, rest, ofRest, rfl⟩ := h
    obtain ⟨t, s, opened, plan, rows, rfl, rfl, compiled⟩ := compileSheet_ok ofPart
    obtain ⟨later, demands, asked, total⟩ := ih ofRest
    obtain ⟨d, ofDemand, spends⟩ := compiled.demand
    refine ⟨.cons ⟨cellsUsed, t, s, opened, plan, rows, rfl, compiled⟩ later, d :: demands, ?_, ?_⟩
    · simp only [List.mapM_cons, ofDemand, asked]
      rfl
    · show _ = spent job.capabilities.maxCells
        (cellsUsed + d.spends (job.capabilities.maxCells - cellsUsed)) demands
      rw [← spends, ← total, List.map_cons, List.sum_cons]
      push_cast
      omega

/-! ## The workbook -/

/-- The limits of a backend. -/
structure WithinLimits (capabilities : Capabilities) (sheets : List Sheet) : Prop where
  columns : ∀ sheet ∈ sheets, (sheet.columns.length : ℤ) ≤ capabilities.maxColumns
  rows : ∀ sheet ∈ sheets, (sheet.rows.length : ℤ) + sheet.headerRows ≤ capabilities.maxRows
  cells : ((sheets.map Sheet.cells).sum : ℤ) ≤ capabilities.maxCells
  texts : ∀ sheet ∈ sheets, ∀ row ∈ sheet.rows, ∀ c ∈ row, ∀ t, c.text? = some t →
    (t.toList.length : ℤ) ≤ capabilities.maxCellChars
  headers : ∀ sheet ∈ sheets, ∀ column ∈ sheet.columns,
    (column.header.toList.length : ℤ) ≤ capabilities.maxCellChars

theorem Compiled.limits {job : Job} {cellsUsed : ℤ} {table tableSpec : Dict} {opened : Opened}
    {plan : Layout} {rows : List (List Kept)} {part : Part}
    (h : Compiled py job cellsUsed table tableSpec opened plan rows part) :
    (part.sheet.columns.length : ℤ) ≤ job.capabilities.maxColumns ∧
      (part.sheet.rows.length : ℤ) + part.sheet.headerRows ≤ job.capabilities.maxRows ∧
      (∀ row ∈ part.sheet.rows, ∀ c ∈ row, ∀ t, c.text? = some t →
        (t.toList.length : ℤ) ≤ job.capabilities.maxCellChars) ∧
      ∀ column ∈ part.sheet.columns,
        (column.header.toList.length : ℤ) ≤ job.capabilities.maxCellChars := by
  obtain ⟨cols, rowsMax, planned⟩ := layout_ok h.ofPlan
  have colsFit := positiveLimit_ok planned.maxCols
  have rowsFit := positiveLimit_ok planned.maxRows
  have chars := planned.maxChars
  refine ⟨?_, ?_, ?_, ?_⟩
  · rw [h.width, planned.columns, List.length_take]
    omega
  · have header := h.headerRows_le.1
    have cap := planned.rowCap
    rw [h.headerRows, planned.headerRows] at header
    rw [h.height]
    omega
  · intro row mem c inRow t text
    rw [h.cells, List.mem_map] at mem
    obtain ⟨kept, inRows, rfl⟩ := mem
    obtain ⟨k, inKept, rfl⟩ := List.mem_map.mp inRow
    obtain ⟨values, _, each⟩ := mem_right h.keeps inRows
    obtain ⟨_, _, keeps⟩ := mem_right each inKept
    have fits := keeps.fits t text
    omega
  · intro column mem
    obtain ⟨c, _, shown⟩ := mem_right h.shows_columns mem
    rw [shown.header, List.length_take]
    omega

theorem jobOf_ok {source spec : Value} {capabilities : Capabilities} {monthNames : Value} {job : Job}
    {tables : List (Value × Value)}
    (h : jobOf py source spec capabilities monthNames = .ok (job, tables)) :
    job.capabilities = capabilities ∧ tables ≠ [] := by
  unfold jobOf at h
  simp only [Transaction.bind_eq_ok] at h
  obtain ⟨s, _, d, _, pairs, ofPairs, h⟩ := h
  split at h
  · cases h
  · simp only [Transaction.bind_eq_ok, Transaction.pure_eq_ok] at h
    obtain ⟨locale, _, same⟩ := h
    cases same
    refine ⟨rfl, ?_⟩
    unfold tablesOf at ofPairs
    split at ofPairs
    · rename_i sources _
      split at ofPairs
      · rename_i specs _
        split at ofPairs
        · cases ofPairs
        · rename_i accepted
          cases ofPairs
          rw [not_or, Bool.not_eq_true, List.isEmpty_eq_false_iff, not_not] at accepted
          rw [← List.length_pos_iff, List.length_zip, ← accepted.2, Nat.min_self]
          exact List.length_pos_iff.mpr accepted.1
      · cases ofPairs
    · cases ofPairs

theorem workbook_sheets {title : String} {sheets : List Sheet} {workbook : Workbook}
    (h : Workbook.make py title sheets = .ok workbook) : workbook.sheets = sheets := by
  unfold Workbook.make at h
  split at h
  · split at h
    · cases h
      rfl
    · cases h
  · cases h

section Loop

variable {job : Job} {tables : List (Value × Value)} {parts : List Part}

theorem Parts.of_mem (made : List.Forall₂ (Parts py job) tables parts) {part : Part}
    (mem : part ∈ parts) : ∃ cellsUsed table tableSpec opened plan rows,
      Compiled py job cellsUsed table tableSpec opened plan rows part := by
  obtain ⟨_, _, cellsUsed, table, tableSpec, opened, plan, rows, _, compiled⟩ := mem_right made mem
  exact ⟨cellsUsed, table, tableSpec, opened, plan, rows, compiled⟩

theorem own_truncations (made : List.Forall₂ (Parts py job) tables parts)
    (distinct : (parts.map fun part => part.sheet.name).Nodup) :
    ∀ part ∈ parts, ∀ t, t ∈ parts.flatMap Part.truncations ∧ t.sheet = part.sheet.name ↔
      t ∈ part.truncations := by
  intro part mem t
  constructor
  · rintro ⟨inAll, named⟩
    obtain ⟨other, inParts, here⟩ := List.mem_flatMap.mp inAll
    obtain ⟨_, _, _, _, _, _, compiled⟩ := Parts.of_mem made inParts
    have same := List.inj_on_of_nodup_map distinct inParts mem
      ((compiled.truncations_named t here).symm.trans named)
    rwa [same] at here
  · intro here
    obtain ⟨_, _, _, _, _, _, compiled⟩ := Parts.of_mem made mem
    exact ⟨List.mem_flatMap.mpr ⟨part, mem, here⟩, compiled.truncations_named t here⟩

theorem parts_faithful (made : List.Forall₂ (Parts py job) tables parts)
    (distinct : (parts.map fun part => part.sheet.name).Nodup) :
    List.Forall₂ (Faithful py job (parts.flatMap Part.truncations)) tables
      (parts.map Part.sheet) := by
  refine List.forall₂_map_right_iff.mpr ?_
  have both := ((List.forall₂_and_left parts tables).mpr
    ⟨own_truncations made distinct, made.flip⟩).flip
  refine both.imp ?_
  rintro pair part ⟨own, cellsUsed, table, tableSpec, opened, plan, rows, rfl, compiled⟩
  obtain ⟨width, height, maxChars, keeps⟩ := compiled.keepsFirst own
  exact ⟨table, tableSpec, opened, width, height, maxChars, rfl, compiled.ofOpened, keeps⟩

theorem parts_cells (made : List.Forall₂ (Parts py job) tables parts) :
    ((parts.map Part.sheet).map Sheet.cells).sum = (parts.map Part.cells).sum := by
  rw [List.map_map]
  congr 1
  refine List.map_congr_left fun part mem => ?_
  obtain ⟨_, _, _, _, _, _, compiled⟩ := Parts.of_mem made mem
  exact compiled.cells_eq

theorem parts_within_iff (made : List.Forall₂ (Parts py job) tables parts) :
    WithinLimits job.capabilities (parts.map Part.sheet) ↔
      ((parts.map Part.cells).sum : ℤ) ≤ job.capabilities.maxCells := by
  rw [← parts_cells made]
  refine ⟨fun within => within.cells, fun cells => ⟨?_, ?_, cells, ?_, ?_⟩⟩
  all_goals
    intro sheet mem
    obtain ⟨part, inParts, rfl⟩ := List.mem_map.mp mem
    obtain ⟨_, _, _, _, _, _, compiled⟩ := Parts.of_mem made inParts
  · exact compiled.limits.1
  · exact compiled.limits.2.1
  · exact compiled.limits.2.2.1
  · exact compiled.limits.2.2.2

end Loop

/-- A workbook that is accepted keeps to the limits, and declares what it cuts, exactly when each
header fits in the cells that are left. -/
theorem compileWorkbook_within_iff (py : Outside) {source spec : Value} {capabilities : Capabilities}
    {monthNames : Value} {out : CompiledTable}
    (accepted : compileWorkbook py source spec capabilities monthNames = .ok out) :
    ∃ job tables, jobOf py source spec capabilities monthNames = .ok (job, tables) ∧
      ((WithinLimits capabilities out.workbook.sheets ∧
          List.Forall₂ (Faithful py job out.truncations) tables out.workbook.sheets) ↔
        HeadersFit py job tables) := by
  unfold compileWorkbook at accepted
  simp only [Transaction.bind_eq_ok, Transaction.pure_eq_ok] at accepted
  obtain ⟨⟨job, tables⟩, ofJob, parts, ofParts, workbook, ofWorkbook, rfl⟩ := accepted
  obtain ⟨rfl, some_⟩ := jobOf_ok ofJob
  obtain ⟨made, demands, asked, total⟩ := compileSheets_ok ofParts
  have sheets := workbook_sheets ofWorkbook
  have distinct := workbook.distinct
  rw [sheets, List.map_map] at distinct
  have demanded : demands ≠ [] := by
    rintro rfl
    cases tables with
    | nil => exact some_ rfl
    | cons pair rest =>
      simp only [List.mapM_cons, Option.bind_eq_bind, Option.bind_eq_some_iff] at asked
      obtain ⟨_, _, _, _, bad⟩ := asked
      cases bad
  have budget := @spent_le_iff job.capabilities.maxCells 0 demands demanded
  rw [← total, zero_add] at budget
  refine ⟨job, tables, ofJob, ?_⟩
  dsimp only
  rw [sheets, parts_within_iff made]
  constructor
  · rintro ⟨cells, _⟩
    exact ⟨demands, asked, budget.mp cells⟩
  · rintro ⟨demands', asked', fits⟩
    rw [asked] at asked'
    cases asked'
    exact ⟨budget.mpr fits, parts_faithful made distinct⟩

/-! ## Two sheets of headers -/

def sampleCapabilities (maxCells : ℤ) : Capabilities := ⟨[.text], true, 10, 10, 100, maxCells⟩

/-- Two tables without rows, each with two columns. -/
def sampleSource : Value :=
  .dict [(.str "sheets", .list [.dict [(.str "entries", .list [])], .dict [(.str "entries", .list [])]])]

def sampleSpec : Value :=
  .dict [(.str "sheets", .list [.dict [(.str "columns", .list [.str "a", .str "b"])],
    .dict [(.str "columns", .list [.str "c", .str "d"])]])]

def sampleCompiled (maxCells : ℤ) : Except Error CompiledTable :=
  compileWorkbook plainOutside sampleSource sampleSpec (sampleCapabilities maxCells) .null

theorem sampleCompiled_ok {maxCells : ℤ} (ok : (sampleCompiled maxCells).isOk = true) :
    ∃ out, sampleCompiled maxCells = .ok out := by
  cases compiled : sampleCompiled maxCells with
  | error refused =>
    rw [compiled] at ok
    cases ok
  | ok out => exact ⟨out, rfl⟩

/-- With four cells the two headers fit. -/
theorem two_headers_fit : ∃ out job tables, sampleCompiled 4 = .ok out ∧
    jobOf plainOutside sampleSource sampleSpec (sampleCapabilities 4) .null = .ok (job, tables) ∧
    ((WithinLimits (sampleCapabilities 4) out.workbook.sheets ∧
        List.Forall₂ (Faithful plainOutside job out.truncations) tables out.workbook.sheets) ↔
      HeadersFit plainOutside job tables) := by
  obtain ⟨out, compiled⟩ := @sampleCompiled_ok 4 (by decide)
  obtain ⟨job, tables, ofJob, iff⟩ := compileWorkbook_within_iff plainOutside compiled
  exact ⟨out, job, tables, compiled, ofJob, iff⟩

/-- With three cells the second header is written as well. -/
theorem second_header_exceeds : ¬ ∀ (py : Outside) (source spec : Value) (capabilities : Capabilities)
    (monthNames : Value) (out : CompiledTable),
    compileWorkbook py source spec capabilities monthNames = .ok out →
      ((out.workbook.sheets.map Sheet.cells).sum : ℤ) ≤ capabilities.maxCells := by
  intro claim
  obtain ⟨out, compiled⟩ := @sampleCompiled_ok 3 (by decide)
  have within := claim _ _ _ _ _ out compiled
  have counted : (sampleCompiled 3).toOption.map
      (fun out => (out.workbook.sheets.map Sheet.cells).sum) = some 4 := by decide
  rw [compiled] at counted
  have four : (out.workbook.sheets.map Sheet.cells).sum = 4 := Option.some.inj counted
  rw [four] at within
  exact absurd within (by decide)

end Metnos.Tabular
