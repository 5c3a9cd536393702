import TablePipeline.Failure
import TablePipeline.Sql.Name

/-!
# Target tables

A target table has typed columns and a write mode. Rows are checked against the columns before they
are written.
-/

set_option autoImplicit false

namespace TablePipeline

/-- What becomes of an existing target table. -/
inductive WriteMode
  /-- It is dropped and made anew. -/
  | replace
  /-- It is emptied, or made where missing. -/
  | truncate
  /-- It is kept, or made where missing. -/
  | append
  deriving DecidableEq, Repr, Inhabited

namespace WriteMode

def name : WriteMode → String
  | replace => "replace"
  | truncate => "truncate"
  | append => "append"

def all : List WriteMode := [replace, truncate, append]

end WriteMode

def ColumnType.storageName : ColumnType → String
  | integer => "BIGINT"
  | decimal => "NUMERIC"
  | float => "DOUBLE PRECISION"
  | text => "TEXT"
  | date => "DATE"
  | timestamp => "TIMESTAMP"
  | boolean => "BOOLEAN"

structure TableColumn where
  name : String
  type : ColumnType
  deriving DecidableEq, Repr

structure TableSpec where
  table : String
  columns : List TableColumn
  mode : WriteMode
  deriving DecidableEq, Repr

inductive WriteFault
  | width (row found expected : Nat)
  | cellType (row : Nat) (found : ColumnType) (column : TableColumn)
  | simulated (batches : Nat)
  | vanished (table : String)
  | noColumns
  | finished
  | stated (text : String)
  deriving DecidableEq, Repr

def WriteFault.message : WriteFault → String
  | width row found expected =>
    "row " ++ Digits.text row ++ " has " ++ Digits.text found ++ " values, target has " ++
      Digits.text expected ++ " columns"
  | cellType row found column =>
    "row " ++ Digits.text row ++ ": " ++ found.name ++ " value for " ++ column.type.name ++
      " column '" ++ column.name ++ "'"
  | simulated batches => "simulated failure after " ++ Digits.text batches ++ " batches"
  | vanished table => "table " ++ table ++ " vanished"
  | noColumns => "target table has no columns"
  | finished => "writer already finished"
  | stated text => text

inductive WarehouseError
  | sql (fault : Sql.Error)
  | locked (table : String)
  | query (text : String)
  | write (fault : WriteFault)
  deriving DecidableEq, Repr

namespace WarehouseError

def message : WarehouseError → String
  | sql fault => fault.message
  | locked table => "target table '" ++ table ++ "' is locked by another writer"
  | query text => "warehouse query failed: " ++ text
  | write fault => "warehouse write failed: " ++ fault.message

def toFailure (e : WarehouseError) : Failure :=
  match e with
  | sql fault => fault.toFailure
  | locked _ => ⟨.targetLocked, e.message⟩
  | query _ => ⟨.queryError, e.message⟩
  | write _ => ⟨.writeError, e.message⟩

end WarehouseError

def TableColumn.definition (c : TableColumn) : Except Sql.Error String := do
  return (← Sql.quoteName .postgres c.name) ++ " " ++ c.type.storageName

def columnDefinitions (columns : List TableColumn) : Except Sql.Error String := do
  return String.intercalate ", " (← columns.mapM (·.definition))

/-- The first cell of a row whose type is not that of its column. -/
def misplacedCell? (row : Nat) : Row → List TableColumn → Option WriteFault
  | v :: vs, c :: cs =>
    match v.type? with
    | some t => if t = c.type then misplacedCell? row vs cs else some (.cellType row t c)
    | none => misplacedCell? row vs cs
  | _, _ => none

/-- Checks that rows are as wide as the columns and their cells null or of the types of the columns.
Rows are counted from `n`. -/
def checkRowsFrom (columns : List TableColumn) : Nat → List Row → Except WriteFault Unit
  | _, [] => .ok ()
  | n, row :: rows =>
    if row.length ≠ columns.length then .error (.width n row.length columns.length)
    else match misplacedCell? n row columns with
      | some fault => .error fault
      | none => checkRowsFrom columns (n + 1) rows

def checkRows (columns : List TableColumn) (rows : List Row) : Except WriteFault Unit :=
  checkRowsFrom columns 0 rows

end TablePipeline
