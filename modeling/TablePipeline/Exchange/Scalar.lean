import TablePipeline.Calendar.Reading
import TablePipeline.Rule.Policy
import TablePipeline.Scalar

/-!
# Cells in exact JSON

A form of cells that keeps types apart and loses nothing: each cell but null is an object whose one
member names its type. A float is given by the 16 hexadecimal digits of its bits. Readers for the
parts that larger values are made of tell faults of form from what the library itself refuses.
-/

set_option autoImplicit false

namespace TablePipeline.Exchange

attribute [local instance (high)] instPowNat

def orNull {α : Type} (f : α → Json) : Option α → Json
  | some a => f a
  | none => .null

private def hexDigits : List Char := "0123456789abcdef".toList

/-- Sixteen hexadecimal digits; all that are not a number are one. -/
def floatText (x : Binary64) : String :=
  if x.isNaN then "nan"
  else String.ofList ((List.range 16).reverse.map fun i =>
    hexDigits.getD (x.bits.toNat / 16 ^ i % 16) '0')

def readFloat? (s : String) : Option Binary64 :=
  if s = "nan" then some Binary64.nan
  else if s.length = 16 ∧ s.toList.all (hexDigits.contains ·) then
    some ⟨UInt64.ofNat (s.toList.foldl (fun n c => 16 * n + hexDigits.idxOf c) 0)⟩
  else none

def scalar : Scalar → Json
  | .null => .null
  | .boolean b => .ofMembers [("b", .bool b)]
  | .integer n => .ofMembers [("i", .int n.toInt)]
  | .float x => .ofMembers [("f", .text (floatText x))]
  | .decimal d => .ofMembers [("d", .text d.normalize.text)]
  | .text s => .ofMembers [("s", .text s)]
  | .date d => .ofMembers [("date", .text d.text)]
  | .timestamp t => .ofMembers [("ts", .text t.text)]

def readDate? (s : String) : Option Date :=
  (Calendar.readFields [.year, .literal '-', .month, .literal '-', .day] {} s.toList).bind (·.date?)

def readTimestamp? (s : String) : Option Timestamp :=
  (Calendar.readFields (Calendar.timestampLayouts.headD []) {} s.toList).bind (·.timestamp?)

def readScalar? : Json → Option Scalar
  | .null => some .null
  | .object [("b", .bool b)] => some (.boolean b)
  | .object [("i", .int n)] => some (.integer (Int64.ofInt n))
  | .object [("f", .text s)] => (readFloat? s).map .float
  | .object [("d", .text s)] => (Decimal.readPlain? s).map .decimal
  | .object [("s", .text s)] => some (.text s)
  | .object [("date", .text s)] => (readDate? s).map .date
  | .object [("ts", .text s)] => (readTimestamp? s).map .timestamp
  | _ => none

def row (r : Row) : Json := .list (r.map scalar)

def rows (rs : List Row) : Json := .list (rs.map row)

def rowSet (r : RowSet) : Json :=
  .ofMembers [("columns", .list (r.columns.map .text)), ("rows", rows r.rows)]

def readRow? : Json → Option Row
  | .list cells => cells.mapM readScalar?
  | _ => none

def readRows? : Json → Option (List Row)
  | .list rs => rs.mapM readRow?
  | _ => none

def readTexts? : Json → Option (List String)
  | .list items => items.mapM fun
    | .text s => some s
    | _ => none
  | _ => none

def readRowSet? (j : Json) : Option RowSet := do
  return ⟨← readTexts? (← j.member? "columns"), ← readRows? (← j.member? "rows")⟩

def type (t : ColumnType) : Json := .text t.name

inductive ReadFault
  | form (what : String)
  | sql (error : Sql.Error)
  | halt (halt : Halt)

abbrev Read (α : Type) := Except ReadFault α

def form {α : Type} (what : String) : Read α := .error (.form what)

def ofSql {α : Type} (r : Except Sql.Error α) : Read α := r.mapError .sql

def ofHalt {α : Type} (r : Except Halt α) : Read α := r.mapError .halt

def ofFailure {α : Type} (r : Except Failure α) : Read α := ofHalt (r.mapError .failure)

def need {α : Type} (what : String) : Option α → Read α
  | some a => .ok a
  | none => form what

def readText (j : Json) : Read String :=
  match j with
  | .text s => .ok s
  | _ => form "text"

def readList (j : Json) : Read (List Json) :=
  match j with
  | .list items => .ok items
  | _ => form "list"

def member (j : Json) (name : String) : Json := (j.member? name).getD .null

def memberText (j : Json) (name : String) : Read String := readText (member j name)

/-- The items of a member; none if there is no such member. -/
def memberList (j : Json) (name : String) : Read (List Json) :=
  match member j name with
  | .null => .ok []
  | j => readList j

def readScalar (j : Json) : Read Scalar := need "scalar" (readScalar? j)

def readType (j : Json) : Read ColumnType := do need "type" (ColumnType.read? (← readText j))

def readType? : Json → Read (Option ColumnType)
  | .null => .ok none
  | j => some <$> readType j

def memberText? (j : Json) (name : String) : Option String :=
  match member j name with
  | .text s => some s
  | _ => none

def readRow (j : Json) : Read Row := need "row" (readRow? j)

def readPolicy : Json → Read RowPolicy
  | .null => .ok .nullOut
  | j => do
    let name ← readText j
    need "policy" ([RowPolicy.nullOut, .skipRow, .abort].find? (·.name == name))

end TablePipeline.Exchange
