import TablePipeline.Calendar.Timestamp
import TablePipeline.Number.Binary64.Layout
import TablePipeline.Number.Conversion
import TablePipeline.Number.Decimal.Reading
import TablePipeline.Json
import TablePipeline.Text.Class

/-!
# Column types, cells and row sets

A cell holds one value of one of seven types, or null. `ColumnType.accepts` says which types go into
a column without loss.
-/

set_option autoImplicit false

namespace TablePipeline

inductive ColumnType
  | integer
  | decimal
  | float
  | text
  | date
  | timestamp
  | boolean
  deriving DecidableEq, Repr, Inhabited

namespace ColumnType

def name : ColumnType → String
  | integer => "integer"
  | decimal => "decimal"
  | float => "float"
  | text => "text"
  | date => "date"
  | timestamp => "timestamp"
  | boolean => "boolean"

def isNumeric : ColumnType → Bool
  | integer | decimal | float => true
  | _ => false

/-- Whether values of `other` can be stored in a column of this type without loss. -/
def accepts (self other : ColumnType) : Bool :=
  self == other || match self, other with
    | text, _ => true
    | decimal, integer => true
    | float, integer | float, decimal => true
    | timestamp, date => true
    | _, _ => false

/-- Reads a type by one of its names, in any case and between blanks. -/
def read? (s : String) : Option ColumnType :=
  match Text.lowerAscii (Text.trim s) with
  | "integer" | "int" | "bigint" => some integer
  | "decimal" | "numeric" => some decimal
  | "float" | "double" => some float
  | "text" | "string" | "varchar" => some text
  | "date" => some date
  | "timestamp" | "datetime" => some timestamp
  | "boolean" | "bool" => some boolean
  | _ => none

def unknownMessage (s : String) : String := "unknown column type '" ++ s ++ "'"

theorem accepts_self (t : ColumnType) : t.accepts t = true := by cases t <;> rfl

end ColumnType

/-- One cell. -/
inductive Scalar
  | null
  | boolean (value : Bool)
  | integer (value : Int64)
  | float (value : Binary64)
  | decimal (value : Decimal)
  | text (value : String)
  | date (value : Date)
  | timestamp (value : Timestamp)
  deriving DecidableEq, Repr

namespace Scalar

instance : Inhabited Scalar := ⟨null⟩

def isNull : Scalar → Bool
  | null => true
  | _ => false

def type? : Scalar → Option ColumnType
  | null => none
  | boolean _ => some .boolean
  | integer _ => some .integer
  | float _ => some .float
  | decimal _ => some .decimal
  | text _ => some .text
  | date _ => some .date
  | timestamp _ => some .timestamp

theorem type?_eq_none_iff (v : Scalar) : v.type? = none ↔ v = null := by cases v <;> simp [type?]

/-- The value of a number as a decimal; infinities and floats beyond 96 bits have none. -/
def toDecimal? : Scalar → Option Decimal
  | integer n => some (.ofInt64 n)
  | decimal d => some d
  | float x => x.toDecimal?
  | _ => none

/-- The text of a cell; decimals are written in normal form. -/
def display : Scalar → String
  | null => "NULL"
  | boolean b => if b then "true" else "false"
  | integer n => Digits.signedText n.toInt
  | float x => x.text .plain
  | decimal d => d.normalize.text
  | text s => s
  | date d => d.text
  | timestamp t => t.text

/-- The cell of a JSON literal: whole numbers of signed 64 bits, any other number as a decimal if
it has one. Lists and objects are no cells. -/
def ofJson? : Json → Option Scalar
  | .null => some null
  | .bool b => some (boolean b)
  | .int n =>
    match Integer.fit? n with
    | some k => some (integer k)
    | none => (Decimal.read? (Digits.signedText n)).map decimal
  | .float x =>
    match Decimal.read? (x.text .json) with
    | some d => some (decimal d)
    | none => some (float x)
  | .text s => some (text s)
  | .list _ | .object _ => none

def unsupportedMessage (j : Json) : String := "literal " ++ j.write ++ " is not a scalar value"

/-- The cell as JSON; a float that is not finite is null, all but numbers and booleans is text. -/
def toJson : Scalar → Json
  | null => .null
  | boolean b => .bool b
  | integer n => .int n.toInt
  | float x => if x.isFinite then .float x else .null
  | v => .text v.display

end Scalar

/-- The cells of a row, in the order of the columns. -/
abbrev Row := List Scalar

structure RowSet where
  columns : List String
  rows : List Row
  deriving DecidableEq, Repr

namespace RowSet

def empty : RowSet := ⟨[], []⟩

def columnIndex? (s : RowSet) (name : String) : Option Nat := s.columns.findIdx? (· == name)

/-- Every row is as wide as the list of columns. -/
def Rectangular (s : RowSet) : Prop := ∀ r ∈ s.rows, r.length = s.columns.length

end RowSet

end TablePipeline
