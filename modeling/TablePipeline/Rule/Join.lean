import Std.Data.HashMap
import TablePipeline.Scalar
import TablePipeline.Sql.Operator

/-!
# Joining rows on equal keys

The right rows are indexed by key once; each left row is followed by its partners. Null joins with
nothing, and numbers join by value.
-/

set_option autoImplicit false

namespace TablePipeline

/-- What two cells must share to join. -/
inductive JoinKey
  /-- A decimal in normal form: sign, coefficient and scale. -/
  | number (negative : Bool) (coefficient scale : Nat)
  | text (s : String)
  | boolean (b : Bool)
  /-- A moment, that of midnight for a date: year, month, day, second and nanosecond. -/
  | moment (year : Int) (month day second nano : Nat)
  deriving DecidableEq, Repr, Hashable

namespace JoinKey

def ofDecimal (d : Decimal) : JoinKey :=
  let n := d.normalize
  number n.negative n.coefficient n.scale

def ofTimestamp (t : Timestamp) : JoinKey :=
  moment t.date.year t.date.month t.date.day t.second t.nano

/-- The key of a cell; null and floats without a decimal value have none. -/
def ofScalar? : Scalar → Option JoinKey
  | .null => none
  | .integer n => some (ofDecimal (.ofInt64 n))
  | .decimal d => some (ofDecimal d)
  | .float x => x.toDecimal?.map ofDecimal
  | .text s => some (text s)
  | .boolean b => some (boolean b)
  | .date d => some (ofTimestamp (.midnight d))
  | .timestamp t => some (ofTimestamp t)

def ofRow? (position : Nat) (row : Row) : Option JoinKey := row[position]?.bind ofScalar?

end JoinKey

namespace Rows

/-- The rows of each key, in order. -/
abbrev KeyIndex := Std.HashMap JoinKey (Array Row)

def addToIndex (position : Nat) (index : KeyIndex) (row : Row) : KeyIndex :=
  match JoinKey.ofRow? position row with
  | some k => index.insert k ((index.getD k #[]).push row)
  | none => index

def indexBy (position : Nat) (rows : List Row) : KeyIndex := rows.foldl (addToIndex position) ∅

/-- A left row with each of its partners; without any, a left join pads it with nulls. -/
def joinRow (kind : Sql.JoinKind) (width : Nat) (partners : Array Row) (row : Row) : List Row :=
  if partners.isEmpty then
    match kind with
    | .left => [row ++ List.replicate width .null]
    | .inner => []
  else partners.toList.map (row ++ ·)

/-- Joins rows where the cells at two positions have the same key; `width` is that of the right
rows. -/
def join (kind : Sql.JoinKind) (left : List Row) (leftKey : Nat) (right : List Row)
    (rightKey width : Nat) : List Row :=
  let index := indexBy rightKey right
  left.flatMap fun row =>
    let partners := match JoinKey.ofRow? leftKey row with
      | some k => index.getD k #[]
      | none => #[]
    joinRow kind width partners row

end Rows

end TablePipeline
