import TablePipeline.Rule.Arithmetic
import TablePipeline.Rule.Like

/-!
# Comparing cells

Cells of one kind are ordered, text also against what it can be read as. Comparisons have three
truth values; nothing stands for unknown.
-/

set_option autoImplicit false

namespace TablePipeline

open Sql (CompareOp)

namespace Scalar

def toFloat? : Scalar → Option Binary64
  | float x => some x
  | integer n => some (.ofInt n.toInt)
  | decimal d => some (.ofDecimal d)
  | _ => none

/-- Orders two numbers, as decimals where both have one and as floats otherwise. -/
def compareNumbers? (a b : Scalar) : Option Ordering :=
  match a.toDecimal?, b.toDecimal? with
  | some x, some y => some (x.compareWith y)
  | _, _ => do (← a.toFloat?).compare? (← b.toFloat?)

/-- The order of two cells; nothing if they cannot be compared or one is null. -/
def compare? (a b : Scalar) : Option Ordering :=
  match a, b with
  | null, _ | _, null => none
  | text s, text t => some (Ord.compare s t)
  | boolean p, boolean q => some (Ord.compare p q)
  | boolean p, text t => (readBoolean? t).map (Ord.compare p ·)
  | text s, boolean q => (readBoolean? s).map (Ord.compare · q)
  | date d, date e => some (Ord.compare d e)
  | timestamp t, timestamp u => some (Ord.compare t u)
  | date d, timestamp u => some (Ord.compare (Timestamp.midnight d) u)
  | timestamp t, date e => some (Ord.compare t (.midnight e))
  | date d, text t => (Calendar.readDate? t).map (Ord.compare d ·)
  | text s, date e => (Calendar.readDate? s).map (Ord.compare · e)
  | timestamp t, text u => (Calendar.readTimestamp? (Text.trim u)).map (Ord.compare t ·)
  | text s, timestamp u => (Calendar.readTimestamp? (Text.trim s)).map (Ord.compare · u)
  | text s, b => (readDecimal? s).bind fun d => compareNumbers? (decimal d) b
  | a, text t => (readDecimal? t).bind fun d => compareNumbers? a (decimal d)
  | a, b => compareNumbers? a b

end Scalar

inductive CompareOperand
  | none
  | value (v : Scalar)
  | list (vs : List Scalar)
  deriving DecidableEq, Repr

/-- Whether an order answers an operator of order. -/
def answers? (o : Ordering) : CompareOp → Option Bool
  | .eq => some (o == .eq)
  | .notEq => some (o != .eq)
  | .gt => some (o == .gt)
  | .lt => some (o == .lt)
  | .gtEq => some (o != .lt)
  | .ltEq => some (o != .gt)
  | _ => none

namespace Scalar

/-- Whether a cell is one of some values; unknown if it is none of them but one is null. -/
def isIn? (a : Scalar) (vs : List Scalar) : Option Bool :=
  if vs.any fun v => a.compare? v == some .eq then some true
  else if vs.any isNull then none
  else some false

/-- Applies an operator with three truth values. -/
def test? (a : Scalar) (op : CompareOp) (right : CompareOperand) : Option Bool :=
  match op with
  | .isNull => some a.isNull
  | .isNotNull => some !a.isNull
  | op =>
    if a.isNull then none
    else match op, right with
      | .isIn, .list vs => a.isIn? vs
      | .like, .value null => none
      | .like, .value v => some (Like.isMatch a.display v.display)
      | op, .value v => (a.compare? v).bind (answers? · op)
      | _, _ => none

end Scalar

end TablePipeline
