import TablePipeline.Plan.Rule
import TablePipeline.Proofs.Query.Meaning
import TablePipeline.Proofs.Rows.KeyEquality
import TablePipeline.Proofs.Rule.Arithmetic

/-!
# What an expression computes

The value of an expression over the cells of a row, by the rules that are applied in memory: casts
of cells, one step of arithmetic on two numbers, and comparisons with three truth values. Nothing
stands for a computation that fails.
-/

set_option autoImplicit false

namespace TablePipeline

namespace Sql

/-- The number in a cell; a query reads none in a text. -/
def number? : Scalar → Option Number
  | .integer n => some (.integer n)
  | .decimal d => some (.decimal d)
  | .float x => some (.float x)
  | _ => none

/-- One operation on two cells. A null on either side makes it null, whatever the other side is. -/
def binary? (op : ArithmeticOp) : Option Scalar → Option Scalar → Option Scalar
  | some .null, _ | _, some .null => some .null
  | some a, some b => do
    let r ← (Number.step op (← number? a) (← number? b)).toOption
    return (← r).toScalar
  | _, _ => none

mutual

/-- The value of an expression. A `CASE` takes its first branch only if its test is true, and
computes no branch that it does not take. -/
def Expr.value? (cells : Cells) : Expr → Option Scalar
  | .column table name => some (cells table name)
  | .literal v => some v
  | .cast inner target => do ((← inner.value? cells).cast target).toOption
  | .binary op left right => binary? op (left.value? cells) (right.value? cells)
  | .safeDivide numerator denominator sentinel => do
    let n ← numerator.value? cells
    let d ← denominator.value? cells
    if n.isNull || d.isNull then some .null
    else if d.test? .eq (.value (.integer 0)) = some true then some sentinel
    else binary? .divide (some n) (some d)
  | .choose test yes no => do
    if (← test.truth? cells) = some true then yes.value? cells else no.value? cells

/-- The truth of a predicate, one of three values, where its sides have values. -/
def Predicate.truth? (cells : Cells) : Predicate → Option (Option Bool)
  | .mk left op right => do return (← left.value? cells).test? op (← right.value? cells)

def Operand.value? (cells : Cells) : Operand → Option CompareOperand
  | .none => some .none
  | .expr e => do return .value (← e.value? cells)
  | .list vs => some (.list vs)

end

def ComputeTo (cells : Cells) (es : List Expr) (vs : List Scalar) : Prop :=
  List.Forall₂ (fun e v => e.value? cells = some v) es vs

variable {cells : Cells}

theorem ComputeTo.getD {es : List Expr} {vs : List Scalar} (h : ComputeTo cells es vs) {i : Nat}
    {e : Expr} (he : es[i]? = some e) : e.value? cells = some (vs.getD i .null) := by
  induction h generalizing i with
  | nil => cases he
  | cons hhead _ ih =>
    cases i with
    | zero =>
      obtain rfl := Option.some.inj he
      exact hhead
    | succ i => exact ih he

theorem binary?_null_left (op : ArithmeticOp) (y : Option Scalar) :
    binary? op (some .null) y = some .null := rfl

theorem binary?_null_right (op : ArithmeticOp) (x : Option Scalar) :
    binary? op x (some .null) = some .null := by
  cases x with
  | none => rfl
  | some v => cases v <;> rfl

theorem binary?_numbers (op : ArithmeticOp) (a b : Number) :
    binary? op (some a.toScalar) (some b.toScalar) =
      ((Number.step op a b).toOption.bind id).map Number.toScalar := by
  have hstep (o : Option (Option Number)) :
      (do let r ← o; return (← r).toScalar : Option Scalar) = (o.bind id).map Number.toScalar := by
    cases o with
    | none => rfl
    | some r => cases r <;> rfl
  cases a <;> cases b <;> exact hstep _

theorem value?_choose {left e yes no : Expr} {op : CompareOp} {v w : Scalar}
    (hleft : left.value? cells = some v) (he : e.value? cells = some w) :
    (Expr.choose (.mk left op (.expr e)) yes no).value? cells =
      if v.test? op (.value w) = some true then yes.value? cells else no.value? cells := by
  rw [Expr.value?, Predicate.truth?, Operand.value?, hleft, he]
  rfl

theorem value?_nullGuard {e inner : Expr} {v : Scalar} (h : e.value? cells = some v) :
    (TablePipeline.nullGuard inner e).value? cells =
      if v.isNull then some .null else inner.value? cells := by
  rw [TablePipeline.nullGuard, Expr.value?, Predicate.truth?, Operand.value?, h, Expr.value?]
  exact if_congr Option.some_inj rfl rfl

theorem value?_zeroGuard {sentinel v : Scalar} {e inner : Expr} (h : e.value? cells = some v) :
    (zeroGuard sentinel inner e).value? cells =
      if v.test? .eq (.value (.integer 0)) = some true then some sentinel
      else inner.value? cells := by
  rw [zeroGuard, value?_choose h rfl]
  rfl

end Sql

/-! ### Zero divisors -/

theorem Decimal.signed_eq_zero_iff (d : Decimal) : d.signed = 0 ↔ d.coefficient = 0 := by
  unfold signed
  split <;> omega

theorem Decimal.compareWith_zero (d : Decimal) :
    d.compareWith (.ofInt64 0) = .eq ↔ d.isZero = true := by
  have hzero : (Decimal.ofInt64 0).signed = 0 := by decide
  unfold compareWith isZero
  rw [compare_eq_iff_eq, hzero, Int.zero_mul, beq_iff_eq, ← signed_eq_zero_iff]
  exact Int.mul_eq_zero.trans (or_iff_left (by decide))

/-- A number equals zero in a comparison just where it is read as zero. -/
theorem Scalar.test?_zero {v : Scalar} (h : KeyKind.number.has v = true) :
    v.test? .eq (.value (.integer 0)) = some true ↔ v.readsZero = true := by
  rw [test?_eq_iff]
  cases v with
  | null => exact iff_of_false (fun h => by cases h) (fun h => by cases h)
  | integer n =>
    show some ((Decimal.ofInt64 n).compareWith (.ofInt64 0)) = some .eq ↔ (n == 0) = true
    rw [Option.some_inj, Decimal.compareWith_zero, Decimal.isZero_ofInt64]
  | decimal d =>
    show some (d.compareWith (.ofInt64 0)) = some .eq ↔ d.isZero = true
    rw [Option.some_inj, Decimal.compareWith_zero]
  | _ => cases h

end TablePipeline
