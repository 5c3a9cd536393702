import TablePipeline.Rule.Cast

/-!
# Arithmetic on cells

Operands are combined from left to right: whole numbers exactly or not at all, floats as floats, all
else as decimals. A null operand gives null and a zero divisor the value chosen for it.
-/

set_option autoImplicit false

namespace TablePipeline

open Sql (ArithmeticOp)

namespace Number

def isZero : Number → Bool
  | integer n => n == 0
  | decimal d => d.isZero
  | float x => x.isZero

def toDecimal? : Number → Option Decimal
  | integer n => some (.ofInt64 n)
  | decimal d => some d
  | float x => x.toDecimal?

def toFloat : Number → Binary64
  | integer n => .ofInt n.toInt
  | decimal d => .ofDecimal d
  | float x => x

def isFloat : Number → Bool
  | float _ => true
  | _ => false

/-- Whole numbers stay whole but for a quotient, which is a decimal. -/
def integerStep (op : ArithmeticOp) (a b : Int64) : Option Number :=
  match op with
  | .add => (Integer.fit? (a.toInt + b.toInt)).map integer
  | .subtract => (Integer.fit? (a.toInt - b.toInt)).map integer
  | .multiply => (Integer.fit? (a.toInt * b.toInt)).map integer
  | .divide => ((Decimal.ofInt64 a).div? (.ofInt64 b)).map decimal

def decimalStep (op : ArithmeticOp) (a b : Decimal) : Option Number :=
  (match op with
    | .add => a.add? b
    | .subtract => a.sub? b
    | .multiply => a.mul? b
    | .divide => a.div? b).map decimal

def floatStep (op : ArithmeticOp) (a b : Binary64) : Option Number :=
  let r := match op with
    | .add => a.add b
    | .subtract => a.sub b
    | .multiply => a.mul b
    | .divide => a.div b
  if r.isFinite then some (float r) else none

/-- Combines two numbers; nothing if the result has no room. -/
def combine? (op : ArithmeticOp) (a b : Number) : Option Number :=
  match a, b with
  | integer m, integer n => integerStep op m n
  | a, b =>
    if a.isFloat || b.isFloat then floatStep op a.toFloat b.toFloat
    else do decimalStep op (← a.toDecimal?) (← b.toDecimal?)

/-- One step from left to right. Nothing stands for a zero divisor. -/
def step (op : ArithmeticOp) (a b : Number) : Except RowFault (Option Number) :=
  if op = .divide ∧ b.isZero then .ok none
  else match combine? op a b with
    | some r => .ok (some r)
    | none => .error (.overflow a op b)

end Number

/-- The number in a cell; text may hold one. -/
def Scalar.toNumber : Scalar → Except RowFault Number
  | .integer n => .ok (.integer n)
  | .decimal d => .ok (.decimal d)
  | .float x => .ok (.float x)
  | .text s =>
    match readInteger? s with
    | some n => .ok (.integer n)
    | none =>
      match readDecimal? s with
      | some d => .ok (.decimal d)
      | none => .error (.notANumber s)
  | v => .error (.notANumber v.display)

namespace Arithmetic

def fold (op : ArithmeticOp) (divideByZero : Scalar) : Number → List Scalar → Except RowFault Scalar
  | acc, [] => .ok acc.toScalar
  | acc, v :: vs => do
    match ← Number.step op acc (← v.toNumber) with
    | some next => fold op divideByZero next vs
    | none => return divideByZero

def evaluate (op : ArithmeticOp) (operands : List Scalar) (divideByZero : Scalar) :
    Except RowFault Scalar :=
  if operands.any Scalar.isNull then .ok .null
  else match operands with
    | [] => .error .noOperand
    | v :: vs => do fold op divideByZero (← v.toNumber) vs

/-- The type of a result over operands of these types; nothing if one is unknown. -/
def resultType? (op : ArithmeticOp) (types : List (Option ColumnType)) : Option ColumnType :=
  if types.contains none then none
  else if types.contains (some .float) then some .float
  else if types.contains (some .decimal) || op == .divide then some .decimal
  else some .integer

end Arithmetic

end TablePipeline
