import TablePipeline.Calendar.Reading
import TablePipeline.Number.Binary64.Reading
import TablePipeline.Number.Decimal.Arithmetic
import TablePipeline.Scalar
import TablePipeline.Sql.Operator

/-!
# Casts

A cell becomes a cell of another type, or there is a stated fault. Null stays null. Numbers become
dates as spreadsheets count days.
-/

set_option autoImplicit false

namespace TablePipeline

attribute [local instance (high)] instPowNat

inductive Number
  | integer (n : Int64)
  | decimal (d : Decimal)
  | float (x : Binary64)
  deriving DecidableEq, Repr

def Number.toScalar : Number → Scalar
  | integer n => .integer n
  | decimal d => .decimal d
  | float x => .float x

/-- Why a rule has no value for a row. -/
inductive RowFault
  | cannotCast (value : Scalar) (target : ColumnType)
  | outsideSerialRange (serial : Decimal)
  | outsideIntegerRange (value : Decimal)
  | noOperand
  | notANumber (text : String)
  | overflow (left : Number) (op : Sql.ArithmeticOp) (right : Number)
  deriving DecidableEq, Repr

def RowFault.message : RowFault → String
  | cannotCast value target =>
    let source := match value.type? with
      | some t => t.name
      | none => "null"
    "cannot cast " ++ source ++ " '" ++ value.display ++ "' to " ++ target.name
  | outsideSerialRange serial => serial.text ++ " is outside the spreadsheet date range"
  | outsideIntegerRange value => value.text ++ " is out of range for integer"
  | noOperand => "arithmetic needs at least one operand"
  | notANumber text => "'" ++ text ++ "' is not a number"
  | overflow left op right =>
    left.toScalar.display ++ " " ++ op.text ++ " " ++ right.toScalar.display ++ " overflows"

def readDecimal? (s : String) : Option Decimal := Decimal.read? (Text.trim s)

def readInteger? (s : String) : Option Int64 :=
  match Integer.readSigned (Text.trim s) with
  | .ok n => some n
  | .error _ => none

/-- Reads one of the words for true and false, in any case and between blanks. -/
def readBoolean? (s : String) : Option Bool :=
  match Text.lowerAscii (Text.trim s) with
  | "true" | "t" | "yes" | "y" | "1" => some true
  | "false" | "f" | "no" | "n" | "0" => some false
  | _ => none

/-- Day 0 of spreadsheets. -/
def serialEpoch : Date := ⟨1899, 12, 30, by decide, by decide, by decide⟩

/-- The last day of spreadsheets, 31 December 9999. -/
def maxSerial : Int := 2958465

def Decimal.fraction (d : Decimal) : Decimal :=
  ⟨false, d.coefficient % 10 ^ d.scale, d.scale,
    Nat.lt_of_le_of_lt (Nat.mod_le _ _) d.coefficient_lt, d.scale_le⟩

/-- Milliseconds of a day in a fraction of it, rounded once to a decimal and then to the nearest
whole number, a half to the even one. -/
def serialMillis (fraction : Decimal) : Nat :=
  match fraction.mul? (.ofInt64 86400000) with
  | some d => d.rounded .toEven
  | none => 0

/-- The moment of a spreadsheet's day number; only days from 1 on have one. -/
def ofSerial (serial : Decimal) : Except RowFault Timestamp :=
  let whole := serial.floor
  if 1 ≤ whole ∧ whole ≤ maxSerial then
    let day? := serialEpoch.addDays? whole
    match day?.bind (Timestamp.ofMillis? · (serialMillis serial.fraction)) with
    | some t => .ok t
    | none => .error (.outsideSerialRange serial)
  else .error (.outsideSerialRange serial)

/-- The nearest whole number, a half going away from zero. -/
def roundToInteger (d : Decimal) : Except RowFault Int64 :=
  match Integer.fit? (d.roundToInt .away) with
  | some n => .ok n
  | none => .error (.outsideIntegerRange d)

namespace Scalar

def orFault {α : Type} (v : Scalar) (t : ColumnType) : Option α → Except RowFault α
  | some x => .ok x
  | none => .error (.cannotCast v t)

def ofBool (b : Bool) : Int64 := if b then 1 else 0

def castToInteger (v : Scalar) : Except RowFault Int64 :=
  match v with
  | integer n => .ok n
  | boolean b => .ok (ofBool b)
  | decimal d => roundToInteger d
  | float x => do roundToInteger (← orFault v .integer x.toDecimal?)
  | text s =>
    match readInteger? s with
    | some n => .ok n
    | none => do roundToInteger (← orFault v .integer (readDecimal? s))
  | _ => .error (.cannotCast v .integer)

def castToDecimal (v : Scalar) : Except RowFault Decimal :=
  match v with
  | boolean b => .ok (.ofInt64 (ofBool b))
  | text s => orFault v .decimal (readDecimal? s)
  | v => orFault v .decimal v.toDecimal?

def castToFloat (v : Scalar) : Except RowFault Binary64 :=
  match v with
  | float x => .ok x
  | integer n => .ok (.ofInt n.toInt)
  | decimal d => .ok (.ofDecimal d)
  | boolean b => .ok (.ofInt (ofBool b).toInt)
  | text s => orFault v .float ((Binary64.read? (Text.trim s)).filter (·.isFinite))
  | _ => .error (.cannotCast v .float)

def castToDate (v : Scalar) : Except RowFault Date :=
  match v with
  | date d => .ok d
  | timestamp t => .ok t.date
  | text s => orFault v .date (Calendar.readDate? s)
  | v => do return (← ofSerial (← orFault v .date v.toDecimal?)).date

def castToTimestamp (v : Scalar) : Except RowFault Timestamp :=
  match v with
  | timestamp t => .ok t
  | date d => .ok (.midnight d)
  | text s =>
    let s := Text.trim s
    orFault v .timestamp (Calendar.readTimestamp? s <|> (Calendar.readDate? s).map .midnight)
  | v => do ofSerial (← orFault v .timestamp v.toDecimal?)

def castToBoolean (v : Scalar) : Except RowFault Bool :=
  match v with
  | boolean b => .ok b
  | integer n => .ok (n != 0)
  | decimal d => .ok !d.isZero
  | float x => .ok !x.isZero
  | text s => orFault v .boolean (readBoolean? s)
  | _ => .error (.cannotCast v .boolean)

def cast (v : Scalar) (target : ColumnType) : Except RowFault Scalar :=
  if v.isNull then .ok null
  else match target with
    | .text => .ok (text v.display)
    | .integer => v.castToInteger.map integer
    | .decimal => v.castToDecimal.map decimal
    | .float => v.castToFloat.map float
    | .date => v.castToDate.map date
    | .timestamp => v.castToTimestamp.map timestamp
    | .boolean => v.castToBoolean.map boolean

end Scalar

/-- The column type of cells without a declared one. -/
def Scalar.sniff? : Scalar → Option ColumnType
  | .float _ => some .decimal
  | v => v.type?

end TablePipeline
