import TablePipeline.Sql.Dialect
import TablePipeline.Sql.Operator
import TablePipeline.Text.Quoted

/-!
# Why SQL is refused
-/

set_option autoImplicit false

namespace TablePipeline.Sql

inductive NameFault
  | empty
  | control
  | terminatorAndComment
  | tooLong (d : Dialect)
  | notQuoted
  | loneQuote
  | textAfterQuote
  | unterminated
  | notATable
  | notAColumn
  deriving DecidableEq, Repr

def NameFault.message : NameFault → String
  | empty => "identifier is empty"
  | control => "identifier contains control characters"
  | terminatorAndComment => "identifier combines a statement terminator with a comment marker"
  | tooLong d => "identifier is longer than " ++ Digits.text d.maxLength ++ " " ++ d.lengthUnit
  | notQuoted => "identifier is not quoted"
  | loneQuote => "unescaped quote character"
  | textAfterQuote => "unexpected text after a quoted segment"
  | unterminated => "unterminated quoted segment"
  | notATable => "expected `table` or `schema.table`"
  | notAColumn => "expected `column` or `table.column`"

inductive OperandFault
  | listForScalar (op : CompareOp)
  | missing (op : CompareOp) (column : String)
  | emptyList
  | scalarForList
  | neverMatches (op : CompareOp)
  | notSingle (op : CompareOp)
  /-- A fault in the words of whoever found it. -/
  | stated (text : String)
  deriving DecidableEq, Repr

def OperandFault.message : OperandFault → String
  | listForScalar op => "operator " ++ op.text ++ " takes a single value, not a list"
  | missing op column =>
    "operator " ++ op.text ++ " on " ++ Text.quoted column ++ " requires a value"
  | emptyList => "IN requires a non-empty value list"
  | scalarForList => "IN requires a list of values"
  | neverMatches op => op.text ++ " NULL never matches; use IS NULL or IS NOT NULL"
  | notSingle op => "operator " ++ op.text ++ " requires a single operand"
  | stated text => text

inductive Error
  | invalidName (name : String) (fault : NameFault)
  | unsupportedOperator (text : String)
  | invalidOperand (fault : OperandFault)
  | unsupportedCast (dialect : Dialect) (target : ColumnType)
  deriving DecidableEq, Repr

def Error.message : Error → String
  | invalidName name fault => "invalid identifier " ++ Text.quoted name ++ ": " ++ fault.message
  | unsupportedOperator text => "unsupported operator '" ++ text ++ "'"
  | invalidOperand fault => fault.message
  | unsupportedCast dialect target => dialect.name ++ " has no CAST to " ++ target.name

def CompareOp.read (s : String) : Except Error CompareOp :=
  match CompareOp.read? s with
  | some op => .ok op
  | none => .error (.unsupportedOperator s)

def ArithmeticOp.read (s : String) : Except Error ArithmeticOp :=
  match ArithmeticOp.read? s with
  | some op => .ok op
  | none => .error (.unsupportedOperator s)

def JoinKind.read (s : String) : Except Error JoinKind :=
  match JoinKind.read? s with
  | some kind => .ok kind
  | none => .error (.unsupportedOperator (s ++ " join"))

end TablePipeline.Sql
