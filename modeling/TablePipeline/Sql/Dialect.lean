import TablePipeline.Scalar

/-!
# Dialects

What the three dialects of SQL disagree on: the quote character, the length of a name, the names of
types in a cast, the cast that makes a division exact, and placeholders.
-/

set_option autoImplicit false

namespace TablePipeline.Sql

inductive Dialect
  | postgres
  | mysql
  | firebird
  deriving DecidableEq, Repr, Inhabited

namespace Dialect

def name : Dialect → String
  | postgres => "postgres"
  | mysql => "mysql"
  | firebird => "firebird"

def quote : Dialect → Char
  | mysql => '\x60'
  | postgres | firebird => '"'

/-- How long a name is, in the unit in which the dialect measures it. -/
def lengthOf (d : Dialect) (name : String) : Nat :=
  match d with
  | postgres => name.utf8ByteSize
  | mysql | firebird => name.length

def maxLength : Dialect → Nat
  | postgres | firebird => 63
  | mysql => 64

def lengthUnit : Dialect → String
  | postgres => "bytes"
  | mysql | firebird => "characters"

/-- The type named in a cast. MySQL has no cast to a boolean. -/
def castType? : Dialect → ColumnType → Option String
  | postgres, .integer => some "BIGINT"
  | postgres, .decimal => some "NUMERIC"
  | postgres, .float => some "DOUBLE PRECISION"
  | postgres, .text => some "TEXT"
  | postgres, .date => some "DATE"
  | postgres, .timestamp => some "TIMESTAMP"
  | postgres, .boolean => some "BOOLEAN"
  | mysql, .integer => some "SIGNED"
  | mysql, .decimal => some "DECIMAL(38, 10)"
  | mysql, .float => some "DOUBLE"
  | mysql, .text => some "CHAR"
  | mysql, .date => some "DATE"
  | mysql, .timestamp => some "DATETIME"
  | mysql, .boolean => none
  | firebird, .integer => some "BIGINT"
  | firebird, .decimal => some "DECIMAL(18, 4)"
  | firebird, .float => some "DOUBLE PRECISION"
  | firebird, .text => some "VARCHAR(8191)"
  | firebird, .date => some "DATE"
  | firebird, .timestamp => some "TIMESTAMP"
  | firebird, .boolean => some "BOOLEAN"

/-- The type to which a numerator is cast so that whole numbers divide to a fraction. -/
def divisionType? : Dialect → Option String
  | postgres => some "NUMERIC"
  | firebird => some "DOUBLE PRECISION"
  | mysql => none

/-- The place of the `n`-th parameter, counted from one. -/
def placeholder (d : Dialect) (n : Nat) : String :=
  match d with
  | postgres => "$" ++ Digits.text n
  | mysql | firebird => "?"

end Dialect

end TablePipeline.Sql
