import TablePipeline.Text.Class

/-!
# Operators

Comparisons, arithmetic and kinds of joins, with the spellings that are read and the one that is
written.
-/

set_option autoImplicit false

namespace TablePipeline.Sql

inductive CompareOp
  | eq
  | notEq
  | gt
  | lt
  | gtEq
  | ltEq
  | like
  | isIn
  | isNull
  | isNotNull
  deriving DecidableEq, Repr

namespace CompareOp

def text : CompareOp → String
  | eq => "="
  | notEq => "<>"
  | gt => ">"
  | lt => "<"
  | gtEq => ">="
  | ltEq => "<="
  | like => "LIKE"
  | isIn => "IN"
  | isNull => "IS NULL"
  | isNotNull => "IS NOT NULL"

def takesOperand : CompareOp → Bool
  | isNull | isNotNull => false
  | _ => true

/-- Reads an operator in any case, with any blanks around and between its words. -/
def read? (s : String) : Option CompareOp :=
  match Text.upperAscii (String.intercalate " " (Text.words s)) with
  | "=" | "==" => some eq
  | "!=" | "<>" => some notEq
  | ">" => some gt
  | "<" => some lt
  | ">=" => some gtEq
  | "<=" => some ltEq
  | "LIKE" => some like
  | "IN" => some isIn
  | "IS NULL" => some isNull
  | "IS NOT NULL" => some isNotNull
  | _ => none

end CompareOp

inductive ArithmeticOp
  | add
  | subtract
  | multiply
  | divide
  deriving DecidableEq, Repr

namespace ArithmeticOp

def text : ArithmeticOp → String
  | add => "+"
  | subtract => "-"
  | multiply => "*"
  | divide => "/"

def read? (s : String) : Option ArithmeticOp :=
  match Text.trim s with
  | "+" => some add
  | "-" => some subtract
  | "*" => some multiply
  | "/" => some divide
  | _ => none

end ArithmeticOp

inductive JoinKind
  | inner
  | left
  deriving DecidableEq, Repr

namespace JoinKind

def text : JoinKind → String
  | inner => "INNER JOIN"
  | left => "LEFT JOIN"

/-- Reads a kind in any case and between blanks. -/
def read? (s : String) : Option JoinKind :=
  match Text.lowerAscii (Text.trim s) with
  | "inner" | "inner join" => some inner
  | "left" | "left join" | "left outer" | "left outer join" => some left
  | _ => none

end JoinKind

end TablePipeline.Sql
