import TablePipeline.Sql.Writing

/-!
# Clauses from structured conditions

A condition names a column, an operator and what to compare with.
-/

set_option autoImplicit false

namespace TablePipeline.Sql

inductive FilterValue
  | scalar (v : Scalar)
  | list (vs : List Scalar)
  deriving DecidableEq, Repr

/-- A column, an operator and a value as they come from outside. -/
structure Condition where
  column : String
  operator : String
  value : Option FilterValue
  deriving DecidableEq, Repr

/-- The column that a path of one or two segments names. -/
def columnOfPath (path : String) : Except Error Expr := do
  match ← splitPath path with
  | [column] => return .column none column
  | [table, column] => return .column (some table) column
  | _ => throw (.invalidName path .notAColumn)

/-- The operand of a condition; a single value for `IN` is a list of one. -/
def Condition.operand (c : Condition) (op : CompareOp) : Except Error Operand :=
  match op, c.value with
  | .isNull, _ | .isNotNull, _ => .ok .none
  | .isIn, some (.list vs) => .ok (.list vs)
  | .isIn, some (.scalar v) => .ok (.list [v])
  | _, some (.scalar v) => .ok (.expr (.literal v))
  | op, some (.list _) => .error (.invalidOperand (.listForScalar op))
  | op, none => .error (.invalidOperand (.missing op c.column))

def Condition.predicate (c : Condition) : Except Error Predicate := do
  let op ← CompareOp.read c.operator
  let left ← columnOfPath c.column
  return .mk left op (← c.operand op)

/-- The predicates of some conditions behind a `WHERE`. -/
def conditionPieces (d : Dialect) (conditions : List Condition) : Except Error (List Piece) := do
  wherePieces d (← conditions.mapM Condition.predicate)

def whereClause (d : Dialect) (conditions : List Condition) : Except Error Fragment :=
  (conditionPieces d conditions).map (Piece.fragment d)

structure JoinClause where
  leftTable : String
  rightTable : String
  leftColumn : String
  rightColumn : String
  kind : String

def JoinClause.pieces (d : Dialect) (c : JoinClause) : Except Error (List Piece) := do
  let kind ← JoinKind.read c.kind
  let left ← pathPieces d c.leftTable
  let right ← pathPieces d c.rightTable
  let leftColumn ← namePiece d c.leftColumn
  let rightColumn ← namePiece d c.rightColumn
  return .text (kind.text ++ " ") :: right ++ .text " ON " :: left ++
    .text "." :: leftColumn :: .text " = " :: right ++ [.text ".", rightColumn]

/-- A join of a table on the equality of two columns. -/
def JoinClause.write (d : Dialect) (c : JoinClause) : Except Error String :=
  (c.pieces d).map (Piece.write d 0)

end TablePipeline.Sql
