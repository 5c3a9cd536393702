import TablePipeline.Scalar
import TablePipeline.Sql.Operator

/-!
# Expressions and queries

The part of SQL that plans need: expressions over the columns of aliased tables, predicates, and
`SELECT` with joins and derived tables.
-/

set_option autoImplicit false

namespace TablePipeline.Sql

mutual

inductive Expr
  | column (table : Option String) (name : String)
  | literal (value : Scalar)
  | cast (inner : Expr) (target : ColumnType)
  | binary (op : ArithmeticOp) (left right : Expr)
  /-- Null for a null operand, else the sentinel for a zero denominator, else the quotient. -/
  | safeDivide (numerator denominator : Expr) (sentinel : Scalar)
  /-- `CASE WHEN test THEN yes ELSE no END`. -/
  | choose (test : Predicate) (yes no : Expr)

inductive Predicate
  | mk (left : Expr) (op : CompareOp) (right : Operand)

inductive Operand
  | none
  | expr (e : Expr)
  | list (values : List Scalar)

end

instance : Inhabited Expr := ⟨.literal .null⟩

def Expr.isColumn : Expr → Bool
  | .column .. => true
  | _ => false

def Expr.isNull : Expr → Bool
  | .literal v => v.isNull
  | _ => false

/-- False only for a literal other than null. -/
def Expr.mayBeNull : Expr → Bool
  | .literal v => v.isNull
  | _ => true

inductive SelectItem
  | expr (e : Expr) (aliasName : String)
  /-- All columns of a table. -/
  | wildcard (table : String)

mutual

inductive Query
  | mk (projection : List SelectItem) (source : FromItem) (joins : List Join)
    (filters : List Predicate)

inductive FromItem
  | table (path aliasName : String)
  | derived (query : Query) (aliasName : String)

inductive Join
  | mk (kind : JoinKind) (item : FromItem) (on : List Predicate)

end

namespace Query

def projection : Query → List SelectItem
  | mk p _ _ _ => p

def source : Query → FromItem
  | mk _ s _ _ => s

def joins : Query → List Join
  | mk _ _ js _ => js

def filters : Query → List Predicate
  | mk _ _ _ fs => fs

end Query

def FromItem.aliasName : FromItem → String
  | .table _ aliasName | .derived _ aliasName => aliasName

namespace Join

def kind : Join → JoinKind
  | mk k _ _ => k

def item : Join → FromItem
  | mk _ i _ => i

def on : Join → List Predicate
  | mk _ _ ps => ps

end Join

instance : Inhabited FromItem := ⟨.table "" ""⟩

instance : Inhabited Query := ⟨.mk [] default [] []⟩

end TablePipeline.Sql
