import TablePipeline.Rule.Comparison
import TablePipeline.Sql.Syntax

/-!
# What a query means

The rows of a query over given tables: the rows of its first item, extended item by item by those
rows for which all conditions of the join are true, kept where all filters are true, and projected.
How an expression is evaluated is left open; it may depend on nothing but the cells it names.
-/

set_option autoImplicit false

namespace TablePipeline.Sql

mutual

def Expr.columns : Expr → List (Option String × String)
  | .column table name => [(table, name)]
  | .literal _ => []
  | .cast inner _ => inner.columns
  | .binary _ left right => left.columns ++ right.columns
  | .safeDivide numerator denominator _ => numerator.columns ++ denominator.columns
  | .choose test yes no => test.columns ++ yes.columns ++ no.columns

def Predicate.columns : Predicate → List (Option String × String)
  | .mk left _ right => left.columns ++ right.columns

def Operand.columns : Operand → List (Option String × String)
  | .none => []
  | .expr e => e.columns
  | .list _ => []

end

/-- The cells of a row by table and name. -/
abbrev Cells := Option String → String → Scalar

/-- A way to evaluate expressions that reads a column as its cell and depends only on the cells of
the columns an expression names. -/
structure Evaluation where
  eval : Cells → Expr → Scalar
  eval_column : ∀ cells table name, eval cells (.column table name) = cells table name
  eval_congr : ∀ e cells cells', (∀ c ∈ e.columns, cells c.1 c.2 = cells' c.1 c.2) →
    eval cells e = eval cells' e

/-- Evaluates columns and literals, which are all there is where nothing is computed. -/
def Evaluation.plain : Evaluation where
  eval cells
    | .column table name => cells table name
    | .literal v => v
    | _ => .null
  eval_column _ _ _ := rfl
  eval_congr e cells cells' h := by
    cases e with
    | column table name => exact h (table, name) (List.mem_singleton_self _)
    | _ => rfl

structure Binding where
  aliasName : String
  columns : List String
  row : Row

def Binding.cell (b : Binding) (name : String) : Scalar :=
  ((b.columns.findIdx? (· == name)).bind (b.row[·]?)).getD .null

/-- One row of each item so far. -/
abbrev Scope := List Binding

namespace Scope

def aliases (scope : Scope) : List String := scope.map Binding.aliasName

def find? (scope : Scope) (table : String) : Option Binding :=
  List.find? (·.aliasName == table) scope

/-- A column without a table is sought in all rows, an unknown one is null. -/
def cell (scope : Scope) (table : Option String) (name : String) : Scalar :=
  let b? := match table with
    | some t => scope.find? t
    | none => List.find? (·.columns.contains name) scope
  (b?.map (·.cell name)).getD .null

end Scope

def Operand.value (ev : Evaluation) (cells : Cells) : Operand → CompareOperand
  | .none => .none
  | .expr e => .value (ev.eval cells e)
  | .list vs => .list vs

def Predicate.holds (ev : Evaluation) (scope : Scope) : Predicate → Bool
  | .mk left op right =>
    (ev.eval scope.cell left).test? op (right.value ev scope.cell) == some true

def allHold (ev : Evaluation) (ps : List Predicate) (scope : Scope) : Bool :=
  ps.all (·.holds ev scope)

def bindings (aliasName : String) (rows : RowSet) : List Binding :=
  rows.rows.map fun row => ⟨aliasName, rows.columns, row⟩

def blank (aliasName : String) (rows : RowSet) : Binding :=
  ⟨aliasName, rows.columns, List.replicate rows.columns.length .null⟩

/-- A scope with each of its partners; without any, a left join adds the row of nulls. -/
def JoinKind.extend (kind : JoinKind) (blank : Binding) (partners : List Binding)
    (scope : Scope) : List Scope :=
  if partners.isEmpty then
    match kind with
    | .left => [scope ++ [blank]]
    | .inner => []
  else partners.map fun b => scope ++ [b]

/-- Extends scopes by the rows of a table for which all conditions are true. -/
def joinScopes (ev : Evaluation) (kind : JoinKind) (aliasName : String) (rows : RowSet)
    (on : List Predicate) (scopes : List Scope) : List Scope :=
  scopes.flatMap fun scope => kind.extend (blank aliasName rows)
    ((bindings aliasName rows).filter fun b => allHold ev on (scope ++ [b])) scope

namespace SelectItem

/-- The names of the columns of an item, given one row of each table. -/
def names (scope : Scope) : SelectItem → List String
  | .expr _ aliasName => [aliasName]
  | .wildcard table => ((scope.find? table).map (·.columns)).getD []

def cells (ev : Evaluation) (scope : Scope) : SelectItem → Row
  | .expr e _ => [ev.eval scope.cell e]
  | .wildcard table => ((scope.find? table).map (·.row)).getD []

end SelectItem

mutual

/-- The rows of an item, where `db` gives those of the tables. -/
def FromItem.result (ev : Evaluation) (db : String → RowSet) : FromItem → RowSet
  | .table path _ => db path
  | .derived query _ => query.result ev db

def joinsScopes (ev : Evaluation) (db : String → RowSet) : List Join → List Scope → List Scope
  | [], scopes => scopes
  | .mk kind item on :: joins, scopes =>
    joinsScopes ev db joins
      (joinScopes ev kind item.aliasName (item.result ev db) on scopes)

def joinsBlanks (ev : Evaluation) (db : String → RowSet) : List Join → Scope
  | [] => []
  | .mk _ item _ :: joins => blank item.aliasName (item.result ev db) :: joinsBlanks ev db joins

def Query.result (ev : Evaluation) (db : String → RowSet) : Query → RowSet
  | .mk projection source joins filters =>
    let first := source.result ev db
    let scopes := joinsScopes ev db joins ((bindings source.aliasName first).map ([·]))
    let blanks := blank source.aliasName first :: joinsBlanks ev db joins
    ⟨projection.flatMap (·.names blanks),
      (scopes.filter (allHold ev filters)).map fun scope => projection.flatMap (·.cells ev scope)⟩

end

end TablePipeline.Sql
