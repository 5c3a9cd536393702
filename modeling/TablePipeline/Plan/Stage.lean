import TablePipeline.Plan.Basic
import TablePipeline.Plan.Schema
import TablePipeline.Rule.Cast
import TablePipeline.Sql.Writing

/-!
# Stages

A stage of SQL is a query under construction on one connection; a stage in memory is a plan. A query
under construction becomes a plan when a step cannot be put into it. Where a graph has no plan, an
error says why.
-/

set_option autoImplicit false

namespace TablePipeline

inductive PlanPlace
  | filter (node : String)
  | condition (node : String)
  deriving DecidableEq, Repr

def PlanPlace.text : PlanPlace → String
  | filter node => "filter '" ++ node ++ "'"
  | condition node => "condition '" ++ node ++ "'"

inductive CompileError
  | unresolved (r : Reference) (fault : ResolveFault)
  | literal (place : PlanPlace) (fault : RowFault)
  | branchColumn (place : PlanPlace) (r : Reference) (found declared : ColumnType)
  | branches (place : PlanPlace) (yes no : ColumnType)
  | noOperands (output : String)
  | missingInput (node : String)
  | missingOutput
  | sql (fault : Sql.Error)

def CompileError.toFailure : CompileError → Failure
  | unresolved r fault => fault.toFailure r
  | literal place fault => ⟨.incompatibleTypes, place.text ++ ": " ++ fault.message⟩
  | branchColumn place r found declared =>
    ⟨.incompatibleTypes, place.text ++ ": branch column '" ++ r.text ++ "' is " ++ found.name ++
      ", output is " ++ declared.name⟩
  | branches place yes no =>
    ⟨.incompatibleTypes, place.text ++ ": branches are " ++ yes.name ++ " and " ++ no.name ++
      "; set outputType to combine them"⟩
  | noOperands output => ⟨.invalidPipeline, "arithmetic '" ++ output ++ "' has no operands"⟩
  | missingInput node => ⟨.invalidPipeline, "node '" ++ node ++ "' is missing an input"⟩
  | missingOutput => ⟨.invalidPipeline, "the sink input was not compiled"⟩
  | sql fault => fault.toFailure

open Sql (Expr Predicate FromItem SelectItem Query)

structure SqlStage where
  connection : String
  kind : SourceKind
  source : FromItem
  joins : List Sql.Join
  filters : List Predicate
  tables : List String
  schema : Schema Expr

inductive Stage
  | sql (s : SqlStage)
  | memory (node : PlanNode) (schema : Schema Unit)

namespace SqlStage

def dialect (s : SqlStage) : Sql.Dialect := s.kind.dialect

def columnAlias (index : Nat) : String := "__c" ++ Digits.text index

def selectItem (item : SchemaItem Expr) (index : Nat) : SelectItem :=
  match item with
  | .column c => .expr c.carried (columnAlias index)
  | .openSource _ table => .wildcard table

def layoutItem : SchemaItem Expr → LayoutItem
  | .column c => .column ⟨c.qualifier, c.name, c.type?⟩
  | .openSource qualifier _ => .wildcard qualifier none

/-- The query with one item for each item of the schema. -/
def select (s : SqlStage) : Query :=
  .mk (s.schema.zipIdx.map fun (item, i) => selectItem item i) s.source s.joins s.filters

def layout (s : SqlStage) : List LayoutItem := s.schema.map layoutItem

def materialize (s : SqlStage) : Except CompileError (PlanNode × Schema Unit) := do
  let fragment ← (s.select.write s.dialect).mapError .sql
  return (.query ⟨s.connection, fragment, s.layout⟩, s.schema.erased)

end SqlStage

namespace Stage

def materialize : Stage → Except CompileError (PlanNode × Schema Unit)
  | sql s => s.materialize
  | memory node schema => .ok (node, schema)

/-- The stage of a source. Spreadsheets are read whole, and only declared columns are kept. -/
def ofSource (s : SourceTable) : Except CompileError Stage :=
  if s.kind.pushesDown then
    let schema : Schema Expr := match s.columns with
      | some columns => columns.map fun c =>
        .column ⟨some s.aliasName, c.name, c.type?, .column (some s.aliasName) c.name⟩
      | none => [.openSource s.aliasName s.aliasName]
    .ok (.sql ⟨s.connection, s.kind, .table s.table s.aliasName, [], [], [s.aliasName], schema⟩)
  else do
    let schema : Schema Unit := match s.columns with
      | some columns => columns.map fun c => .column ⟨some s.aliasName, c.name, c.type?, ()⟩
      | none => [.openSource s.aliasName s.aliasName]
    let path ← (Sql.quotePath s.kind.dialect s.table).mapError .sql
    return .memory
      (.query ⟨s.connection, ⟨"SELECT * FROM " ++ path, []⟩, [.wildcard s.aliasName s.columns]⟩)
      schema

end Stage

end TablePipeline
