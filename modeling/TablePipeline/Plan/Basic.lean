import TablePipeline.Graph.Basic
import TablePipeline.Sql.Piece

/-!
# Plans

A plan is a tree: queries at the leaves, and above them the steps that are left for memory. A
reference to one of its columns with a qualifier means a column with that qualifier and name. One
without means the only computed column of the name, or else the only column of the name.
-/

set_option autoImplicit false

namespace TablePipeline

/-- A column of a result; computed ones have no qualifier. -/
structure PlanColumn where
  qualifier : Option String
  name : String
  type? : Option ColumnType
  deriving DecidableEq, Repr

inductive ResolveFault
  | missing
  | ambiguous
  | needsAlias
  deriving DecidableEq, Repr

def ResolveFault.message (r : Reference) (fault : ResolveFault) : String :=
  "column '" ++ r.text ++ "' " ++ match fault with
    | missing => "is not produced by any input"
    | ambiguous => "is ambiguous"
    | needsAlias => "is ambiguous; qualify it with a source alias"

def ResolveFault.toFailure (r : Reference) (fault : ResolveFault) : Failure :=
  ⟨.unresolvedReference, fault.message r⟩

/-- What a reference may mean among some columns, each with a qualifier and a name. -/
def Reference.hits {α : Type} (r : Reference) (qualifier : α → Option String) (name : α → String)
    (columns : List α) : List α :=
  match r.qualifier with
  | some q => columns.filter fun c => qualifier c == some q && name c == r.name
  | none =>
    match columns.filter fun c => (qualifier c).isNone && name c == r.name with
    | [c] => [c]
    | _ => columns.filter fun c => name c == r.name

/-- How the columns of a result map to columns of the plan. A wildcard stands for all columns that
the others do not account for. -/
inductive LayoutItem
  | column (c : PlanColumn)
  | wildcard (qualifier : String) (declared : Option (List DeclaredColumn))
  deriving DecidableEq, Repr

structure QueryPlan where
  connection : String
  fragment : Sql.Fragment
  layout : List LayoutItem
  deriving DecidableEq, Repr

inductive PlanNode
  | query (q : QueryPlan)
  | join (left right : PlanNode) (rule : JoinRule)
  | filter (input : PlanNode) (conditions : List Comparison)
  | cast (input : PlanNode) (rule : CastRule)
  | arithmetic (input : PlanNode) (rule : ArithmeticRule) (type? : Option ColumnType)
  | condition (input : PlanNode) (rule : ConditionRule)
  deriving DecidableEq, Repr

/-- The queries of a plan in the order in which they are sent. -/
def PlanNode.queries : PlanNode → List QueryPlan
  | query q => [q]
  | join left right _ => left.queries ++ right.queries
  | filter input _ => input.queries
  | cast input _ => input.queries
  | arithmetic input _ _ => input.queries
  | condition input _ => input.queries

structure Plan where
  root : PlanNode
  sink : Sink
  policy : RowPolicy
  deriving DecidableEq, Repr

end TablePipeline
