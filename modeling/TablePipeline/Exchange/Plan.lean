import TablePipeline.Exchange.Scalar
import TablePipeline.Frame.Basic
import TablePipeline.Graph.Basic

/-!
# Graphs, plans and frames in JSON
-/

set_option autoImplicit false

namespace TablePipeline.Exchange

def reference (r : Reference) : Json := .text r.text

def operand : RuleOperand → Json
  | .column r => .ofMembers [("column", reference r)]
  | .literal v => .ofMembers [("literal", scalar v)]

def rightOperand : RightOperand → Json
  | .none => .null
  | .value v => .ofMembers [("value", scalar v)]
  | .list vs => .ofMembers [("list", row vs)]
  | .column r => .ofMembers [("column", reference r)]

def comparison (c : Comparison) : Json :=
  .ofMembers [("column", reference c.column), ("op", .text c.op.text),
    ("right", rightOperand c.right)]

def comparisons (cs : List Comparison) : Json := .list (cs.map comparison)

def joinRule (j : JoinRule) : Json :=
  .ofMembers [("kind", .text j.kind.text), ("left", reference j.left),
    ("right", reference j.right)]

def castRule (r : CastRule) : Json :=
  .ofMembers [("column", reference r.column), ("target", type r.target),
    ("policy", .text r.policy.name)]

def arithmeticRule (r : ArithmeticRule) : Json :=
  .ofMembers [("operands", .list (r.operands.map operand)), ("op", .text r.op.text),
    ("output", .text r.output), ("divideByZero", scalar r.divideByZero),
    ("policy", .text r.policy.name)]

def conditionRule (r : ConditionRule) : Json :=
  .ofMembers [("predicate", comparison r.predicate), ("then", operand r.yes),
    ("else", operand r.no), ("output", .text r.output), ("type", orNull type r.outputType),
    ("policy", .text r.policy.name)]

def declaredColumn (c : DeclaredColumn) : Json :=
  .ofMembers [("name", .text c.name), ("type", orNull type c.type?)]

def declaredColumns : Option (List DeclaredColumn) → Json :=
  orNull fun cs => .list (cs.map declaredColumn)

def sink (s : Sink) : Json :=
  .ofMembers [("table", .text s.table),
    ("schema", .ofMembers (s.schema.map fun (n, t) => (n, type t))), ("mode", .text s.mode.name)]

def sourceTable (s : SourceTable) : Json :=
  .ofMembers [("connection", .text s.connection), ("dialect", .text s.kind.name),
    ("table", .text s.table), ("alias", .text s.aliasName), ("columns", declaredColumns s.columns)]

def stepOp : StepOp → Json
  | .source s => .ofMembers [("source", sourceTable s)]
  | .join j => .ofMembers [("join", joinRule j)]
  | .filter cs => .ofMembers [("filter", comparisons cs)]
  | .cast r => .ofMembers [("cast", castRule r)]
  | .arithmetic r => .ofMembers [("arithmetic", arithmeticRule r)]
  | .condition r => .ofMembers [("condition", conditionRule r)]

def step (s : Step) : Json :=
  .ofMembers [("id", .text s.id), ("op", stepOp s.op),
    ("inputs", .list (s.inputs.map fun n : Nat => .int n))]

def graph (g : Graph) : Json :=
  .ofMembers [("steps", .list (g.steps.map step)), ("output", .int g.output), ("sink", sink g.sink),
    ("policy", .text g.policy.name)]

def planColumn (c : PlanColumn) : Json :=
  .ofMembers [("qualifier", orNull .text c.qualifier), ("name", .text c.name),
    ("type", orNull type c.type?)]

def layoutItem : LayoutItem → Json
  | .column c => .ofMembers [("column", planColumn c)]
  | .wildcard q declared =>
    .ofMembers [("wildcard",
      .ofMembers [("qualifier", .text q), ("declared", declaredColumns declared)])]

def queryPlan (q : QueryPlan) : Json :=
  .ofMembers [("connection", .text q.connection), ("sql", .text q.fragment.sql),
    ("params", row q.fragment.params), ("layout", .list (q.layout.map layoutItem))]

def planNode : PlanNode → Json
  | .query q => .ofMembers [("query", queryPlan q)]
  | .join l r rule =>
    .ofMembers [("join", joinRule rule), ("left", planNode l), ("right", planNode r)]
  | .filter input cs => .ofMembers [("filter", comparisons cs), ("input", planNode input)]
  | .cast input rule => .ofMembers [("cast", castRule rule), ("input", planNode input)]
  | .arithmetic input rule type? =>
    .ofMembers [("arithmetic", arithmeticRule rule), ("type", orNull type type?),
      ("input", planNode input)]
  | .condition input rule =>
    .ofMembers [("condition", conditionRule rule), ("input", planNode input)]

def plan (p : Plan) : Json :=
  .ofMembers [("root", planNode p.root), ("queries", .int p.root.queries.length),
    ("sink", sink p.sink), ("policy", .text p.policy.name)]

def frame (f : Frame) : Json :=
  .ofMembers [("columns", .list (f.columns.map planColumn)), ("rows", rows f.rows)]

end TablePipeline.Exchange
