import TablePipeline.Plan.Rule

/-!
# Compiling a graph

The steps become stages in their order. Two stages of SQL on one connection are joined in SQL where
their aliases differ and at most one source is open; all other joins are left for memory.
-/

set_option autoImplicit false

namespace TablePipeline

open Sql (Expr Predicate)

namespace SqlStage

/-- Whether the right side has to become a derived table: it has joins of its own, or a left join
would turn its computed columns into values for rows without a partner. -/
def needsDerived (right : SqlStage) (rule : JoinRule) : Bool :=
  !right.joins.isEmpty || (rule.kind == .left && right.schema.hasComputed)

/-- Whether two stages become one query. The columns of an open source cannot be named through a
derived table. -/
def canFuse (left right : SqlStage) (rule : JoinRule) : Bool :=
  left.connection == right.connection && left.kind == right.kind &&
    left.schema.opens.length + right.schema.opens.length ≤ 1 &&
    !(right.needsDerived rule && 0 < right.schema.opens.length) &&
    right.tables.all fun t => !left.tables.contains t

def derivedAlias (n : Nat) : String := "__d" ++ Digits.text n

def derivedSchema (aliasName : String) (s : Schema Expr) : Schema Expr :=
  s.zipIdx.map fun (item, i) => match item with
    | .column c => .column { c with carried := .column (some aliasName) (columnAlias i) }
    | .openSource q _ => .openSource q aliasName

structure JoinedSide where
  item : Sql.FromItem
  on : List Predicate
  schema : Schema Expr
  tables : List String

/-- The right side as it is joined; its filters become conditions of the join, so that a left join
keeps rows without a partner. -/
def joinedSide (right : SqlStage) (rule : JoinRule) (aliasName : String) : JoinedSide :=
  if right.needsDerived rule then
    ⟨.derived right.select aliasName, [], derivedSchema aliasName right.schema, [aliasName]⟩
  else ⟨right.source, right.filters, right.schema, right.tables⟩

def fuse (left right : SqlStage) (rule : JoinRule) (aliasName : String) :
    Except CompileError SqlStage := do
  let side := right.joinedSide rule aliasName
  let l ← left.schema.expr rule.left
  let r ← side.schema.expr rule.right
  return { left with
    joins := left.joins ++ [.mk rule.kind side.item (.mk l .eq (.expr r) :: side.on)]
    tables := left.tables ++ side.tables
    schema := left.schema ++ side.schema }

end SqlStage

namespace Stage

def checkReference (stage : Stage) (r : Reference) : Except CompileError Unit :=
  match stage with
  | sql s => do let _ ← s.schema.find r
  | memory _ schema => do let _ ← schema.find r

/-- Joins two stages; `derived` counts the derived tables so far. -/
def join (rule : JoinRule) (left right : Stage) (derived : Nat) :
    Except CompileError (Stage × Nat) := do
  checkReference left rule.left
  checkReference right rule.right
  match left, right with
  | sql l, sql r =>
    if l.canFuse r rule then
      let derived := if r.needsDerived rule then derived + 1 else derived
      return (sql (← l.fuse r rule (SqlStage.derivedAlias derived)), derived)
  | _, _ => pure ()
  let (leftNode, leftSchema) ← left.materialize
  let (rightNode, rightSchema) ← right.materialize
  return (memory (.join leftNode rightNode rule) (leftSchema ++ rightSchema), derived)

end Stage

namespace Graph

def inputStage (stages : List Stage) (step : Step) (position : Nat) :
    Except CompileError Stage :=
  match step.inputs[position]?.bind (stages[·]?) with
  | some s => .ok s
  | none => .error (.missingInput step.id)

def compileStep (stages : List Stage) (derived : Nat) (step : Step) :
    Except CompileError (Stage × Nat) :=
  match step.op with
  | .source s => return (← Stage.ofSource s, derived)
  | .filter cs => do return (← (← inputStage stages step 0).filter step.id cs, derived)
  | .cast rule => do return (← (← inputStage stages step 0).cast rule, derived)
  | .arithmetic rule => do return (← (← inputStage stages step 0).arithmetic rule, derived)
  | .condition rule => do return (← (← inputStage stages step 0).condition step.id rule, derived)
  | .join rule => do
    let left ← inputStage stages step 0
    let right ← inputStage stages step 1
    Stage.join rule left right derived

def compileSteps : List Stage → Nat → List Step → Except CompileError (List Stage)
  | stages, _, [] => .ok stages
  | stages, derived, step :: rest => do
    let (stage, derived) ← compileStep stages derived step
    compileSteps (stages ++ [stage]) derived rest

def outputStage (g : Graph) : Except CompileError Stage := do
  let stages ← compileSteps [] 0 g.steps
  match stages[g.output]? with
  | some s => return s
  | none => throw .missingOutput

def compile (g : Graph) : Except CompileError Plan := do
  let (root, _) ← (← g.outputStage).materialize
  return ⟨root, g.sink, g.policy⟩

end Graph

end TablePipeline
