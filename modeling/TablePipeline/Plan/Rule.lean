import TablePipeline.Plan.Stage
import TablePipeline.Rule.Arithmetic

/-!
# Adding rules to a stage

A rule goes into the query of its stage where SQL says the same, and is left for memory otherwise.
Literals take the type of the column that they are compared with.
-/

set_option autoImplicit false

namespace TablePipeline

open Sql (Expr Predicate Operand CompareOp ArithmeticOp)

variable {ε : Type}

namespace Schema

def find (s : Schema ε) (r : Reference) : Except CompileError (Resolved ε) :=
  (s.resolve r).mapError (.unresolved r)

/-- A literal as it is compared with a column: numbers as they are, others as the column's type. -/
def coerceLiteral (place : PlanPlace) (type? : Option ColumnType) (v : Scalar) :
    Except CompileError Scalar :=
  match type?, v.type? with
  | some t, some own =>
    if own = t ∨ (t.isNumeric ∧ own.isNumeric) then .ok v
    else (v.cast t).mapError (.literal place)
  | _, _ => .ok v

def coerceComparison (s : Schema ε) (place : PlanPlace) (c : Comparison) :
    Except CompileError Comparison := do
  let type? := (← s.find c.column).type?
  let right ← match c.right with
    | .value v =>
      if c.op = .like then pure (.value v) else RightOperand.value <$> coerceLiteral place type? v
    | .list vs => RightOperand.list <$> vs.mapM (coerceLiteral place type?)
    | .column r =>
      let _ ← s.find r
      pure (.column r)
    | .none => pure .none
  return { c with right }

def operandType? (s : Schema ε) : RuleOperand → Except CompileError (Option ColumnType)
  | .column r => do return (← s.find r).type?
  | .literal v => .ok v.type?

def expr (s : Schema Expr) (r : Reference) : Except CompileError Expr := do
  return (← s.find r).expr

def operandExpr (s : Schema Expr) : RuleOperand → Except CompileError Expr
  | .column r => s.expr r
  | .literal v => .ok (.literal v)

def predicate (s : Schema Expr) (c : Comparison) : Except CompileError Predicate := do
  let right ← match c.right with
    | .none => pure Operand.none
    | .value v => pure (.expr (.literal v))
    | .list vs => pure (.list vs)
    | .column r => Operand.expr <$> s.expr r
  return .mk (← s.expr c.column) c.op right

end Schema

/-- The type of two branches; text takes in other types only where it is declared. -/
def commonType? (a b : ColumnType) : Option ColumnType :=
  if a = b then some a
  else if a ≠ .text ∧ a.accepts b then some a
  else if b ≠ .text ∧ b.accepts a then some b
  else none

/-- `inner`, but null where `e` is null. -/
def nullGuard (inner e : Expr) : Expr :=
  .choose (.mk e .isNull .none) (.literal .null) inner

/-- `inner`, but the sentinel where `e` is zero. -/
def zeroGuard (sentinel : Scalar) (inner e : Expr) : Expr :=
  .choose (.mk e .eq (.expr (.literal (.integer 0)))) (.literal sentinel) inner

/-- Arithmetic as an expression. A quotient of two is guarded by itself; in a longer one any zero
divisor gives the sentinel, and any null operand wins over that. -/
def ArithmeticRule.expr (rule : ArithmeticRule) : List Expr → Except CompileError Expr
  | [] => .error (.noOperands rule.output)
  | first :: rest =>
    match rule.op, rest with
    | .divide, [denominator] => .ok (.safeDivide first denominator rule.divideByZero)
    | op, rest =>
      let core := rest.foldl (Expr.binary op) first
      if op = .divide then
        let guarded := rest.reverse.foldl (zeroGuard rule.divideByZero) core
        .ok (((first :: rest).filter (·.mayBeNull)).foldl nullGuard guarded)
      else .ok core

/-- A branch of a condition, its literal in the declared type, and the type of its values. -/
def ConditionRule.branch (s : Schema ε) (place : PlanPlace) (declared : Option ColumnType)
    (o : RuleOperand) : Except CompileError (RuleOperand × Option ColumnType) :=
  match o with
  | .column r => do
    let type? := (← s.find r).type?
    match declared, type? with
    | some d, some t => if d.accepts t then pure () else throw (.branchColumn place r t d)
    | _, _ => pure ()
    return (o, type?)
  | .literal v => do
    let v ← match declared with
      | some d => (v.cast d).mapError (.literal place)
      | none => pure v
    return (.literal v, v.type?)

/-- A condition with its literals and its type settled, and the types of its branches. -/
structure SettledCondition where
  rule : ConditionRule
  yesType : Option ColumnType
  noType : Option ColumnType

def ConditionRule.settle (rule : ConditionRule) (s : Schema ε) (node : String) :
    Except CompileError SettledCondition := do
  let place := PlanPlace.condition node
  let predicate ← s.coerceComparison place rule.predicate
  let (yes, yesType) ← branch s place rule.outputType rule.yes
  let (no, noType) ← branch s place rule.outputType rule.no
  let outputType ← match rule.outputType, yesType, noType with
    | some t, _, _ => pure (some t)
    | none, some a, some b =>
      match commonType? a b with
      | some t => pure (some t)
      | none => throw (.branches place a b)
    | none, a, b => pure (a <|> b)
  return ⟨{ rule with predicate, yes, no, outputType }, yesType, noType⟩

namespace Stage

def filter (node : String) (conditions : List Comparison) : Stage → Except CompileError Stage
  | sql s => do
    let cs ← conditions.mapM (s.schema.coerceComparison (.filter node))
    let ps ← cs.mapM s.schema.predicate
    return sql { s with filters := s.filters ++ ps }
  | memory input schema => do
    let cs ← conditions.mapM (schema.coerceComparison (.filter node))
    return memory (.filter input cs) schema

/-- A cast in memory gives its column the new type. A column of an open source is added with it, so
that later steps see the type. -/
def castInMemory (rule : CastRule) (input : PlanNode) (schema : Schema Unit)
    (resolved : Resolved ε) : Stage :=
  let schema : Schema Unit := match resolved with
    | .column i c => schema.set i (.column ⟨c.qualifier, c.name, some rule.target, ()⟩)
    | .inOpen qualifier _ name =>
      schema ++ [.column ⟨some (rule.column.qualifier.getD qualifier), name, some rule.target, ()⟩]
  memory (.cast input rule) schema

/-- Only a cast that may abort the run is one of SQL, which has no other way to fail. -/
def cast (rule : CastRule) : Stage → Except CompileError Stage
  | sql s => do
    let resolved ← s.schema.find rule.column
    match resolved with
    | .column i c =>
      if rule.policy = .abort ∧ (s.dialect.castType? rule.target).isSome then
        let column := { c with type? := some rule.target, carried := c.carried.cast rule.target }
        return sql { s with schema := s.schema.set i (.column column) }
    | .inOpen .. => pure ()
    let (node, schema) ← s.materialize
    return castInMemory rule node schema resolved
  | memory input schema => do
    return castInMemory rule input schema (← schema.find rule.column)

def arithmeticInMemory (rule : ArithmeticRule) (type? : Option ColumnType)
    (input : PlanNode) (schema : Schema Unit) : Stage :=
  memory (.arithmetic input rule type?) (schema.putComputed rule.output type? ())

/-- Arithmetic on columns that may hold text is left for memory, which reads numbers in text. -/
def arithmetic (rule : ArithmeticRule) : Stage → Except CompileError Stage
  | sql s => do
    let types ← rule.operands.mapM s.schema.operandType?
    let type? := Arithmetic.resultType? rule.op types
    if types.any fun t => t.any (!·.isNumeric) then
      let (node, schema) ← s.materialize
      return arithmeticInMemory rule type? node schema
    let e ← rule.expr (← rule.operands.mapM s.schema.operandExpr)
    return sql { s with schema := s.schema.putComputed rule.output type? e }
  | memory input schema => do
    let types ← rule.operands.mapM schema.operandType?
    return arithmeticInMemory rule (Arithmetic.resultType? rule.op types) input schema

/-- A branch in the type of the output; nothing where the dialect has no such cast. -/
def fitBranch (d : Sql.Dialect) (output branch : Option ColumnType) (e : Expr) :
    Option Expr :=
  match output, branch with
  | some target, some t =>
    if target = t then some e
    else if (d.castType? target).isSome then some (e.cast target)
    else none
  | _, _ => some e

def conditionInMemory (rule : ConditionRule) (input : PlanNode) (schema : Schema Unit) :
    Stage :=
  memory (.condition input rule) (schema.putComputed rule.output rule.outputType ())

def condition (node : String) (rule : ConditionRule) : Stage → Except CompileError Stage
  | sql s => do
    let settled ← rule.settle s.schema node
    let r := settled.rule
    let yes ← s.schema.operandExpr r.yes
    let no ← s.schema.operandExpr r.no
    match fitBranch s.dialect r.outputType settled.yesType yes,
        fitBranch s.dialect r.outputType settled.noType no with
    | some y, some n =>
      let e := Expr.choose (← s.schema.predicate r.predicate) y n
      return sql { s with schema := s.schema.putComputed r.output r.outputType e }
    | _, _ =>
      let (node, schema) ← s.materialize
      return conditionInMemory r node schema
  | memory input schema => do
    return conditionInMemory (← rule.settle schema node).rule input schema

end Stage

end TablePipeline
