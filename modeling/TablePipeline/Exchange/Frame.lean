import TablePipeline.Exchange.Scalar
import TablePipeline.Frame.Rule
import TablePipeline.Graph.Error
import TablePipeline.Sql.Clause

/-!
# Frames and their rules in JSON

Reads results of queries with their layouts, and the rules that change a frame.
-/

set_option autoImplicit false

namespace TablePipeline.Exchange

def readReference (j : Json) : Read Reference := do
  ofFailure ((Reference.read (← readText j)).mapError (·.toFailure))

def memberReference (j : Json) (name : String) : Read Reference := readReference (member j name)

def readPlanColumn (j : Json) : Read PlanColumn := do
  return ⟨memberText? j "qualifier", ← memberText j "name", ← readType? (member j "type")⟩

private def readDeclared (j : Json) : Read DeclaredColumn := do
  return ⟨← memberText j "name", ← readType? (member j "type")⟩

def readLayoutItem (j : Json) : Read LayoutItem := do
  match j.member? "column" with
  | some c => return .column (← readPlanColumn c)
  | none =>
    let w := member j "wildcard"
    let declared ← match member w "declared" with
      | .list cs => some <$> cs.mapM readDeclared
      | _ => pure none
    return .wildcard (← memberText w "qualifier") declared

def readResult (j : Json) : Read (List LayoutItem × RowSet) := do
  let layout ← (← memberList j "layout").mapM readLayoutItem
  return (layout, ← need "row set" (readRowSet? (member j "result")))

def readFrame (j : Json) : Read Frame := do
  let (layout, result) ← readResult j
  ofHalt ((Frame.ofResult layout result).mapError (·.toHalt))

/-- The right side of a condition: a value before a list before nothing. -/
def readFilterValue (j : Json) : Read (Option Sql.FilterValue) := do
  match j.member? "value", j.member? "values" with
  | some v, _ => return some (.scalar (← readScalar v))
  | none, some vs => return some (.list (← readRow vs))
  | none, none => return none

def readCompareOp (j : Json) (name : String) : Read Sql.CompareOp := do
  ofSql (Sql.CompareOp.read (← memberText j name))

def readArithmeticOp (j : Json) (name : String) : Read Sql.ArithmeticOp := do
  ofSql (Sql.ArithmeticOp.read (← memberText j name))

def readComparison (j : Json) : Read Comparison := do
  let column ← memberReference j "column"
  let op ← readCompareOp j "operator"
  match j.member? "valueColumn" with
  | some c => return ⟨column, op, .column (← readReference c)⟩
  | none =>
    match ← readFilterValue j with
    | some (.scalar v) => return ⟨column, op, .value v⟩
    | some (.list vs) => return ⟨column, op, .list vs⟩
    | none => return ⟨column, op, .none⟩

def readOperand (j : Json) : Read RuleOperand := do
  match j.member? "column" with
  | some c => return .column (← readReference c)
  | none => return .literal (← readScalar (member j "literal"))

def readCastRule (j : Json) : Read CastRule := do
  return ⟨← memberReference j "column", ← readType (member j "target"),
    ← readPolicy (member j "policy")⟩

def readArithmeticRule (j : Json) : Read ArithmeticRule := do
  return ⟨← (← memberList j "operands").mapM readOperand, ← readArithmeticOp j "operator",
    ← memberText j "output", ← readScalar (member j "divideByZero"),
    ← readPolicy (member j "policy")⟩

def readConditionRule (j : Json) : Read ConditionRule := do
  return ⟨← readComparison (member j "predicate"), ← readOperand (member j "then"),
    ← readOperand (member j "else"), ← memberText j "output", ← readType? (member j "type"),
    ← readPolicy (member j "policy")⟩

def readJoinRule (j : Json) : Read JoinRule := do
  return ⟨← ofSql (Sql.JoinKind.read (← memberText j "kind")), ← memberReference j "leftColumn",
    ← memberReference j "rightColumn"⟩

/-- Reads a rule and applies it to a frame. -/
def readStep (f : Frame) (w : Warnings) (step : Json) : Read (Frame × Warnings) := do
  match step with
  | .object [("filter", .list cs)] =>
    return (← ofFailure (f.filter (← cs.mapM readComparison)), w)
  | .object [("cast", c)] => ofFailure (f.cast (← readCastRule c) w)
  | .object [("arithmetic", a)] =>
    ofFailure (f.arithmetic (← readArithmeticRule a) (← readType? (member a "type")) w)
  | .object [("condition", c)] => ofFailure (f.condition (← readConditionRule c) w)
  | .object [("join", j)] =>
    let right ← readFrame (member j "right")
    return (← ofFailure (f.join right (← readJoinRule j)), w)
  | _ => form "frame step"

end TablePipeline.Exchange
