import TablePipeline.Frame.Basic
import TablePipeline.Rule.Comparison
import TablePipeline.Rule.Join
import TablePipeline.Rule.Policy

/-!
# Steps in memory

References are resolved once for the frame, then the rule is applied to each row. A row whose rule
fails goes by the policy of the rule.
-/

set_option autoImplicit false

namespace TablePipeline

inductive BoundOperand
  | column (i : Nat)
  | literal (v : Scalar)

def BoundOperand.value (row : Row) : BoundOperand → Scalar
  | column i => row.getD i .null
  | literal v => v

inductive BoundRight
  | fixed (o : CompareOperand)
  | column (i : Nat)

structure BoundComparison where
  left : Nat
  op : Sql.CompareOp
  right : BoundRight

def BoundComparison.test? (c : BoundComparison) (row : Row) : Option Bool :=
  (row.getD c.left .null).test? c.op <| match c.right with
    | .fixed o => o
    | .column i => .value (row.getD i .null)

inductive Slot
  | replace (i : Nat)
  | append

def Slot.put (slot : Slot) (row : Row) (v : Scalar) : Row :=
  match slot with
  | replace i => row.set i v
  | append => row ++ [v]

/-- Applies a rule to rows, of which the first has the given number. -/
def applyRule (policy : RowPolicy) (label : String) (value : Row → Except RowFault Scalar)
    (slot : Slot) : Nat → List Row → Warnings → Except Failure (List Row × Warnings)
  | _, [], w => .ok ([], w)
  | number, row :: rows, w => do
    match value row with
    | .ok v =>
      let (rest, w) ← applyRule policy label value slot (number + 1) rows w
      return (slot.put row v :: rest, w)
    | .error fault =>
      match ← policy.recover label number fault.message w with
      | (.keep v, w) =>
        let (rest, w) ← applyRule policy label value slot (number + 1) rows w
        return (slot.put row v :: rest, w)
      | (.skip, w) => applyRule policy label value slot (number + 1) rows w

namespace Frame

def bindOperand (f : Frame) : RuleOperand → Except Failure BoundOperand
  | .column r => do return .column (← f.resolve r)
  | .literal v => .ok (.literal v)

def bindComparison (f : Frame) (c : Comparison) : Except Failure BoundComparison := do
  let right ← match c.right with
    | .none => pure (BoundRight.fixed .none)
    | .value v => pure (.fixed (.value v))
    | .list vs => pure (.fixed (.list vs))
    | .column r => BoundRight.column <$> f.resolve r
  return ⟨← f.resolve c.column, c.op, right⟩

def filter (f : Frame) (conditions : List Comparison) : Except Failure Frame := do
  let bound ← conditions.mapM f.bindComparison
  return { f with rows := f.rows.filter fun row => bound.all fun c => c.test? row == some true }

def setType (f : Frame) (i : Nat) (type? : Option ColumnType) : List PlanColumn :=
  f.columns.modify i fun c => { c with type? }

/-- Where the values of a computed column go, and the columns with it: an earlier computed column
of the same name is replaced. -/
def computedSlot (f : Frame) (name : String) (type? : Option ColumnType) :
    List PlanColumn × Slot :=
  match f.columns.findIdx? fun c => c.qualifier.isNone && c.name == name with
  | some i => (f.setType i type?, .replace i)
  | none => (f.columns ++ [⟨none, name, type?⟩], .append)

def cast (f : Frame) (rule : CastRule) (w : Warnings) : Except Failure (Frame × Warnings) := do
  let i ← f.resolve rule.column
  let label := "cast of '" ++ rule.column.text ++ "' to " ++ rule.target.name
  let (rows, w) ← applyRule rule.policy label (fun row => (row.getD i .null).cast rule.target)
    (.replace i) 1 f.rows w
  return (⟨f.setType i (some rule.target), rows⟩, w)

def arithmetic (f : Frame) (rule : ArithmeticRule) (type? : Option ColumnType) (w : Warnings) :
    Except Failure (Frame × Warnings) := do
  let operands ← rule.operands.mapM f.bindOperand
  let label := "arithmetic '" ++ rule.output ++ "'"
  let (columns, slot) := f.computedSlot rule.output type?
  let (rows, w) ← applyRule rule.policy label
    (fun row => Arithmetic.evaluate rule.op (operands.map (·.value row)) rule.divideByZero)
    slot 1 f.rows w
  return (⟨columns, rows⟩, w)

def fitOutput (output : Option ColumnType) (v : Scalar) : Except RowFault Scalar :=
  match output with
  | some t => if v.isNull || v.type? == some t then .ok v else v.cast t
  | none => .ok v

def condition (f : Frame) (rule : ConditionRule) (w : Warnings) :
    Except Failure (Frame × Warnings) := do
  let predicate ← f.bindComparison rule.predicate
  let yes ← f.bindOperand rule.yes
  let no ← f.bindOperand rule.no
  let label := "condition '" ++ rule.output ++ "'"
  let (columns, slot) := f.computedSlot rule.output rule.outputType
  let choose (row : Row) := if predicate.test? row == some true then yes.value row else no.value row
  let (rows, w) ← applyRule rule.policy label (fun row => fitOutput rule.outputType (choose row))
    slot 1 f.rows w
  return (⟨columns, rows⟩, w)

def join (left right : Frame) (rule : JoinRule) : Except Failure Frame := do
  let leftKey ← left.resolve rule.left
  let rightKey ← right.resolve rule.right
  return ⟨left.columns ++ right.columns,
    Rows.join rule.kind left.rows leftKey right.rows rightKey right.columns.length⟩

end Frame

end TablePipeline
