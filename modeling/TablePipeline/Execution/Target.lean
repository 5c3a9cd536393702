import TablePipeline.Frame.Basic
import TablePipeline.Frame.Name
import TablePipeline.Plan.Basic
import TablePipeline.Rule.Cast
import TablePipeline.Warehouse.Table

/-!
# From gathered rows to a target table

Each column gets a name of its own and a type: the one that the pipeline sets, or that the plan
knows, or that its first value suggests, or text. Each cell is then brought to the type of its
column; a cell that cannot be goes by the policy of the pipeline.
-/

set_option autoImplicit false

namespace TablePipeline

namespace Sink

/-- The type that the first value of a column suggests. -/
def suggestedType? (rows : List Row) (i : Nat) : Option ColumnType :=
  ((rows.map fun row => row.getD i .null).find? (!·.isNull)).bind (·.sniff?)

def columnType (schema : List (String × ColumnType)) (rows : List Row) (name : String)
    (column : PlanColumn) (i : Nat) : ColumnType :=
  ((schema.lookup name) <|> column.type? <|> suggestedType? rows i).getD .text

def columns (schema : List (String × ColumnType)) (f : Frame) : List TableColumn :=
  ((OutputName.all f.columns).zip f.columns).zipIdx.map fun ((name, column), i) =>
    ⟨name, columnType schema f.rows name column i⟩

/-- A row with its cells in the types of the columns, or nothing if it is skipped. -/
def fitRow (policy : RowPolicy) (number : Nat) :
    List TableColumn → Row → Warnings → Except Failure (Option Row × Warnings)
  | c :: cs, v :: vs, w => do
    let (value, w) : Option Scalar × Warnings ←
      if v.isNull || v.type? == some c.type then pure (some v, w)
      else match v.cast c.type with
        | .ok v => pure (some v, w)
        | .error fault => do
          match ← policy.recover ("sink column '" ++ c.name ++ "'") number fault.message w with
          | (.keep v, w) => pure (some v, w)
          | (.skip, w) => pure (none, w)
    match value with
    | none => return (none, w)
    | some v =>
      let (rest, w) ← fitRow policy number cs vs w
      return (rest.map (v :: ·), w)
  | _, row, w => .ok (some row, w)

/-- The rows that are kept, of which the first has the given number. -/
def fitRows (policy : RowPolicy) (columns : List TableColumn) :
    Nat → List Row → Warnings → Except Failure (List Row × Warnings)
  | _, [], w => .ok ([], w)
  | number, row :: rows, w => do
    let (kept, w) ← fitRow policy number columns row w
    let (rest, w) ← fitRows policy columns (number + 1) rows w
    return (kept.toList ++ rest, w)

end Sink

def Plan.target (plan : Plan) (f : Frame) (w : Warnings) :
    Except Failure (TableSpec × List Row × Warnings) := do
  let names := OutputName.all f.columns
  match plan.sink.schema.find? fun (name, _) => name ∉ names with
  | some (name, _) =>
    throw ⟨.unresolvedReference,
      "sink schema column '" ++ name ++ "' is not produced by the pipeline"⟩
  | none => pure ()
  let columns := Sink.columns plan.sink.schema f
  let (rows, w) ← Sink.fitRows plan.policy columns 1 f.rows w
  return (⟨plan.sink.table, columns, plan.sink.mode⟩, rows, w)

end TablePipeline
