import TablePipeline.Connection.Descriptor
import TablePipeline.Failure
import TablePipeline.Pipeline.Descriptor
import TablePipeline.Sql.Name

/-!
# Graphs of steps

A reference is the name of a column, with the alias of its source in front where that is needed. A
checked pipeline: steps in an order in which each one comes after those that feed it, the step that
feeds the sink, and the target of the sink.
-/

set_option autoImplicit false

namespace TablePipeline

structure Reference where
  qualifier : Option String
  name : String
  deriving DecidableEq, Repr, Inhabited

inductive ReferenceFault
  | path (e : Sql.Error)
  | tooManySegments (text : String)
  | emptySegment (text : String)
  deriving DecidableEq, Repr

def ReferenceFault.toFailure : ReferenceFault → Failure
  | path e => e.toFailure
  | tooManySegments text =>
    ⟨.invalidIdentifier,
      "column reference " ++ Text.quoted text ++ " must be `column` or `alias.column`"⟩
  | emptySegment text =>
    ⟨.invalidIdentifier, "column reference " ++ Text.quoted text ++ " has an empty segment"⟩

namespace Reference

def read (text : String) : Except ReferenceFault Reference := do
  let segments ← (Sql.splitPath (Text.trim text)).mapError .path
  let r : Reference ← match segments with
    | [name] => pure ⟨none, name⟩
    | [qualifier, name] => pure ⟨some qualifier, name⟩
    | _ => throw (.tooManySegments text)
  if r.name.isEmpty || r.qualifier == some "" then throw (.emptySegment text)
  return r

def text (r : Reference) : String :=
  match r.qualifier with
  | some q => q ++ "." ++ r.name
  | none => r.name

end Reference

open Sql (CompareOp ArithmeticOp JoinKind)

inductive RuleOperand
  | column (r : Reference)
  | literal (v : Scalar)
  deriving DecidableEq, Repr

inductive RightOperand
  | none
  | value (v : Scalar)
  | list (vs : List Scalar)
  | column (r : Reference)
  deriving DecidableEq, Repr

structure Comparison where
  column : Reference
  op : CompareOp
  right : RightOperand
  deriving DecidableEq, Repr

structure DeclaredColumn where
  name : String
  type? : Option ColumnType
  deriving DecidableEq, Repr

/-- A table of a connection under an alias; its columns may be declared. -/
structure SourceTable where
  connection : String
  kind : SourceKind
  table : String
  aliasName : String
  columns : Option (List DeclaredColumn)
  deriving DecidableEq, Repr

structure JoinRule where
  kind : JoinKind
  left : Reference
  right : Reference
  deriving DecidableEq, Repr

structure CastRule where
  column : Reference
  target : ColumnType
  policy : RowPolicy
  deriving DecidableEq, Repr

structure ArithmeticRule where
  operands : List RuleOperand
  op : ArithmeticOp
  output : String
  divideByZero : Scalar
  policy : RowPolicy
  deriving DecidableEq, Repr

structure ConditionRule where
  predicate : Comparison
  yes : RuleOperand
  no : RuleOperand
  output : String
  outputType : Option ColumnType
  policy : RowPolicy
  deriving DecidableEq, Repr

inductive StepOp
  | source (s : SourceTable)
  /-- The inputs are the left and the right side. -/
  | join (j : JoinRule)
  | filter (cs : List Comparison)
  | cast (r : CastRule)
  | arithmetic (r : ArithmeticRule)
  | condition (r : ConditionRule)
  deriving DecidableEq, Repr

structure Step where
  id : String
  op : StepOp
  /-- Positions of earlier steps. -/
  inputs : List Nat
  deriving DecidableEq, Repr

structure Sink where
  table : String
  schema : List (String × ColumnType)
  mode : WriteMode
  deriving DecidableEq, Repr

structure Graph where
  steps : List Step
  /-- The step that feeds the sink. -/
  output : Nat
  sink : Sink
  policy : RowPolicy
  deriving DecidableEq, Repr

end TablePipeline
