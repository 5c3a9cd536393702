import TablePipeline.Graph.Error

/-!
# Settings of nodes

Each kind of node reads its settings into the operation of a step.
-/

set_option autoImplicit false

namespace TablePipeline

open Json
open Sql (CompareOp ArithmeticOp JoinKind)

namespace NodeConfig

structure ColumnEntry where
  name : String := ""
  type : Option String := none

def columnShape : Shape ColumnEntry where
  name := "ColumnDecl"
  closed := true
  fields := [
    .of "name" .required readText fun c v => { c with name := v },
    .of "type" .defaulted (readOption readText) fun c v => { c with type := v }]

structure SourceEntry where
  connection : String := ""
  table : String := ""
  aliasName : Option String := none
  columns : Option (List ColumnEntry) := none

def sourceShape : Shape SourceEntry where
  name := "SourceConfig"
  closed := true
  fields := [
    .of "connection" .required readText fun c v => { c with connection := v },
    .of "table" .required readText fun c v => { c with table := v },
    .of "alias" .defaulted (readOption readText) fun c v => { c with aliasName := v },
    .of "columns" .defaulted (readOption (readList (columnShape.read {})))
      fun c v => { c with columns := v }]

structure JoinEntry where
  left : String := ""
  right : String := ""
  leftColumn : String := ""
  rightColumn : String := ""
  kind : String := "inner"

def joinShape : Shape JoinEntry where
  name := "JoinConfig"
  closed := true
  fields := [
    .of "left" .required readText fun c v => { c with left := v },
    .of "right" .required readText fun c v => { c with right := v },
    .of "leftColumn" .required readText fun c v => { c with leftColumn := v },
    .of "rightColumn" .required readText fun c v => { c with rightColumn := v },
    .of "joinType" .defaulted readText fun c v => { c with kind := v }]

structure ComparisonEntry where
  column : String := ""
  operator : String := ""
  value : Option Json := none
  valueColumn : Option String := none

def filterEntryShape : Shape ComparisonEntry where
  name := "ConditionEntry"
  closed := true
  fields := [
    .of "column" .required readText fun c v => { c with column := v },
    .of "operator" .required readText fun c v => { c with operator := v },
    .of "value" .defaulted (readOption readAny) fun c v => { c with value := v }]

def filterShape : Shape (List ComparisonEntry) where
  name := "FilterConfig"
  closed := true
  fields := [.of "conditions" .required (readList (filterEntryShape.read {})) fun _ v => v]

structure CastEntry where
  column : String := ""
  target : String := ""
  policy : Option RowPolicy := none

def castShape : Shape CastEntry where
  name := "CastConfig"
  closed := true
  fields := [
    .of "column" .required readText fun c v => { c with column := v },
    .of "targetType" .required readText fun c v => { c with target := v },
    .of "onError" .defaulted (readOption RowPolicy.ofJson) fun c v => { c with policy := v }]

/-- An operand: a column, a literal of its own member, or a bare literal. -/
inductive OperandEntry
  | column (text : String)
  | literal (value : Json)

/-- Every value is an operand; an object that names no column as text is a literal. -/
def readOperand : Reader OperandEntry := fun j =>
  .ok <| match j with
    | .object _ =>
      match j.member? "column", j.member? "literal" with
      | some (.text s), _ => .column s
      | _, some v => .literal v
      | _, none => .literal j
    | j => .literal j

structure ArithmeticEntry where
  operands : List OperandEntry := []
  operator : String := ""
  output : String := ""
  divideByZero : Option Json := none
  policy : Option RowPolicy := none

def arithmeticShape : Shape ArithmeticEntry where
  name := "ArithmeticConfig"
  closed := true
  fields := [
    .of "operands" .required (readList readOperand) fun c v => { c with operands := v },
    .of "operator" .required readText fun c v => { c with operator := v },
    .of "outputColumn" .required readText fun c v => { c with output := v },
    .of "divideByZero" .defaulted (readOption readAny) fun c v => { c with divideByZero := v },
    .of "onError" .defaulted (readOption RowPolicy.ofJson) fun c v => { c with policy := v }]

def predicateShape : Shape ComparisonEntry where
  name := "PredicateConfig"
  closed := true
  fields := [
    .of "column" .required readText fun c v => { c with column := v },
    .of "operator" .required readText fun c v => { c with operator := v },
    .of "value" .defaulted (readOption readAny) fun c v => { c with value := v },
    .of "valueColumn" .defaulted (readOption readText) fun c v => { c with valueColumn := v }]

structure ConditionEntry where
  predicate : ComparisonEntry := {}
  yes : OperandEntry := .literal .null
  no : OperandEntry := .literal .null
  output : String := ""
  outputType : Option String := none
  policy : Option RowPolicy := none

def conditionShape : Shape ConditionEntry where
  name := "ConditionConfig"
  closed := true
  fields := [
    .of "predicate" .required (predicateShape.read {}) fun c v => { c with predicate := v },
    .of "thenValue" .required readOperand fun c v => { c with yes := v },
    .of "elseValue" .required readOperand fun c v => { c with no := v },
    .of "outputColumn" .required readText fun c v => { c with output := v },
    .of "outputType" .defaulted (readOption readText) fun c v => { c with outputType := v },
    .of "onError" .defaulted (readOption RowPolicy.ofJson) fun c v => { c with policy := v }]

def read {α : Type} (node : Node) (shape : Shape α) (start : α) : Except GraphError α :=
  (shape.read start node.config).mapError (.config node.id node.kind)

def readReference (text : String) : Except GraphError Reference :=
  (Reference.read text).mapError .reference

def readLiteral (place : GraphPlace) (j : Json) : Except GraphError Scalar :=
  match Scalar.ofJson? j with
  | some v => .ok v
  | none => .error (.literal place j)

def readType (place : GraphPlace) (text : String) : Except GraphError ColumnType :=
  match ColumnType.read? text with
  | some t => .ok t
  | none => .error (.unknownType place text)

def OperandEntry.toOperand (place : GraphPlace) : OperandEntry → Except GraphError RuleOperand
  | column s => (readReference s).map .column
  | literal j => (readLiteral place j).map .literal

/-- The name of a computed column, without blanks around it; the warehouse must allow it. -/
def outputName (node : Node) (text : String) : Except GraphError String :=
  (Sql.checkName .postgres (Text.trim text)).mapError (.outputColumn node.id)

/-- What a comparison compares with; each operator takes one sort of operand. -/
def rightOperand (place : GraphPlace) (op : CompareOp) (c : ComparisonEntry) :
    Except GraphError RightOperand :=
  match op, c.value, c.valueColumn with
  | .isNull, _, _ | .isNotNull, _, _ => .ok .none
  | _, some _, some _ => .error (.valueAndColumn place)
  | .isIn, none, some _ => .error (.columnForList place)
  | _, none, some other => (readReference other).map .column
  | .isIn, some (.list items), none =>
    if items.isEmpty then .error (.emptyList place)
    else (items.mapM (readLiteral place)).map .list
  | .isIn, some _, none => .error (.scalarForList place)
  | _, some v, none => (readLiteral place v).map .value
  | op, none, none => .error (.missingValue place op)

def ComparisonEntry.toComparison (node : Node) (c : ComparisonEntry) :
    Except GraphError Comparison := do
  let column ← readReference c.column
  let op ← (CompareOp.read c.operator).mapError .sql
  return ⟨column, op, ← rightOperand (.comparison node.id column) op c⟩

def castTargets : List ColumnType := [.integer, .decimal, .text, .date, .boolean]

def readCastTarget (node : Node) (text : String) : Except GraphError ColumnType :=
  match (ColumnType.read? text).filter (· ∈ castTargets) with
  | some t => .ok t
  | none => .error (.castTarget node.id text)

def filterOp (node : Node) : Except GraphError StepOp := do
  let entries ← read node filterShape []
  return .filter (← entries.mapM (·.toComparison node))

def castOp (policy : RowPolicy) (node : Node) : Except GraphError StepOp := do
  let c ← read node castShape {}
  let target ← readCastTarget node c.target
  return .cast ⟨← readReference c.column, target, c.policy.getD policy⟩

def arithmeticOp (policy : RowPolicy) (node : Node) : Except GraphError StepOp := do
  let c ← read node arithmeticShape {}
  let place := GraphPlace.arithmetic node.id
  if c.operands.length < 2 then throw (.fewOperands place)
  let operands ← c.operands.mapM (·.toOperand place)
  let op ← (ArithmeticOp.read c.operator).mapError .sql
  let output ← outputName node c.output
  let sentinel ← match c.divideByZero with
    | some j => readLiteral place j
    | none => pure .null
  return .arithmetic ⟨operands, op, output, sentinel, c.policy.getD policy⟩

def conditionOp (policy : RowPolicy) (node : Node) : Except GraphError StepOp := do
  let c ← read node conditionShape {}
  let place := GraphPlace.condition node.id
  let predicate ← c.predicate.toComparison node
  let yes ← c.yes.toOperand place
  let no ← c.no.toOperand place
  let output ← outputName node c.output
  let outputType ← c.outputType.mapM (readType place)
  return .condition ⟨predicate, yes, no, output, outputType, c.policy.getD policy⟩

/-- Checks declared columns in turn; `seen` holds the names before. -/
def declaredColumns (node : Node) (d : Sql.Dialect) :
    List String → List ColumnEntry → Except GraphError (List DeclaredColumn)
  | _, [] => .ok []
  | seen, c :: cs => do
    let name ← (Sql.checkName d c.name).mapError .sql
    if name ∈ seen then throw (.columnTwice node.id name)
    let type? ← c.type.mapM (readType (.sourceColumn node.id name))
    return ⟨name, type?⟩ :: (← declaredColumns node d (name :: seen) cs)

/-- The table of a source. Its alias is the last segment of its path unless one is set. -/
def sourceTable (connections : List Connection) (node : Node) : Except GraphError SourceTable := do
  let c ← read node sourceShape {}
  let connection ← match Connection.find? connections c.connection with
    | some d => pure d
    | none => throw (.unknownConnection node.id c.connection)
  let d := connection.kind.dialect
  let segments ← (Sql.tablePath d c.table).mapError .sql
  let aliasName ← (Sql.checkName d (match c.aliasName with
    | some a => Text.trim a
    | none => segments.getLast?.getD "")).mapError .sql
  let columns ← c.columns.mapM (declaredColumns node d [])
  return ⟨c.connection, connection.kind, c.table, aliasName, columns⟩

def joinSides (node : Node) : Except GraphError JoinEntry := read node joinShape {}

def JoinEntry.toRule (c : JoinEntry) : Except GraphError JoinRule := do
  let kind ← (JoinKind.read c.kind).mapError .sql
  let left ← readReference c.leftColumn
  return ⟨kind, left, ← readReference c.rightColumn⟩

end NodeConfig

end TablePipeline
