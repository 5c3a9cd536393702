import TablePipeline.Graph.Basic

/-!
# Why a pipeline is refused
-/

set_option autoImplicit false

namespace TablePipeline

open Sql (CompareOp)

inductive GraphPlace
  | comparison (node : String) (column : Reference)
  | arithmetic (node : String)
  | condition (node : String)
  | sourceColumn (node column : String)
  | sinkColumn (column : String)
  deriving DecidableEq, Repr

def GraphPlace.text : GraphPlace → String
  | comparison node column => "node '" ++ node ++ "' condition on " ++ column.text
  | arithmetic node => "arithmetic '" ++ node ++ "'"
  | condition node => "condition '" ++ node ++ "'"
  | sourceColumn node column => "source '" ++ node ++ "' column '" ++ column ++ "'"
  | sinkColumn column => "sink column '" ++ column ++ "'"

inductive GraphError
  | emptyId
  | duplicateId (id : String)
  | unknownNode (edge : Edge) (id : String)
  | selfLoop (id : String)
  | duplicateEdge (edge : Edge)
  | noSink
  | manySinks (count : Nat)
  | cycle (ids : List String)
  | inputCount (kind : NodeKind) (id : String) (found : Nat)
  | sinkFeeds
  | dangling (id : String)
  | noSinkInput
  | config (id : String) (kind : NodeKind) (fault : Json.ShapeError)
  | unknownConnection (node connection : String)
  | aliasTwice (aliasName : String)
  | columnTwice (node column : String)
  | notAnInput (node side : String)
  | sameInput (node : String)
  | castTarget (node target : String)
  | fewOperands (place : GraphPlace)
  | literal (place : GraphPlace) (value : Json)
  | unknownType (place : GraphPlace) (text : String)
  | valueAndColumn (place : GraphPlace)
  | columnForList (place : GraphPlace)
  | emptyList (place : GraphPlace)
  | scalarForList (place : GraphPlace)
  | missingValue (place : GraphPlace) (op : CompareOp)
  | outputColumn (node : String) (fault : Sql.Error)
  | reference (fault : ReferenceFault)
  | sql (fault : Sql.Error)

private def countText (n : Nat) : String := Digits.text n

def GraphError.toFailure : GraphError → Failure
  | emptyId => ⟨.invalidPipeline, "node ids must not be empty"⟩
  | duplicateId id => ⟨.invalidPipeline, "duplicate node id '" ++ id ++ "'"⟩
  | unknownNode e id =>
    ⟨.invalidPipeline,
      "edge " ++ e.start ++ " -> " ++ e.target ++ " references unknown node '" ++ id ++ "'"⟩
  | selfLoop id => ⟨.cyclicPipeline, "node '" ++ id ++ "' feeds itself"⟩
  | duplicateEdge e => ⟨.invalidPipeline, "duplicate edge " ++ e.start ++ " -> " ++ e.target⟩
  | noSink => ⟨.invalidPipeline, "pipeline has no sink node"⟩
  | manySinks n =>
    ⟨.invalidPipeline, "pipeline has " ++ countText n ++ " sink nodes, expected one"⟩
  | cycle ids =>
    ⟨.cyclicPipeline, "pipeline contains a cycle through " ++ String.intercalate ", " ids⟩
  | inputCount kind id found =>
    ⟨.invalidPipeline, kind.title ++ " node '" ++ id ++ "' needs " ++ countText kind.inputCount ++
      " input(s), found " ++ countText found⟩
  | sinkFeeds => ⟨.invalidPipeline, "the sink node cannot feed other nodes"⟩
  | dangling id => ⟨.invalidPipeline, "node '" ++ id ++ "' does not lead to the sink"⟩
  | noSinkInput => ⟨.invalidPipeline, "the sink node has no input"⟩
  | config id kind fault =>
    ⟨.invalidPipeline,
      "node '" ++ id ++ "' has an invalid " ++ kind.title ++ " config: " ++ fault.message⟩
  | unknownConnection node connection =>
    ⟨.unknownConnection, "source '" ++ node ++ "' references connection '" ++ connection ++
      "', which is not defined"⟩
  | aliasTwice aliasName =>
    ⟨.invalidPipeline,
      "source alias '" ++ aliasName ++ "' is used more than once; set a distinct alias"⟩
  | columnTwice node column =>
    ⟨.invalidPipeline, "source '" ++ node ++ "' declares column '" ++ column ++ "' twice"⟩
  | notAnInput node side =>
    ⟨.invalidPipeline, "join '" ++ node ++ "' side '" ++ side ++ "' is not one of its inputs"⟩
  | sameInput node => ⟨.invalidPipeline, "join '" ++ node ++ "' uses the same input twice"⟩
  | castTarget node target =>
    ⟨.unsupportedOperator, "cast '" ++ node ++ "' target type '" ++ target ++
      "' must be one of integer, decimal, text, date or boolean"⟩
  | fewOperands place => ⟨.invalidPipeline, place.text ++ " needs at least two operands"⟩
  | literal place value =>
    ⟨.invalidPipeline, place.text ++ ": " ++ Scalar.unsupportedMessage value⟩
  | unknownType place text =>
    ⟨.invalidPipeline, place.text ++ ": " ++ ColumnType.unknownMessage text⟩
  | valueAndColumn place =>
    ⟨.invalidPipeline, place.text ++ ": set either value or valueColumn, not both"⟩
  | columnForList place =>
    ⟨.invalidPipeline, place.text ++ ": IN compares against a value list"⟩
  | emptyList place => ⟨.invalidPipeline, place.text ++ ": IN requires a non-empty list"⟩
  | scalarForList place => ⟨.invalidPipeline, place.text ++ ": IN requires a list of values"⟩
  | missingValue place op =>
    ⟨.invalidPipeline, place.text ++ ": operator " ++ op.text ++
      " requires a non-null value; use 'is null' to match nulls"⟩
  | outputColumn node fault =>
    ⟨.invalidIdentifier, "node '" ++ node ++ "' output column: " ++ fault.message⟩
  | reference fault => fault.toFailure
  | sql fault => fault.toFailure

end TablePipeline
