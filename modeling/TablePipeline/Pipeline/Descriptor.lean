import TablePipeline.Json.Shape
import TablePipeline.Rule.Policy
import TablePipeline.Warehouse.Table

/-!
# Pipelines as they are drawn

Nodes with a kind and settings of their own, edges between them, and the table that the sink fills.
-/

set_option autoImplicit false

namespace TablePipeline

inductive NodeKind
  | source
  | join
  | filter
  | cast
  | arithmetic
  | condition
  | sink
  deriving DecidableEq, Repr, Inhabited

namespace NodeKind

def all : List NodeKind := [source, join, filter, cast, arithmetic, condition, sink]

def name : NodeKind → String
  | source => "source"
  | join => "join"
  | filter => "filter"
  | cast => "cast"
  | arithmetic => "arithmetic"
  | condition => "condition"
  | sink => "sink"

/-- The name at the start of a sentence. -/
def title : NodeKind → String
  | source => "Source"
  | join => "Join"
  | filter => "Filter"
  | cast => "Cast"
  | arithmetic => "Arithmetic"
  | condition => "Condition"
  | sink => "Sink"

def inputCount : NodeKind → Nat
  | source => 0
  | join => 2
  | _ => 1

end NodeKind

structure Node where
  id : String
  kind : NodeKind
  config : Json
  deriving Inhabited

structure Edge where
  start : String
  target : String
  deriving DecidableEq, Repr, Inhabited

/-- The table that a pipeline fills, with the types of columns by name where they are set. -/
structure SinkTarget where
  table : String
  schema : List (String × String)
  mode : WriteMode
  deriving Inhabited

structure Pipeline where
  nodes : List Node
  edges : List Edge
  sink : SinkTarget
  policy : RowPolicy
  deriving Inhabited

open Json

def RowPolicy.ofJson : Reader RowPolicy :=
  readVariant ([RowPolicy.nullOut, .skipRow, .abort].map fun p => (p.name, p))

def WriteMode.ofJson : Reader WriteMode := readVariant (WriteMode.all.map fun m => (m.name, m))

def Node.shape : Shape Node where
  name := "NodeDescriptor"
  closed := false
  fields := [
    .of "id" .required readText fun n v => { n with id := v },
    .of "kind" .required (readVariant (NodeKind.all.map fun k => (k.name, k)))
      fun n v => { n with kind := v },
    .of "config" .defaulted readAny fun n v => { n with config := v }]

def Edge.shape : Shape Edge where
  name := "EdgeDescriptor"
  closed := false
  fields := [
    .of "from" .required readText fun e v => { e with start := v },
    .of "to" .required readText fun e v => { e with target := v }]

def SinkTarget.shape : Shape SinkTarget where
  name := "SinkDescriptor"
  closed := false
  fields := [
    .of "tableName" .required readText fun s v => { s with table := v },
    .of "schema" .defaulted (readOption (readTable readText))
      fun s v => { s with schema := v.getD [] },
    .of "mode" .defaulted WriteMode.ofJson fun s v => { s with mode := v }]

/-- The policy of rules that set none themselves. -/
def settingsShape : Shape RowPolicy where
  name := "PipelineSettings"
  closed := false
  fields := [.of "onError" .defaulted RowPolicy.ofJson fun _ v => v]

def Pipeline.shape : Shape Pipeline where
  name := "PipelineDescriptor"
  closed := false
  fields := [
    .of "nodes" .required (readList (Node.shape.read default)) fun p v => { p with nodes := v },
    .of "edges" .defaulted (readList (Edge.shape.read default)) fun p v => { p with edges := v },
    .of "sink" .required (SinkTarget.shape.read default) fun p v => { p with sink := v },
    .of "settings" .defaulted (settingsShape.read .nullOut) fun p v => { p with policy := v }]

def Pipeline.ofJson : Reader Pipeline := Pipeline.shape.read default

end TablePipeline
