import TablePipeline.Graph.Config
import TablePipeline.Graph.Order

/-!
# Checking a pipeline

The checks come in a fixed order: ids, edges, the sink, cycles, the number of inputs, nodes that
lead nowhere, then the settings of each node in the order of the steps, and last the target table.
-/

set_option autoImplicit false

namespace TablePipeline

namespace Pipeline

/-- Every id is set, and no two nodes share one. -/
def checkIds : List String → List Node → Except GraphError Unit
  | _, [] => .ok ()
  | seen, n :: ns =>
    if Text.isBlankText n.id then .error .emptyId
    else if n.id ∈ seen then .error (.duplicateId n.id)
    else checkIds (n.id :: seen) ns

def position? (p : Pipeline) (id : String) : Option Nat := p.nodes.findIdx? (·.id == id)

private def endOf (p : Pipeline) (e : Edge) (id : String) : Except GraphError Nat :=
  match p.position? id with
  | some n => .ok n
  | none => .error (.unknownNode e id)

theorem endOf_eq_ok {p : Pipeline} {e : Edge} {id : String} {n : Nat} :
    endOf p e id = .ok n ↔ p.position? id = some n := by
  unfold endOf
  split <;> simp_all

/-- The edges between positions; `seen` holds those before. -/
def checkEdges (p : Pipeline) : Graph.EdgeList → List Edge → Except GraphError Graph.EdgeList
  | seen, [] => .ok seen
  | seen, e :: es => do
    let start ← endOf p e e.start
    let target ← endOf p e e.target
    if start = target then throw (.selfLoop e.start)
    if (start, target) ∈ seen then throw (.duplicateEdge e)
    checkEdges p (seen ++ [(start, target)]) es

def sinkPosition (p : Pipeline) : Except GraphError Nat :=
  match (List.range p.nodes.length).filter fun i => (p.nodes[i]?.map (·.kind)) == some .sink with
  | [n] => .ok n
  | [] => .error .noSink
  | many => .error (.manySinks many.length)

def idAt (p : Pipeline) (i : Nat) : String := (p.nodes[i]?.getD default).id

end Pipeline

namespace Graph

/-- The nodes that feed one, in the order of the edges. -/
def inputsOf (edges : EdgeList) (n : Nat) : List Nat := (edges.filter (·.2 == n)).map (·.1)

/-- The nodes from which a node can be reached, found backwards through an order. -/
def leadingTo (edges : EdgeList) (goal : Nat) (order : List Nat) : List Nat :=
  order.foldr
    (fun n acc => if n = goal ∨ edges.any (fun e => e.1 == n && acc.contains e.2) then n :: acc
      else acc) []

end Graph

namespace Pipeline

/-- Each node has as many inputs as its kind needs, and the sink feeds nothing. -/
def checkInputs (edges : Graph.EdgeList) : Nat → List Node → Except GraphError Unit
  | _, [] => .ok ()
  | i, n :: ns =>
    let found := (Graph.inputsOf edges i).length
    if found ≠ n.kind.inputCount then .error (.inputCount n.kind n.id found)
    else if n.kind = .sink ∧ edges.any (·.1 == i) then .error .sinkFeeds
    else checkInputs edges (i + 1) ns

/-- The positions of the nodes that become steps, in the order of the steps. -/
def stepNodes (p : Pipeline) (order : List Nat) : List Nat :=
  order.filter fun i => (p.nodes[i]?.map (·.kind)) != some .sink

/-- The step of the node with an id, if that node is among some inputs. -/
private def sideStep (p : Pipeline) (places inputs : List Nat) (node : Node) (id : String) :
    Except GraphError Nat :=
  match ((p.position? id).filter (· ∈ inputs)).bind places.idxOf? with
  | some s => .ok s
  | none => .error (.notAnInput node.id id)

theorem sideStep_eq_ok {p : Pipeline} {places inputs : List Nat} {node : Node} {id : String}
    {s : Nat} : sideStep p places inputs node id = .ok s ↔
      ∃ n, p.position? id = some n ∧ n ∈ inputs ∧ places.idxOf? n = some s := by
  unfold sideStep
  constructor
  · intro h
    split at h
    · rename_i hs
      obtain rfl := Except.ok.inj h
      obtain ⟨n, hn, hs⟩ := Option.bind_eq_some_iff.mp hs
      obtain ⟨hn, hmem⟩ := Option.filter_eq_some_iff.mp hn
      exact ⟨n, hn, of_decide_eq_true hmem, hs⟩
    · cases h
  · rintro ⟨n, hn, hmem, hs⟩
    simp only [hn, Option.filter_some, hmem, decide_true, if_true, Option.bind_some, hs]

def stepOf (p : Pipeline) (connections : List Connection) (places inputs : List Nat) (node : Node) :
    Except GraphError (StepOp × List Nat) := do
  let steps := inputs.filterMap places.idxOf?
  match node.kind with
  | .source => return (.source (← NodeConfig.sourceTable connections node), steps)
  | .join =>
    let c ← NodeConfig.joinSides node
    let left ← sideStep p places inputs node c.left
    let right ← sideStep p places inputs node c.right
    if left = right then throw (.sameInput node.id)
    return (.join (← c.toRule), [left, right])
  | .filter => return (← NodeConfig.filterOp node, steps)
  | .cast => return (← NodeConfig.castOp p.policy node, steps)
  | .arithmetic => return (← NodeConfig.arithmeticOp p.policy node, steps)
  | .condition => return (← NodeConfig.conditionOp p.policy node, steps)
  | .sink => throw .noSinkInput

/-- The steps of some nodes in turn; `aliases` holds those of the sources before. -/
def buildSteps (p : Pipeline) (connections : List Connection) (edges : Graph.EdgeList)
    (places : List Nat) : List String → List Nat → Except GraphError (List Step)
  | _, [] => .ok []
  | aliases, i :: rest => do
    let node := p.nodes[i]?.getD default
    let (op, inputs) ← stepOf p connections places (Graph.inputsOf edges i) node
    let aliases ← match op with
      | .source s =>
        if s.aliasName ∈ aliases then throw (.aliasTwice s.aliasName)
        else pure (s.aliasName :: aliases)
      | _ => pure aliases
    return ⟨node.id, op, inputs⟩ :: (← buildSteps p connections edges places aliases rest)

def sinkOf (p : Pipeline) : Except GraphError Sink := do
  let _ ← (Sql.tablePath .postgres p.sink.table).mapError .sql
  let schema ← p.sink.schema.mapM fun (column, text) =>
    return (column, ← NodeConfig.readType (.sinkColumn column) text)
  return ⟨p.sink.table, schema, p.sink.mode⟩

/-- Checks a pipeline against the known connections and gives its graph. -/
def toGraph (p : Pipeline) (connections : List Connection) : Except GraphError Graph := do
  checkIds [] p.nodes
  let edges ← p.checkEdges [] p.edges
  let sink ← p.sinkPosition
  let order ← (Graph.topologicalOrder p.nodes.length edges).mapError
    fun stuck => .cycle (stuck.map p.idAt)
  checkInputs edges 0 p.nodes
  let leading := Graph.leadingTo edges sink order
  match (List.range p.nodes.length).find? (· ∉ leading) with
  | some i => throw (.dangling (p.idAt i))
  | none => pure ()
  let places := p.stepNodes order
  let steps ← p.buildSteps connections edges places [] places
  let output ← match (Graph.inputsOf edges sink).head?.bind places.idxOf? with
    | some s => pure s
    | none => throw .noSinkInput
  return ⟨steps, output, ← p.sinkOf, p.policy⟩

end Pipeline

end TablePipeline
