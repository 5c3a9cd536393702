/-!
# Topological order

Nodes are numbers below a count. A node is ready once all edges into it are gone; the first ready
node is taken, and its edges go with it. What is left when no node is ready lies on a cycle or
behind one.
-/

set_option autoImplicit false

namespace TablePipeline.Graph

/-- The elements of a list, each at its last place. -/
def lastOnly : List Nat → List Nat
  | [] => []
  | n :: ns => if n ∈ ns then lastOnly ns else n :: lastOnly ns

theorem lastOnly_length_le (ns : List Nat) : (lastOnly ns).length ≤ ns.length := by
  induction ns with
  | nil => simp [lastOnly]
  | cons n ns ih =>
    rw [lastOnly]
    split <;> simp <;> omega

abbrev EdgeList := List (Nat × Nat)

def edgesWithout (n : Nat) (edges : EdgeList) : EdgeList := edges.filter (·.1 != n)

/-- The nodes that become ready when a node is taken, in the order of its edges. -/
def released (n : Nat) (edges : EdgeList) : List Nat :=
  (lastOnly ((edges.filter (·.1 == n)).map (·.2))).filter fun m =>
    (edgesWithout n edges).all (·.2 != m)

theorem released_length_add_le (n : Nat) (edges : EdgeList) :
    (released n edges).length + (edgesWithout n edges).length ≤ edges.length := by
  have hs : (edges.filter (·.1 == n)).length + (edgesWithout n edges).length = edges.length := by
    unfold edgesWithout
    induction edges with
    | nil => rfl
    | cons e es ih =>
      simp only [List.filter_cons, bne]
      cases e.1 == n <;> simp_all [bne] <;> omega
  have h₁ : (released n edges).length ≤ (edges.filter (·.1 == n)).length := by
    refine Nat.le_trans (List.length_filter_le _ _) (Nat.le_trans (lastOnly_length_le _) ?_)
    simp
  omega

/-- Takes ready nodes, first come first served; gives the nodes in order and the edges left. -/
def takeReady (edges : EdgeList) : List Nat → List Nat × EdgeList
  | [] => ([], edges)
  | n :: ready =>
    let r := takeReady (edgesWithout n edges) (ready ++ released n edges)
    (n :: r.1, r.2)
termination_by ready => edges.length + ready.length
decreasing_by
  have := released_length_add_le n edges
  simp only [List.length_append, List.length_cons]
  omega

/-- All nodes in an order in which every edge goes forward, or the nodes that are on a cycle or
behind one. Nodes that could swap places keep the order of their numbers. -/
def topologicalOrder (count : Nat) (edges : EdgeList) : Except (List Nat) (List Nat) :=
  let free := (List.range count).filter fun n => edges.all (·.2 != n)
  let (order, left) := takeReady edges free
  if order.length = count then .ok order
  else .error ((List.range count).filter fun n => left.any (·.2 == n))

end TablePipeline.Graph
