import TablePipeline.Proofs.Graph.Acceptance

/-!
# Pipelines that list the same in another order

The order in which nodes and edges are listed decides how steps are numbered, and nothing else. A
graph in which steps name one another by the ids of their nodes is the same for all orders.
-/

set_option autoImplicit false

namespace TablePipeline

variable {p p' : Pipeline} {connections : List Connection} {g g' : Graph} {node : Node}

/-! ### Steps by id -/

/-- A step whose inputs are named by their ids. -/
def Graph.named (g : Graph) (s : Step) : String × StepOp × List (Option String) :=
  (s.id, s.op, s.inputs.map g.idAt?)

/-- The ids of the nodes that feed one: for a join the sides that its settings name, else the
starts of the edges into it. -/
def Pipeline.inputIds (p : Pipeline) (node : Node) : List String :=
  match node.kind, NodeConfig.joinSides node with
  | .join, .ok c => [c.left, c.right]
  | _, _ => (p.edges.filter (·.target = node.id)).map (·.start)

theorem Pipeline.inputIds_join {c : NodeConfig.JoinEntry} (hkind : node.kind = .join)
    (hc : NodeConfig.joinSides node = .ok c) : p.inputIds node = [c.left, c.right] := by
  rw [inputIds, hkind, hc]

theorem Pipeline.inputIds_plain (hkind : node.kind ≠ .join) :
    p.inputIds node = (p.edges.filter (·.target = node.id)).map (·.start) := by
  unfold inputIds
  split
  · exact (hkind (by assumption)).elim
  · rfl

theorem Graph.StandsFor.map_idAt? {i : Nat} {s : Step} (h : g.StandsFor p i s node) :
    s.inputs.map g.idAt? = (p.inputIds node).map some := by
  by_cases hjoin : node.kind = .join
  · obtain ⟨c, left, right, hc, hinputs, _, hleft, hright⟩ := h.sides hjoin
    rw [Pipeline.inputIds_join hjoin hc, hinputs]
    simp [hleft, hright]
  · have hinputs := h.inputs
    rw [← Pipeline.inputIds_plain hjoin] at hinputs
    by_cases hsource : node.kind = .source
    · rw [h.source hsource] at hinputs ⊢
      exact (List.nil_perm.mp hinputs).symm
    · obtain ⟨j, hj⟩ := h.single hsource hjoin
      rw [hj] at hinputs ⊢
      exact List.singleton_perm.mp hinputs

namespace Pipeline

theorem exists_operation (h : p.toGraph connections = .ok g) {s : Step} (hs : s ∈ g.steps) :
    ∃ node ∈ p.nodes, node.id = s.id ∧
      NodeConfig.operation connections p.policy node = .ok s.op := by
  obtain ⟨edges, sink, order, -, hedges, -, horder, -, -, hsteps, -⟩ := toGraph_eq_ok.mp h
  obtain ⟨_, rfl, hplaces, -⟩ := (checkEdges_eq_ok List.nodup_nil).mp hedges
  obtain ⟨hnodes, -⟩ :=
    Graph.topologicalOrder_eq_ok (fun e he => (lt_of_places hplaces he).2) horder
  obtain ⟨n, hn, hid, hop⟩ := Outcome.exists_of_forall₂ (buildSteps_eq_ok.mp hsteps).1.flip hs
  have hlt := List.mem_range.mp (hnodes.mem_iff.mp (List.mem_of_mem_filter hn))
  exact ⟨p.nodeAt n, nodeAt_mem hlt, hid.symm, (operation_of_stepOf hop).1⟩

/-- The steps of a graph, by id, are what the nodes of its pipeline say one by one. -/
theorem mem_map_named (h : p.toGraph connections = .ok g)
    {x : String × StepOp × List (Option String)} :
    x ∈ g.steps.map g.named ↔ ∃ node ∈ p.nodes, x.1 = node.id ∧
      NodeConfig.operation connections p.policy node = .ok x.2.1 ∧
      x.2.2 = (p.inputIds node).map some := by
  have hrep := represents_of_toGraph h
  have hids := (acceptable_of_toGraph h).ids
  have hstep (s : Step) (hs : s ∈ g.steps) : ∃ node ∈ p.nodes, s.id = node.id ∧
      NodeConfig.operation connections p.policy node = .ok s.op ∧
      s.inputs.map g.idAt? = (p.inputIds node).map some := by
    obtain ⟨i, hi⟩ := List.mem_iff_getElem?.mp hs
    obtain ⟨node, hnode, hstands⟩ := hrep.steps i s hi
    obtain ⟨node', hnode', hid, hop⟩ := exists_operation h hs
    obtain rfl := List.inj_on_of_nodup_map hids hnode' hnode (hid.trans hstands.id)
    exact ⟨node', hnode, hstands.id, hop, hstands.map_idAt?⟩
  constructor
  · intro hx
    obtain ⟨s, hs, rfl⟩ := List.mem_map.mp hx
    exact hstep s hs
  · obtain ⟨id, op, inputs⟩ := x
    rintro ⟨node, hnode, hid, hop, hinputs⟩
    have hmem : node.id ∈ g.steps.map (·.id) :=
      hrep.ids_perm.mem_iff.mpr (List.mem_map_of_mem
        (List.mem_filter.mpr ⟨hnode, decide_eq_true (NodeConfig.kind_ne_sink hop)⟩))
    obtain ⟨s, hs, hsid⟩ := List.mem_map.mp hmem
    obtain ⟨node', hnode', hid', hop', hinputs'⟩ := hstep s hs
    obtain rfl := List.inj_on_of_nodup_map hids hnode hnode' (hsid.symm.trans hid')
    refine List.mem_map.mpr ⟨s, hs, ?_⟩
    exact Prod.ext (hid'.trans hid.symm) (Prod.ext (Except.ok.inj (hop'.symm.trans hop))
      (hinputs'.trans hinputs.symm))

theorem map_named_nodup (h : p.toGraph connections = .ok g) : (g.steps.map g.named).Nodup := by
  refine List.Nodup.of_map Prod.fst ?_
  rw [List.map_map]
  exact (represents_of_toGraph h).ids_nodup

/-! ### The same in another order -/

/-- Two pipelines list the same nodes and the same edges. -/
structure Reordered (p p' : Pipeline) : Prop where
  nodes : p.nodes.Perm p'.nodes
  edges : p.edges.Perm p'.edges
  sink : p.sink = p'.sink
  policy : p.policy = p'.policy

namespace Reordered

variable (h : p.Reordered p')

include h

theorem symm : p'.Reordered p := ⟨h.nodes.symm, h.edges.symm, h.sink.symm, h.policy.symm⟩

theorem links_eq : p.Links = p'.Links := by
  funext start target
  exact propext h.edges.mem_iff

theorem sinkOf_eq : p.sinkOf = p'.sinkOf := by
  unfold sinkOf
  rw [h.sink]

theorem acceptable (hp : p.Acceptable connections) : p'.Acceptable connections where
  named node hnode := hp.named node (h.nodes.mem_iff.mpr hnode)
  ids := (h.nodes.map _).nodup_iff.mp hp.ids
  ends e he := by
    have hends := hp.ends e (h.edges.mem_iff.mpr he)
    simpa only [h.nodes.mem_iff] using hends
  edges := h.edges.nodup_iff.mp hp.edges
  acyclic := h.links_eq ▸ hp.acyclic
  sink := by
    obtain ⟨last, hlast, hkind, honly, hfeeds, hreaches⟩ := hp.sink
    refine ⟨last, h.nodes.mem_iff.mp hlast, hkind, ?_, ?_, ?_⟩
    · exact fun node hnode => honly node (h.nodes.mem_iff.mpr hnode)
    · exact fun e he => hfeeds e (h.edges.mem_iff.mpr he)
    · exact fun node hnode => h.links_eq ▸ hreaches node (h.nodes.mem_iff.mpr hnode)
  counts node hnode := by
    rw [← hp.counts node (h.nodes.mem_iff.mpr hnode)]
    exact (h.edges.countP_eq _).symm
  operations node hnode hkind := h.policy ▸ hp.operations node (h.nodes.mem_iff.mpr hnode) hkind
  sides node hnode hkind := h.links_eq ▸ hp.sides node (h.nodes.mem_iff.mpr hnode) hkind
  aliases := (h.nodes.filterMap _).nodup_iff.mp hp.aliases
  target := h.sinkOf_eq ▸ hp.target

/-- Only a join has more than one input, and its settings say which is which. -/
theorem inputIds_eq (hp : p.Acceptable connections) (hnode : node ∈ p.nodes) :
    p.inputIds node = p'.inputIds node := by
  by_cases hjoin : node.kind = .join
  · obtain ⟨c, hc, _⟩ := hp.sides node hnode hjoin
    rw [inputIds_join hjoin hc, inputIds_join hjoin hc]
  · rw [inputIds_plain hjoin, inputIds_plain hjoin]
    have hperm := h.edges.filter (·.target = node.id)
    have hcount : (p.edges.filter (·.target = node.id)).length ≤ 1 := by
      rw [← List.countP_eq_length_filter, hp.counts node hnode]
      cases hkind : node.kind <;> simp_all [NodeKind.inputCount]
    rcases Nat.le_one_iff_eq_zero_or_eq_one.mp hcount with hnone | hone
    · rw [List.length_eq_zero_iff.mp hnone] at hperm ⊢
      rw [List.nil_perm.mp hperm]
    · obtain ⟨e, he⟩ := List.length_eq_one_iff.mp hone
      rw [he] at hperm ⊢
      rw [List.singleton_perm.mp hperm]

theorem mem_map_named_iff (hg : p.toGraph connections = .ok g)
    (hg' : p'.toGraph connections = .ok g') (x : String × StepOp × List (Option String)) :
    x ∈ g.steps.map g.named ↔ x ∈ g'.steps.map g'.named := by
  rw [mem_map_named hg, mem_map_named hg']
  simp only [h.nodes.mem_iff, h.policy]
  refine exists_congr fun node => and_congr_right fun hnode => ?_
  rw [h.inputIds_eq (acceptable_of_toGraph hg) (h.nodes.mem_iff.mpr hnode)]

theorem output_eq (hg : p.toGraph connections = .ok g) (hg' : p'.toGraph connections = .ok g') :
    g.idAt? g.output = g'.idAt? g'.output := by
  obtain ⟨last, hlast, hkind, _, e, he, houtput⟩ := (represents_of_toGraph hg).output
  obtain ⟨last', _, _, honly', e', he', houtput'⟩ := (represents_of_toGraph hg').output
  obtain rfl := honly' last (h.nodes.mem_iff.mp hlast) hkind
  have hperm := h.edges.filter (·.target = last.id)
  rw [he, he'] at hperm
  rw [houtput, houtput', List.singleton_inj.mp (List.singleton_perm.mp hperm)]

end Reordered

end Pipeline

/-- Two graphs have the same steps by id, in whatever order, with the same output, target and
policy. -/
structure Graph.SameById (g g' : Graph) : Prop where
  steps : (g.steps.map g.named).Perm (g'.steps.map g'.named)
  output : g.idAt? g.output = g'.idAt? g'.output
  sink : g.sink = g'.sink
  policy : g.policy = g'.policy

namespace Pipeline

/-- Of two pipelines that list the same in another order, one has a graph just when the other has,
and then the graphs are the same by id. -/
theorem toGraph_reordered (h : p.Reordered p') (connections : List Connection) :
    ((∃ g, p.toGraph connections = .ok g) ↔ ∃ g', p'.toGraph connections = .ok g') ∧
      ∀ g g', p.toGraph connections = .ok g → p'.toGraph connections = .ok g' →
        g.SameById g' := by
  refine ⟨?_, fun g g' hg hg' => ?_⟩
  · rw [exists_toGraph_iff, exists_toGraph_iff]
    exact ⟨h.acceptable, h.symm.acceptable⟩
  · obtain ⟨_, _, _, -, -, -, -, -, -, -, -, htarget, hpolicy⟩ := toGraph_eq_ok.mp hg
    obtain ⟨_, _, _, -, -, -, -, -, -, -, -, htarget', hpolicy'⟩ := toGraph_eq_ok.mp hg'
    rw [h.sinkOf_eq] at htarget
    exact {
      steps := (List.perm_ext_iff_of_nodup (map_named_nodup hg) (map_named_nodup hg')).mpr
        (h.mem_map_named_iff hg hg')
      output := h.output_eq hg hg'
      sink := Except.ok.inj (htarget.symm.trans htarget')
      policy := hpolicy.symm.trans (h.policy.trans hpolicy') }

/-- The nodes and edges of `ordersOfPeople` from last to first. -/
def ordersOfPeopleReversed : Pipeline :=
  { ordersOfPeople with
    nodes := ordersOfPeople.nodes.reverse
    edges := ordersOfPeople.edges.reverse }

theorem ordersOfPeople_reordered : ordersOfPeople.Reordered ordersOfPeopleReversed where
  nodes := (List.reverse_perm _).symm
  edges := (List.reverse_perm _).symm
  sink := rfl
  policy := rfl

/-- The sources trade places, and the join still names its sides alike. -/
theorem toGraph_ordersOfPeopleReversed :
    ∃ g g', ordersOfPeople.toGraph [⟨"shop", .postgres, "", none, "", "", none, none, none⟩] =
        .ok g ∧
      ordersOfPeopleReversed.toGraph
        [⟨"shop", .postgres, "", none, "", "", none, none, none⟩] = .ok g' ∧
      g.steps.map (·.id) = ["people", "orders", "both"] ∧
      g'.steps.map (·.id) = ["orders", "people", "both"] ∧ g.SameById g' := by
  have hids : (ordersOfPeople.toGraph
      [⟨"shop", .postgres, "", none, "", "", none, none, none⟩]).toOption.map
        (fun g => g.steps.map (·.id)) = some ["people", "orders", "both"] := by
    decide +kernel
  have hids' : (ordersOfPeopleReversed.toGraph
      [⟨"shop", .postgres, "", none, "", "", none, none, none⟩]).toOption.map
        (fun g => g.steps.map (·.id)) = some ["orders", "people", "both"] := by
    decide +kernel
  obtain ⟨g, hg, hids⟩ := Option.map_eq_some_iff.mp hids
  obtain ⟨g', hg', hids'⟩ := Option.map_eq_some_iff.mp hids'
  have hg := Outcome.toOption_eq_some.mp hg
  have hg' := Outcome.toOption_eq_some.mp hg'
  exact ⟨g, g', hg, hg', hids, hids', (toGraph_reordered ordersOfPeople_reordered _).2 g g' hg hg'⟩

end Pipeline

end TablePipeline
