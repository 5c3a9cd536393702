import TablePipeline.Proofs.Graph.Checks

/-!
# Graphs of pipelines that pass their checks

A graph has one step for each node but the sink. The steps that feed a step come before it and are
those of the nodes that have an edge into its node; all of them lead to the step that feeds the
sink. A pipeline with a cycle has no graph.
-/

set_option autoImplicit false

namespace TablePipeline

variable {p : Pipeline} {connections : List Connection} {g : Graph} {edges : Graph.EdgeList}
  {sink : Nat} {order : List Nat}

namespace Pipeline

theorem lt_of_places (hplaces : List.Forall₂ p.Places p.edges edges) {x : Nat × Nat}
    (hx : x ∈ edges) : x.1 < p.nodes.length ∧ x.2 < p.nodes.length := by
  obtain ⟨e, _, hstart, htarget⟩ := exists_of_mem_places hplaces hx
  exact ⟨(lt_of_position? hstart).1, (lt_of_position? htarget).1⟩

theorem mem_stepNodes (hsink : ∀ i, p.nodes[i]?.map (·.kind) = some .sink ↔ i = sink)
    (hnodes : order.Perm (List.range p.nodes.length)) {n : Nat} :
    n ∈ p.stepNodes order ↔ n < p.nodes.length ∧ n ≠ sink := by
  rw [stepNodes, List.mem_filter, bne_iff_ne, hnodes.mem_iff, List.mem_range, ne_eq, hsink]

/-- A graph is given just when each check in turn succeeds. -/
theorem toGraph_eq_ok : p.toGraph connections = .ok g ↔
    ∃ edges sink order, checkIds [] p.nodes = .ok () ∧ p.checkEdges [] p.edges = .ok edges ∧
      p.sinkPosition = .ok sink ∧ Graph.topologicalOrder p.nodes.length edges = .ok order ∧
      checkInputs edges 0 p.nodes = .ok () ∧
      (∀ n < p.nodes.length, n ∈ Graph.leadingTo edges sink order) ∧
      p.buildSteps connections edges (p.stepNodes order) [] (p.stepNodes order) = .ok g.steps ∧
      (Graph.inputsOf edges sink).head?.bind (p.stepNodes order).idxOf? = some g.output ∧
      p.sinkOf = .ok g.sink ∧ p.policy = g.policy := by
  unfold toGraph
  constructor
  case mp =>
    intro h
    obtain ⟨_, hids, h⟩ := Outcome.bind_eq_ok.mp h
    obtain ⟨edges, hedges, h⟩ := Outcome.bind_eq_ok.mp h
    obtain ⟨sink, hsink, h⟩ := Outcome.bind_eq_ok.mp h
    obtain ⟨order, horder, h⟩ := Outcome.bind_eq_ok.mp h
    obtain ⟨_, hinputs, h⟩ := Outcome.bind_eq_ok.mp h
    dsimp only at h
    split at h
    · cases h
    rename_i hleading
    obtain ⟨steps, hsteps, h⟩ := Outcome.bind_eq_ok.mp h
    split at h
    case h_2 => cases h
    rename_i output houtput
    obtain ⟨_, hpure, h⟩ := Outcome.bind_eq_ok.mp h
    obtain rfl := Outcome.pure_eq_ok.mp hpure
    obtain ⟨target, htarget, h⟩ := Outcome.bind_eq_ok.mp h
    obtain rfl := Outcome.pure_eq_ok.mp h
    refine ⟨edges, sink, order, hids, hedges, hsink, Outcome.mapError_eq_ok.mp horder, hinputs,
      fun n hn => ?_, hsteps, houtput, htarget, rfl⟩
    simpa using List.find?_eq_none.mp hleading n (List.mem_range.mpr hn)
  case mpr =>
    rintro ⟨edges, sink, order, hids, hedges, hsink, horder, hinputs, hleading, hsteps, houtput,
      htarget, hpolicy⟩
    have hnone : (List.range p.nodes.length).find? (· ∉ Graph.leadingTo edges sink order) = none :=
      List.find?_eq_none.mpr fun n hn => by simpa using hleading n (List.mem_range.mp hn)
    simp only [hids, hedges, hsink, horder, hinputs, hnone, hsteps, houtput, htarget, hpolicy,
      Except.mapError, bind, Except.bind, pure, Except.pure]

/-- What the checks find out on the way to a graph: the edges between positions, the position of
the sink and an order of the nodes. -/
structure Passes (p : Pipeline) (g : Graph) (edges : Graph.EdgeList) (sink : Nat)
    (order : List Nat) : Prop where
  ids : (p.nodes.map (·.id)).Nodup
  places : List.Forall₂ p.Places p.edges edges
  loops : ∀ e ∈ edges, e.1 ≠ e.2
  sinkAt : ∀ i, p.nodes[i]?.map (·.kind) = some .sink ↔ i = sink
  nodes : order.Perm (List.range p.nodes.length)
  forward : order.Pairwise fun a b => (b, a) ∉ edges
  counts : ∀ n node, p.nodes[n]? = some node →
    (Graph.inputsOf edges n).length = node.kind.inputCount
  /-- The sink feeds nothing, so no input of a step is lost. -/
  found : ∀ n, ∀ m ∈ Graph.inputsOf edges n, m ∈ p.stepNodes order
  reaches : ∀ n < p.nodes.length, Relation.ReflTransGen edges.Links n sink
  steps : List.Forall₂ (fun n s => s.id = p.idAt n ∧
    p.Makes (p.stepNodes order) (Graph.inputsOf edges n) (p.nodes[n]?.getD default) s.op s.inputs)
    (p.stepNodes order) g.steps
  aliases : (g.steps.filterMap Step.alias?).Nodup
  output : ∃ n, Graph.inputsOf edges sink = [n] ∧ g.output = (p.stepNodes order).idxOf n

theorem exists_passes (h : p.toGraph connections = .ok g) :
    ∃ edges sink order, p.Passes g edges sink order := by
  obtain ⟨edges, sink, order, hids, hedges, hsink, horder, hinputs, hleading, hsteps, houtput, _⟩ :=
    toGraph_eq_ok.mp h
  obtain ⟨_, rfl, hplaces, hloops, _⟩ := (checkEdges_eq_ok List.nodup_nil).mp hedges
  have hsinkAt := sinkPosition_eq_ok.mp hsink
  obtain ⟨hnodes, hforward⟩ :=
    Graph.topologicalOrder_eq_ok (fun e he => (lt_of_places hplaces he).2) horder
  have hcounts (n : Nat) (node : Node) (hnode : p.nodes[n]? = some node) :
      (Graph.inputsOf edges n).length = node.kind.inputCount := by
    simpa using (checkInputs_eq_ok.mp hinputs n node hnode).1
  obtain ⟨last, hlast, hkind⟩ := Option.map_eq_some_iff.mp ((hsinkAt sink).mpr rfl)
  have hfound (n : Nat) : ∀ m ∈ Graph.inputsOf edges n, m ∈ p.stepNodes order := by
    intro m hm
    have he := Graph.mem_inputsOf.mp hm
    refine (mem_stepNodes hsinkAt hnodes).mpr ⟨(lt_of_places hplaces he).1, ?_⟩
    simpa using (checkInputs_eq_ok.mp hinputs sink last hlast).2 hkind _ he
  have hcountAt (n : Nat) (hn : n ∈ p.stepNodes order) :
      (Graph.inputsOf edges n).length = (p.nodes[n]?.getD default).kind.inputCount := by
    have hnode := List.getElem?_eq_getElem ((mem_stepNodes hsinkAt hnodes).mp hn).1
    rw [hnode]
    exact hcounts n _ hnode
  obtain ⟨hbuilt, haliases, _⟩ := buildSteps_eq_ok.mp hsteps
  have hmade := ((List.forall₂_and_left _ _).mpr ⟨fun _ hn => hn, hbuilt⟩).imp
    fun n _ ⟨hn, hid, hop⟩ => And.intro hid (stepOf_eq_ok (hfound n) (hcountAt n hn) hop)
  refine ⟨edges, sink, order, {
    ids := (checkIds_eq_ok.mp hids).1
    places := hplaces
    loops := hloops
    sinkAt := hsinkAt
    nodes := hnodes
    forward := hforward
    counts := hcounts
    found := hfound
    reaches := fun n hn => Graph.reaches_of_mem_leadingTo (hleading n hn)
    steps := hmade
    aliases := haliases
    output := ?_ }⟩
  obtain ⟨n, hn⟩ := List.length_eq_one_iff.mp
    ((hcounts sink last hlast).trans (congrArg NodeKind.inputCount hkind))
  refine ⟨n, hn, ?_⟩
  have hmem := hfound sink n (hn ▸ List.mem_singleton_self n)
  rw [hn, List.head?_cons, Option.bind_some, idxOf?_of_mem hmem] at houtput
  exact (Option.some.inj houtput).symm

end Pipeline

/-! ### What the graph is of -/

/-- A step at a place has the inputs that its kind needs, all of them at earlier places. -/
structure Step.Fed (s : Step) (place : Nat) : Prop where
  wellPosed : s.op.WellPosed
  count : s.inputs.length = s.op.kind.inputCount
  inputs : ∀ i ∈ s.inputs, i < place

namespace Graph

def idAt? (g : Graph) (i : Nat) : Option String := g.steps[i]?.map (·.id)

def Feeds (g : Graph) (i j : Nat) : Prop := ∃ s, g.steps[j]? = some s ∧ i ∈ s.inputs

/-- A step stands for a node of a pipeline. -/
structure StandsFor (g : Graph) (p : Pipeline) (i : Nat) (s : Step) (node : Node) : Prop where
  id : s.id = node.id
  kind : s.op.kind = node.kind
  earlier : ∀ j ∈ s.inputs, j < i
  source : node.kind = .source → s.inputs = []
  single : node.kind ≠ .source → node.kind ≠ .join → ∃ j, s.inputs = [j]
  /-- The steps that feed it are those of the starts of the edges into the node. -/
  inputs : (s.inputs.map g.idAt?).Perm
    (((p.edges.filter (·.target = node.id)).map (·.start)).map some)
  /-- The inputs of a join are its left and its right side. -/
  sides : node.kind = .join → ∃ c left right, NodeConfig.joinSides node = .ok c ∧
    s.inputs = [left, right] ∧ left ≠ right ∧
    g.idAt? left = some c.left ∧ g.idAt? right = some c.right

/-- A graph says what a pipeline says. -/
structure Represents (g : Graph) (p : Pipeline) : Prop where
  ids_nodup : (g.steps.map (·.id)).Nodup
  ids_perm : (g.steps.map (·.id)).Perm ((p.nodes.filter (·.kind ≠ .sink)).map (·.id))
  steps : ∀ i s, g.steps[i]? = some s → ∃ node ∈ p.nodes, g.StandsFor p i s node
  /-- The output is the step of the only node with an edge into the only sink. -/
  output : ∃ sink ∈ p.nodes, sink.kind = .sink ∧
    (∀ node ∈ p.nodes, node.kind = .sink → node = sink) ∧
    ∃ e, p.edges.filter (·.target = sink.id) = [e] ∧ g.idAt? g.output = some e.start
  reaches : ∀ i < g.steps.length, Relation.ReflTransGen g.Feeds i g.output
  aliases : (g.steps.filterMap Step.alias?).Nodup

end Graph

namespace Pipeline

def Links (p : Pipeline) (start target : String) : Prop := ⟨start, target⟩ ∈ p.edges

namespace Passes

variable (h : p.Passes g edges sink order)

include h

theorem mem_stepNodes {n : Nat} : n ∈ p.stepNodes order ↔ n < p.nodes.length ∧ n ≠ sink :=
  Pipeline.mem_stepNodes h.sinkAt h.nodes

theorem stepNodes_nodup : (p.stepNodes order).Nodup :=
  (h.nodes.nodup_iff.mpr List.nodup_range).filter _

theorem exists_step {n : Nat} (hn : n ∈ p.stepNodes order) :
    ∃ s, g.steps[(p.stepNodes order).idxOf n]? = some s ∧ s.id = p.idAt n ∧
      p.Makes (p.stepNodes order) (Graph.inputsOf edges n) (p.nodes[n]?.getD default)
        s.op s.inputs := by
  have hlt := List.idxOf_lt_length_of_mem hn
  have hlt' : (p.stepNodes order).idxOf n < g.steps.length := h.steps.length_eq ▸ hlt
  have hmade := h.steps.get hlt hlt'
  simp only [List.get_eq_getElem, List.getElem_idxOf] at hmade
  exact ⟨_, List.getElem?_eq_getElem hlt', hmade⟩

theorem exists_node {i : Nat} {s : Step} (hs : g.steps[i]? = some s) :
    ∃ n ∈ p.stepNodes order, (p.stepNodes order).idxOf n = i := by
  obtain ⟨hi, _⟩ := List.getElem?_eq_some_iff.mp hs
  have hlt : i < (p.stepNodes order).length := h.steps.length_eq ▸ hi
  exact ⟨_, List.getElem_mem hlt, h.stepNodes_nodup.idxOf_getElem i hlt⟩

theorem idAt?_idxOf {n : Nat} (hn : n ∈ p.stepNodes order) :
    g.idAt? ((p.stepNodes order).idxOf n) = some (p.idAt n) := by
  obtain ⟨s, hs, hid, _⟩ := h.exists_step hn
  rw [Graph.idAt?, hs, Option.map_some, hid]

/-- The inputs of a step are those of its node, each of them once. -/
theorem inputs_map_idAt? {ns inputs : List Nat} {n : Nat} (hns : ns.Perm (Graph.inputsOf edges n))
    (hinputs : inputs = ns.map (p.stepNodes order).idxOf) :
    inputs.map g.idAt? = ns.map fun m => some (p.idAt m) := by
  rw [hinputs, List.map_map]
  exact List.map_congr_left fun m hm => h.idAt?_idxOf (h.found n m (hns.mem_iff.mp hm))

theorem fed {i : Nat} {s : Step} (hs : g.steps[i]? = some s) : s.Fed i := by
  obtain ⟨n, hn, rfl⟩ := h.exists_node hs
  obtain ⟨_, hs', _, hmade⟩ := h.exists_step hn
  obtain rfl := Option.some.inj (hs.symm.trans hs')
  have hnode := List.getElem?_eq_getElem (h.mem_stepNodes.mp hn).1
  rw [hnode, Option.getD_some] at hmade
  obtain ⟨ns, hns, hinputs⟩ := hmade.fed
  refine ⟨hmade.wellPosed, ?_, fun j hj => ?_⟩
  · rw [hinputs, List.length_map, hns.length_eq, h.counts n _ hnode, hmade.kind]
  · rw [hinputs] at hj
    obtain ⟨m, hm, rfl⟩ := List.mem_map.mp hj
    have he := Graph.mem_inputsOf.mp (hns.mem_iff.mp hm)
    exact Graph.idxOf_lt_of_edge (h.forward.sublist List.filter_sublist) h.loops he
      (h.found n m (Graph.mem_inputsOf.mpr he)) hn

theorem standsFor {n : Nat} (hn : n ∈ p.stepNodes order) {s : Step}
    (hs : g.steps[(p.stepNodes order).idxOf n]? = some s) :
    ∃ node ∈ p.nodes, g.StandsFor p ((p.stepNodes order).idxOf n) s node := by
  obtain ⟨_, hs', hid, hmade⟩ := h.exists_step hn
  obtain rfl := Option.some.inj (hs.symm.trans hs')
  have hlt := (h.mem_stepNodes.mp hn).1
  have hnode := List.getElem?_eq_getElem hlt
  rw [hnode, Option.getD_some] at hmade
  have hid' : p.idAt n = p.nodes[n].id := idAt_eq hnode
  obtain ⟨ns, hns, hinputs⟩ := hmade.fed
  have hlength : s.inputs.length = p.nodes[n].kind.inputCount :=
    (h.fed hs).count.trans (congrArg NodeKind.inputCount hmade.kind)
  refine ⟨p.nodes[n], List.getElem_mem hlt, {
    id := hid.trans hid'
    kind := hmade.kind
    earlier := (h.fed hs).inputs
    source := fun hkind => ?source
    single := fun hsource hjoin => ?single
    inputs := ?inputs
    sides := fun hkind => ?sides }⟩
  case source =>
    rw [hkind] at hlength
    exact List.length_eq_zero_iff.mp hlength
  case single =>
    have hsink : p.nodes[n].kind ≠ .sink := by
      intro hkind
      refine (h.mem_stepNodes.mp hn).2 ((h.sinkAt n).mp ?_)
      rw [hnode, Option.map_some, hkind]
    refine List.length_eq_one_iff.mp (hlength.trans ?_)
    cases hkind : p.nodes[n].kind <;> simp_all [NodeKind.inputCount]
  case inputs =>
    rw [h.inputs_map_idAt? hns hinputs, ← hid', starts_eq_inputsOf h.ids h.places hlt,
      List.map_map]
    exact hns.map _
  case sides =>
    obtain ⟨c, l, r, hc, hl, hr, hlin, hrin, hsteps, hne⟩ := hmade.sides hkind
    refine ⟨c, _, _, hc, hsteps, hne, ?_, ?_⟩
    · rw [h.idAt?_idxOf (h.found n l hlin), (lt_of_position? hl).2]
    · rw [h.idAt?_idxOf (h.found n r hrin), (lt_of_position? hr).2]

/-- What leads to the sink has a step that leads to the output. -/
theorem reaches_output {n : Nat} (hreach : Relation.ReflTransGen edges.Links n sink)
    (hn : n ≠ sink) :
    Relation.ReflTransGen g.Feeds ((p.stepNodes order).idxOf n) g.output := by
  induction hreach using Relation.ReflTransGen.head_induction_on with
  | refl => exact (hn rfl).elim
  | @head a b he _ ih =>
    by_cases hb : b = sink
    · obtain ⟨m, hm, houtput⟩ := h.output
      have ha : a ∈ Graph.inputsOf edges sink := Graph.mem_inputsOf.mpr (hb ▸ he)
      rw [hm, List.mem_singleton] at ha
      rw [ha, houtput]
    · have hbmem : b ∈ p.stepNodes order :=
        h.mem_stepNodes.mpr ⟨(lt_of_places h.places he).2, hb⟩
      obtain ⟨s, hs, _, hmade⟩ := h.exists_step hbmem
      obtain ⟨ns, hns, hinputs⟩ := hmade.fed
      refine .head ⟨s, hs, ?_⟩ (ih hb)
      rw [hinputs]
      exact List.mem_map_of_mem (hns.mem_iff.mpr (Graph.mem_inputsOf.mpr he))

theorem idxOf_lt_of_links {start target : String} (he : p.Links start target) :
    ∃ m n, p.position? start = some m ∧ p.position? target = some n ∧
      order.idxOf m < order.idxOf n := by
  obtain ⟨i, hi, hedge⟩ := List.mem_iff_getElem.mp he
  have hi' : i < edges.length := h.places.length_eq ▸ hi
  have hplaces := h.places.get hi hi'
  simp only [List.get_eq_getElem, hedge] at hplaces
  obtain ⟨hstart, htarget⟩ := hplaces
  refine ⟨_, _, hstart, htarget, ?_⟩
  have hmem (n : Nat) (hn : n < p.nodes.length) : n ∈ order :=
    h.nodes.mem_iff.mpr (List.mem_range.mpr hn)
  exact Graph.idxOf_lt_of_edge h.forward h.loops (List.getElem_mem hi')
    (hmem _ (lt_of_position? hstart).1) (hmem _ (lt_of_position? htarget).1)

theorem acyclic (id : String) : ¬ Relation.TransGen p.Links id id := by
  have hlt {start target : String} (hlinks : Relation.TransGen p.Links start target) :
      ∃ m n, p.position? start = some m ∧ p.position? target = some n ∧
        order.idxOf m < order.idxOf n := by
    induction hlinks with
    | single he => exact h.idxOf_lt_of_links he
    | tail _ he ih =>
      obtain ⟨m, k, hm, hk, hmk⟩ := ih
      obtain ⟨k', n, hk', hn, hkn⟩ := h.idxOf_lt_of_links he
      obtain rfl := Option.some.inj (hk.symm.trans hk')
      exact ⟨m, n, hm, hn, Nat.lt_trans hmk hkn⟩
  intro hcycle
  obtain ⟨m, n, hm, hn, hmn⟩ := hlt hcycle
  obtain rfl := Option.some.inj (hm.symm.trans hn)
  exact Nat.lt_irrefl _ hmn

theorem ids_perm :
    (g.steps.map (·.id)).Perm ((p.nodes.filter (·.kind ≠ .sink)).map (·.id)) := by
  have hids : g.steps.map (·.id) = (p.stepNodes order).map p.idAt := by
    refine List.ext_getElem (by simp [h.steps.length_eq]) fun i hi hi' => ?_
    rw [List.length_map] at hi hi'
    rw [List.getElem_map, List.getElem_map]
    exact (h.steps.get hi' hi).1
  have hnodes : p.nodes = (List.range p.nodes.length).map fun i => p.nodes[i]?.getD default :=
    List.ext_getElem (by simp) fun i hi _ => by simp [hi]
  rw [hids]
  refine ((h.nodes.filter _).map p.idAt).trans (.of_eq ?_)
  conv_rhs => rw [hnodes, List.filter_map, List.map_map]
  refine congrArg _ (List.filter_congr fun i hi => ?_)
  have hlt := List.mem_range.mp hi
  simp [hlt, bne, beq_eq_decide]

theorem output_represents : ∃ last ∈ p.nodes, last.kind = .sink ∧
    (∀ node ∈ p.nodes, node.kind = .sink → node = last) ∧
    ∃ e, p.edges.filter (·.target = last.id) = [e] ∧ g.idAt? g.output = some e.start := by
  obtain ⟨last, hlast, hkind⟩ := Option.map_eq_some_iff.mp ((h.sinkAt sink).mpr rfl)
  obtain ⟨hlt, hget⟩ := List.getElem?_eq_some_iff.mp hlast
  refine ⟨last, List.mem_of_getElem? hlast, hkind, fun node hnode hnkind => ?_, ?_⟩
  · obtain ⟨i, hi⟩ := List.mem_iff_getElem?.mp hnode
    obtain rfl := (h.sinkAt i).mp (by rw [hi, Option.map_some, hnkind])
    exact Option.some.inj (hi.symm.trans hlast)
  · obtain ⟨n, hn, houtput⟩ := h.output
    have hstarts := starts_eq_inputsOf h.ids h.places hlt
    rw [hn, idAt_eq hlast] at hstarts
    obtain ⟨e, he, hstart⟩ := List.map_eq_singleton_iff.mp hstarts
    refine ⟨e, he, ?_⟩
    rw [houtput, h.idAt?_idxOf (h.found sink n (hn ▸ List.mem_singleton_self n)), hstart]

theorem output_lt : g.output < g.steps.length := by
  obtain ⟨n, hn, houtput⟩ := h.output
  rw [houtput, ← h.steps.length_eq]
  exact List.idxOf_lt_length_of_mem (h.found sink n (hn ▸ List.mem_singleton_self n))

theorem represents : g.Represents p where
  ids_nodup := h.ids_perm.nodup_iff.mpr (h.ids.sublist (List.filter_sublist.map _))
  ids_perm := h.ids_perm
  steps := by
    intro i s hs
    obtain ⟨n, hn, rfl⟩ := h.exists_node hs
    exact h.standsFor hn hs
  output := h.output_represents
  reaches := by
    intro i hi
    obtain ⟨n, hn, rfl⟩ := h.exists_node (List.getElem?_eq_getElem hi)
    obtain ⟨hlt, hne⟩ := h.mem_stepNodes.mp hn
    exact h.reaches_output (h.reaches n hlt) hne
  aliases := h.aliases

end Passes

theorem represents_of_toGraph (h : p.toGraph connections = .ok g) : g.Represents p := by
  obtain ⟨_, _, _, hpasses⟩ := exists_passes h
  exact hpasses.represents

theorem acyclic_of_toGraph (h : p.toGraph connections = .ok g) (id : String) :
    ¬ Relation.TransGen p.Links id id := by
  obtain ⟨_, _, _, hpasses⟩ := exists_passes h
  exact hpasses.acyclic id

/-- A pipeline that passes its checks has no cycle, and its graph says what it says. -/
theorem toGraph_represents (h : p.toGraph connections = .ok g) :
    g.Represents p ∧ ∀ id, ¬ Relation.TransGen p.Links id id :=
  ⟨represents_of_toGraph h, acyclic_of_toGraph h⟩

/-- A join that names its sides against the order of the edges. -/
def ordersOfPeople : Pipeline where
  nodes := [
    ⟨"people", .source, .object [("connection", .text "shop"), ("table", .text "people")]⟩,
    ⟨"orders", .source, .object [("connection", .text "shop"), ("table", .text "orders")]⟩,
    ⟨"both", .join, .object [("left", .text "orders"), ("right", .text "people"),
      ("leftColumn", .text "orders.person"), ("rightColumn", .text "people.id")]⟩,
    ⟨"out", .sink, .object []⟩]
  edges := [⟨"people", "both"⟩, ⟨"orders", "both"⟩, ⟨"both", "out"⟩]
  sink := ⟨"result", [], .append⟩
  policy := .nullOut

theorem ordersOfPeople_represented :
    ∃ g, ordersOfPeople.toGraph [⟨"shop", .postgres, "", none, "", "", none, none, none⟩] = .ok g ∧
      g.steps.map (·.inputs) = [[], [], [1, 0]] ∧ g.Represents ordersOfPeople ∧
      ∀ id, ¬ Relation.TransGen ordersOfPeople.Links id id := by
  have hinputs : (ordersOfPeople.toGraph
      [⟨"shop", .postgres, "", none, "", "", none, none, none⟩]).toOption.map
        (fun g => g.steps.map (·.inputs)) = some [[], [], [1, 0]] := by
    decide +kernel
  obtain ⟨g, hg, hinputs⟩ := Option.map_eq_some_iff.mp hinputs
  have hg := Outcome.toOption_eq_some.mp hg
  exact ⟨g, hg, hinputs, toGraph_represents hg⟩

end Pipeline

end TablePipeline
