import TablePipeline.Proofs.Graph.WellFormed

/-!
# Pipelines that are accepted

A pipeline has a graph just when it meets conditions on its nodes and on the ids that its edges
name. None of them depends on the order in which nodes and edges are listed.
-/

set_option autoImplicit false

namespace TablePipeline

variable {p : Pipeline} {connections : List Connection} {g : Graph} {edges : Graph.EdgeList}
  {sink : Nat} {order : List Nat} {node : Node} {op : StepOp}

namespace NodeConfig

def alias? (connections : List Connection) (node : Node) : Option String :=
  if node.kind = .source then (sourceTable connections node).toOption.map (·.aliasName) else none

variable {policy : RowPolicy}

theorem kind_ne_sink (h : operation connections policy node = .ok op) : node.kind ≠ .sink := by
  intro hkind
  rw [operation, hkind] at h
  cases h

theorem sourceTable_of_operation {t : SourceTable}
    (h : operation connections policy node = .ok (.source t)) :
    sourceTable connections node = .ok t := by
  have hsource : node.kind = .source := (operation_wellPosed h).1.symm
  rw [operation, hsource] at h
  obtain ⟨_, ht, h⟩ := Outcome.bind_eq_ok.mp h
  obtain rfl := StepOp.source.inj (Outcome.pure_eq_ok.mp h)
  exact ht

theorem alias?_eq {s : Step} (h : operation connections policy node = .ok s.op) :
    s.alias? = alias? connections node := by
  have hkind := (operation_wellPosed h).1
  unfold alias? Step.alias?
  split
  · rename_i t ht
    have hsource : node.kind = .source := by rw [← hkind, ht]; rfl
    rw [ht] at h
    rw [if_pos hsource, sourceTable_of_operation h]
    rfl
  · rename_i hother
    rw [if_neg]
    intro hsource
    rw [hsource] at hkind
    cases hop : s.op with
    | source t => exact hother t hop
    | _ => rw [hop] at hkind; cases hkind

end NodeConfig

namespace Pipeline

theorem exists_position? {id : String} (h : ∃ node ∈ p.nodes, node.id = id) :
    ∃ n, p.position? id = some n := by
  obtain ⟨node, hnode, rfl⟩ := h
  refine Option.isSome_iff_exists.mp ?_
  rw [position?, List.findIdx?_isSome, List.any_eq_true]
  exact ⟨node, hnode, beq_self_eq_true _⟩

/-! ### Steps -/

/-- Two different inputs of a join are the sides that its settings name. -/
def HasSides (p : Pipeline) (inputs : List Nat) (node : Node) : Prop :=
  ∃ c l r, NodeConfig.joinSides node = .ok c ∧ p.position? c.left = some l ∧
    p.position? c.right = some r ∧ l ∈ inputs ∧ r ∈ inputs ∧ l ≠ r

theorem operation_of_stepOf {places inputs steps : List Nat}
    (h : p.stepOf connections places inputs node = .ok (op, steps)) :
    NodeConfig.operation connections p.policy node = .ok op ∧
      (node.kind = .join → p.HasSides inputs node) := by
  by_cases hkind : node.kind = .join
  · obtain ⟨c, rule, l, r, i, j, hc, hrule, ⟨hl, hlin, hi⟩, ⟨hr, hrin, hj⟩, hne, rfl, -⟩ :=
      (stepOf_join_eq_ok hkind).mp h
    refine ⟨(NodeConfig.operation_join_eq_ok hkind).mpr ⟨c, rule, hc, hrule, rfl⟩, fun _ => ?_⟩
    refine ⟨c, l, r, hc, hl, hr, hlin, hrin, ?_⟩
    rintro rfl
    exact hne (Option.some.inj (hi.symm.trans hj))
  · rw [stepOf_plain hkind] at h
    obtain ⟨_, hop, heq⟩ := Outcome.map_eq_ok.mp h
    obtain rfl := (Prod.mk.inj heq).1
    exact ⟨hop, fun h => (hkind h).elim⟩

theorem exists_stepOf {places inputs : List Nat} (hfound : ∀ m ∈ inputs, m ∈ places)
    (hop : NodeConfig.operation connections p.policy node = .ok op)
    (hsides : node.kind = .join → p.HasSides inputs node) :
    ∃ steps, p.stepOf connections places inputs node = .ok (op, steps) := by
  by_cases hkind : node.kind = .join
  · obtain ⟨c, l, r, hc, hl, hr, hlin, hrin, hne⟩ := hsides hkind
    obtain ⟨_, rule, hc', hrule, rfl⟩ := (NodeConfig.operation_join_eq_ok hkind).mp hop
    obtain rfl := Except.ok.inj (hc.symm.trans hc')
    have hplaces : places.idxOf l ≠ places.idxOf r := fun heq =>
      hne ((List.idxOf_inj (hfound l hlin)).mp heq)
    exact ⟨_, (stepOf_join_eq_ok hkind).mpr ⟨c, rule, l, r, _, _, hc, hrule,
      ⟨hl, hlin, idxOf?_of_mem (hfound l hlin)⟩, ⟨hr, hrin, idxOf?_of_mem (hfound r hrin)⟩,
      hplaces, rfl, rfl⟩⟩
  · rw [stepOf_plain hkind, hop]
    exact ⟨_, rfl⟩

def nodeAt (p : Pipeline) (n : Nat) : Node := p.nodes[n]?.getD default

theorem map_nodeAt : (List.range p.nodes.length).map p.nodeAt = p.nodes :=
  List.ext_getElem (by simp) fun i _ hi => by simp [nodeAt, hi]

theorem nodeAt_mem {n : Nat} (hn : n < p.nodes.length) : p.nodeAt n ∈ p.nodes := by
  rw [nodeAt, List.getElem?_eq_getElem hn]
  exact List.getElem_mem hn

theorem exists_nodeAt (h : node ∈ p.nodes) : ∃ n < p.nodes.length, p.nodeAt n = node := by
  obtain ⟨n, hn, rfl⟩ := List.mem_iff_getElem.mp h
  exact ⟨n, hn, by rw [nodeAt, List.getElem?_eq_getElem hn, Option.getD_some]⟩

theorem kind_nodeAt {n : Nat} (hn : n < p.nodes.length) :
    p.nodes[n]?.map (·.kind) = some (p.nodeAt n).kind := by
  rw [nodeAt, List.getElem?_eq_getElem hn, Option.map_some, Option.getD_some]

/-- The sources among the steps are those among the nodes. -/
theorem aliases_perm (hnodes : order.Perm (List.range p.nodes.length)) :
    ((p.stepNodes order).filterMap fun n => NodeConfig.alias? connections (p.nodeAt n)).Perm
      (p.nodes.filterMap (NodeConfig.alias? connections)) := by
  have hsinks : (p.stepNodes order).filterMap
      (fun n => NodeConfig.alias? connections (p.nodeAt n)) =
        order.filterMap fun n => NodeConfig.alias? connections (p.nodeAt n) := by
    rw [stepNodes, List.filterMap_filter]
    refine List.filterMap_congr fun n _ => ?_
    split
    · rfl
    · rename_i hkind
      obtain ⟨node, hnode, hkind⟩ := Option.map_eq_some_iff.mp (by simpa using hkind)
      rw [nodeAt, hnode, Option.getD_some, NodeConfig.alias?, if_neg (by simp [hkind])]
  rw [hsinks]
  refine (hnodes.filterMap _).trans (.of_eq ?_)
  conv_rhs => rw [← map_nodeAt, List.filterMap_map]
  rfl

theorem filterMap_alias? {places : List Nat} {steps : List Step} (h : List.Forall₂ (fun n s =>
    NodeConfig.operation connections p.policy (p.nodeAt n) = .ok s.op) places steps) :
    steps.filterMap Step.alias? =
      places.filterMap fun n => NodeConfig.alias? connections (p.nodeAt n) := by
  induction h with
  | nil => rfl
  | cons hop _ ih => rw [List.filterMap_cons, List.filterMap_cons, NodeConfig.alias?_eq hop, ih]

/-! ### Edges between positions and between ids -/

theorem biUnique_places : Relator.BiUnique p.Places :=
  ⟨fun _ _ _ => Places.inj, fun _ _ _ h h' =>
    Prod.ext (Option.some.inj (h.1.symm.trans h'.1)) (Option.some.inj (h.2.symm.trans h'.2))⟩

section

variable (hids : (p.nodes.map (·.id)).Nodup) (hplaces : List.Forall₂ p.Places p.edges edges)

include hplaces

theorem links_of_mem_edges {m n : Nat} (he : (m, n) ∈ edges) :
    p.Links (p.idAt m) (p.idAt n) := by
  obtain ⟨e, hmem, hstart, htarget⟩ := exists_of_mem_places hplaces he
  rw [(lt_of_position? hstart).2, (lt_of_position? htarget).2]
  exact hmem

theorem reaches_ids {m n : Nat} (h : Relation.ReflTransGen edges.Links m n) :
    Relation.ReflTransGen p.Links (p.idAt m) (p.idAt n) :=
  h.lift p.idAt fun _ _ he => links_of_mem_edges hplaces he

theorem acyclic_positions (h : ∀ id, ¬ Relation.TransGen p.Links id id) (n : Nat) :
    ¬ Relation.TransGen edges.Links n n := fun hn =>
  h _ (hn.lift p.idAt fun _ _ he => links_of_mem_edges hplaces he)

theorem ends_known {e : Edge} (he : e ∈ p.edges) :
    (∃ node ∈ p.nodes, node.id = e.start) ∧ ∃ node ∈ p.nodes, node.id = e.target := by
  obtain ⟨x, _, hstart, htarget⟩ := Outcome.exists_of_forall₂ hplaces he
  obtain ⟨hm, hstart⟩ := lt_of_position? hstart
  obtain ⟨hn, htarget⟩ := lt_of_position? htarget
  exact ⟨⟨p.nodeAt x.1, nodeAt_mem hm, hstart⟩, ⟨p.nodeAt x.2, nodeAt_mem hn, htarget⟩⟩

theorem links_of_hasSides {n : Nat} (hid : p.idAt n = node.id)
    (h : p.HasSides (Graph.inputsOf edges n) node) : ∃ c, NodeConfig.joinSides node = .ok c ∧
      c.left ≠ c.right ∧ p.Links c.left node.id ∧ p.Links c.right node.id := by
  obtain ⟨c, l, r, hc, hl, hr, hlin, hrin, hne⟩ := h
  refine ⟨c, hc, fun heq => hne (Option.some.inj (hl.symm.trans (heq ▸ hr))), ?_, ?_⟩
  · rw [← (lt_of_position? hl).2, ← hid]
    exact links_of_mem_edges hplaces (Graph.mem_inputsOf.mp hlin)
  · rw [← (lt_of_position? hr).2, ← hid]
    exact links_of_mem_edges hplaces (Graph.mem_inputsOf.mp hrin)

include hids

theorem reaches_positions {id : String} {n : Nat} (hn : n < p.nodes.length)
    (h : Relation.ReflTransGen p.Links id (p.idAt n)) {m : Nat} (hm : m < p.nodes.length)
    (hid : p.idAt m = id) : Relation.ReflTransGen edges.Links m n := by
  induction h using Relation.ReflTransGen.head_induction_on generalizing m with
  | refl => rw [idAt_inj hids hm hn hid]
  | head he _ ih =>
    obtain ⟨⟨k, l⟩, hmem, hstart, htarget⟩ := Outcome.exists_of_forall₂ hplaces he
    obtain ⟨hk, hstart⟩ := lt_of_position? hstart
    obtain ⟨hl, htarget⟩ := lt_of_position? htarget
    obtain rfl := idAt_inj hids hk hm (hstart.trans hid.symm)
    exact .head hmem (ih hl htarget)

theorem length_inputsOf {n : Nat} (hn : n < p.nodes.length) :
    (Graph.inputsOf edges n).length = p.edges.countP (·.target = p.idAt n) := by
  rw [List.countP_eq_length_filter, ← List.length_map (f := p.idAt),
    ← starts_eq_inputsOf hids hplaces hn, List.length_map]

theorem exists_last (hsinkAt : ∀ i, p.nodes[i]?.map (·.kind) = some .sink ↔ i = sink)
    (hlt : sink < p.nodes.length) (hfeeds : ∀ e ∈ edges, e.1 ≠ sink)
    (hreaches : ∀ n < p.nodes.length, Relation.ReflTransGen edges.Links n sink) :
    ∃ last ∈ p.nodes, last.kind = .sink ∧
      (∀ node ∈ p.nodes, node.kind = .sink → node = last) ∧
      (∀ e ∈ p.edges, e.start ≠ last.id) ∧
      ∀ node ∈ p.nodes, Relation.ReflTransGen p.Links node.id last.id := by
  have hid : p.idAt sink = (p.nodeAt sink).id := rfl
  have hkind := (hsinkAt sink).mpr rfl
  rw [kind_nodeAt hlt] at hkind
  refine ⟨p.nodeAt sink, nodeAt_mem hlt, Option.some.inj hkind, fun node hnode hnkind => ?_, ?_, ?_⟩
  · obtain ⟨n, hn, rfl⟩ := exists_nodeAt hnode
    rw [(hsinkAt n).mp (by rw [kind_nodeAt hn, hnkind])]
  · intro e he heq
    obtain ⟨x, hx, hstart, _⟩ := Outcome.exists_of_forall₂ hplaces he
    obtain ⟨hm, hstart⟩ := lt_of_position? hstart
    exact hfeeds x hx (idAt_inj hids hm hlt (hstart.trans (heq.trans hid.symm)))
  · intro node hnode
    obtain ⟨n, hn, rfl⟩ := exists_nodeAt hnode
    exact reaches_ids hplaces (hreaches n hn)

end

/-! ### The conditions -/

/-- What a pipeline must be to have a graph. -/
structure Acceptable (p : Pipeline) (connections : List Connection) : Prop where
  named : ∀ node ∈ p.nodes, Text.isBlankText node.id = false
  ids : (p.nodes.map (·.id)).Nodup
  ends : ∀ e ∈ p.edges,
    (∃ node ∈ p.nodes, node.id = e.start) ∧ ∃ node ∈ p.nodes, node.id = e.target
  edges : p.edges.Nodup
  acyclic : ∀ id, ¬ Relation.TransGen p.Links id id
  sink : ∃ last ∈ p.nodes, last.kind = .sink ∧
    (∀ node ∈ p.nodes, node.kind = .sink → node = last) ∧ (∀ e ∈ p.edges, e.start ≠ last.id) ∧
    ∀ node ∈ p.nodes, Relation.ReflTransGen p.Links node.id last.id
  counts : ∀ node ∈ p.nodes, p.edges.countP (·.target = node.id) = node.kind.inputCount
  operations : ∀ node ∈ p.nodes, node.kind ≠ .sink →
    ∃ op, NodeConfig.operation connections p.policy node = .ok op
  sides : ∀ node ∈ p.nodes, node.kind = .join → ∃ c, NodeConfig.joinSides node = .ok c ∧
    c.left ≠ c.right ∧ p.Links c.left node.id ∧ p.Links c.right node.id
  aliases : (p.nodes.filterMap (NodeConfig.alias? connections)).Nodup
  target : ∃ s, p.sinkOf = .ok s

theorem acceptable_of_toGraph (h : p.toGraph connections = .ok g) :
    p.Acceptable connections := by
  obtain ⟨edges, sink, order, hids, hedges, hsink, horder, hinputs, hleading, hsteps, -, htarget,
    -⟩ := toGraph_eq_ok.mp h
  obtain ⟨hids, hnamed⟩ := checkIds_eq_ok.mp hids
  obtain ⟨_, rfl, hplaces, -, hnodup⟩ := (checkEdges_eq_ok List.nodup_nil).mp hedges
  have hsinkAt := sinkPosition_eq_ok.mp hsink
  obtain ⟨hnodes, -⟩ :=
    Graph.topologicalOrder_eq_ok (fun e he => (lt_of_places hplaces he).2) horder
  obtain ⟨hbuilt, haliases, -⟩ := buildSteps_eq_ok.mp hsteps
  have hstep {n : Nat} (hn : n < p.nodes.length) (hkind : (p.nodeAt n).kind ≠ .sink) :
      ∃ op, NodeConfig.operation connections p.policy (p.nodeAt n) = .ok op ∧
        ((p.nodeAt n).kind = .join → p.HasSides (Graph.inputsOf edges n) (p.nodeAt n)) := by
    have hne : n ≠ sink := fun heq => by
      have hsink := (hsinkAt n).mpr heq
      rw [kind_nodeAt hn] at hsink
      exact hkind (Option.some.inj hsink)
    obtain ⟨s, _, _, hs⟩ := Outcome.exists_of_forall₂ hbuilt
      ((mem_stepNodes hsinkAt hnodes).mpr ⟨hn, hne⟩)
    exact ⟨s.op, operation_of_stepOf hs⟩
  have hchecked (n : Nat) (hn : n < p.nodes.length) :
      (Graph.inputsOf edges n).length = (p.nodeAt n).kind.inputCount ∧
        ((p.nodeAt n).kind = .sink → ∀ e ∈ edges, e.1 ≠ n) := by
    have hnode : p.nodes[n]? = some (p.nodeAt n) := by
      rw [nodeAt, List.getElem?_eq_getElem hn, Option.getD_some]
    simpa only [Nat.zero_add] using checkInputs_eq_ok.mp hinputs n (p.nodeAt n) hnode
  constructor
  case named => exact fun node hnode => (hnamed node hnode).1
  case ids => exact hids
  case ends => exact fun e he => ends_known hplaces he
  case edges => exact (List.rel_nodup biUnique_places hplaces).mpr hnodup
  case acyclic => exact acyclic_of_toGraph h
  case sink =>
    obtain ⟨last, hlast, hkind⟩ := Option.map_eq_some_iff.mp ((hsinkAt sink).mpr rfl)
    have hlt := (List.getElem?_eq_some_iff.mp hlast).1
    have hkindAt : (p.nodeAt sink).kind = .sink := by rw [nodeAt, hlast, Option.getD_some, hkind]
    exact exists_last hids hplaces hsinkAt hlt ((hchecked sink hlt).2 hkindAt)
      fun n hn => Graph.reaches_of_mem_leadingTo (hleading n hn)
  case counts =>
    intro node hnode
    obtain ⟨n, hn, rfl⟩ := exists_nodeAt hnode
    exact (length_inputsOf hids hplaces hn).symm.trans (hchecked n hn).1
  case operations =>
    intro node hnode hkind
    obtain ⟨n, hn, rfl⟩ := exists_nodeAt hnode
    exact (hstep hn hkind).imp fun _ hop => hop.1
  case sides =>
    intro node hnode hkind
    obtain ⟨n, hn, rfl⟩ := exists_nodeAt hnode
    obtain ⟨_, _, hsides⟩ := hstep hn (by rw [hkind]; exact fun h => nomatch h)
    exact links_of_hasSides hplaces rfl (hsides hkind)
  case aliases =>
    rw [filterMap_alias? (hbuilt.imp fun n s hs => (operation_of_stepOf hs.2).1)] at haliases
    exact (aliases_perm hnodes).nodup_iff.mp haliases
  case target => exact ⟨_, htarget⟩

namespace Acceptable

variable (h : p.Acceptable connections)

include h

theorem exists_checkEdges : ∃ edges, p.checkEdges [] p.edges = .ok edges ∧
    List.Forall₂ p.Places p.edges edges ∧ ∀ x ∈ edges, x.1 ≠ x.2 := by
  have hknown : ∀ e ∈ p.edges, ∃ x, p.Places e x := by
    intro e he
    obtain ⟨hstart, htarget⟩ := h.ends e he
    obtain ⟨m, hm⟩ := exists_position? hstart
    obtain ⟨n, hn⟩ := exists_position? htarget
    exact ⟨(m, n), hm, hn⟩
  obtain ⟨edges, hplaces⟩ := Outcome.exists_forall₂ hknown
  have hloops : ∀ x ∈ edges, x.1 ≠ x.2 := by
    rintro ⟨m, n⟩ hx hloop
    obtain rfl : m = n := hloop
    exact h.acyclic _ (.single (links_of_mem_edges hplaces hx))
  have hnodup := (List.rel_nodup biUnique_places hplaces).mp h.edges
  exact ⟨edges, (checkEdges_eq_ok List.nodup_nil).mpr ⟨edges, rfl, hplaces, hloops, hnodup⟩,
    hplaces, hloops⟩

theorem exists_sinkPosition : ∃ sink < p.nodes.length, p.sinkPosition = .ok sink ∧
    (p.nodeAt sink).kind = .sink ∧ (∀ e ∈ p.edges, e.start ≠ p.idAt sink) ∧
    ∀ node ∈ p.nodes, Relation.ReflTransGen p.Links node.id (p.idAt sink) := by
  obtain ⟨last, hlast, hkind, honly, hfeeds, hreaches⟩ := h.sink
  obtain ⟨sink, hlt, rfl⟩ := exists_nodeAt hlast
  refine ⟨sink, hlt, sinkPosition_eq_ok.mpr fun n => ⟨fun hn => ?_, ?_⟩, hkind, hfeeds, hreaches⟩
  · obtain ⟨node, hnode, hnkind⟩ := Option.map_eq_some_iff.mp hn
    have hn := (List.getElem?_eq_some_iff.mp hnode).1
    refine idAt_inj h.ids hn hlt ?_
    rw [idAt_eq hnode, honly node (List.mem_of_getElem? hnode) hnkind]
    rfl
  · rintro rfl
    rw [kind_nodeAt hlt, hkind]

theorem hasSides (hplaces : List.Forall₂ p.Places p.edges edges) {n : Nat}
    (hn : n < p.nodes.length) (hkind : (p.nodeAt n).kind = .join) :
    p.HasSides (Graph.inputsOf edges n) (p.nodeAt n) := by
  obtain ⟨c, hc, hne, hl, hr⟩ := h.sides _ (nodeAt_mem hn) hkind
  have hside {id : String} (hlinks : p.Links id (p.nodeAt n).id) :
      ∃ m, p.position? id = some m ∧ m ∈ Graph.inputsOf edges n := by
    obtain ⟨⟨m, k⟩, hmem, hstart, htarget⟩ := Outcome.exists_of_forall₂ hplaces hlinks
    obtain ⟨hk, htarget⟩ := lt_of_position? htarget
    obtain rfl := idAt_inj h.ids hk hn htarget
    exact ⟨m, hstart, Graph.mem_inputsOf.mpr hmem⟩
  obtain ⟨l, hl, hlin⟩ := hside hl
  obtain ⟨r, hr, hrin⟩ := hside hr
  refine ⟨c, l, r, hc, hl, hr, hlin, hrin, fun heq => hne ?_⟩
  exact (lt_of_position? hl).2.symm.trans (heq ▸ (lt_of_position? hr).2)

theorem length_inputsOf_eq (hplaces : List.Forall₂ p.Places p.edges edges) {n : Nat}
    (hn : n < p.nodes.length) :
    (Graph.inputsOf edges n).length = (p.nodeAt n).kind.inputCount :=
  (length_inputsOf h.ids hplaces hn).trans (h.counts _ (nodeAt_mem hn))

theorem checkInputs_ok (hplaces : List.Forall₂ p.Places p.edges edges)
    (hsinkAt : ∀ i, p.nodes[i]?.map (·.kind) = some .sink ↔ i = sink)
    (hfeeds : ∀ e ∈ edges, e.1 ≠ sink) : checkInputs edges 0 p.nodes = .ok () := by
  refine checkInputs_eq_ok.mpr fun n node hnode => ?_
  obtain ⟨hn, _⟩ := List.getElem?_eq_some_iff.mp hnode
  obtain rfl : p.nodeAt n = node := by rw [nodeAt, hnode, Option.getD_some]
  rw [Nat.zero_add]
  refine ⟨h.length_inputsOf_eq hplaces hn, fun hkind e he heq => hfeeds e he (heq.trans ?_)⟩
  exact (hsinkAt n).mp (by rw [kind_nodeAt hn, hkind])

theorem exists_buildSteps (hplaces : List.Forall₂ p.Places p.edges edges)
    (hsinkAt : ∀ i, p.nodes[i]?.map (·.kind) = some .sink ↔ i = sink)
    (hnodes : order.Perm (List.range p.nodes.length))
    (hfound : ∀ n, ∀ m ∈ Graph.inputsOf edges n, m ∈ p.stepNodes order) :
    ∃ steps, p.buildSteps connections edges (p.stepNodes order) [] (p.stepNodes order) =
      .ok steps := by
  have hmade : ∀ n ∈ p.stepNodes order, ∃ s : Step, s.id = p.idAt n ∧
      p.stepOf connections (p.stepNodes order) (Graph.inputsOf edges n) (p.nodeAt n) =
        .ok (s.op, s.inputs) := by
    intro n hn
    obtain ⟨hn, hne⟩ := (mem_stepNodes hsinkAt hnodes).mp hn
    have hkind : (p.nodeAt n).kind ≠ .sink := fun hkind =>
      hne ((hsinkAt n).mp (by rw [kind_nodeAt hn, hkind]))
    obtain ⟨op, hop⟩ := h.operations _ (nodeAt_mem hn) hkind
    obtain ⟨steps, hsteps⟩ := exists_stepOf (hfound n) hop (h.hasSides hplaces hn)
    exact ⟨⟨p.idAt n, op, steps⟩, rfl, hsteps⟩
  obtain ⟨steps, hbuilt⟩ := Outcome.exists_forall₂ hmade
  refine ⟨steps, buildSteps_eq_ok.mpr ⟨hbuilt, ?_, fun _ _ => List.not_mem_nil⟩⟩
  rw [filterMap_alias? (hbuilt.imp fun n s hs => (operation_of_stepOf hs.2).1)]
  exact (aliases_perm hnodes).nodup_iff.mpr h.aliases

theorem exists_toGraph : ∃ g, p.toGraph connections = .ok g := by
  obtain ⟨edges, hedges, hplaces, hloops⟩ := h.exists_checkEdges
  obtain ⟨sink, hlt, hsink, hkind, hfeeds, hreaches⟩ := h.exists_sinkPosition
  have hsinkAt := sinkPosition_eq_ok.mp hsink
  have hbounds : ∀ e ∈ edges, e.1 < p.nodes.length ∧ e.2 < p.nodes.length :=
    fun _ he => lt_of_places hplaces he
  obtain ⟨order, horder⟩ := Graph.exists_topologicalOrder hbounds
    (acyclic_positions hplaces h.acyclic)
  obtain ⟨hnodes, hforward⟩ := Graph.topologicalOrder_eq_ok (fun e he => (hbounds e he).2) horder
  have hin {n : Nat} (hn : n < p.nodes.length) : n ∈ order :=
    hnodes.mem_iff.mpr (List.mem_range.mpr hn)
  have hnotSink : ∀ e ∈ edges, e.1 ≠ sink := by
    rintro ⟨m, n⟩ he rfl
    exact hfeeds _ (links_of_mem_edges hplaces he) rfl
  have hfound (n : Nat) : ∀ m ∈ Graph.inputsOf edges n, m ∈ p.stepNodes order := by
    intro m hm
    have he := Graph.mem_inputsOf.mp hm
    exact (mem_stepNodes hsinkAt hnodes).mpr ⟨(hbounds _ he).1, hnotSink _ he⟩
  have hleading : ∀ n < p.nodes.length, n ∈ Graph.leadingTo edges sink order := by
    intro n hn
    refine Graph.mem_leadingTo_of_reaches hforward hloops (fun e he => hin (hbounds e he).1)
      (hin hlt) ?_
    exact reaches_positions h.ids hplaces hlt (hreaches _ (nodeAt_mem hn)) hn rfl
  obtain ⟨steps, hsteps⟩ := h.exists_buildSteps hplaces hsinkAt hnodes hfound
  obtain ⟨last, hlast⟩ := List.length_eq_one_iff.mp
    ((h.length_inputsOf_eq hplaces hlt).trans (congrArg NodeKind.inputCount hkind))
  obtain ⟨target, htarget⟩ := h.target
  refine ⟨⟨steps, (p.stepNodes order).idxOf last, target, p.policy⟩, toGraph_eq_ok.mpr
    ⟨edges, sink, order, ?_, hedges, hsink, horder, h.checkInputs_ok hplaces hsinkAt hnotSink,
      hleading, hsteps, ?_, htarget, rfl⟩⟩
  · exact checkIds_eq_ok.mpr ⟨h.ids, fun node hnode => ⟨h.named node hnode, List.not_mem_nil⟩⟩
  · rw [hlast, List.head?_cons, Option.bind_some]
    exact idxOf?_of_mem (hfound sink last (hlast ▸ List.mem_singleton_self last))

end Acceptable

/-- A pipeline has a graph just when it meets the conditions. -/
theorem exists_toGraph_iff :
    (∃ g, p.toGraph connections = .ok g) ↔ p.Acceptable connections :=
  ⟨fun ⟨_, h⟩ => acceptable_of_toGraph h, Acceptable.exists_toGraph⟩

end Pipeline

end TablePipeline
