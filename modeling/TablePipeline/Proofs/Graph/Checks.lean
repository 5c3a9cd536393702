import Mathlib.Data.List.Nodup
import Mathlib.Data.List.Perm.Subperm
import TablePipeline.Proofs.Graph.Ordering
import TablePipeline.Proofs.Graph.Settings

/-!
# What a pipeline passes

One lemma for each check of a pipeline says what passes it: ids that differ, edges between nodes
that exist, one sink, the number of inputs of each node, nodes that lead to the sink, and steps that
come from their nodes.
-/

set_option autoImplicit false

namespace TablePipeline

def Step.alias? (s : Step) : Option String :=
  match s.op with
  | .source t => some t.aliasName
  | _ => none

namespace Graph

variable {edges : EdgeList} {goal n : Nat} {order : List Nat}

theorem mem_inputsOf {m : Nat} : m ∈ inputsOf edges n ↔ (m, n) ∈ edges := by
  simp [inputsOf]

theorem reaches_of_mem_leadingTo (h : n ∈ leadingTo edges goal order) :
    Relation.ReflTransGen edges.Links n goal := by
  induction order generalizing n with
  | nil => cases h
  | cons m ms ih =>
    rw [leadingTo, List.foldr_cons, ← leadingTo] at h
    split at h
    · rename_i hm
      rcases List.mem_cons.mp h with rfl | h
      · obtain rfl | hm := hm
        · exact .refl
        · obtain ⟨⟨a, b⟩, he, hb⟩ := List.any_eq_true.mp hm
          rw [Bool.and_eq_true, beq_iff_eq, List.contains_iff_mem] at hb
          obtain ⟨rfl, hb⟩ := hb
          exact .head he (ih hb)
      · exact ih h
    · exact ih h

/-- Where no edge goes back, the search through the order meets the end of an edge before its
start. -/
theorem mem_leadingTo_of_edge {m : Nat} (hforward : order.Pairwise fun a b => (b, a) ∉ edges)
    (he : (n, m) ∈ edges) (hne : n ≠ m) (hn : n ∈ order) (hm : m ∈ leadingTo edges goal order) :
    n ∈ leadingTo edges goal order := by
  induction order with
  | nil => cases hn
  | cons a rest ih =>
    obtain ⟨hfirst, hrest⟩ := List.pairwise_cons.mp hforward
    rw [leadingTo, List.foldr_cons, ← leadingTo] at hm ⊢
    rcases List.mem_cons.mp hn with rfl | hn
    · have hm : m ∈ leadingTo edges goal rest := by
        split at hm
        · exact (List.mem_cons.mp hm).resolve_left (Ne.symm hne)
        · exact hm
      rw [if_pos (.inr (List.any_eq_true.mpr ⟨(n, m), he, by simpa using hm⟩))]
      exact List.mem_cons_self
    · have hm : m ∈ leadingTo edges goal rest := by
        split at hm
        · exact (List.mem_cons.mp hm).resolve_left fun heq => hfirst n hn (heq ▸ he)
        · exact hm
      have hin := ih hrest hn hm
      split
      · exact List.mem_cons_of_mem a hin
      · exact hin

theorem mem_leadingTo_goal (h : goal ∈ order) : goal ∈ leadingTo edges goal order := by
  induction order with
  | nil => cases h
  | cons a rest ih =>
    rw [leadingTo, List.foldr_cons, ← leadingTo]
    rcases List.mem_cons.mp h with rfl | h
    · rw [if_pos (.inl rfl)]
      exact List.mem_cons_self
    · split
      · exact List.mem_cons_of_mem a (ih h)
      · exact ih h

theorem mem_leadingTo_of_reaches (hforward : order.Pairwise fun a b => (b, a) ∉ edges)
    (hloops : ∀ e ∈ edges, e.1 ≠ e.2) (hstarts : ∀ e ∈ edges, e.1 ∈ order) (hgoal : goal ∈ order)
    (h : Relation.ReflTransGen edges.Links n goal) : n ∈ leadingTo edges goal order := by
  induction h using Relation.ReflTransGen.head_induction_on with
  | refl => exact mem_leadingTo_goal hgoal
  | head he _ ih => exact mem_leadingTo_of_edge hforward he (hloops _ he) (hstarts _ he) ih

end Graph

namespace Pipeline

variable {p : Pipeline} {connections : List Connection} {edges : Graph.EdgeList}

theorem checkIds_eq_ok {seen : List String} {nodes : List Node} :
    checkIds seen nodes = .ok () ↔ (nodes.map (·.id)).Nodup ∧
      ∀ node ∈ nodes, Text.isBlankText node.id = false ∧ node.id ∉ seen := by
  induction nodes generalizing seen with
  | nil => simp [checkIds]
  | cons node nodes ih =>
    rw [checkIds]
    split
    · rename_i hblank
      simp [hblank]
    · rename_i hnamed
      split
      · rename_i hseen
        simp [hseen]
      · rename_i hnew
        rw [ih, List.map_cons, List.nodup_cons, List.forall_mem_cons, List.mem_map]
        grind

/-! ### Positions of ids -/

theorem idAt_eq {n : Nat} {node : Node} (h : p.nodes[n]? = some node) : p.idAt n = node.id := by
  rw [idAt, h, Option.getD_some]

theorem lt_of_position? {id : String} {n : Nat} (h : p.position? id = some n) :
    n < p.nodes.length ∧ p.idAt n = id := by
  obtain ⟨hn, heq, _⟩ := List.findIdx?_eq_some_iff_getElem.mp h
  refine ⟨hn, ?_⟩
  rw [idAt_eq (List.getElem?_eq_getElem hn)]
  exact beq_iff_eq.mp heq

theorem idAt_inj (hids : (p.nodes.map (·.id)).Nodup) {m n : Nat} (hm : m < p.nodes.length)
    (hn : n < p.nodes.length) (h : p.idAt m = p.idAt n) : m = n := by
  rw [idAt_eq (List.getElem?_eq_getElem hm), idAt_eq (List.getElem?_eq_getElem hn)] at h
  have hm' : m < (p.nodes.map (·.id)).length := by rwa [List.length_map]
  have hn' : n < (p.nodes.map (·.id)).length := by rwa [List.length_map]
  refine (List.Nodup.getElem_inj_iff hids).mp
    (?_ : (p.nodes.map (·.id))[m] = (p.nodes.map (·.id))[n])
  rw [List.getElem_map, List.getElem_map]
  exact h

/-! ### Edges -/

/-- An edge leads from the node at one position to the node at another. -/
def Places (p : Pipeline) (e : Edge) (x : Nat × Nat) : Prop :=
  p.position? e.start = some x.1 ∧ p.position? e.target = some x.2

theorem Places.inj {e e' : Edge} {x : Nat × Nat} (h : p.Places e x) (h' : p.Places e' x) :
    e = e' := by
  have hstart : e.start = e'.start :=
    (lt_of_position? h.1).2.symm.trans (lt_of_position? h'.1).2
  have htarget : e.target = e'.target :=
    (lt_of_position? h.2).2.symm.trans (lt_of_position? h'.2).2
  cases e
  cases e'
  exact congr (congrArg Edge.mk hstart) htarget

theorem checkEdges_eq_ok {seen : Graph.EdgeList} {es : List Edge} (hseen : seen.Nodup) :
    p.checkEdges seen es = .ok edges ↔ ∃ found, edges = seen ++ found ∧
      List.Forall₂ p.Places es found ∧ (∀ x ∈ found, x.1 ≠ x.2) ∧ edges.Nodup := by
  induction es generalizing seen with
  | nil =>
    simp only [checkEdges, Except.ok.injEq, List.forall₂_nil_left_iff]
    constructor
    · rintro rfl
      exact ⟨[], (List.append_nil _).symm, rfl, List.forall_mem_nil _, hseen⟩
    · rintro ⟨_, rfl, rfl, -⟩
      exact (List.append_nil _).symm
  | cons e es ih =>
    rw [checkEdges]
    constructor
    case mp =>
      intro h
      obtain ⟨start, hstart, h⟩ := Outcome.bind_eq_ok.mp h
      obtain ⟨target, htarget, h⟩ := Outcome.bind_eq_ok.mp h
      dsimp only at h
      split at h
      · cases h
      · rename_i hloop
        split at h
        · cases h
        · rename_i hnew
          obtain ⟨found, rfl, hfound, hloops, hnodup⟩ :=
            (ih (List.nodup_append.mpr ⟨hseen, List.nodup_singleton _, by
              rintro a ha b hb rfl
              exact hnew (List.mem_singleton.mp hb ▸ ha)⟩)).mp h
          refine ⟨(start, target) :: found, List.append_assoc .., ?_, ?_, hnodup⟩
          · exact .cons ⟨endOf_eq_ok.mp hstart, endOf_eq_ok.mp htarget⟩ hfound
          · exact List.forall_mem_cons.mpr ⟨hloop, hloops⟩
    case mpr =>
      rintro ⟨found, rfl, hfound, hloops, hnodup⟩
      cases hfound with
      | @cons _ x _ found hx hfound =>
        obtain ⟨hloop, hloops⟩ := List.forall_mem_cons.mp hloops
        have hseen' := (List.nodup_append.mp (List.append_cons seen x found ▸ hnodup)).1
        have hnew : x ∉ seen := fun hmem =>
          (List.nodup_append.mp hseen').2.2 x hmem x (List.mem_singleton_self x) rfl
        refine Outcome.bind_eq_ok.mpr ⟨x.1, endOf_eq_ok.mpr hx.1, ?_⟩
        refine Outcome.bind_eq_ok.mpr ⟨x.2, endOf_eq_ok.mpr hx.2, ?_⟩
        rw [if_neg hloop, if_neg hnew]
        exact (ih hseen').mpr ⟨found, List.append_cons seen x found, hfound, hloops, hnodup⟩

theorem exists_of_mem_places (hplaces : List.Forall₂ p.Places p.edges edges) {x : Nat × Nat}
    (hx : x ∈ edges) : ∃ e ∈ p.edges, p.Places e x :=
  Outcome.exists_of_forall₂ hplaces.flip hx

theorem starts_eq_inputsOf (hids : (p.nodes.map (·.id)).Nodup)
    (hedges : List.Forall₂ p.Places p.edges edges) {n : Nat} (hn : n < p.nodes.length) :
    (p.edges.filter (·.target = p.idAt n)).map (·.start) =
      (Graph.inputsOf edges n).map p.idAt := by
  generalize p.edges = es at hedges
  induction hedges with
  | nil => rfl
  | @cons e x es xs hx _ ih =>
    obtain ⟨hstart, htarget⟩ := hx
    obtain ⟨_, hstart⟩ := lt_of_position? hstart
    obtain ⟨hlt, htarget⟩ := lt_of_position? htarget
    have hinto : e.target = p.idAt n ↔ x.2 = n := by
      rw [← htarget]
      exact ⟨idAt_inj hids hlt hn, fun h => h ▸ rfl⟩
    unfold Graph.inputsOf at ih ⊢
    by_cases h : x.2 = n
    · simp [hinto, h, hstart, ih]
    · simp [hinto, h, ih]

/-! ### The sink and the inputs -/

theorem sinkPosition_eq_ok {n : Nat} :
    p.sinkPosition = .ok n ↔ ∀ i, p.nodes[i]?.map (·.kind) = some .sink ↔ i = n := by
  have hmem (i : Nat) : i ∈ (List.range p.nodes.length).filter
      (fun i => p.nodes[i]?.map (·.kind) == some .sink) ↔
        p.nodes[i]?.map (·.kind) = some .sink := by
    rw [List.mem_filter, List.mem_range, beq_iff_eq]
    refine ⟨And.right, fun hkind => ⟨?_, hkind⟩⟩
    obtain ⟨node, hnode, _⟩ := Option.map_eq_some_iff.mp hkind
    exact (List.getElem?_eq_some_iff.mp hnode).1
  have hnodup : ((List.range p.nodes.length).filter
      (fun i => p.nodes[i]?.map (·.kind) == some .sink)).Nodup := List.nodup_range.filter _
  unfold sinkPosition
  simp only [← hmem]
  generalize (List.range p.nodes.length).filter _ = found at hnodup
  constructor
  · intro h i
    split at h
    · obtain rfl := Except.ok.inj h
      exact List.mem_singleton
    · cases h
    · cases h
  · intro h
    have hfound : found.Perm [n] := (List.perm_ext_iff_of_nodup hnodup (List.nodup_singleton n)).mpr
      fun i => (h i).trans List.mem_singleton.symm
    rw [List.perm_singleton.mp hfound]

theorem checkInputs_eq_ok {i : Nat} {nodes : List Node} :
    checkInputs edges i nodes = .ok () ↔ ∀ k node, nodes[k]? = some node →
      (Graph.inputsOf edges (i + k)).length = node.kind.inputCount ∧
        (node.kind = .sink → ∀ e ∈ edges, e.1 ≠ i + k) := by
  induction nodes generalizing i with
  | nil => simp [checkInputs]
  | cons first nodes ih =>
    have hfeeds : (edges.any (·.1 == i)) = true ↔ ¬ ∀ e ∈ edges, e.1 ≠ i := by simp
    have hrest : (∀ k node, (first :: nodes)[k]? = some node →
          (Graph.inputsOf edges (i + k)).length = node.kind.inputCount ∧
            (node.kind = .sink → ∀ e ∈ edges, e.1 ≠ i + k)) ↔
        ((Graph.inputsOf edges i).length = first.kind.inputCount ∧
          (first.kind = .sink → ∀ e ∈ edges, e.1 ≠ i)) ∧
        checkInputs edges (i + 1) nodes = .ok () := by
      rw [ih]
      constructor
      · refine fun h => ⟨h 0 first rfl, fun k node hnode => ?_⟩
        rw [Nat.succ_add_eq_add_succ]
        exact h (k + 1) node hnode
      · rintro ⟨hfirst, h⟩ k node hnode
        cases k with
        | zero =>
          obtain rfl := Option.some.inj hnode
          exact hfirst
        | succ k =>
          rw [← Nat.succ_add_eq_add_succ]
          exact h k node hnode
    rw [hrest, checkInputs]
    split
    · rename_i hcount
      exact ⟨(fun h => nomatch h), fun h => (hcount h.1.1).elim⟩
    · rename_i hcount
      split
      · rename_i hkind
        exact ⟨(fun h => nomatch h), fun h => (hfeeds.mp hkind.2 (h.1.2 hkind.1)).elim⟩
      · rename_i hkind
        refine ⟨fun h => ⟨⟨not_not.mp hcount, fun hsink => ?_⟩, h⟩, And.right⟩
        exact not_not.mp fun hnot => hkind ⟨hsink, hfeeds.mpr hnot⟩

/-! ### Steps -/

theorem idxOf?_of_mem {places : List Nat} {m : Nat} (h : m ∈ places) :
    places.idxOf? m = some (places.idxOf m) := by
  induction places with
  | nil => cases h
  | cons n places ih =>
    rw [List.idxOf?_cons, List.idxOf_cons]
    by_cases hn : n = m
    · simp [hn]
    · have hm : m ∈ places := (List.mem_cons.mp h).resolve_left (Ne.symm hn)
      simp [ih hm, beq_false_of_ne hn]

theorem filterMap_idxOf? {places inputs : List Nat} (h : ∀ m ∈ inputs, m ∈ places) :
    inputs.filterMap places.idxOf? = inputs.map places.idxOf := by
  rw [← List.filterMap_eq_map]
  exact List.filterMap_congr fun m hm => idxOf?_of_mem (h m hm)

/-- What becomes of a node, of which other nodes are the inputs. -/
structure Makes (p : Pipeline) (places inputs : List Nat) (node : Node) (op : StepOp)
    (steps : List Nat) : Prop where
  kind : op.kind = node.kind
  wellPosed : op.WellPosed
  /-- The step is fed by the steps of the inputs, each of them once. -/
  fed : ∃ ns : List Nat, ns.Perm inputs ∧ steps = ns.map places.idxOf
  /-- Those of a join are the sides that its settings name. -/
  sides : node.kind = .join → ∃ c l r, NodeConfig.joinSides node = .ok c ∧
    p.position? c.left = some l ∧ p.position? c.right = some r ∧ l ∈ inputs ∧ r ∈ inputs ∧
    steps = [places.idxOf l, places.idxOf r] ∧ places.idxOf l ≠ places.idxOf r

/-- Every kind but the join takes all inputs in the order of the edges. -/
theorem stepOf_plain {places inputs : List Nat} {node : Node} (hkind : node.kind ≠ .join) :
    p.stepOf connections places inputs node =
      (NodeConfig.operation connections p.policy node).map
        fun op => (op, inputs.filterMap places.idxOf?) := by
  unfold stepOf NodeConfig.operation
  cases hnode : node.kind
  case source => cases NodeConfig.sourceTable connections node <;> rfl
  case join => exact (hkind hnode).elim
  case filter => cases NodeConfig.filterOp node <;> rfl
  case cast => cases NodeConfig.castOp p.policy node <;> rfl
  case arithmetic => cases NodeConfig.arithmeticOp p.policy node <;> rfl
  case condition => cases NodeConfig.conditionOp p.policy node <;> rfl
  case sink => rfl

/-- A join takes the two different steps that its settings name as its sides. -/
theorem stepOf_join_eq_ok {places inputs steps : List Nat} {node : Node} {op : StepOp}
    (hkind : node.kind = .join) :
    p.stepOf connections places inputs node = .ok (op, steps) ↔
      ∃ c rule l r i j, NodeConfig.joinSides node = .ok c ∧ c.toRule = .ok rule ∧
        (p.position? c.left = some l ∧ l ∈ inputs ∧ places.idxOf? l = some i) ∧
        (p.position? c.right = some r ∧ r ∈ inputs ∧ places.idxOf? r = some j) ∧
        i ≠ j ∧ op = .join rule ∧ steps = [i, j] := by
  simp only [stepOf, hkind]
  constructor
  case mp =>
    intro h
    obtain ⟨c, hc, h⟩ := Outcome.bind_eq_ok.mp h
    obtain ⟨i, hleft, h⟩ := Outcome.bind_eq_ok.mp h
    obtain ⟨j, hright, h⟩ := Outcome.bind_eq_ok.mp h
    split at h
    · cases h
    · rename_i hne
      obtain ⟨rule, hrule, h⟩ := Outcome.bind_eq_ok.mp h
      obtain ⟨rfl, rfl⟩ := Prod.mk.inj (Outcome.pure_eq_ok.mp h)
      obtain ⟨l, hl⟩ := sideStep_eq_ok.mp hleft
      obtain ⟨r, hr⟩ := sideStep_eq_ok.mp hright
      exact ⟨c, rule, l, r, i, j, hc, hrule, hl, hr, hne, rfl, rfl⟩
  case mpr =>
    rintro ⟨c, rule, l, r, i, j, hc, hrule, hl, hr, hne, rfl, rfl⟩
    refine Outcome.bind_eq_ok.mpr ⟨c, hc, ?_⟩
    refine Outcome.bind_eq_ok.mpr ⟨i, sideStep_eq_ok.mpr ⟨l, hl⟩, ?_⟩
    refine Outcome.bind_eq_ok.mpr ⟨j, sideStep_eq_ok.mpr ⟨r, hr⟩, ?_⟩
    rw [if_neg hne]
    exact Outcome.bind_eq_ok.mpr ⟨rule, hrule, rfl⟩

theorem stepOf_eq_ok {places inputs steps : List Nat} {node : Node} {op : StepOp}
    (hfound : ∀ m ∈ inputs, m ∈ places) (hcount : inputs.length = node.kind.inputCount)
    (h : p.stepOf connections places inputs node = .ok (op, steps)) :
    p.Makes places inputs node op steps := by
  by_cases hkind : node.kind = .join
  · obtain ⟨c, rule, l, r, i, j, hc, _, ⟨hl, hlin, hi⟩, ⟨hr, hrin, hj⟩, hne, rfl, rfl⟩ :=
      (stepOf_join_eq_ok hkind).mp h
    obtain rfl := Option.some.inj ((idxOf?_of_mem (hfound l hlin)).symm.trans hi)
    obtain rfl := Option.some.inj ((idxOf?_of_mem (hfound r hrin)).symm.trans hj)
    have hlr : [l, r].Nodup := by
      simpa using fun heq : l = r => hne (by rw [heq])
    have hperm : [l, r].Perm inputs := by
      refine (hlr.subperm ?_).perm_of_length_le ?_
      · exact fun m hm => by rcases List.mem_pair.mp hm with rfl | rfl <;> assumption
      · rw [hcount, hkind]
        exact Nat.le_refl _
    exact ⟨hkind.symm, trivial, ⟨[l, r], hperm, rfl⟩,
      fun _ => ⟨c, l, r, hc, hl, hr, hlin, hrin, rfl, hne⟩⟩
  · rw [stepOf_plain hkind] at h
    obtain ⟨_, hop, heq⟩ := Outcome.map_eq_ok.mp h
    obtain ⟨rfl, rfl⟩ := Prod.mk.inj heq
    obtain ⟨hopKind, hposed⟩ := NodeConfig.operation_wellPosed hop
    exact ⟨hopKind, hposed, ⟨inputs, .refl _, filterMap_idxOf? hfound⟩, fun h => (hkind h).elim⟩

theorem buildSteps_cons {places : List Nat} {aliases : List String} {n : Nat} {rest : List Nat}
    {steps : List Step} :
    p.buildSteps connections edges places aliases (n :: rest) = .ok steps ↔
      ∃ s aliases' steps', steps = s :: steps' ∧ s.id = p.idAt n ∧
        p.stepOf connections places (Graph.inputsOf edges n) (p.nodes[n]?.getD default) =
          .ok (s.op, s.inputs) ∧
        p.buildSteps connections edges places aliases' rest = .ok steps' ∧
        (s.alias? = none ∧ aliases' = aliases ∨
          ∃ a, s.alias? = some a ∧ a ∉ aliases ∧ aliases' = a :: aliases) := by
  rw [buildSteps]
  constructor
  case mp =>
    intro h
    obtain ⟨⟨op, inputs⟩, hop, h⟩ := Outcome.bind_eq_ok.mp h
    cases op with
    | source t =>
      dsimp only at h
      split at h
      · cases h
      · rename_i hnot
        obtain ⟨_, haliases, h⟩ := Outcome.bind_eq_ok.mp h
        obtain rfl := Outcome.pure_eq_ok.mp haliases
        obtain ⟨steps', hsteps, h⟩ := Outcome.bind_eq_ok.mp h
        obtain rfl := Outcome.pure_eq_ok.mp h
        exact ⟨_, _, steps', rfl, rfl, hop, hsteps, .inr ⟨t.aliasName, rfl, hnot, rfl⟩⟩
    | _ =>
      obtain ⟨_, haliases, h⟩ := Outcome.bind_eq_ok.mp h
      obtain rfl := Outcome.pure_eq_ok.mp haliases
      obtain ⟨steps', hsteps, h⟩ := Outcome.bind_eq_ok.mp h
      obtain rfl := Outcome.pure_eq_ok.mp h
      exact ⟨_, _, steps', rfl, rfl, hop, hsteps, .inl ⟨rfl, rfl⟩⟩
  case mpr =>
    rintro ⟨⟨id, op, inputs⟩, aliases', steps', rfl, rfl, hop, hsteps, halias⟩
    refine Outcome.bind_eq_ok.mpr ⟨_, hop, ?_⟩
    cases op with
    | source t =>
      obtain ⟨hnone, -⟩ | ⟨a, hsome, hnot, rfl⟩ := halias
      · cases hnone
      · obtain rfl := Option.some.inj hsome
        dsimp only
        rw [if_neg hnot]
        exact Outcome.bind_eq_ok.mpr ⟨_, rfl, Outcome.bind_eq_ok.mpr ⟨steps', hsteps, rfl⟩⟩
    | _ =>
      obtain ⟨-, rfl⟩ | ⟨a, hsome, _⟩ := halias
      · exact Outcome.bind_eq_ok.mpr ⟨_, rfl, Outcome.bind_eq_ok.mpr ⟨steps', hsteps, rfl⟩⟩
      · cases hsome

/-- Steps are built just when each is made of its node and no alias is given twice. -/
theorem buildSteps_eq_ok {places : List Nat} {aliases : List String} {rest : List Nat}
    {steps : List Step} :
    p.buildSteps connections edges places aliases rest = .ok steps ↔
      List.Forall₂ (fun n s => s.id = p.idAt n ∧
        p.stepOf connections places (Graph.inputsOf edges n) (p.nodes[n]?.getD default) =
          .ok (s.op, s.inputs)) rest steps ∧
      (steps.filterMap Step.alias?).Nodup ∧ ∀ a ∈ steps.filterMap Step.alias?, a ∉ aliases := by
  induction rest generalizing aliases steps with
  | nil =>
    rw [List.forall₂_nil_left_iff, buildSteps, Except.ok.injEq]
    constructor
    · rintro rfl
      exact ⟨rfl, List.nodup_nil, List.forall_mem_nil _⟩
    · exact fun h => h.1.symm
  | cons n rest ih =>
    rw [buildSteps_cons]
    constructor
    case mp =>
      rintro ⟨s, aliases', steps', rfl, hid, hop, hsteps, halias⟩
      obtain ⟨hforall, hnodup, hnew⟩ := ih.mp hsteps
      refine ⟨.cons ⟨hid, hop⟩ hforall, ?_⟩
      obtain ⟨hs, rfl⟩ | ⟨a, hs, ha, rfl⟩ := halias
      · rw [List.filterMap_cons_none hs]
        exact ⟨hnodup, hnew⟩
      · rw [List.filterMap_cons_some hs]
        refine ⟨List.nodup_cons.mpr ⟨fun hmem => hnew a hmem List.mem_cons_self, hnodup⟩, ?_⟩
        exact List.forall_mem_cons.mpr
          ⟨ha, fun b hb hmem => hnew b hb (List.mem_cons_of_mem a hmem)⟩
    case mpr =>
      rintro ⟨hforall, hnodup, hnew⟩
      cases hforall with
      | @cons _ s _ steps' hfirst hforall =>
        obtain ⟨hid, hop⟩ := hfirst
        cases hs : s.alias? with
        | none =>
          rw [List.filterMap_cons_none hs] at hnodup hnew
          exact ⟨s, aliases, steps', rfl, hid, hop, ih.mpr ⟨hforall, hnodup, hnew⟩,
            .inl ⟨hs, rfl⟩⟩
        | some a =>
          rw [List.filterMap_cons_some hs] at hnodup hnew
          obtain ⟨hnot, hnodup⟩ := List.nodup_cons.mp hnodup
          obtain ⟨ha, hnew⟩ := List.forall_mem_cons.mp hnew
          refine ⟨s, a :: aliases, steps', rfl, hid, hop, ih.mpr ⟨hforall, hnodup, ?_⟩,
            .inr ⟨a, hs, ha, rfl⟩⟩
          rintro b hb hmem
          rcases List.mem_cons.mp hmem with rfl | hmem
          · exact hnot hb
          · exact hnew b hb hmem

end Pipeline

end TablePipeline
