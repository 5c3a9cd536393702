import TablePipeline.Proofs.Execution.Gather
import TablePipeline.Proofs.Plan.Steps

/-!
# The tracked columns are the gathered ones

Compilation follows the columns of each stage, and gathering computes them again from the results of
the queries. Every step of compilation keeps the two together, so a compiled plan gives the columns
that were tracked for its output, and no step of it fails over a reference.
-/

set_option autoImplicit false

namespace TablePipeline

variable {σ ω ε : Type}

def Stage.columns : Stage → List PlanColumn
  | .sql s => s.schema.columns.map (·.2.plain)
  | .memory _ schema => schema.columns.map (·.2.plain)

def Graph.DeclaresColumns (g : Graph) : Prop :=
  ∀ step ∈ g.steps, ∀ source, step.op = .source source → source.columns.isSome

namespace PlanNode

/-- Gathering the node gives some columns over rectangular rows, whatever happened before. -/
def Gives (s : Services σ ω) (a : Access) (node : PlanNode) (columns : List PlanColumn) : Prop :=
  (Gather.rows s a node).Yields a fun f => f.columns = columns ∧ f.Rectangular

variable {s : Services σ ω} {a : Access}

theorem gives_query (hs : s.ReportOwnFaults) {q : QueryPlan} {columns : List PlanColumn}
    (hq : s.Answers a (.query q)) (h : ∀ result, Layout.Fits q.layout result →
      ∃ rows, Frame.ofResult q.layout result = .ok ⟨columns, rows⟩) :
    Gives s a (.query q) columns := by
  apply (Gather.session_yields hs a q.connection).bind
  intro c hc
  refine (Gather.outside_yields (P := Layout.Fits q.layout) fun state => ?answer).bind
    fun result hfits => Gather.ofExcept_yields ?frame
  case answer =>
    cases hquery : s.query c q.fragment state with
    | mk answer state' =>
      cases answer with
      | ok result => exact hq q (List.mem_singleton_self q) c hc state result state' hquery
      | error f => exact hs.query c q.fragment state f state' hquery
  case frame =>
    obtain ⟨rows, hrows⟩ := h result hfits
    rw [hrows]
    exact ⟨rfl, Frame.ofResult_rectangular hfits.1 hrows⟩

theorem gives_filter {input : PlanNode} {cs : List (SchemaColumn ε)} {conditions : List Comparison}
    (h : Gives s a input (cs.map SchemaColumn.plain))
    (hk : ∀ c ∈ conditions, (Schema.ofColumns cs).Knows c.references) :
    Gives s a (.filter input conditions) (cs.map SchemaColumn.plain) := by
  refine Gather.Yields.bind h fun f hf => Gather.ofExcept_yields (Gather.ends_of_yields ?_)
  rw [← hf.1]
  exact Frame.filter_yields (fun c hc => Frame.knows_of_schema hf.1 (hk c hc)) hf.2

theorem gives_cast {input : PlanNode} {cs : List (SchemaColumn ε)} {rule : CastRule} {i : Nat}
    {c : SchemaColumn ε} (h : Gives s a input (cs.map SchemaColumn.plain))
    (hc : (Schema.ofColumns cs).find rule.column = .ok (.column i c)) :
    Gives s a (.cast input rule)
      ((cs.set i { c with type? := some rule.target }).map SchemaColumn.plain) := by
  refine Gather.Yields.bind h fun f hf => Gather.warned_yields fun w => ?_
  obtain ⟨j, c', heq, hget, hj⟩ := Frame.resolve_of_find hf.1 hc
  obtain ⟨rfl, rfl⟩ := Resolved.column.inj heq
  rw [← Frame.setType_eq hf.1 hget (d := { c with type? := some rule.target }) rfl rfl]
  exact Frame.cast_yields hj hf.2 w

theorem gives_arithmetic {input : PlanNode} {cs : List (SchemaColumn ε)} {rule : ArithmeticRule}
    {type? : Option ColumnType} (h : Gives s a input (cs.map SchemaColumn.plain))
    (hk : ∀ o ∈ rule.operands, (Schema.ofColumns cs).Knows o.references) (carried : ε) :
    Gives s a (.arithmetic input rule type?)
      ((Schema.withComputed cs rule.output type? carried).map SchemaColumn.plain) := by
  refine Gather.Yields.bind h fun f hf => Gather.warned_yields fun w => ?_
  rw [← Frame.computedSlot_columns hf.1]
  exact Frame.arithmetic_yields (fun o ho => Frame.knows_of_schema hf.1 (hk o ho)) hf.2 w

theorem gives_condition {input : PlanNode} {cs : List (SchemaColumn ε)} {rule : ConditionRule}
    (h : Gives s a input (cs.map SchemaColumn.plain))
    (hk : (Schema.ofColumns cs).Knows rule.references) (carried : ε) :
    Gives s a (.condition input rule)
      ((Schema.withComputed cs rule.output rule.outputType carried).map SchemaColumn.plain) := by
  refine Gather.Yields.bind h fun f hf => Gather.warned_yields fun w => ?_
  rw [← Frame.computedSlot_columns hf.1]
  exact Frame.condition_yields (Frame.knows_of_schema hf.1 hk) hf.2 w

theorem gives_join {left right : PlanNode} {cs ds : List (SchemaColumn ε)} {rule : JoinRule}
    {x y : Resolved ε} (hl : Gives s a left (cs.map SchemaColumn.plain))
    (hr : Gives s a right (ds.map SchemaColumn.plain))
    (hx : (Schema.ofColumns cs).find rule.left = .ok x)
    (hy : (Schema.ofColumns ds).find rule.right = .ok y) :
    Gives s a (.join left right rule) ((cs ++ ds).map SchemaColumn.plain) := by
  refine Gather.Yields.bind hl fun f hf => Gather.Yields.bind hr fun g hg =>
    Gather.ofExcept_yields (Gather.ends_of_yields ?_)
  obtain ⟨i, _, _, _, hi⟩ := Frame.resolve_of_find hf.1 hx
  obtain ⟨j, _, _, _, hj⟩ := Frame.resolve_of_find hg.1 hy
  rw [List.map_append, ← hf.1, ← hg.1]
  exact Frame.join_yields hi hj hf.2 hg.2

end PlanNode

namespace Stage

/-- What compilation keeps of a stage: its schema has no open source, and if it has a plan already,
gathering that plan gives the columns of the schema. -/
def Tracked (s : Services σ ω) (a : Access) : Stage → Prop
  | .sql st => ∃ cs, st.schema = Schema.ofColumns cs
  | .memory node schema => ∃ cs, schema = Schema.ofColumns cs ∧
      (s.Answers a node → node.Gives s a (cs.map SchemaColumn.plain))

variable {s : Services σ ω} {a : Access}

theorem plain_erased (cs : List (SchemaColumn ε)) :
    (cs.map fun c => (⟨c.qualifier, c.name, c.type?, ()⟩ : SchemaColumn Unit)).map
      SchemaColumn.plain = cs.map SchemaColumn.plain := by
  rw [List.map_map]
  rfl

theorem sqlMaterialize_tracked (hs : s.ReportOwnFaults) {st : SqlStage}
    {cs : List (SchemaColumn Sql.Expr)} (hcs : st.schema = Schema.ofColumns cs) {node : PlanNode}
    {schema : Schema Unit} (h : st.materialize = .ok (node, schema)) :
    schema = Schema.ofColumns (cs.map fun c => ⟨c.qualifier, c.name, c.type?, ()⟩) ∧
      (s.Answers a node → node.Gives s a (cs.map SchemaColumn.plain)) := by
  obtain ⟨fragment, _, h⟩ := Outcome.bind_eq_ok.mp h
  obtain ⟨rfl, rfl⟩ := Prod.mk.inj (Outcome.pure_eq_ok.mp h)
  refine ⟨by rw [hcs, Schema.erased_ofColumns], fun hq => PlanNode.gives_query hs hq ?_⟩
  intro result hfits
  have hlayout : st.layout = (cs.map SchemaColumn.plain).map LayoutItem.column := by
    unfold SqlStage.layout
    rw [hcs, Schema.ofColumns, List.map_map, List.map_map]
    rfl
  rw [hlayout] at hfits ⊢
  exact Frame.ofResult_columns hfits.length_eq

theorem ofSource_tracked (hs : s.ReportOwnFaults) {source : SourceTable}
    (hdeclared : source.columns.isSome) {stage : Stage} (h : ofSource source = .ok stage) :
    stage.Tracked s a := by
  obtain ⟨columns, hcolumns⟩ := Option.isSome_iff_exists.mp hdeclared
  unfold ofSource at h
  rw [hcolumns] at h
  split at h
  · obtain rfl := Except.ok.inj h
    exact ⟨columns.map fun c => ⟨some source.aliasName, c.name, c.type?,
      .column (some source.aliasName) c.name⟩, (List.map_map ..).symm⟩
  · obtain ⟨path, _, h⟩ := Outcome.bind_eq_ok.mp h
    obtain rfl := Except.ok.inj h
    refine ⟨columns.map fun c => ⟨some source.aliasName, c.name, c.type?, ()⟩,
      (List.map_map ..).symm, fun hq => PlanNode.gives_query hs hq ?_⟩
    intro result hfits
    have hcs : (columns.map fun c : DeclaredColumn =>
        (⟨some source.aliasName, c.name, c.type?, ()⟩ : SchemaColumn Unit)).map
          SchemaColumn.plain =
        columns.map fun c => ⟨some source.aliasName, c.name, c.type?⟩ := by
      rw [List.map_map]
      rfl
    rw [hcs]
    exact Frame.ofResult_declared hfits.2

theorem filter_tracked {stage stage' : Stage} (ht : stage.Tracked s a) {node : String}
    {conditions : List Comparison} (h : stage.filter node conditions = .ok stage') :
    stage'.Tracked s a := by
  cases stage with
  | sql st =>
    obtain ⟨cs, _, h⟩ := Outcome.bind_eq_ok.mp h
    obtain ⟨ps, _, h⟩ := Outcome.bind_eq_ok.mp h
    obtain rfl := Outcome.pure_eq_ok.mp h
    exact ht
  | memory input schema =>
    obtain ⟨columns, rfl, hgives⟩ := ht
    obtain ⟨cs, hcs, h⟩ := Outcome.bind_eq_ok.mp h
    obtain rfl := Outcome.pure_eq_ok.mp h
    exact ⟨columns, rfl, fun hq =>
      PlanNode.gives_filter (hgives hq) (Schema.coerceComparisons_know hcs)⟩

theorem castInMemory_tracked {rule : CastRule} {input : PlanNode} {cs : List (SchemaColumn ε)}
    {columns : List (SchemaColumn Unit)} {resolved : Resolved ε}
    (hplain : columns.map SchemaColumn.plain = cs.map SchemaColumn.plain)
    (hgives : s.Answers a input → input.Gives s a (cs.map SchemaColumn.plain))
    (hfind : (Schema.ofColumns cs).find rule.column = .ok resolved) :
    (castInMemory rule input (Schema.ofColumns columns) resolved).Tracked s a := by
  obtain ⟨i, c, rfl, hc, _⟩ := Schema.resolve_ofColumns (Schema.find_eq_ok.mp hfind)
  refine ⟨columns.set i ⟨c.qualifier, c.name, some rule.target, ()⟩,
    Schema.ofColumns_set _ _ _, fun hq => ?_⟩
  have h : PlanNode.Gives s a (.cast input rule) _ := PlanNode.gives_cast (hgives hq) hfind
  rw [List.map_set] at h ⊢
  rw [hplain]
  exact h

theorem cast_tracked (hs : s.ReportOwnFaults) {stage stage' : Stage} (ht : stage.Tracked s a)
    {rule : CastRule} (h : stage.cast rule = .ok stage') : stage'.Tracked s a := by
  cases stage with
  | sql st =>
    obtain ⟨cs, hcs⟩ := ht
    obtain ⟨resolved, hfind, ⟨i, c, _, rfl⟩ | ⟨node, schema, hm, rfl⟩⟩ := cast_sql_eq_ok h
    · rw [hcs]
      exact ⟨_, Schema.ofColumns_set _ _ _⟩
    · obtain ⟨rfl, hgives⟩ := sqlMaterialize_tracked (a := a) hs hcs hm
      rw [hcs] at hfind
      exact castInMemory_tracked (plain_erased cs) hgives hfind
  | memory input schema =>
    obtain ⟨columns, rfl, hgives⟩ := ht
    obtain ⟨resolved, hfind, h⟩ := Outcome.bind_eq_ok.mp h
    obtain rfl := Outcome.pure_eq_ok.mp h
    exact castInMemory_tracked rfl hgives hfind

theorem arithmeticInMemory_tracked {rule : ArithmeticRule} {type? : Option ColumnType}
    {input : PlanNode} {columns : List (SchemaColumn Unit)}
    (hgives : s.Answers a input → input.Gives s a (columns.map SchemaColumn.plain))
    (hk : ∀ o ∈ rule.operands, (Schema.ofColumns columns).Knows o.references) :
    (arithmeticInMemory rule type? input (Schema.ofColumns columns)).Tracked s a :=
  ⟨_, Schema.putComputed_ofColumns _ _ _ _, fun hq =>
    PlanNode.gives_arithmetic (hgives hq) hk ()⟩

theorem conditionInMemory_tracked {rule : ConditionRule} {input : PlanNode}
    {columns : List (SchemaColumn Unit)}
    (hgives : s.Answers a input → input.Gives s a (columns.map SchemaColumn.plain))
    (hk : (Schema.ofColumns columns).Knows rule.references) :
    (conditionInMemory rule input (Schema.ofColumns columns)).Tracked s a :=
  ⟨_, Schema.putComputed_ofColumns _ _ _ _, fun hq =>
    PlanNode.gives_condition (hgives hq) hk ()⟩

theorem arithmetic_tracked (hs : s.ReportOwnFaults) {stage stage' : Stage}
    (ht : stage.Tracked s a) {rule : ArithmeticRule} (h : stage.arithmetic rule = .ok stage') :
    stage'.Tracked s a := by
  cases stage with
  | sql st =>
    obtain ⟨cs, hcs⟩ := ht
    obtain ⟨types, htypes, ⟨es, e, _, _, rfl⟩ | ⟨node, schema, hm, rfl⟩⟩ := arithmetic_sql_eq_ok h
    · rw [hcs]
      exact ⟨_, Schema.putComputed_ofColumns _ _ _ _⟩
    · obtain ⟨rfl, hgives⟩ := sqlMaterialize_tracked (a := a) hs hcs hm
      rw [hcs] at htypes
      rw [← plain_erased cs] at hgives
      exact arithmeticInMemory_tracked hgives fun o ho =>
        Schema.knows_of_plain (plain_erased cs) (Schema.operandTypes_know htypes o ho)
  | memory input schema =>
    obtain ⟨columns, rfl, hgives⟩ := ht
    obtain ⟨types, htypes, h⟩ := Outcome.bind_eq_ok.mp h
    obtain rfl := Outcome.pure_eq_ok.mp h
    exact arithmeticInMemory_tracked hgives (Schema.operandTypes_know htypes)

theorem condition_tracked (hs : s.ReportOwnFaults) {stage stage' : Stage}
    (ht : stage.Tracked s a) {node : String} {rule : ConditionRule}
    (h : stage.condition node rule = .ok stage') : stage'.Tracked s a := by
  cases stage with
  | sql st =>
    obtain ⟨cs, hcs⟩ := ht
    obtain ⟨settled, hset, ⟨_, _, _, _, _, _, _, _, _, _, rfl⟩ | ⟨node, schema, hm, rfl⟩⟩ :=
      condition_sql_eq_ok h
    · rw [hcs]
      exact ⟨_, Schema.putComputed_ofColumns _ _ _ _⟩
    · obtain ⟨rfl, hgives⟩ := sqlMaterialize_tracked (a := a) hs hcs hm
      rw [hcs] at hset
      rw [← plain_erased cs] at hgives
      exact conditionInMemory_tracked hgives
        (Schema.knows_of_plain (plain_erased cs) (ConditionRule.settles hset).knows)
  | memory input schema =>
    obtain ⟨columns, rfl, hgives⟩ := ht
    obtain ⟨settled, hset, h⟩ := Outcome.bind_eq_ok.mp h
    obtain rfl := Outcome.pure_eq_ok.mp h
    exact conditionInMemory_tracked hgives (ConditionRule.settles hset).knows

theorem materialize_tracked (hs : s.ReportOwnFaults) {stage : Stage} (ht : stage.Tracked s a)
    {node : PlanNode} {schema : Schema Unit} (h : stage.materialize = .ok (node, schema)) :
    ∃ columns, schema = Schema.ofColumns columns ∧
      stage.columns = columns.map SchemaColumn.plain ∧
      (∀ r, stage.Knows r → ∃ x, (Schema.ofColumns columns).find r = .ok x) ∧
      (s.Answers a node → node.Gives s a (columns.map SchemaColumn.plain)) := by
  cases stage with
  | sql st =>
    obtain ⟨cs, hcs⟩ := ht
    obtain ⟨rfl, hgives⟩ := sqlMaterialize_tracked (a := a) hs hcs h
    refine ⟨_, rfl, ?_, fun r hr => ?_, (plain_erased cs).symm ▸ hgives⟩
    · rw [columns, hcs, Schema.plain_columns, plain_erased]
    · obtain ⟨x, hx⟩ := hr
      rw [hcs] at hx
      exact Schema.knows_of_plain (plain_erased cs) (Schema.knows_singleton hx) r
        List.mem_cons_self
  | memory input schema' =>
    obtain ⟨columns, rfl, hgives⟩ := ht
    obtain ⟨rfl, rfl⟩ := Prod.mk.inj (Except.ok.inj h)
    exact ⟨columns, rfl, Schema.plain_columns columns, fun r hr => hr, hgives⟩

theorem joinedSide_schema {right : SqlStage} {cs : List (SchemaColumn Sql.Expr)}
    (hcs : right.schema = Schema.ofColumns cs) (rule : JoinRule) (aliasName : String) :
    ∃ ds, (right.joinedSide rule aliasName).schema = Schema.ofColumns ds := by
  unfold SqlStage.joinedSide
  split
  · exact ⟨_, hcs ▸ derivedSchema_ofColumns aliasName cs⟩
  · exact ⟨cs, hcs⟩

theorem answers_join {left right : PlanNode} {rule : JoinRule}
    (h : s.Answers a (.join left right rule)) : s.Answers a left ∧ s.Answers a right :=
  ⟨fun q hq => h q (List.mem_append_left _ hq), fun q hq => h q (List.mem_append_right _ hq)⟩

theorem join_tracked (hs : s.ReportOwnFaults) {left right stage : Stage}
    (hl : left.Tracked s a) (hr : right.Tracked s a) {rule : JoinRule} {derived derived' : Nat}
    (h : join rule left right derived = .ok (stage, derived')) : stage.Tracked s a := by
  obtain ⟨hkl, hkr, ⟨l, r, st, rfl, rfl, _, _, hfuse, rfl⟩ |
    ⟨ln, ls, rn, rs, hln, hrn, _, rfl⟩⟩ := join_eq_ok h
  · obtain ⟨cs, hcs⟩ := hl
    obtain ⟨ds, hds⟩ := hr
    obtain ⟨_, _, _, _, rfl⟩ := SqlStage.fuse_eq_ok hfuse
    obtain ⟨es, hes⟩ := joinedSide_schema hds rule (SqlStage.derivedAlias derived')
    refine ⟨cs ++ es, ?_⟩
    rw [Schema.ofColumns_append, ← hcs, ← hes]
  · obtain ⟨cs, rfl, _, hcs, hgl⟩ := materialize_tracked hs hl hln
    obtain ⟨ds, rfl, _, hds, hgr⟩ := materialize_tracked hs hr hrn
    refine ⟨cs ++ ds, (Schema.ofColumns_append cs ds).symm, fun hq => ?_⟩
    obtain ⟨x, hx⟩ := hcs rule.left hkl
    obtain ⟨y, hy⟩ := hds rule.right hkr
    exact PlanNode.gives_join (hgl (answers_join hq).1) (hgr (answers_join hq).2) hx hy

end Stage

namespace Graph

variable {s : Services σ ω} {a : Access}

theorem compileStep_tracked (hs : s.ReportOwnFaults) {stages : List Stage}
    (ht : ∀ stage ∈ stages, stage.Tracked s a) {step : Step}
    (hdeclared : ∀ source, step.op = .source source → source.columns.isSome)
    {derived derived' : Nat} {stage : Stage}
    (h : compileStep stages derived step = .ok (stage, derived')) : stage.Tracked s a := by
  obtain ⟨rule, left, hl, right, hr, _, hjoin⟩ | ⟨rfl, ⟨source, hop, hst⟩ | ⟨input, hi, hst⟩⟩ :=
    compileStep_eq_ok h
  · exact Stage.join_tracked hs (ht left hl) (ht right hr) hjoin
  · exact Stage.ofSource_tracked hs (hdeclared source hop) hst
  · obtain ⟨_, hst⟩ | ⟨_, hst⟩ | ⟨_, hst⟩ | ⟨_, hst⟩ := hst
    · exact Stage.filter_tracked (ht input hi) hst
    · exact Stage.cast_tracked hs (ht input hi) hst
    · exact Stage.arithmetic_tracked hs (ht input hi) hst
    · exact Stage.condition_tracked hs (ht input hi) hst

theorem compileSteps_tracked (hs : s.ReportOwnFaults) {g : Graph} (hg : g.DeclaresColumns)
    {stages : List Stage} (h : compileSteps [] 0 g.steps = .ok stages) :
    ∀ stage ∈ stages, stage.Tracked s a := by
  have hstep : ∀ (st : List Stage) (derived : Nat) stage derived', ∀ step ∈ g.steps,
      (∀ x ∈ st, x.Tracked s a) → compileStep st derived step = .ok (stage, derived') →
      ∀ x ∈ st ++ [stage], x.Tracked s a := by
    intro st derived stage derived' step hm ht hc x hx
    rcases List.mem_append.mp hx with hx | hx
    · exact ht x hx
    · obtain rfl := List.mem_singleton.mp hx
      exact compileStep_tracked hs ht (hg step hm) hc
  obtain ⟨_, ht, _⟩ := compileSteps_induction (P := fun st _ => ∀ stage ∈ st, stage.Tracked s a)
    hstep (List.forall_mem_nil _) h
  exact ht

theorem outputStage_tracked (hs : s.ReportOwnFaults) {g : Graph} (hg : g.DeclaresColumns)
    {stage : Stage} (h : g.outputStage = .ok stage) : stage.Tracked s a := by
  obtain ⟨stages, hstages, h⟩ := Outcome.bind_eq_ok.mp h
  split at h
  · rename_i x hx
    obtain rfl := Outcome.pure_eq_ok.mp h
    exact compileSteps_tracked hs hg hstages _ (List.mem_of_getElem? hx)
  · cases h

/-- The plan of a graph whose sources declare their columns gives the columns that compilation
tracked for the output, over rectangular rows, and gathering it never fails over a reference and
never crashes. -/
theorem gather_columns_eq (s : Services σ ω) (hs : s.ReportOwnFaults) (a : Access) {g : Graph}
    (hg : g.DeclaresColumns) {plan : Plan} (hplan : g.compile = .ok plan)
    (hq : s.Answers a plan.root) (maxWarnings : Nat) (state : σ) :
    ∃ stage, g.outputStage = .ok stage ∧
      (∀ f w, (s.gather a plan maxWarnings state).1 = .ok (f, w) →
        f.columns = stage.columns ∧ f.Rectangular) ∧
      ∀ halt, (s.gather a plan maxWarnings state).1 = .error halt →
        ∃ f, halt = .failure f ∧ f.kind ≠ .unresolvedReference := by
  obtain ⟨stage, hstage, h⟩ := Outcome.bind_eq_ok.mp hplan
  obtain ⟨⟨root, schema⟩, hroot, h⟩ := Outcome.bind_eq_ok.mp h
  obtain rfl := Outcome.pure_eq_ok.mp h
  obtain ⟨columns, _, hcolumns, _, hgives⟩ :=
    Stage.materialize_tracked hs (outputStage_tracked (a := a) hs hg hstage) hroot
  obtain ⟨hyields, _⟩ :=
    hgives hq ⟨state, [], .empty maxWarnings⟩ fun c hc => absurd hc List.not_mem_nil
  rw [← hcolumns] at hyields
  refine ⟨stage, hstage, ?_⟩
  unfold Services.gather
  generalize (Gather.rows s a root).run ⟨state, [], .empty maxWarnings⟩ = r at hyields ⊢
  refine ⟨fun f w hok => hyields.of_ok (Services.leave_eq_ok hok), fun halt herror => ?_⟩
  obtain ⟨(f | _) | f, g⟩ := r
  · exact ⟨f, (Except.error.inj herror).symm, hyields⟩
  · exact hyields.elim
  · cases herror

/-- The cast ids of a spreadsheet of people joined with those of a table of orders. -/
def peopleWithOrders : Graph where
  steps := [
    ⟨"people", .source ⟨"sheets", .excel, "people", "p",
      some [⟨"id", none⟩, ⟨"name", some .text⟩]⟩, []⟩,
    ⟨"orders", .source ⟨"shop", .postgres, "orders", "o",
      some [⟨"id", some .integer⟩, ⟨"total", none⟩]⟩, []⟩,
    ⟨"ids", .cast ⟨⟨some "p", "id"⟩, .integer, .nullOut⟩, [0]⟩,
    ⟨"both", .join ⟨.left, ⟨some "p", "id"⟩, ⟨some "o", "id"⟩⟩, [2, 1]⟩]
  output := 3
  sink := ⟨"result", [("id", .integer)], .append⟩
  policy := .nullOut

def peopleWithOrdersPlan : Plan where
  root := .join
    (.cast
      (.query ⟨"sheets", ⟨"SELECT * FROM \"people\"", []⟩,
        [.wildcard "p" (some [⟨"id", none⟩, ⟨"name", some .text⟩])]⟩)
      ⟨⟨some "p", "id"⟩, .integer, .nullOut⟩)
    (.query ⟨"shop",
      ⟨"SELECT \"o\".\"id\" AS \"__c0\", \"o\".\"total\" AS \"__c1\" FROM \"orders\" \"o\"", []⟩,
      [.column ⟨some "o", "id", some .integer⟩, .column ⟨some "o", "total", none⟩]⟩)
    ⟨.left, ⟨some "p", "id"⟩, ⟨some "o", "id"⟩⟩
  sink := ⟨"result", [("id", .integer)], .append⟩
  policy := .nullOut

def peopleWithOrdersAccess : Access where
  connections := [⟨"sheets", .excel, "", none, "", "", none, none, none⟩,
    ⟨"shop", .postgres, "", none, "", "", none, none, none⟩]
  vault := ⟨none⟩
  timeoutMillis := 1000

theorem gather_columns_peopleWithOrders :
    ∃ f w, ((Services.answering ⟨["id", "name"], [[.text "1", .text "Ann"]]⟩).gather
        peopleWithOrdersAccess peopleWithOrdersPlan 5 ()).1 = .ok (f, w) ∧
      f.columns = [⟨some "p", "id", some .integer⟩, ⟨some "p", "name", some .text⟩,
        ⟨some "o", "id", some .integer⟩, ⟨some "o", "total", none⟩] := by
  have hplan : peopleWithOrders.compile = .ok peopleWithOrdersPlan :=
    Outcome.toOption_eq_some.mp (by decide +kernel)
  have hdeclared : peopleWithOrders.DeclaresColumns := by
    intro step hstep source hop
    simp only [peopleWithOrders, List.mem_cons, List.not_mem_nil, or_false] at hstep
    rcases hstep with rfl | rfl | rfl | rfl <;> cases hop <;> rfl
  have hfits : ∀ q ∈ peopleWithOrdersPlan.root.queries,
      Layout.Fits q.layout ⟨["id", "name"], [[.text "1", .text "Ann"]]⟩ := by
    intro q hq
    simp only [peopleWithOrdersPlan, PlanNode.queries, List.cons_append, List.nil_append,
      List.mem_cons, List.not_mem_nil, or_false] at hq
    rcases hq with rfl | rfl
    · exact ⟨by simp [RowSet.Rectangular], by simp⟩
    · exact ⟨by simp [RowSet.Rectangular], by simp⟩
  obtain ⟨stage, hstage, hok, _⟩ := gather_columns_eq _ (Services.answering_reportOwnFaults _)
    peopleWithOrdersAccess hdeclared hplan (Services.answering_answers hfits) 5 ()
  have hcolumns : (peopleWithOrders.outputStage.map Stage.columns).toOption =
      some [⟨some "p", "id", some .integer⟩, ⟨some "p", "name", some .text⟩,
        ⟨some "o", "id", some .integer⟩, ⟨some "o", "total", none⟩] := by
    decide +kernel
  rw [hstage] at hcolumns
  have hsome : ((Services.answering ⟨["id", "name"], [[.text "1", .text "Ann"]]⟩).gather
      peopleWithOrdersAccess peopleWithOrdersPlan 5 ()).1.toOption.isSome := by
    decide +kernel
  obtain ⟨⟨f, w⟩, hgather⟩ := Option.isSome_iff_exists.mp hsome
  have hgather := Outcome.toOption_eq_some.mp hgather
  exact ⟨f, w, hgather, (hok f w hgather).1.trans (Option.some.inj hcolumns)⟩

end Graph

end TablePipeline
