import TablePipeline.Proofs.Graph.WellFormed
import TablePipeline.Proofs.Plan.Writable

/-!
# What compilation may fail over

Each stage of SQL can be written but for the names in it, and at most one of its sources is open.
Steps keep that, so a graph of a pipeline that passed its checks fails only over a reference, over
types that do not meet or over a name, and no query of its plan has two wildcards.
-/

set_option autoImplicit false

namespace TablePipeline

open Outcome (Ends)
open Sql (Expr OnlyNames)

/-- How many items of a layout stand for any number of columns. -/
def Layout.wildcards (layout : List LayoutItem) : Nat :=
  layout.countP fun
    | .wildcard .. => true
    | .column _ => false

def PlanNode.Mappable (node : PlanNode) : Prop := ∀ q ∈ node.queries, Layout.wildcards q.layout ≤ 1

namespace SqlStage

/-- A stage that is written but for names, with one open source at most. -/
structure Writable (st : SqlStage) : Prop where
  source : OnlyNames (st.source.pieces st.dialect)
  joins : ∀ j ∈ st.joins, OnlyNames (j.pieces st.dialect)
  filters : ∀ p ∈ st.filters, OnlyNames (p.pieces st.dialect)
  schema : st.schema.Writable st.dialect
  opens : st.schema.opens.length ≤ 1

variable {st left right : SqlStage}

theorem Writable.select (h : st.Writable) : OnlyNames (st.select.pieces st.dialect) := by
  refine Sql.query_onlyNames (fun item hitem => ?_) h.source h.joins h.filters
  obtain ⟨⟨schemaItem, i⟩, hmem, rfl⟩ := List.mem_map.mp hitem
  cases schemaItem with
  | column c =>
    have hc := (h.schema c (List.mem_of_getElem? (List.mem_zipIdx_iff_getElem?.mp hmem))).1
    exact hc.bind fun _ => (Sql.namePiece_onlyNames _).bind fun _ => .ok _
  | openSource q t => exact (Sql.namePiece_onlyNames t).bind fun _ => .ok _

theorem wildcards_layout (st : SqlStage) :
    Layout.wildcards st.layout = st.schema.opens.length := by
  unfold layout Schema.opens Layout.wildcards
  induction st.schema with
  | nil => rfl
  | cons item s ih =>
    cases item with
    | column c => simpa [layoutItem] using ih
    | openSource q t => simpa [layoutItem] using ih

theorem Writable.materialize_ends (h : st.Writable) :
    Ends (fun m => m.1.Mappable) CompileError.Foreseen st.materialize := by
  refine Ends.bind (P := fun _ => True) (h.select.map _).foreseen fun fragment _ => ?_
  intro q hq
  obtain rfl := List.mem_singleton.mp hq
  exact Nat.le_trans (Nat.le_of_eq (wildcards_layout st)) h.opens

/-! ### Joins -/

theorem opens_derivedSchema (aliasName : String) (s : Schema Expr) :
    (derivedSchema aliasName s).opens.length = s.opens.length := by
  unfold derivedSchema
  generalize 0 = k
  induction s generalizing k with
  | nil => rfl
  | cons item s ih =>
    cases item with
    | column c => exact ih (k + 1)
    | openSource q t => exact congrArg (· + 1) (ih (k + 1))

theorem derivedSchema_writable (d : Sql.Dialect) (aliasName : String) (s : Schema Expr) :
    (derivedSchema aliasName s).Writable d := by
  intro c hc
  obtain ⟨⟨item, i⟩, _, hitem⟩ := List.mem_map.mp hc
  cases item with
  | column c' =>
    obtain rfl := SchemaItem.column.inj hitem
    exact ⟨Sql.column_onlyNames (some aliasName) _, rfl⟩
  | openSource q t => cases hitem

theorem opens_joinedSide (right : SqlStage) (rule : JoinRule) (aliasName : String) :
    (right.joinedSide rule aliasName).schema.opens.length = right.schema.opens.length := by
  unfold SqlStage.joinedSide
  split
  · exact opens_derivedSchema aliasName _
  · rfl

theorem Writable.joinedSide (h : right.Writable) (rule : JoinRule) (aliasName : String) :
    OnlyNames ((right.joinedSide rule aliasName).item.pieces right.dialect) ∧
      (∀ p ∈ (right.joinedSide rule aliasName).on, OnlyNames (p.pieces right.dialect)) ∧
      (right.joinedSide rule aliasName).schema.Writable right.dialect := by
  unfold SqlStage.joinedSide
  split
  · exact ⟨Sql.derived_onlyNames h.select aliasName, List.forall_mem_nil _,
      derivedSchema_writable _ aliasName _⟩
  · exact ⟨h.source, h.filters, h.schema⟩

theorem of_canFuse {rule : JoinRule} (h : left.canFuse right rule = true) :
    left.kind = right.kind ∧ left.schema.opens.length + right.schema.opens.length ≤ 1 := by
  unfold canFuse at h
  simp only [Bool.and_eq_true, beq_iff_eq, decide_eq_true_eq] at h
  exact ⟨h.1.1.1.2, h.1.1.2⟩

theorem Writable.fuse_ends (hl : left.Writable) (hr : right.Writable) {rule : JoinRule}
    (hfuse : left.canFuse right rule = true) (aliasName : String) :
    Ends Writable CompileError.Foreseen (left.fuse right rule aliasName) := by
  obtain ⟨hkind, hopens⟩ := of_canFuse hfuse
  have hdialect : left.dialect = right.dialect := congrArg SourceKind.dialect hkind
  obtain ⟨hitem, hon, hschema⟩ := hr.joinedSide rule aliasName
  rw [← hdialect] at hitem hon hschema
  refine (Schema.expr_ends hl.schema rule.left).bind fun l hleft => ?_
  refine (Schema.expr_ends hschema rule.right).bind fun r hright => ?_
  have hkeys : OnlyNames ((Sql.Predicate.mk l .eq (.expr r)).pieces left.dialect) :=
    Sql.predicate_onlyNames hleft.1 ⟨nofun, hright⟩
  constructor
  case source => exact hl.source
  case joins =>
    intro j hj
    rcases List.mem_append.mp hj with hj | hj
    · exact hl.joins j hj
    · obtain rfl := List.mem_singleton.mp hj
      exact Sql.join_onlyNames _ hitem (List.forall_mem_cons.mpr ⟨hkeys, hon⟩)
  case filters => exact hl.filters
  case schema => exact hl.schema.append hschema
  case opens =>
    show Nat.le (Schema.opens (_ ++ _)).length 1
    rw [Schema.opens_append, List.length_append, opens_joinedSide]
    exact hopens

theorem Writable.withSchema (h : st.Writable) {s : Schema Expr} (hs : s.Writable st.dialect)
    (hopens : s.opens.length ≤ st.schema.opens.length) : Writable { st with schema := s } :=
  { h with schema := hs, opens := Nat.le_trans hopens h.opens }

end SqlStage

/-! ### Steps -/

namespace Stage

/-- A stage of SQL that can be written, or a plan whose queries can be mapped. -/
def Sound : Stage → Prop
  | sql st => st.Writable
  | memory node _ => node.Mappable

variable {stage : Stage}

theorem Sound.materialize_ends (h : stage.Sound) :
    Ends (fun m => m.1.Mappable) CompileError.Foreseen stage.materialize := by
  cases stage with
  | sql st => exact SqlStage.Writable.materialize_ends h
  | memory node schema => exact h

theorem ofSource_ends (s : SourceTable) : Ends Sound CompileError.Foreseen (ofSource s) := by
  unfold ofSource
  split
  · constructor
    case source => exact Sql.table_onlyNames s.table s.aliasName
    case joins => exact List.forall_mem_nil _
    case filters => exact List.forall_mem_nil _
    case schema =>
      intro c hc
      dsimp only at hc
      split at hc
      · obtain ⟨declared, _, hitem⟩ := List.mem_map.mp hc
        obtain rfl := SchemaItem.column.inj hitem
        exact ⟨Sql.column_onlyNames (some s.aliasName) _, rfl⟩
      · cases List.mem_singleton.mp hc
    case opens =>
      dsimp only
      split
      · rw [Schema.opens_map_column]
        exact Nat.zero_le 1
      · exact Nat.le_refl 1
  · refine Ends.bind (P := fun _ => True) (Sql.quotePath_onlyNames s.table).foreseen fun _ _ => ?_
    intro q hq
    obtain rfl := List.mem_singleton.mp hq
    exact Nat.le_refl _

theorem filter_ends (h : stage.Sound) (node : String) {cs : List Comparison}
    (hcs : ∀ c ∈ cs, c.WellPosed) :
    Ends Sound CompileError.Foreseen (stage.filter node cs) := by
  cases stage with
  | sql st =>
    refine (Ends.mapM fun c hc => st.schema.coerceComparison_ends (hcs c hc)).bind
      fun cs' hcs' => ?_
    refine (Ends.mapM fun c hc => Schema.predicate_ends h.schema (hcs'.2 c hc)).bind
      fun ps hps => ?_
    refine { h with filters := fun p hp => ?_ }
    rcases List.mem_append.mp hp with hp | hp
    · exact h.filters p hp
    · exact hps.2 p hp
  | memory input schema =>
    exact (Ends.mapM fun c hc => schema.coerceComparison_ends (hcs c hc)).bind fun _ _ => h

theorem cast_ends (h : stage.Sound) (rule : CastRule) :
    Ends Sound CompileError.Foreseen (stage.cast rule) := by
  cases stage with
  | sql st =>
    refine (st.schema.find_ends rule.column).bind fun resolved hresolved => ?_
    have hmemory : Ends Sound CompileError.Foreseen (do
        let found ← st.materialize
        return castInMemory rule found.1 found.2 resolved) :=
      (SqlStage.Writable.materialize_ends h).bind fun _ hm => hm
    cases resolved with
    | inOpen qualifier table name => exact hmemory
    | column i c =>
      dsimp only
      split
      · rename_i hpushed
        obtain ⟨he, _⟩ := h.schema c (hresolved i c rfl)
        refine SqlStage.Writable.withSchema h (h.schema.set i ?_) (Schema.opens_set_le _ i _)
        exact ⟨Sql.cast_onlyNames hpushed.2 he, rfl⟩
      · exact hmemory
  | memory input schema => exact (schema.find_ends rule.column).bind fun _ _ => h

theorem arithmetic_ends (h : stage.Sound) {rule : ArithmeticRule}
    (hrule : 2 ≤ rule.operands.length) :
    Ends Sound CompileError.Foreseen (stage.arithmetic rule) := by
  cases stage with
  | sql st =>
    refine (Ends.mapM fun o _ => st.schema.operandType?_ends o).bind fun types _ => ?_
    dsimp only
    split
    · exact (SqlStage.Writable.materialize_ends h).bind fun _ hm => hm
    · refine (Ends.mapM fun o _ => Schema.operandExpr_ends h.schema o).bind fun es hes => ?_
      refine (rule.expr_ends hes.2 (hes.1 ▸ hrule)).bind fun e he => ?_
      exact SqlStage.Writable.withSchema h (h.schema.putComputed _ _ he)
        (Schema.opens_putComputed_le ..)
  | memory input schema =>
    exact (Ends.mapM fun o _ => schema.operandType?_ends o).bind fun _ _ => h

theorem fitBranch_onlyNames {d : Sql.Dialect} {output branch : Option ColumnType} {e e' : Expr}
    (he : OnlyNames (e.pieces d)) (h : fitBranch d output branch e = some e') :
    OnlyNames (e'.pieces d) := by
  unfold fitBranch at h
  split at h
  · split at h
    · obtain rfl := Option.some.inj h
      exact he
    · split at h
      · rename_i htarget
        obtain rfl := Option.some.inj h
        exact Sql.cast_onlyNames htarget he
      · cases h
  · obtain rfl := Option.some.inj h
    exact he

theorem condition_ends (h : stage.Sound) (node : String) {rule : ConditionRule}
    (hrule : rule.predicate.WellPosed) :
    Ends Sound CompileError.Foreseen (stage.condition node rule) := by
  cases stage with
  | sql st =>
    refine (rule.settle_ends hrule st.schema node).bind fun settled hsettled => ?_
    refine (Schema.operandExpr_ends h.schema settled.rule.yes).bind fun yes hyes => ?_
    refine (Schema.operandExpr_ends h.schema settled.rule.no).bind fun no hno => ?_
    split
    · rename_i y n hy hn
      refine (Schema.predicate_ends h.schema hsettled).bind fun test htest => ?_
      refine SqlStage.Writable.withSchema h (h.schema.putComputed _ _ ⟨?_, rfl⟩)
        (Schema.opens_putComputed_le ..)
      exact Sql.choose_onlyNames htest (fitBranch_onlyNames hyes hy) (fitBranch_onlyNames hno hn)
    · exact (SqlStage.Writable.materialize_ends h).bind fun _ hm => hm
  | memory input schema => exact (rule.settle_ends hrule schema node).bind fun _ _ => h

theorem checkReference_ends (stage : Stage) (r : Reference) :
    Ends (fun _ => True) CompileError.Foreseen (stage.checkReference r) := by
  cases stage with
  | sql st => exact (st.schema.find_ends r).bind fun _ _ => trivial
  | memory node schema => exact (schema.find_ends r).bind fun _ _ => trivial

theorem join_ends {left right : Stage} (hl : left.Sound) (hr : right.Sound) (rule : JoinRule)
    (derived : Nat) : Ends (fun x => x.1.Sound) CompileError.Foreseen
      (join rule left right derived) := by
  refine (checkReference_ends left rule.left).bind fun _ _ => ?_
  refine (checkReference_ends right rule.right).bind fun _ _ => ?_
  have hmemory : Ends (fun x : Stage × Nat => x.1.Sound) CompileError.Foreseen (do
      let l ← left.materialize
      let r ← right.materialize
      return (memory (.join l.1 r.1 rule) (l.2 ++ r.2), derived)) := by
    refine hl.materialize_ends.bind fun l hl => hr.materialize_ends.bind fun r hr => ?_
    intro q hq
    rcases List.mem_append.mp hq with hq | hq
    · exact hl q hq
    · exact hr q hq
  cases left with
  | memory node schema => exact hmemory
  | sql l =>
    cases right with
    | memory node schema => exact hmemory
    | sql r =>
      dsimp only
      split
      · rename_i hfuse
        exact (SqlStage.Writable.fuse_ends hl hr hfuse _).bind fun _ hs => hs
      · exact hmemory

end Stage

/-! ### Graphs -/

namespace Graph

variable {stages : List Stage} {step : Step}

theorem inputStage_ends (hstages : ∀ stage ∈ stages, stage.Sound) (hstep : step.Fed stages.length)
    (position : Nat) (hp : position < step.op.kind.inputCount) :
    Ends Stage.Sound CompileError.Foreseen (inputStage stages step position) := by
  have hp' : position < step.inputs.length := hstep.count ▸ hp
  have hlt := hstep.inputs _ (List.getElem_mem hp')
  unfold inputStage
  rw [List.getElem?_eq_getElem hp', Option.bind_some, List.getElem?_eq_getElem hlt]
  exact hstages _ (List.getElem_mem hlt)

theorem compileStep_ends (hstages : ∀ stage ∈ stages, stage.Sound) (derived : Nat)
    (hstep : step.Fed stages.length) :
    Ends (fun x => x.1.Sound) CompileError.Foreseen (compileStep stages derived step) := by
  have hinput := inputStage_ends hstages hstep
  have hposed := hstep.wellPosed
  unfold compileStep
  cases hop : step.op with
  | source s => exact (Stage.ofSource_ends s).bind fun _ hs => hs
  | join rule =>
    rw [hop] at hinput
    exact (hinput 0 Nat.zero_lt_two).bind fun left hl =>
      (hinput 1 Nat.one_lt_two).bind fun right hr => Stage.join_ends hl hr rule derived
  | filter cs =>
    rw [hop] at hinput hposed
    exact (hinput 0 Nat.zero_lt_one).bind fun _ h =>
      (Stage.filter_ends h step.id hposed).bind fun _ hs => hs
  | cast rule =>
    rw [hop] at hinput
    exact (hinput 0 Nat.zero_lt_one).bind fun _ h => (Stage.cast_ends h rule).bind fun _ hs => hs
  | arithmetic rule =>
    rw [hop] at hinput hposed
    exact (hinput 0 Nat.zero_lt_one).bind fun _ h =>
      (Stage.arithmetic_ends h hposed).bind fun _ hs => hs
  | condition rule =>
    rw [hop] at hinput hposed
    exact (hinput 0 Nat.zero_lt_one).bind fun _ h =>
      (Stage.condition_ends h step.id hposed).bind fun _ hs => hs

/-- Steps that are fed by stages before them give one sound stage each. -/
theorem compileSteps_ends {steps : List Step} (hstages : ∀ stage ∈ stages, stage.Sound)
    (derived : Nat)
    (hsteps : ∀ i (step : Step), steps[i]? = some step → step.Fed (stages.length + i)) :
    Ends (fun result => (∀ stage ∈ result, stage.Sound) ∧
      result.length = stages.length + steps.length) CompileError.Foreseen
      (compileSteps stages derived steps) := by
  induction steps generalizing stages derived with
  | nil => exact ⟨hstages, rfl⟩
  | cons step rest ih =>
    refine (compileStep_ends hstages derived (hsteps 0 step rfl)).bind fun x hx => ?_
    have hstages' : ∀ stage ∈ stages ++ [x.1], stage.Sound := by
      simpa [or_imp, forall_and] using ⟨hstages, hx⟩
    refine (ih hstages' x.2 fun i step' hstep' => ?_).mono fun result hresult => ?_
    · have hfed := hsteps (i + 1) step' hstep'
      simpa [Nat.add_assoc, Nat.add_comm 1 i] using hfed
    · refine ⟨hresult.1, hresult.2.trans ?_⟩
      simp [Nat.add_assoc, Nat.add_comm 1]

theorem compile_ends {g : Graph} (hsteps : ∀ i (step : Step), g.steps[i]? = some step → step.Fed i)
    (houtput : g.output < g.steps.length) :
    Ends (fun plan => plan.root.Mappable) CompileError.Foreseen g.compile := by
  refine Ends.bind (P := Stage.Sound) ?_ fun stage hstage =>
    hstage.materialize_ends.bind fun _ hm => hm
  refine (compileSteps_ends (List.forall_mem_nil _) 0 ?_).bind fun stages hstages => ?_
  · simpa using hsteps
  · obtain ⟨hsound, hlength⟩ := hstages
    have hlt : g.output < stages.length := by simpa [hlength] using houtput
    rw [List.getElem?_eq_getElem hlt]
    exact hsound _ (List.getElem_mem hlt)

end Graph

/-- The graph of a pipeline that passed its checks is compiled, or a reference, a type or a name is
at fault; and each query of the plan has one wildcard at most. -/
theorem Pipeline.compile_toGraph {p : Pipeline} {connections : List Connection} {g : Graph}
    (h : p.toGraph connections = .ok g) :
    (∀ e, g.compile = .error e → e.Foreseen ∧
      (e.toFailure.kind = .unresolvedReference ∨ e.toFailure.kind = .incompatibleTypes ∨
        e.toFailure.kind = .invalidIdentifier)) ∧
      ∀ plan, g.compile = .ok plan → ∀ q ∈ plan.root.queries, Layout.wildcards q.layout ≤ 1 := by
  obtain ⟨edges, sink, order, hpasses⟩ := exists_passes h
  have hends := Graph.compile_ends (fun _ _ => hpasses.fed) hpasses.output_lt
  refine ⟨fun e he => ?_, fun plan hplan => hends.of_ok hplan⟩
  have hforeseen := hends.of_error he
  exact ⟨hforeseen, hforeseen.kind⟩

/-- Two sources whose columns are not declared are read by a query each, as two wildcards could not
be told apart. -/
theorem Pipeline.compile_ordersOfPeople :
    ∃ g plan, ordersOfPeople.toGraph [⟨"shop", .postgres, "", none, "", "", none, none, none⟩] =
        .ok g ∧ g.compile = .ok plan ∧
      plan.root.queries.map (·.fragment.sql) =
        ["SELECT \"orders\".* FROM \"orders\" \"orders\"",
          "SELECT \"people\".* FROM \"people\" \"people\""] ∧
      ∀ q ∈ plan.root.queries, Layout.wildcards q.layout ≤ 1 := by
  have hqueries : (ordersOfPeople.toGraph
      [⟨"shop", .postgres, "", none, "", "", none, none, none⟩]).toOption.bind
        (fun g => g.compile.toOption.map fun plan => plan.root.queries.map (·.fragment.sql)) =
      some ["SELECT \"orders\".* FROM \"orders\" \"orders\"",
        "SELECT \"people\".* FROM \"people\" \"people\""] := by
    decide +kernel
  obtain ⟨g, hg, hplan⟩ := Option.bind_eq_some_iff.mp hqueries
  obtain ⟨plan, hplan, hqueries⟩ := Option.map_eq_some_iff.mp hplan
  have hg := Outcome.toOption_eq_some.mp hg
  have hplan := Outcome.toOption_eq_some.mp hplan
  exact ⟨g, plan, hg, hplan, hqueries, (compile_toGraph hg).2 plan hplan⟩

end TablePipeline
