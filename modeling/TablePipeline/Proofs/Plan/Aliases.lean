import TablePipeline.Proofs.Graph.WellFormed
import TablePipeline.Proofs.Plan.Naming

/-!
# The aliases of a plan

Every `SELECT` of a plan, with those of its derived tables, is well scoped, and an alias stands in
it once. The one exception is an alias that a source was given and that a derived table is given as
well: nothing keeps the two apart, and then two items of a query have one alias.
-/

set_option autoImplicit false

namespace TablePipeline

open Sql (Expr Predicate Named Query)

/-- An alias that a source is given, and a derived table may be given as well. -/
def Clashes (given : String → Prop) (a : String) : Prop :=
  given a ∧ ∃ n, 0 < n ∧ a = SqlStage.derivedAlias n

variable {given : String → Prop} {derived : Nat}

namespace Sql.Query

/-- A well scoped query in which no alias stands twice, but for those that clash. -/
structure Sound (given : String → Prop) (q : Query) : Prop where
  wellScoped : q.WellScoped
  once : ∀ a, ¬ Clashes given a → q.aliases.count a ≤ 1

theorem Sound.count_eq_one {q : Query} (h : q.Sound given) {a : String} (ha : a ∈ q.aliases)
    (hclash : ¬ Clashes given a) : q.aliases.count a = 1 :=
  Nat.le_antisymm (h.once a hclash) (List.count_pos_iff.mpr ha)

end Sql.Query

namespace SqlStage

variable {st st' left right : SqlStage} {rule : JoinRule}

/-- What compilation keeps of a stage: its aliases are those of sources or of the derived tables so
far, and its query is sound with all queries inside. -/
structure Scoped (given : String → Prop) (derived : Nat) (st : SqlStage) : Prop where
  closed : st.Closed
  joins : Sql.JoinsWithin [st.source.aliasName] st.joins
  origin : ∀ t ∈ st.tables, given t ∨ ∃ n, 0 < n ∧ n ≤ derived ∧ t = derivedAlias n
  once : ∀ a, ¬ Clashes given a → st.tables.count a ≤ 1
  inner : ∀ q ∈ st.source.selects ++ Sql.joinsSelects st.joins, q.Sound given

theorem Scoped.mono (h : st.Scoped given derived) {derived' : Nat} (hle : derived ≤ derived') :
    st.Scoped given derived' where
  closed := h.closed
  joins := h.joins
  origin t ht := (h.origin t ht).imp_right fun ⟨n, hpos, hn, heq⟩ =>
    ⟨n, hpos, Nat.le_trans hn hle, heq⟩
  once := h.once
  inner := h.inner

theorem Refines.scoped (h : st.Refines st') (hst : st.Scoped given derived) :
    st'.Scoped given derived where
  closed := h.closed hst.closed
  joins := by
    rw [h.source, h.joins]
    exact hst.joins
  origin := h.tables ▸ hst.origin
  once := h.tables ▸ hst.once
  inner := by
    rw [h.source, h.joins]
    exact hst.inner

theorem Closed.aliases_select (h : st.Closed) : st.select.aliases = st.tables := h.tables.symm

theorem selectItem_within {tables : List String} {item : SchemaItem Expr}
    (h : item.Within tables) (i : Nat) : (selectItem item i).Within tables := by
  cases item with
  | column c => exact h
  | openSource q t => exact h

theorem Closed.select_wellScoped (h : st.Closed)
    (hjoins : Sql.JoinsWithin [st.source.aliasName] st.joins) : st.select.WellScoped where
  projection item hitem := by
    obtain ⟨⟨schemaItem, i⟩, hmem, rfl⟩ := List.mem_map.mp hitem
    rw [h.aliases_select]
    refine selectItem_within (h.schema schemaItem ?_) i
    exact List.mem_of_getElem? (List.mem_zipIdx_iff_getElem?.mp hmem)
  filters p hp := by
    rw [h.aliases_select]
    exact h.filters p hp
  joins := hjoins

theorem Scoped.select (h : st.Scoped given derived) : ∀ q ∈ st.select.selects, q.Sound given := by
  have hselect : st.select.Sound given :=
    ⟨h.closed.select_wellScoped h.joins, h.closed.aliases_select ▸ h.once⟩
  exact List.forall_mem_cons.mpr ⟨hselect, h.inner⟩

theorem Scoped.joinedSide_selects (h : right.Scoped given derived) (rule : JoinRule)
    (aliasName : String) : ∀ q ∈ (right.joinedSide rule aliasName).item.selects, q.Sound given := by
  cases hd : right.needsDerived rule with
  | true =>
    rw [joinedSide_derived hd]
    exact h.select
  | false =>
    rw [joinedSide_plain hd]
    exact fun q hq => h.inner q (List.mem_append_left _ hq)

/-- The item of a join has an alias of its own, unless that clashes. -/
theorem Scoped.joinedSide_new (hl : left.Scoped given derived)
    (hfuse : left.canFuse right rule = true) {n : Nat}
    (hn : n = if right.needsDerived rule then derived + 1 else derived) {a : String}
    (ha : a ∈ (right.joinedSide rule (derivedAlias n)).tables) (hclash : ¬ Clashes given a) :
    a ∉ left.tables := by
  cases hd : right.needsDerived rule with
  | true =>
    rw [hd, if_pos rfl] at hn
    rw [joinedSide_derived hd] at ha
    obtain rfl := List.mem_singleton.mp ha
    intro hmem
    obtain hgiven | ⟨m, _, hm, heq⟩ := hl.origin _ hmem
    · exact hclash ⟨hgiven, n, by omega, rfl⟩
    · have := derivedAlias_injective heq
      omega
  | false =>
    rw [joinedSide_plain hd] at ha
    exact disjoint_of_canFuse hfuse a ha

theorem Scoped.joinedSide_origin (hr : right.Scoped given derived) {n : Nat}
    (hn : n = if right.needsDerived rule then derived + 1 else derived) :
    ∀ t ∈ (right.joinedSide rule (derivedAlias n)).tables,
      given t ∨ ∃ m, 0 < m ∧ m ≤ n ∧ t = derivedAlias m := by
  cases hd : right.needsDerived rule with
  | true =>
    rw [hd, if_pos rfl] at hn
    rw [joinedSide_derived hd]
    intro t ht
    exact .inr ⟨n, by omega, Nat.le_refl n, List.mem_singleton.mp ht⟩
  | false =>
    rw [hd, if_neg Bool.false_ne_true] at hn
    rw [joinedSide_plain hd, hn]
    exact hr.origin

/-- A side brings one alias, which the left side has only where the two clash. -/
theorem Scoped.fuse (hl : left.Scoped given derived) (hr : right.Scoped given derived)
    (hfuse : left.canFuse right rule = true) {n : Nat}
    (hn : n = if right.needsDerived rule then derived + 1 else derived)
    (h : left.fuse right rule (derivedAlias n) = .ok st) : st.Scoped given n := by
  have hclosed := hl.closed.fuse hr.closed h
  have hside := hr.closed.joinedSide rule (derivedAlias n)
  have hnew {a : String} (ha : a ∈ _) := hl.joinedSide_new hfuse hn (a := a) ha
  have horigin := hr.joinedSide_origin hn
  have hinner := hr.joinedSide_selects rule (derivedAlias n)
  obtain ⟨l, r, hkeyl, hkeyr, rfl⟩ := fuse_eq_ok h
  clear h
  generalize right.joinedSide rule (derivedAlias n) = side at *
  obtain ⟨htables, hschema, hon⟩ := hside
  have hsub := List.subset_append_left left.tables side.tables
  have hsub' := List.subset_append_right left.tables side.tables
  constructor
  case closed => exact hclosed
  case joins =>
    refine Sql.joinsWithin_append.mpr ⟨hl.joins, Sql.joinsWithin_singleton.mpr ?_⟩
    have hscope : left.source.aliasName :: left.joins.map (·.item.aliasName) ++
        [side.item.aliasName] = left.tables ++ side.tables := by rw [htables, hl.closed.tables]
    show ∀ p ∈ Predicate.mk l .eq (.expr r) :: side.on,
      Named (left.source.aliasName :: left.joins.map (·.item.aliasName) ++
        [side.item.aliasName]) p.columns
    rw [hscope]
    refine List.forall_mem_cons.mpr ⟨?_, fun p hp => (hon p hp).mono hsub'⟩
    exact ((hl.closed.schema.expr hkeyl).mono hsub).append ((hschema.expr hkeyr).mono hsub')
  case origin =>
    intro t ht
    rcases List.mem_append.mp ht with ht | ht
    · refine (hl.origin t ht).imp_right fun ⟨m, hpos, hm, heq⟩ => ⟨m, hpos, ?_, heq⟩
      split at hn <;> omega
    · exact horigin t ht
  case once =>
    intro a ha
    show List.count a (left.tables ++ side.tables) ≤ 1
    rw [List.count_append]
    by_cases hmem : a ∈ side.tables
    · rw [List.count_eq_zero_of_not_mem (hnew hmem ha), Nat.zero_add, htables]
      exact List.count_le_length
    · rw [List.count_eq_zero_of_not_mem hmem]
      exact hl.once a ha
  case inner =>
    intro q hq
    rw [Sql.joinsSelects_append, Sql.joinsSelects_singleton, ← List.append_assoc] at hq
    rcases List.mem_append.mp hq with hq | hq
    · exact hl.inner q hq
    · exact hinner q hq

end SqlStage

def Graph.GivesAlias (steps : List Step) (a : String) : Prop := ∃ step ∈ steps, step.alias? = some a

namespace Stage

variable {steps : List Step} {stage stage' : Stage}

def Scoped (given : String → Prop) (derived : Nat) : Stage → Prop
  | .sql st => st.Scoped given derived
  | .memory .. => True

theorem Scoped.mono (h : stage.Scoped given derived) {derived' : Nat} (hle : derived ≤ derived') :
    stage.Scoped given derived' := by
  cases stage with
  | sql st => exact SqlStage.Scoped.mono h hle
  | memory node schema => trivial

theorem Becomes.scoped (h : stage.Becomes stage') (hw : stage.Scoped given derived) :
    stage'.Scoped given derived := by
  obtain ⟨st, st', rfl, rfl, href⟩ | ⟨_, _, _, _, _, rfl, _⟩ := h
  · exact href.scoped hw
  · trivial

theorem ofSource_scoped {source : SourceTable} (hgiven : given source.aliasName)
    (h : ofSource source = .ok stage) : stage.Scoped given derived := by
  unfold ofSource at h
  split at h
  · obtain rfl := Except.ok.inj h
    constructor
    case closed =>
      refine ⟨fun item hitem => ?_, List.forall_mem_nil _, rfl⟩
      dsimp only at hitem
      split at hitem
      · obtain ⟨c, _, rfl⟩ := List.mem_map.mp hitem
        intro column hcolumn
        obtain rfl := List.mem_singleton.mp hcolumn
        exact ⟨source.aliasName, List.mem_singleton_self _, rfl⟩
      · obtain rfl := List.mem_singleton.mp hitem
        exact List.mem_singleton_self source.aliasName
    case joins => trivial
    case origin => exact fun t ht => .inl (List.mem_singleton.mp ht ▸ hgiven)
    case once => exact fun a _ => List.count_le_length
    case inner => exact List.forall_mem_nil _
  · obtain ⟨path, _, h⟩ := Outcome.bind_eq_ok.mp h
    obtain rfl := Except.ok.inj h
    trivial

theorem join_scoped {left right : Stage} (hl : left.Scoped given derived)
    (hr : right.Scoped given derived) {rule : JoinRule} {derived' : Nat}
    (h : join rule left right derived = .ok (stage, derived')) :
    derived ≤ derived' ∧ stage.Scoped given derived' := by
  obtain ⟨_, _, ⟨l, r, st, rfl, rfl, hfuse, hd, hst, rfl⟩ | ⟨_, _, _, _, _, _, rfl, rfl⟩⟩ :=
    join_eq_ok h
  · exact ⟨by split at hd <;> omega, SqlStage.Scoped.fuse hl hr hfuse hd hst⟩
  · exact ⟨Nat.le_refl _, trivial⟩

end Stage

/-! ### Queries that are sent -/

/-- A spreadsheet is read whole: its query gives no alias and names no column. -/
def SourceTable.ReadWhole (s : SourceTable) (q : QueryPlan) : Prop :=
  s.kind.pushesDown = false ∧ ∃ path, Sql.quotePath s.kind.dialect s.table = .ok path ∧
    q.fragment = ⟨"SELECT * FROM " ++ path, []⟩

/-- A query reads a spreadsheet, or is the text of the `SELECT` of some stage. -/
def QueryPlan.SentBy (steps : List Step) (stages : List Stage) (q : QueryPlan) : Prop :=
  (∃ step ∈ steps, ∃ source, step.op = .source source ∧ source.ReadWhole q) ∨
    ∃ st, Stage.sql st ∈ stages ∧ st.select.write st.dialect = .ok q.fragment

namespace Stage

variable {steps : List Step} {stages : List Stage} {stage stage' : Stage}

def SendsFrom (steps : List Step) (stages : List Stage) (stage : Stage) : Prop :=
  ∀ node schema, stage.materialize = .ok (node, schema) →
    ∀ q ∈ node.queries, q.SentBy steps stages

theorem SendsFrom.mono (h : stage.SendsFrom steps stages) {stages' : List Stage}
    (hsub : stages ⊆ stages') : stage.SendsFrom steps stages' := fun node schema hm q hq =>
  (h node schema hm q hq).imp_right fun ⟨st, hst, hwrite⟩ => ⟨st, hsub hst, hwrite⟩

theorem sql_sendsFrom {st : SqlStage} (h : Stage.sql st ∈ stages) :
    SendsFrom steps stages (.sql st) := by
  intro node schema hm q hq
  obtain ⟨fragment, hwrite, hm⟩ := Outcome.bind_eq_ok.mp hm
  obtain ⟨rfl, -⟩ := Prod.mk.inj (Outcome.pure_eq_ok.mp hm)
  obtain rfl := List.mem_singleton.mp hq
  exact .inr ⟨st, h, Outcome.mapError_eq_ok.mp hwrite⟩

theorem memory_sendsFrom {node : PlanNode} {schema : Schema Unit}
    (h : ∀ q ∈ node.queries, q.SentBy steps stages) :
    SendsFrom steps stages (.memory node schema) := by
  intro node' schema' hm
  obtain ⟨rfl, -⟩ := Prod.mk.inj (Except.ok.inj hm)
  exact h

theorem Becomes.sendsFrom (h : stage.Becomes stage') (hs : stage.SendsFrom steps stages)
    (hmem : stage' ∈ stages) : stage'.SendsFrom steps stages := by
  obtain ⟨st, st', rfl, rfl, _⟩ | ⟨node, schema, node', schema', hm, rfl, hqueries⟩ := h
  · exact sql_sendsFrom hmem
  · exact memory_sendsFrom (hqueries ▸ hs node schema hm)

theorem ofSource_sendsFrom {step : Step} (hstep : step ∈ steps) {source : SourceTable}
    (hop : step.op = .source source) (h : ofSource source = .ok stage) (hmem : stage ∈ stages) :
    stage.SendsFrom steps stages := by
  unfold ofSource at h
  split at h
  · obtain rfl := Except.ok.inj h
    exact sql_sendsFrom hmem
  · rename_i hwhole
    obtain ⟨path, hpath, h⟩ := Outcome.bind_eq_ok.mp h
    obtain rfl := Except.ok.inj h
    refine memory_sendsFrom fun q hq => ?_
    obtain rfl := List.mem_singleton.mp hq
    exact .inl ⟨step, hstep, source, hop, eq_false_of_ne_true hwhole, path,
      Outcome.mapError_eq_ok.mp hpath, rfl⟩

theorem join_sendsFrom {left right : Stage} (hl : left.SendsFrom steps stages)
    (hr : right.SendsFrom steps stages) {rule : JoinRule} {derived' : Nat}
    (h : join rule left right derived = .ok (stage, derived')) (hmem : stage ∈ stages) :
    stage.SendsFrom steps stages := by
  obtain ⟨_, _, ⟨_, _, _, _, _, _, _, _, rfl⟩ | ⟨ln, ls, rn, rs, hln, hrn, _, rfl⟩⟩ :=
    join_eq_ok h
  · exact sql_sendsFrom hmem
  · refine memory_sendsFrom fun q hq => ?_
    rcases List.mem_append.mp hq with hq | hq
    · exact hl ln ls hln q hq
    · exact hr rn rs hrn q hq

end Stage

namespace Graph

variable {steps : List Step} {stages : List Stage}

theorem compileStep_scoped {steps : List Step}
    (hw : ∀ stage ∈ stages, stage.Scoped (GivesAlias steps) derived) {step : Step}
    (hstep : step ∈ steps) {derived' : Nat} {stage : Stage}
    (h : compileStep stages derived step = .ok (stage, derived')) :
    derived ≤ derived' ∧ stage.Scoped (GivesAlias steps) derived' := by
  obtain ⟨rule, left, hl, right, hr, _, hjoin⟩ | ⟨rfl, ⟨source, hop, hst⟩ | ⟨input, hi, hst⟩⟩ :=
    compileStep_becomes h
  · exact Stage.join_scoped (hw left hl) (hw right hr) hjoin
  · exact ⟨Nat.le_refl _, Stage.ofSource_scoped ⟨step, hstep, by rw [Step.alias?, hop]⟩ hst⟩
  · exact ⟨Nat.le_refl _, hst.scoped (hw input hi)⟩

theorem compileSteps_scoped (h : compileSteps [] 0 steps = .ok stages) :
    ∃ derived, ∀ stage ∈ stages, stage.Scoped (GivesAlias steps) derived := by
  refine (compileSteps_induction (P := fun st d => ∀ stage ∈ st, stage.Scoped (GivesAlias steps) d)
    ?_ (List.forall_mem_nil _) h).imp fun derived hw => hw.1
  intro st derived stage derived' step hm hw hc x hx
  obtain ⟨hle, hstage⟩ := compileStep_scoped hw hm hc
  rcases List.mem_append.mp hx with hx | hx
  · exact (hw x hx).mono hle
  · obtain rfl := List.mem_singleton.mp hx
    exact hstage

theorem compileStep_sendsFrom {step : Step} (hs : ∀ stage ∈ stages, stage.SendsFrom steps stages)
    (hstep : step ∈ steps) {derived' : Nat} {stage : Stage}
    (h : compileStep stages derived step = .ok (stage, derived')) :
    stage.SendsFrom steps (stages ++ [stage]) := by
  have hmem : stage ∈ stages ++ [stage] := List.mem_append_right _ (List.mem_singleton_self stage)
  have hs (input : Stage) (hi : input ∈ stages) : input.SendsFrom steps (stages ++ [stage]) :=
    (hs input hi).mono (List.subset_append_left _ _)
  obtain ⟨rule, left, hl, right, hr, _, hjoin⟩ | ⟨_, ⟨source, hop, hst⟩ | ⟨input, hi, hst⟩⟩ :=
    compileStep_becomes h
  · exact Stage.join_sendsFrom (hs left hl) (hs right hr) hjoin hmem
  · exact Stage.ofSource_sendsFrom hstep hop hst hmem
  · exact hst.sendsFrom (hs input hi) hmem

theorem compileSteps_sendsFrom (h : compileSteps [] 0 steps = .ok stages) :
    ∀ stage ∈ stages, stage.SendsFrom steps stages := by
  obtain ⟨_, hs, _⟩ := compileSteps_induction
    (P := fun st _ => ∀ stage ∈ st, stage.SendsFrom steps st) (fun st d stage d' step hm hs hc => by
      intro x hx
      rcases List.mem_append.mp hx with hx | hx
      · exact (hs x hx).mono (List.subset_append_left _ _)
      · obtain rfl := List.mem_singleton.mp hx
        exact compileStep_sendsFrom hs hm hc) (List.forall_mem_nil _) h
  exact hs

theorem compile_eq_ok {g : Graph} {plan : Plan} (h : g.compile = .ok plan) :
    ∃ stages stage schema, compileSteps [] 0 g.steps = .ok stages ∧ stage ∈ stages ∧
      stage.materialize = .ok (plan.root, schema) := by
  obtain ⟨stage, hstage, h⟩ := Outcome.bind_eq_ok.mp h
  obtain ⟨⟨root, schema⟩, hm, h⟩ := Outcome.bind_eq_ok.mp h
  obtain rfl := Outcome.pure_eq_ok.mp h
  obtain ⟨stages, hstages, hstage⟩ := Outcome.bind_eq_ok.mp hstage
  split at hstage
  · rename_i found hfound
    obtain rfl := Outcome.pure_eq_ok.mp hstage
    exact ⟨stages, found, schema, hstages, List.mem_of_getElem? hfound, hm⟩
  · cases hstage

/-- Every `SELECT` that is built for a graph, and every one inside, is well scoped, and an alias
stands in it once, unless a source has the alias of a derived table. The queries of the plan are
these, and those of spreadsheets. -/
theorem compile_wellScoped {g : Graph} {plan : Plan} (h : g.compile = .ok plan) :
    ∃ stages, compileSteps [] 0 g.steps = .ok stages ∧
      (∀ st, Stage.sql st ∈ stages → ∀ q ∈ st.select.selects, q.WellScoped ∧
        ∀ a ∈ q.aliases, ¬ Clashes (GivesAlias g.steps) a → q.aliases.count a = 1) ∧
      ∀ q ∈ plan.root.queries, q.SentBy g.steps stages := by
  obtain ⟨stages, stage, schema, hstages, hmem, hm⟩ := compile_eq_ok h
  obtain ⟨derived, hscoped⟩ := compileSteps_scoped hstages
  refine ⟨stages, hstages, fun st hst q hq => ?_, ?_⟩
  · have hsound := SqlStage.Scoped.select (hscoped _ hst) q hq
    exact ⟨hsound.wellScoped, fun a => hsound.count_eq_one⟩
  · exact compileSteps_sendsFrom hstages stage hmem plan.root schema hm

end Graph

/-- The aliases of the `SELECT` that a stage is, of which a stage in memory has none. -/
def Stage.aliases : Stage → List String
  | .sql st => st.select.aliases
  | .memory .. => []

theorem Stage.exists_of_aliases {stage : Stage} (h : stage.aliases ≠ []) :
    ∃ st, stage = .sql st := by
  cases stage with
  | sql st => exact ⟨st, rfl⟩
  | memory node schema => exact absurd rfl h

namespace Pipeline

/-- People with the totals of their orders. A total is computed, so the join has a derived table,
which is the first of the plan. -/
def totalsOfPeople (peopleAlias : String) : Pipeline where
  nodes := [
    ⟨"people", .source, .object [("connection", .text "shop"), ("table", .text "people"),
      ("alias", .text peopleAlias),
      ("columns", .list [.object [("name", .text "id"), ("type", .text "integer")]])]⟩,
    ⟨"orders", .source, .object [("connection", .text "shop"), ("table", .text "orders"),
      ("columns", .list [.object [("name", .text "person")], .object [("name", .text "price")]])]⟩,
    ⟨"total", .arithmetic, .object [
      ("operands", .list [.object [("column", .text "orders.price")],
        .object [("column", .text "orders.price")]]),
      ("operator", .text "+"), ("outputColumn", .text "total")]⟩,
    ⟨"both", .join, .object [("left", .text "people"), ("right", .text "total"),
      ("leftColumn", .text (peopleAlias ++ ".id")), ("rightColumn", .text "orders.person"),
      ("joinType", .text "left")]⟩,
    ⟨"out", .sink, .object []⟩]
  edges := [⟨"people", "both"⟩, ⟨"orders", "total"⟩, ⟨"total", "both"⟩, ⟨"both", "out"⟩]
  sink := ⟨"report", [], .replace⟩
  policy := .nullOut

def aliasesOfTotals (peopleAlias : String) : Option (List (List String)) := do
  let g ← ((totalsOfPeople peopleAlias).toGraph
    [⟨"shop", .postgres, "", none, "", "", none, none, none⟩]).toOption
  let _ ← g.compile.toOption
  let stages ← (Graph.compileSteps [] 0 g.steps).toOption
  return stages.map Stage.aliases

theorem aliasesOfTotals_eq_some (peopleAlias : String) {aliases : List (List String)}
    (h : aliasesOfTotals peopleAlias = some aliases) :
    ∃ g plan stages, (totalsOfPeople peopleAlias).toGraph
        [⟨"shop", .postgres, "", none, "", "", none, none, none⟩] = .ok g ∧
      g.compile = .ok plan ∧ Graph.compileSteps [] 0 g.steps = .ok stages ∧
      stages.map Stage.aliases = aliases := by
  obtain ⟨g, hg, h⟩ := Option.bind_eq_some_iff.mp h
  obtain ⟨plan, hplan, h⟩ := Option.bind_eq_some_iff.mp h
  obtain ⟨stages, hstages, h⟩ := Option.bind_eq_some_iff.mp h
  exact ⟨g, plan, stages, Outcome.toOption_eq_some.mp hg, Outcome.toOption_eq_some.mp hplan,
    Outcome.toOption_eq_some.mp hstages, Option.some.inj h⟩

theorem compile_totalsOfPeople :
    ∃ g plan stages, (totalsOfPeople "p").toGraph
        [⟨"shop", .postgres, "", none, "", "", none, none, none⟩] = .ok g ∧
      g.compile = .ok plan ∧ Graph.compileSteps [] 0 g.steps = .ok stages ∧
      stages.map Stage.aliases = [["p"], ["orders"], ["orders"], ["p", "__d1"]] ∧
      (∀ st, Stage.sql st ∈ stages → ∀ q ∈ st.select.selects, q.WellScoped ∧
        ∀ a ∈ q.aliases, ¬ Clashes (Graph.GivesAlias g.steps) a → q.aliases.count a = 1) ∧
      ∀ q ∈ plan.root.queries, q.SentBy g.steps stages := by
  obtain ⟨g, plan, stages, hg, hplan, hstages, haliases⟩ := aliasesOfTotals_eq_some "p"
    (show _ = some [["p"], ["orders"], ["orders"], ["p", "__d1"]] by decide +kernel)
  obtain ⟨stages', hstages', hscoped⟩ := Graph.compile_wellScoped hplan
  obtain rfl := Except.ok.inj (hstages.symm.trans hstages')
  exact ⟨g, plan, stages, hg, hplan, hstages, haliases, hscoped⟩

/-- A source may be given the alias of the derived table that it is joined with. Then two items of
a `SELECT` have one alias. -/
theorem compile_totalsOfPeople_clashes :
    ∃ g plan stages st, (totalsOfPeople "__d1").toGraph
        [⟨"shop", .postgres, "", none, "", "", none, none, none⟩] = .ok g ∧
      g.compile = .ok plan ∧ Graph.compileSteps [] 0 g.steps = .ok stages ∧
      Stage.sql st ∈ stages ∧ ¬ st.select.aliases.Nodup := by
  obtain ⟨g, plan, stages, hg, hplan, hstages, haliases⟩ := aliasesOfTotals_eq_some "__d1"
    (show _ = some [["__d1"], ["orders"], ["orders"], ["__d1", "__d1"]] by decide +kernel)
  have hmem : ["__d1", "__d1"] ∈ stages.map Stage.aliases := by
    rw [haliases]
    decide
  obtain ⟨stage, hstage, htwice⟩ := List.mem_map.mp hmem
  obtain ⟨st, rfl⟩ := Stage.exists_of_aliases (htwice ▸ List.cons_ne_nil _ _)
  have htwice : st.select.aliases = ["__d1", "__d1"] := htwice
  exact ⟨g, plan, stages, st, hg, hplan, hstages, hstage, by rw [htwice]; decide⟩

end Pipeline

end TablePipeline
