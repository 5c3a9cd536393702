import TablePipeline.Proofs.Graph.Acceptance
import TablePipeline.Proofs.Plan.Aliases
import TablePipeline.Proofs.Plan.Landing
import TablePipeline.Proofs.Sql.Unambiguous

/-!
# Select lists and layouts

A query that is sent to a database has one item in its select list for each item of its layout, of
the same sort. The writer puts a bare star for an empty list. Only a source that declares no column
at all leads to one: its layout has no place for any column that the database then answers with.
-/

set_option autoImplicit false

namespace TablePipeline

open Sql (SelectItem Query)

namespace Sql

/-- An expression stands for one column of a layout, and the columns of a table for a wildcard. -/
def SelectItem.Fills : SelectItem → LayoutItem → Prop
  | .expr _ _, .column _ => True
  | .wildcard _, .wildcard _ _ => True
  | _, _ => False

theorem SelectItem.fills_normal (item : SelectItem) (l : LayoutItem) :
    item.normal.Fills l ↔ item.Fills l := by
  cases item <;> cases l <;> exact Iff.rfl

theorem SelectItem.answers_normal (item : SelectItem) (names : List String) :
    item.normal.Answers names ↔ item.Answers names := by
  cases item <;> exact Iff.rfl

/-! ### Select lists in normal forms -/

theorem Query.projection_normal (q : Query) :
    q.normal.projection = q.projection.map SelectItem.normal := by
  cases q
  rw [normal]
  rfl

mutual

theorem Query.selects_normal : ∀ q : Query, q.normal.selects = q.selects.map Query.normal
  | .mk projection source joins filters => by
    rw [Query.normal, Query.selects, Query.selects, List.map_cons, List.map_append,
      FromItem.selects_normal source, joinsSelects_normal joins, Query.normal]

theorem FromItem.selects_normal :
    ∀ item : FromItem, item.normal.selects = item.selects.map Query.normal
  | .table _ _ => by rw [FromItem.normal, FromItem.selects, FromItem.selects, List.map_nil]
  | .derived query _ => by
    rw [FromItem.normal, FromItem.selects, FromItem.selects, Query.selects_normal query]

theorem joinsSelects_normal :
    ∀ js : List Join, joinsSelects (normalJoins js) = (joinsSelects js).map Query.normal
  | [] => by rw [normalJoins, joinsSelects, List.map_nil]
  | .mk _ item _ :: js => by
    rw [normalJoins, Join.normal, joinsSelects, joinsSelects, List.map_append,
      FromItem.selects_normal item, joinsSelects_normal js]

end

def Query.inner (q : Query) : List Query := q.source.selects ++ joinsSelects q.joins

theorem Query.inner_normal (q : Query) : q.normal.inner = q.inner.map Query.normal := by
  have hselects := q.selects_normal
  cases q
  rw [normal, selects, selects, List.map_cons] at hselects
  rw [normal]
  exact (List.cons.inj hselects).2

section
variable {q q' : Query} (h : q.normal = q'.normal)
include h

/-- What an item has in common with its normal form is alike in queries that are written alike. -/
theorem Query.forall₂_projection {β : Type} {R : SelectItem → β → Prop}
    (hR : ∀ item b, R item.normal b ↔ R item b) {bs : List β}
    (hq : List.Forall₂ R q.projection bs) : List.Forall₂ R q'.projection bs := by
  have hmap : q.projection.map SelectItem.normal = q'.projection.map SelectItem.normal := by
    rw [← projection_normal, ← projection_normal, h]
  have hnormal : List.Forall₂ R (q.projection.map SelectItem.normal) bs :=
    List.forall₂_map_left_iff.mpr (hq.imp fun item b => (hR item b).mpr)
  rw [hmap, List.forall₂_map_left_iff] at hnormal
  exact hnormal.imp fun item b => (hR item b).mp

theorem Query.projection_eq_nil (hq : q.projection = []) : q'.projection = [] := by
  have hmap := projection_normal q
  rw [h, projection_normal, hq] at hmap
  exact List.map_eq_nil_iff.mp hmap

theorem Query.forall_inner (hq : ∀ i ∈ q.inner, i.projection ≠ []) :
    ∀ i ∈ q'.inner, i.projection ≠ [] := by
  intro i hi hnil
  have hmem : i.normal ∈ q.inner.map Query.normal := by
    rw [← inner_normal, h, inner_normal]
    exact List.mem_map_of_mem hi
  obtain ⟨j, hj, hnormal⟩ := List.mem_map.mp hmem
  exact hq j hj (projection_eq_nil hnormal.symm hnil)

end

end Sql

namespace SqlStage

theorem select_fills (st : SqlStage) :
    List.Forall₂ SelectItem.Fills st.select.projection st.layout := by
  show List.Forall₂ _ ((st.schema.zipIdx 0).map _) (st.schema.map layoutItem)
  generalize 0 = k
  induction st.schema generalizing k with
  | nil => exact .nil
  | cons item s ih =>
    refine .cons ?_ (ih (k + 1))
    cases item <;> trivial

end SqlStage

/-- Without a place for it no column of an answer is taken. -/
theorem Frame.ofResult_nil {answer : RowSet} (h : answer.columns ≠ []) :
    ofResult [] answer = .error (.width answer.columns.length 0) := by
  have hlength : answer.columns.length ≠ 0 := mt List.eq_nil_of_length_eq_zero h
  have hwidth : Layout.openWidth [] answer = .error (.width answer.columns.length 0) := by
    unfold Layout.openWidth
    dsimp only
    rw [if_neg (by decide), if_neg fun h => hlength h.1, if_neg]
    · rfl
    · rintro ⟨-, hone | hzero⟩
      · cases hone
      · exact hlength hzero
  unfold ofResult
  rw [hwidth]
  rfl

theorem NodeConfig.sourceTable_kind {connections : List Connection} {node : Node}
    {source : SourceTable} (h : sourceTable connections node = .ok source) :
    ∃ c, Connection.find? connections source.connection = some c ∧ c.kind = source.kind := by
  obtain ⟨entry, _, h⟩ := Outcome.bind_eq_ok.mp h
  dsimp only at h
  split at h
  · rename_i c hc
    obtain ⟨d, hd, h⟩ := Outcome.bind_eq_ok.mp h
    obtain rfl := Outcome.pure_eq_ok.mp hd
    obtain ⟨_, _, h⟩ := Outcome.bind_eq_ok.mp h
    obtain ⟨_, _, h⟩ := Outcome.bind_eq_ok.mp h
    obtain ⟨_, _, h⟩ := Outcome.bind_eq_ok.mp h
    obtain rfl := Outcome.pure_eq_ok.mp h
    exact ⟨c, hc, rfl⟩
  · cases h

namespace Pipeline

variable {p : Pipeline} {connections : List Connection} {g : Graph}

/-- A source has the kind of its connection. -/
theorem find?_of_reads (h : p.toGraph connections = .ok g) {source : SourceTable}
    (hreads : Graph.Reads g.steps source) :
    ∃ c, Connection.find? connections source.connection = some c ∧ c.kind = source.kind := by
  obtain ⟨edges, sink, order, _, _, _, _, _, _, hsteps, _⟩ := toGraph_eq_ok.mp h
  obtain ⟨step, hstep, hop⟩ := hreads
  obtain ⟨n, _, _, hmade⟩ := Outcome.exists_of_forall₂ (buildSteps_eq_ok.mp hsteps).1.flip hstep
  rw [hop] at hmade
  have htable := NodeConfig.sourceTable_of_operation (operation_of_stepOf hmade).1
  exact NodeConfig.sourceTable_kind htable

theorem exists_based (hg : p.toGraph connections = .ok g) {plan : Plan}
    (hplan : g.compile = .ok plan) {q : QueryPlan} (hq : q ∈ plan.root.queries) {c : Connection}
    (hc : Connection.find? connections q.connection = some c) (hpush : c.kind.pushesDown = true) :
    ∃ st : SqlStage, st.Based g.steps ∧ st.connection = q.connection ∧ st.layout = q.layout ∧
      st.select.write c.kind.dialect = .ok q.fragment := by
  obtain ⟨stages, stage, schema, hstages, hmem, hm⟩ := Graph.compile_eq_ok hplan
  obtain ⟨source, hreads, hwhole, hconnection⟩ | ⟨st, hst, hconnection, hlayout, hwrite⟩ :=
    (Graph.compileSteps_based hstages stage hmem).queries hm q hq
  · obtain ⟨c', hc', hkind⟩ := find?_of_reads hg hreads
    rw [hconnection, hc] at hc'
    obtain rfl := Option.some.inj hc'
    rw [← hkind, hpush] at hwhole
    cases hwhole
  · obtain ⟨source, hreads, hsource, hkind, _⟩ := hst.base
    obtain ⟨c', hc', hkind'⟩ := find?_of_reads hg hreads
    rw [hsource, hconnection, hc] at hc'
    obtain rfl := Option.some.inj hc'
    refine ⟨st, hst, hconnection, hlayout, ?_⟩
    rw [hkind', hkind]
    exact hwrite

/-- The select list of a query to a database has one item for each item of its layout, of the same
sort, and any answer to it becomes a frame. The list is empty, which is written as a star, only if
some source of the connection declares no column; then no answer with a column is taken. No derived
table has an empty list. -/
theorem compile_selectLists (hg : p.toGraph connections = .ok g) {plan : Plan}
    (hplan : g.compile = .ok plan) {q : QueryPlan} (hq : q ∈ plan.root.queries) {c : Connection}
    (hc : Connection.find? connections q.connection = some c) (hpush : c.kind.pushesDown = true) :
    (∃ query : Query, query.write c.kind.dialect = .ok q.fragment) ∧
    ∀ query : Query, query.write c.kind.dialect = .ok q.fragment →
      List.Forall₂ SelectItem.Fills query.projection q.layout ∧
      (∀ inner ∈ query.inner, inner.projection ≠ []) ∧
      (query.projection = [] → ∃ source, Graph.Reads g.steps source ∧
        source.connection = q.connection ∧ source.columns = some []) ∧
      (∀ (answer : RowSet) (names : List (List String)),
        List.Forall₂ SelectItem.Answers query.projection names →
        answer.columns = names.flatten → ∃ f, Frame.ofResult q.layout answer = .ok f) ∧
      (query.projection = [] → ∀ answer : RowSet, answer.columns ≠ [] →
        Frame.ofResult q.layout answer = .error (.width answer.columns.length 0)) := by
  obtain ⟨st, hst, hconnection, hlayout, hwrite⟩ := exists_based hg hplan hq hc hpush
  refine ⟨⟨st.select, hwrite⟩, fun query hquery => ?_⟩
  have hnormal : st.select.normal = query.normal :=
    (Query.written_alike_iff hwrite hquery).mp rfl
  have hempty : query.projection = [] → st.schema = [] := by
    intro hnil
    by_contra hschema
    exact SqlStage.projection_ne_nil hschema (Query.projection_eq_nil hnormal.symm hnil)
  rw [← hlayout]
  refine ⟨?fills, ?inner, fun hnil => ?declared, fun answer names hanswers hcolumns => ?lands,
    fun hnil answer hanswer => ?refused⟩
  case fills => exact Query.forall₂_projection hnormal SelectItem.fills_normal st.select_fills
  case inner => exact Query.forall_inner hnormal hst.inner
  case declared =>
    obtain ⟨source, hreads, hsource, _, hsourceEmpty⟩ := hst.base
    exact ⟨source, hreads, hsource.trans hconnection, hsourceEmpty (hempty hnil)⟩
  case lands =>
    have hanswers := Query.forall₂_projection hnormal.symm SelectItem.answers_normal hanswers
    exact ⟨_, (SqlStage.ofResult_answer hst.opens hanswers hcolumns).1⟩
  case refused =>
    rw [SqlStage.layout, hempty hnil]
    exact Frame.ofResult_nil hanswer

def peopleDeclaring (columns : List Json) : Pipeline where
  nodes := [
    ⟨"people", .source, .object [("connection", .text "shop"), ("table", .text "people"),
      ("columns", .list columns)]⟩,
    ⟨"out", .sink, .object []⟩]
  edges := [⟨"people", "out"⟩]
  sink := ⟨"report", [], .replace⟩
  policy := .nullOut

def shop : Connection := ⟨"shop", .postgres, "", none, "", "", none, none, none⟩

def planOver (p : Pipeline) : Option Plan := do
  let g ← (p.toGraph [shop]).toOption
  g.compile.toOption

theorem planOver_eq_some {p : Pipeline} {plan : Plan} (h : planOver p = some plan) :
    ∃ g, p.toGraph [shop] = .ok g ∧ g.compile = .ok plan := by
  obtain ⟨g, hg, hplan⟩ := Option.bind_eq_some_iff.mp h
  exact ⟨g, Outcome.toOption_eq_some.mp hg, Outcome.toOption_eq_some.mp hplan⟩

def idOfPeople : QueryPlan where
  connection := "shop"
  fragment := ⟨"SELECT \"people\".\"id\" AS \"__c0\" FROM \"people\" \"people\"", []⟩
  layout := [.column ⟨some "people", "id", none⟩]

theorem compile_selectLists_idOfPeople :
    ∃ (g : Graph) (plan : Plan) (query : Query),
      (peopleDeclaring [.object [("name", .text "id")]]).toGraph [shop] = .ok g ∧
      g.compile = .ok plan ∧ plan.root = .query idOfPeople ∧
      query.write .postgres = .ok idOfPeople.fragment ∧
      List.Forall₂ SelectItem.Fills query.projection idOfPeople.layout ∧
      query.projection ≠ [] := by
  obtain ⟨g, hg, hplan⟩ := planOver_eq_some
    (show planOver (peopleDeclaring [.object [("name", .text "id")]]) =
      some ⟨.query idOfPeople, ⟨"report", [], .replace⟩, .nullOut⟩ by decide +kernel)
  have hq : idOfPeople ∈ (PlanNode.query idOfPeople).queries := List.mem_singleton_self _
  have hc : Connection.find? [shop] idOfPeople.connection = some shop := rfl
  obtain ⟨⟨query, hwrite⟩, hquery⟩ := compile_selectLists hg hplan hq hc rfl
  obtain ⟨hfills, -⟩ := hquery query hwrite
  refine ⟨g, _, query, hg, hplan, rfl, hwrite, hfills, ?_⟩
  intro hnil
  rw [hnil] at hfills
  cases hfills

def nothingOfPeople : QueryPlan where
  connection := "shop"
  fragment := ⟨"SELECT * FROM \"people\" \"people\"", []⟩
  layout := []

/-- A source may declare that it has no columns. Then the list is a star, and what the database
answers with is refused. -/
theorem compile_selectLists_nothingOfPeople :
    ∃ g plan, (peopleDeclaring []).toGraph [shop] = .ok g ∧ g.compile = .ok plan ∧
      plan.root = .query nothingOfPeople ∧
      Frame.ofResult nothingOfPeople.layout ⟨["id"], [[.integer 1]]⟩ = .error (.width 1 0) := by
  obtain ⟨g, hg, hplan⟩ := planOver_eq_some
    (show planOver (peopleDeclaring []) =
      some ⟨.query nothingOfPeople, ⟨"report", [], .replace⟩, .nullOut⟩ by decide +kernel)
  exact ⟨g, _, hg, hplan, rfl, rfl⟩

end Pipeline

end TablePipeline
