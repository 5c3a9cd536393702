import TablePipeline.Proofs.Plan.Failures
import TablePipeline.Proofs.Plan.Scoping

/-!
# What stages are based on

A stage of SQL stays on the connection of its leftmost source, and keeps a schema with a column or
an open source unless that source declares no column at all: a join needs a column on both sides,
so no derived table is without one. The queries of a plan are those of such stages and of
spreadsheets.
-/

set_option autoImplicit false

namespace TablePipeline

open Sql (Expr)

theorem Schema.ne_nil_of_find {ε : Type} {s : Schema ε} {r : Reference} {x : Resolved ε}
    (h : s.find r = .ok x) : s ≠ [] := by
  rintro rfl
  have hresolved : resolve (ofColumns []) r = .ok x := find_eq_ok.mp h
  obtain ⟨_, _, _, hc, _⟩ := resolve_ofColumns hresolved
  cases hc

theorem Schema.ne_nil_of_expr {s : Schema Expr} {r : Reference} {e : Expr}
    (h : s.expr r = .ok e) : s ≠ [] := by
  obtain ⟨_, hx, _⟩ := Outcome.bind_eq_ok.mp h
  exact ne_nil_of_find hx

def Graph.Reads (steps : List Step) (source : SourceTable) : Prop :=
  ∃ step ∈ steps, step.op = .source source

namespace SqlStage

/-- What compilation keeps of a stage: the source that it began with, and that all derived tables
inside show a column. -/
structure Based (steps : List Step) (st : SqlStage) : Prop where
  opens : st.schema.opens.length ≤ 1
  base : ∃ source, Graph.Reads steps source ∧ source.connection = st.connection ∧
    source.kind = st.kind ∧ (st.schema = [] → source.columns = some [])
  inner : ∀ q ∈ st.source.selects ++ Sql.joinsSelects st.joins, q.projection ≠ []

variable {steps : List Step} {st st' left right : SqlStage} {rule : JoinRule}

theorem projection_ne_nil (h : st.schema ≠ []) : st.select.projection ≠ [] := by
  show st.schema.zipIdx.map _ ≠ []
  rwa [ne_eq, List.map_eq_nil_iff, List.zipIdx_eq_nil_iff]

theorem Refines.based (h : st.Refines st') (hst : st.Based steps) : st'.Based steps where
  opens := Nat.le_trans h.opens hst.opens
  base := by
    obtain ⟨source, hreads, hconnection, hkind, hempty⟩ := hst.base
    refine ⟨source, hreads, hconnection.trans h.connection.symm, hkind.trans h.kind.symm, ?_⟩
    intro hnil
    have hwidth := h.width
    rw [hnil] at hwidth
    exact hempty (List.eq_nil_of_length_eq_zero (Nat.le_zero.mp hwidth))
  inner := by
    rw [h.source, h.joins]
    exact hst.inner

theorem Based.joinedSide (h : right.Based steps) {aliasName : String}
    (hside : (right.joinedSide rule aliasName).schema ≠ []) :
    ∀ q ∈ (right.joinedSide rule aliasName).item.selects, q.projection ≠ [] := by
  cases hd : right.needsDerived rule with
  | true =>
    rw [joinedSide_derived hd] at hside ⊢
    have hschema : right.schema ≠ [] := by
      rintro hnil
      exact hside (by rw [hnil]; rfl)
    exact List.forall_mem_cons.mpr ⟨projection_ne_nil hschema, h.inner⟩
  | false =>
    rw [joinedSide_plain hd]
    exact fun q hq => h.inner q (List.mem_append_left _ hq)

theorem Based.fuse (hl : left.Based steps) (hr : right.Based steps)
    (hfuse : left.canFuse right rule = true) {aliasName : String}
    (h : left.fuse right rule aliasName = .ok st) : st.Based steps := by
  obtain ⟨_, hopens⟩ := of_canFuse hfuse
  obtain ⟨_, _, hkeyl, hkeyr, rfl⟩ := fuse_eq_ok h
  have hinner := hr.joinedSide (Schema.ne_nil_of_expr hkeyr)
  obtain ⟨source, hreads, hconnection, hkind, _⟩ := hl.base
  constructor
  case opens =>
    show Nat.le (Schema.opens (_ ++ _)).length 1
    rw [Schema.opens_append, List.length_append, opens_joinedSide]
    exact hopens
  case base =>
    refine ⟨source, hreads, hconnection, hkind, fun hnil => ?_⟩
    exact (Schema.ne_nil_of_expr hkeyl (List.append_eq_nil_iff.mp hnil).1).elim
  case inner =>
    intro q hq
    rw [Sql.joinsSelects_append, Sql.joinsSelects_singleton, ← List.append_assoc] at hq
    rcases List.mem_append.mp hq with hq | hq
    · exact hl.inner q hq
    · exact hinner q hq

end SqlStage

/-! ### Plans -/

/-- A query reads a spreadsheet whole, or is the `SELECT` of a stage with its layout. -/
def QueryPlan.Based (steps : List Step) (q : QueryPlan) : Prop :=
  (∃ source, Graph.Reads steps source ∧ source.kind.pushesDown = false ∧
    source.connection = q.connection) ∨
  ∃ st : SqlStage, st.Based steps ∧ st.connection = q.connection ∧ st.layout = q.layout ∧
    st.select.write st.dialect = .ok q.fragment

namespace Stage

/-- A stage of SQL is based on a source, and a plan sends queries of such stages. -/
def Based (steps : List Step) : Stage → Prop
  | .sql st => st.Based steps
  | .memory node _ => ∀ q ∈ node.queries, q.Based steps

variable {steps : List Step} {stage stage' : Stage}

theorem Based.queries (h : stage.Based steps) {node : PlanNode} {schema : Schema Unit}
    (hm : stage.materialize = .ok (node, schema)) : ∀ q ∈ node.queries, q.Based steps := by
  cases stage with
  | sql st =>
    obtain ⟨fragment, hwrite, hm⟩ := Outcome.bind_eq_ok.mp hm
    obtain ⟨rfl, -⟩ := Prod.mk.inj (Outcome.pure_eq_ok.mp hm)
    intro q hq
    obtain rfl := List.mem_singleton.mp hq
    exact .inr ⟨st, h, rfl, rfl, Outcome.mapError_eq_ok.mp hwrite⟩
  | memory node' schema' =>
    obtain ⟨rfl, -⟩ := Prod.mk.inj (Except.ok.inj hm)
    exact h

theorem Becomes.based (h : stage.Becomes stage') (hb : stage.Based steps) :
    stage'.Based steps := by
  obtain ⟨st, st', rfl, rfl, href⟩ | ⟨node, schema, node', schema', hm, rfl, hqueries⟩ := h
  · exact href.based hb
  · exact fun q hq => hb.queries hm q (hqueries ▸ hq)

theorem ofSource_based {source : SourceTable} (hreads : Graph.Reads steps source)
    (h : ofSource source = .ok stage) : stage.Based steps := by
  unfold ofSource at h
  split at h
  · obtain rfl := Except.ok.inj h
    refine ⟨?opens, ⟨source, hreads, rfl, rfl, ?empty⟩, List.forall_mem_nil _⟩
    case opens =>
      dsimp only
      split
      · rw [Schema.opens_map_column]
        exact Nat.zero_le 1
      · exact Nat.le_refl 1
    case empty =>
      dsimp only
      split
      · rename_i columns hcolumns
        rw [List.map_eq_nil_iff]
        rintro rfl
        exact hcolumns
      · nofun
  · rename_i hwhole
    obtain ⟨path, _, h⟩ := Outcome.bind_eq_ok.mp h
    obtain rfl := Except.ok.inj h
    intro q hq
    obtain rfl := List.mem_singleton.mp hq
    exact .inl ⟨source, hreads, eq_false_of_ne_true hwhole, rfl⟩

theorem join_based {left right : Stage} (hl : left.Based steps) (hr : right.Based steps)
    {rule : JoinRule} {derived derived' : Nat}
    (h : join rule left right derived = .ok (stage, derived')) : stage.Based steps := by
  obtain ⟨_, _, ⟨l, r, st, rfl, rfl, hfuse, _, hst, rfl⟩ | ⟨ln, ls, rn, rs, hln, hrn, _, rfl⟩⟩ :=
    join_eq_ok h
  · exact SqlStage.Based.fuse hl hr hfuse hst
  · intro q hq
    rcases List.mem_append.mp hq with hq | hq
    · exact hl.queries hln q hq
    · exact hr.queries hrn q hq

end Stage

theorem Graph.compileSteps_based {steps : List Step} {stages : List Stage}
    (h : compileSteps [] 0 steps = .ok stages) : ∀ stage ∈ stages, stage.Based steps := by
  refine compileSteps_forall ?_ ?_ ?_ h
  · exact fun step hstep _ _ hop hst => Stage.ofSource_based ⟨step, hstep, hop⟩ hst
  · exact fun _ _ hbecomes hb => hbecomes.based hb
  · exact fun _ _ _ _ _ _ hl hr hst => Stage.join_based hl hr hst

end TablePipeline
