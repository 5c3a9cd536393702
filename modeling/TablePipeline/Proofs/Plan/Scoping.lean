import TablePipeline.Proofs.Plan.Steps
import TablePipeline.Proofs.Plan.Writable
import TablePipeline.Proofs.Query.Scoping

/-!
# What the schema of a stage names

Expressions, operands and predicates that are made from a schema name only tables that the schema
names. So a rule that goes into the query of a stage brings no table into it, and a rule that is
left for memory sends the queries that were sent before.
-/

set_option autoImplicit false

namespace TablePipeline

open Sql (Expr Predicate Named)

def SchemaItem.Within (tables : List String) : SchemaItem Expr → Prop
  | .column c => Named tables c.carried.columns
  | .openSource _ table => table ∈ tables

namespace Schema

variable {s s' : Schema Expr} {tables tables' : List String} {r : Reference}

def Within (tables : List String) (s : Schema Expr) : Prop := ∀ item ∈ s, item.Within tables

theorem Within.mono (hs : s.Within tables) (hsub : tables ⊆ tables') : s.Within tables' := by
  intro item hitem
  have h := hs item hitem
  cases item with
  | column c => exact Named.mono h hsub
  | openSource q t => exact hsub h

theorem Within.append (hs : s.Within tables) (hs' : s'.Within tables) :
    Within tables (s ++ s') := by
  intro item hitem
  rcases List.mem_append.mp hitem with hitem | hitem
  · exact hs item hitem
  · exact hs' item hitem

theorem Within.set (hs : s.Within tables) (i : Nat) {item : SchemaItem Expr}
    (hitem : item.Within tables) : Within tables (s.set i item) := by
  intro item' hitem'
  rcases List.mem_or_eq_of_mem_set hitem' with hitem' | rfl
  · exact hs item' hitem'
  · exact hitem

theorem Within.putComputed (hs : s.Within tables) (name : String) (type? : Option ColumnType)
    {e : Expr} (he : Named tables e.columns) : (s.putComputed name type? e).Within tables := by
  obtain ⟨i, hi⟩ | hlast := putComputed_cases s name type? e
  · rw [hi]
    exact hs.set i he
  · rw [hlast]
    exact hs.append fun item hitem => List.mem_singleton.mp hitem ▸ he

theorem within_ofColumns {cs : List (SchemaColumn Expr)} :
    (ofColumns cs).Within tables ↔ ∀ c ∈ cs, Named tables c.carried.columns := by
  unfold Within ofColumns
  rw [List.forall_mem_map]
  rfl

theorem mem_of_mem_opens {q t : String} (h : (q, t) ∈ s.opens) : SchemaItem.openSource q t ∈ s := by
  obtain ⟨item, hmem, hitem⟩ := List.mem_filterMap.mp h
  cases item with
  | column c => cases hitem
  | openSource q' t' =>
    obtain ⟨rfl, rfl⟩ := Prod.mk.inj (Option.some.inj hitem)
    exact hmem

theorem Within.find (hs : s.Within tables) {x : Resolved Expr} (h : s.find r = .ok x) :
    Named tables x.expr.columns := by
  have hopen {q t : String} (ht : (q, t) ∈ s.opens) (name : String) :
      Named tables (Expr.column (some t) name).columns := by
    intro c hc
    obtain rfl := List.mem_singleton.mp hc
    exact ⟨t, hs _ (mem_of_mem_opens ht), rfl⟩
  have h := find_eq_ok.mp h
  unfold resolve at h
  split at h
  · rename_i i c hits
    obtain rfl := Except.ok.inj h
    have hmem := Reference.mem_of_mem_hits (hits ▸ List.mem_singleton_self (i, c))
    exact hs _ (mem_of_mem_columns hmem)
  · split at h
    · split at h
      · rename_i hfound
        obtain rfl := Except.ok.inj h
        exact hopen (List.mem_of_find?_eq_some hfound) r.name
      · cases h
    · split at h
      · rename_i hopens
        obtain rfl := Except.ok.inj h
        exact hopen (hopens ▸ List.mem_singleton_self _) r.name
      · cases h
      · cases h
  · cases h

theorem Within.expr (hs : s.Within tables) {e : Expr} (h : s.expr r = .ok e) :
    Named tables e.columns := by
  obtain ⟨x, hx, h⟩ := Outcome.bind_eq_ok.mp h
  obtain rfl := Outcome.pure_eq_ok.mp h
  exact hs.find hx

theorem Within.operandExpr (hs : s.Within tables) {o : RuleOperand} {e : Expr}
    (h : s.operandExpr o = .ok e) : Named tables e.columns := by
  cases o with
  | column r => exact hs.expr h
  | literal v =>
    obtain rfl := Except.ok.inj h
    exact Named.nil tables

theorem Within.predicate (hs : s.Within tables) {c : Comparison} {p : Predicate}
    (h : s.predicate c = .ok p) : Named tables p.columns := by
  obtain ⟨left, right, hleft, hright, rfl⟩ := predicate_eq_ok h
  refine Named.append (hs.expr hleft) ?_
  cases hc : c.right with
  | column r =>
    rw [hc] at hright
    obtain ⟨e, he, rfl⟩ := hright
    exact hs.expr he
  | _ =>
    rw [hc] at hright
    obtain rfl : right = _ := hright
    exact Named.nil tables

end Schema

namespace ArithmeticRule

variable {tables : List String}

theorem foldl_named {f : Expr → Expr → Expr}
    (hf : ∀ a b, Named tables a.columns → Named tables b.columns → Named tables (f a b).columns)
    {es : List Expr} (hes : ∀ e ∈ es, Named tables e.columns) {e : Expr}
    (he : Named tables e.columns) : Named tables (es.foldl f e).columns := by
  induction es generalizing e with
  | nil => exact he
  | cons x xs ih =>
    exact ih (fun y hy => hes y (List.mem_cons_of_mem _ hy)) (hf e x he (hes x List.mem_cons_self))

theorem nullGuard_named {inner e : Expr} (hi : Named tables inner.columns)
    (he : Named tables e.columns) : Named tables (nullGuard inner e).columns :=
  ((he.append (Named.nil tables)).append (Named.nil tables)).append hi

theorem zeroGuard_named (sentinel : Scalar) {inner e : Expr} (hi : Named tables inner.columns)
    (he : Named tables e.columns) : Named tables (zeroGuard sentinel inner e).columns :=
  ((he.append (Named.nil tables)).append (Named.nil tables)).append hi

theorem expr_named {rule : ArithmeticRule} {es : List Expr}
    (hes : ∀ e ∈ es, Named tables e.columns) {e : Expr} (h : rule.expr es = .ok e) :
    Named tables e.columns := by
  unfold expr at h
  split at h
  · cases h
  · rename_i first rest
    have hfirst := hes first List.mem_cons_self
    have hrest : ∀ e ∈ rest, Named tables e.columns := fun e he => hes e (List.mem_cons_of_mem _ he)
    split at h
    · rename_i denominator _
      obtain rfl := Except.ok.inj h
      exact Named.append hfirst (hrest denominator (List.mem_singleton_self _))
    · have hbinary (op : Sql.ArithmeticOp) (a b : Expr) (ha : Named tables a.columns)
          (hb : Named tables b.columns) : Named tables (Expr.binary op a b).columns := ha.append hb
      have hcore := foldl_named (hbinary rule.op) hrest hfirst
      dsimp only at h
      split at h
      · obtain rfl := Except.ok.inj h
        refine foldl_named (fun _ _ ha hb => nullGuard_named ha hb) ?_ ?_
        · exact fun e he => hes e (List.mem_of_mem_filter he)
        · refine foldl_named (fun _ _ ha hb => zeroGuard_named _ ha hb) ?_ hcore
          exact fun e he => hrest e (List.mem_reverse.mp he)
      · obtain rfl := Except.ok.inj h
        exact hcore

end ArithmeticRule

/-! ### Stages -/

namespace SqlStage

variable {st st' left right : SqlStage} {rule : JoinRule}

/-- What a stage carries is of its own tables, and these are the items of its query. -/
structure Closed (st : SqlStage) : Prop where
  schema : st.schema.Within st.tables
  filters : ∀ p ∈ st.filters, Named st.tables p.columns
  tables : st.tables = st.source.aliasName :: st.joins.map (·.item.aliasName)

/-- A stage that a rule was put into: its items are the same, and its columns and filters are of
the tables that those before were of. No column is taken away. -/
structure Refines (st st' : SqlStage) : Prop where
  connection : st'.connection = st.connection
  kind : st'.kind = st.kind
  source : st'.source = st.source
  joins : st'.joins = st.joins
  tables : st'.tables = st.tables
  schema : ∀ tables, st.schema.Within tables → st'.schema.Within tables
  filters : ∀ tables, st.schema.Within tables → ∀ p ∈ st'.filters,
    p ∈ st.filters ∨ Named tables p.columns
  opens : st'.schema.opens.length ≤ st.schema.opens.length
  width : st.schema.length ≤ st'.schema.length

theorem Refines.withSchema {s : Schema Expr}
    (hs : ∀ tables, st.schema.Within tables → s.Within tables)
    (hopens : s.opens.length ≤ st.schema.opens.length) (hwidth : st.schema.length ≤ s.length) :
    st.Refines { st with schema := s } :=
  ⟨rfl, rfl, rfl, rfl, rfl, hs, fun _ _ _ hp => .inl hp, hopens, hwidth⟩

theorem Refines.closed (h : st.Refines st') (hst : st.Closed) : st'.Closed where
  schema := h.tables ▸ h.schema _ hst.schema
  filters p hp := by
    rw [h.tables]
    exact (h.filters _ hst.schema p hp).elim (hst.filters p) id
  tables := by rw [h.tables, h.source, h.joins, hst.tables]

/-! Joins put one more item into a query: a table or a derived table. -/

theorem disjoint_of_canFuse (h : left.canFuse right rule = true) :
    ∀ t ∈ right.tables, t ∉ left.tables := by
  unfold canFuse at h
  rw [Bool.and_eq_true, List.all_eq_true] at h
  intro t ht hmem
  have hnot := h.2 t ht
  rw [List.contains_iff_mem.mpr hmem] at hnot
  cases hnot

theorem joins_eq_nil (h : right.needsDerived rule = false) : right.joins = [] := by
  unfold needsDerived at h
  rw [Bool.or_eq_false_iff, Bool.not_eq_false', List.isEmpty_iff] at h
  exact h.1

theorem joinedSide_derived (h : right.needsDerived rule = true) (aliasName : String) :
    right.joinedSide rule aliasName =
      ⟨.derived right.select aliasName, [], derivedSchema aliasName right.schema, [aliasName]⟩ :=
  if_pos h

theorem joinedSide_plain (h : right.needsDerived rule = false) (aliasName : String) :
    right.joinedSide rule aliasName =
      ⟨right.source, right.filters, right.schema, right.tables⟩ :=
  if_neg (by rw [h]; simp)

theorem derivedSchema_within (aliasName : String) (s : Schema Expr) :
    (derivedSchema aliasName s).Within [aliasName] := by
  intro item hitem
  obtain ⟨⟨item', i⟩, _, rfl⟩ := List.mem_map.mp hitem
  cases item' with
  | column c =>
    intro column hcolumn
    obtain rfl := List.mem_singleton.mp hcolumn
    exact ⟨aliasName, List.mem_singleton_self _, rfl⟩
  | openSource q t => exact List.mem_singleton_self aliasName

/-- The side of a join is one table, of which all its columns and conditions are. -/
theorem Closed.joinedSide (h : right.Closed) (rule : JoinRule) (aliasName : String) :
    (right.joinedSide rule aliasName).tables = [(right.joinedSide rule aliasName).item.aliasName] ∧
      (right.joinedSide rule aliasName).schema.Within
        (right.joinedSide rule aliasName).tables ∧
      ∀ p ∈ (right.joinedSide rule aliasName).on,
        Named (right.joinedSide rule aliasName).tables p.columns := by
  cases hd : right.needsDerived rule with
  | true =>
    rw [joinedSide_derived hd]
    exact ⟨rfl, derivedSchema_within aliasName _, List.forall_mem_nil _⟩
  | false =>
    rw [joinedSide_plain hd]
    refine ⟨?_, h.schema, h.filters⟩
    have htables := h.tables
    rw [joins_eq_nil hd] at htables
    exact htables

theorem Closed.fuse (hl : left.Closed) (hr : right.Closed) {aliasName : String}
    (h : left.fuse right rule aliasName = .ok st) : st.Closed := by
  obtain ⟨htables, hschema, _⟩ := hr.joinedSide rule aliasName
  obtain ⟨_, _, _, _, rfl⟩ := fuse_eq_ok h
  have hleft := List.subset_append_left left.tables (right.joinedSide rule aliasName).tables
  have hright := List.subset_append_right left.tables (right.joinedSide rule aliasName).tables
  constructor
  case schema => exact (hl.schema.mono hleft).append (hschema.mono hright)
  case filters => exact fun p hp => (hl.filters p hp).mono hleft
  case tables =>
    show left.tables ++ _ = _
    rw [htables, hl.tables, List.map_append]
    rfl

end SqlStage

namespace Stage

/-! Each rule goes into the query of its stage or is left for memory. -/

/-- What a rule makes of a stage: it goes into the query of the stage, or the stage becomes a plan
that sends the same queries. -/
def Becomes (stage stage' : Stage) : Prop :=
  (∃ st st', stage = .sql st ∧ stage' = .sql st' ∧ st.Refines st') ∨
    ∃ node schema node' schema', stage.materialize = .ok (node, schema) ∧
      stage' = .memory node' schema' ∧ node'.queries = node.queries

variable {stage stage' : Stage}

theorem filter_becomes {node : String} {conditions : List Comparison}
    (h : stage.filter node conditions = .ok stage') : stage.Becomes stage' := by
  cases stage with
  | sql st =>
    obtain ⟨coerced, _, h⟩ := Outcome.bind_eq_ok.mp h
    obtain ⟨ps, hps, h⟩ := Outcome.bind_eq_ok.mp h
    obtain rfl := Outcome.pure_eq_ok.mp h
    refine .inl ⟨st, _, rfl, rfl, rfl, rfl, rfl, rfl, rfl, fun _ hs => hs,
      fun tables hs p hp => ?_, Nat.le_refl _, Nat.le_refl _⟩
    refine (List.mem_append.mp hp).imp_right fun hp => ?_
    obtain ⟨c, _, hc⟩ := Outcome.exists_of_mem_right hps hp
    exact hs.predicate hc
  | memory input schema =>
    obtain ⟨_, _, h⟩ := Outcome.bind_eq_ok.mp h
    obtain rfl := Outcome.pure_eq_ok.mp h
    exact .inr ⟨input, schema, _, _, rfl, rfl, rfl⟩

theorem cast_becomes {rule : CastRule} (h : stage.cast rule = .ok stage') :
    stage.Becomes stage' := by
  cases stage with
  | sql st =>
    obtain ⟨resolved, hfind, ⟨i, c, rfl, rfl⟩ | ⟨node, schema, hm, rfl⟩⟩ := cast_sql_eq_ok h
    · refine .inl ⟨st, _, rfl, rfl, .withSchema (fun tables hs => hs.set i ?_)
        (Schema.opens_set_le _ i _) (Nat.le_of_eq List.length_set.symm)⟩
      exact hs.find hfind
    · exact .inr ⟨node, schema, _, _, hm, rfl, rfl⟩
  | memory input schema =>
    obtain ⟨_, _, h⟩ := Outcome.bind_eq_ok.mp h
    obtain rfl := Outcome.pure_eq_ok.mp h
    exact .inr ⟨input, schema, _, _, rfl, rfl, rfl⟩

theorem arithmetic_becomes {rule : ArithmeticRule} (h : stage.arithmetic rule = .ok stage') :
    stage.Becomes stage' := by
  cases stage with
  | sql st =>
    obtain ⟨types, _, ⟨es, e, hes, he, rfl⟩ | ⟨node, schema, hm, rfl⟩⟩ := arithmetic_sql_eq_ok h
    · refine .inl ⟨st, _, rfl, rfl, .withSchema (fun tables hs => hs.putComputed _ _ ?_)
        (Schema.opens_putComputed_le ..) (Schema.length_le_putComputed ..)⟩
      refine ArithmeticRule.expr_named (fun x hx => ?_) he
      obtain ⟨o, _, ho⟩ := Outcome.exists_of_mem_right hes hx
      exact hs.operandExpr ho
    · exact .inr ⟨node, schema, _, _, hm, rfl, rfl⟩
  | memory input schema =>
    obtain ⟨_, _, h⟩ := Outcome.bind_eq_ok.mp h
    obtain rfl := Outcome.pure_eq_ok.mp h
    exact .inr ⟨input, schema, _, _, rfl, rfl, rfl⟩

theorem fitBranch_columns {d : Sql.Dialect} {output branch : Option ColumnType} {e e' : Expr}
    (h : fitBranch d output branch e = some e') : e'.columns = e.columns := by
  rcases fitBranch_eq_some h with rfl | ⟨target, rfl⟩
  · rfl
  · rfl

theorem condition_becomes {node : String} {rule : ConditionRule}
    (h : stage.condition node rule = .ok stage') : stage.Becomes stage' := by
  cases stage with
  | sql st =>
    obtain ⟨settled, _, ⟨test, yes, no, y, n, ht, hyes, hno, hy, hn, rfl⟩ |
      ⟨input, schema, hm, rfl⟩⟩ := condition_sql_eq_ok h
    · refine .inl ⟨st, _, rfl, rfl, .withSchema (fun tables hs => hs.putComputed _ _ ?_)
        (Schema.opens_putComputed_le ..) (Schema.length_le_putComputed ..)⟩
      have hyes : Named tables y.columns := fitBranch_columns hy ▸ hs.operandExpr hyes
      have hno : Named tables n.columns := fitBranch_columns hn ▸ hs.operandExpr hno
      exact ((hs.predicate ht).append hyes).append hno
    · exact .inr ⟨input, schema, _, _, hm, rfl, rfl⟩
  | memory input schema =>
    obtain ⟨_, _, h⟩ := Outcome.bind_eq_ok.mp h
    obtain rfl := Outcome.pure_eq_ok.mp h
    exact .inr ⟨input, schema, _, _, rfl, rfl, rfl⟩

end Stage

namespace Graph

/-- What a step makes of the stages before it: a join, the stage of a source, or what a rule makes
of its input. -/
theorem compileStep_becomes {stages : List Stage} {derived derived' : Nat} {step : Step}
    {stage : Stage} (h : compileStep stages derived step = .ok (stage, derived')) :
    (∃ rule, ∃ left ∈ stages, ∃ right ∈ stages, step.op = .join rule ∧
        Stage.join rule left right derived = .ok (stage, derived')) ∨
      derived' = derived ∧
        ((∃ source, step.op = .source source ∧ Stage.ofSource source = .ok stage) ∨
          ∃ input ∈ stages, input.Becomes stage) := by
  refine (compileStep_eq_ok h).imp_right (And.imp_right (Or.imp_right ?_))
  rintro ⟨input, hi, ⟨_, hst⟩ | ⟨_, hst⟩ | ⟨_, hst⟩ | ⟨_, hst⟩⟩
  · exact ⟨input, hi, Stage.filter_becomes hst⟩
  · exact ⟨input, hi, Stage.cast_becomes hst⟩
  · exact ⟨input, hi, Stage.arithmetic_becomes hst⟩
  · exact ⟨input, hi, Stage.condition_becomes hst⟩

/-- What sources have, rules keep and joins keep is so of every stage. -/
theorem compileSteps_forall {P : Stage → Prop} {steps : List Step}
    (hsource : ∀ step ∈ steps, ∀ source stage, step.op = .source source →
      Stage.ofSource source = .ok stage → P stage)
    (hrule : ∀ stage stage', stage.Becomes stage' → P stage → P stage')
    (hjoin : ∀ rule left right derived stage derived', P left → P right →
      Stage.join rule left right derived = .ok (stage, derived') → P stage)
    {stages : List Stage} (h : compileSteps [] 0 steps = .ok stages) :
    ∀ stage ∈ stages, P stage := by
  refine (compileSteps_induction (P := fun st _ => ∀ stage ∈ st, P stage) ?_
    (List.forall_mem_nil _) h).choose_spec.1
  intro st derived stage derived' step hstep hP hc x hx
  rcases List.mem_append.mp hx with hx | hx
  · exact hP x hx
  · obtain rfl := List.mem_singleton.mp hx
    obtain ⟨rule, left, hl, right, hr, _, hst⟩ | ⟨_, ⟨source, hop, hst⟩ | ⟨input, hi, hst⟩⟩ :=
      compileStep_becomes hc
    · exact hjoin rule left right derived x derived' (hP left hl) (hP right hr) hst
    · exact hsource step hstep source x hop hst
    · exact hrule input x hst (hP input hi)

end Graph

end TablePipeline
