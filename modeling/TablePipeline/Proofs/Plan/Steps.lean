import TablePipeline.Plan.Compile
import TablePipeline.Proofs.Plan.References

/-!
# What a step makes of a stage of SQL

A rule either goes into the query of the stage, which then has one more column or another column in
place of one, or the query ends there and the rule is left for memory.
-/

set_option autoImplicit false

namespace TablePipeline

open Sql (Expr)

namespace Stage

/-- A cast replaces a column, or is left for memory. -/
theorem cast_sql_eq_ok {st : SqlStage} {rule : CastRule} {stage : Stage}
    (h : (Stage.sql st).cast rule = .ok stage) :
    ∃ resolved, st.schema.find rule.column = .ok resolved ∧
      ((∃ i c, resolved = .column i c ∧ stage = .sql { st with
          schema := st.schema.set i (.column
            { c with type? := some rule.target, carried := c.carried.cast rule.target }) }) ∨
        ∃ node schema, st.materialize = .ok (node, schema) ∧
          stage = castInMemory rule node schema resolved) := by
  obtain ⟨resolved, hfind, h⟩ := Outcome.bind_eq_ok.mp h
  refine ⟨resolved, hfind, ?_⟩
  have hmemory (h : st.materialize.bind (fun m => .ok (castInMemory rule m.1 m.2 resolved)) =
      .ok stage) :
      ∃ node schema, st.materialize = .ok (node, schema) ∧
        stage = castInMemory rule node schema resolved := by
    obtain ⟨⟨node, schema⟩, hm, h⟩ := Outcome.bind_eq_ok.mp h
    exact ⟨node, schema, hm, (Outcome.pure_eq_ok.mp h).symm⟩
  cases resolved with
  | column i c =>
    dsimp only at h
    split at h
    · exact .inl ⟨i, c, rfl, (Outcome.pure_eq_ok.mp h).symm⟩
    · exact .inr (hmemory h)
  | inOpen qualifier table name => exact .inr (hmemory h)

/-- Arithmetic puts a column, or is left for memory. -/
theorem arithmetic_sql_eq_ok {st : SqlStage} {rule : ArithmeticRule} {stage : Stage}
    (h : (Stage.sql st).arithmetic rule = .ok stage) :
    ∃ types, rule.operands.mapM st.schema.operandType? = .ok types ∧
      ((∃ es e, rule.operands.mapM st.schema.operandExpr = .ok es ∧ rule.expr es = .ok e ∧
          stage = .sql { st with schema :=
            st.schema.putComputed rule.output (Arithmetic.resultType? rule.op types) e }) ∨
        ∃ node schema, st.materialize = .ok (node, schema) ∧
          stage = arithmeticInMemory rule (Arithmetic.resultType? rule.op types) node schema) := by
  obtain ⟨types, htypes, h⟩ := Outcome.bind_eq_ok.mp h
  refine ⟨types, htypes, ?_⟩
  dsimp only at h
  split at h
  · obtain ⟨⟨node, schema⟩, hm, h⟩ := Outcome.bind_eq_ok.mp h
    exact .inr ⟨node, schema, hm, (Outcome.pure_eq_ok.mp h).symm⟩
  · obtain ⟨es, hes, h⟩ := Outcome.bind_eq_ok.mp h
    obtain ⟨e, he, h⟩ := Outcome.bind_eq_ok.mp h
    exact .inl ⟨es, e, hes, he, (Outcome.pure_eq_ok.mp h).symm⟩

theorem fitBranch_eq_some {d : Sql.Dialect} {output branch : Option ColumnType} {e e' : Expr}
    (h : fitBranch d output branch e = some e') : e' = e ∨ ∃ target, e' = e.cast target := by
  unfold fitBranch at h
  split at h
  · rename_i target t
    split at h
    · exact .inl (Option.some.inj h).symm
    · split at h
      · exact .inr ⟨target, (Option.some.inj h).symm⟩
      · cases h
  · exact .inl (Option.some.inj h).symm

/-- A condition puts a column that chooses between its branches, or is left for memory. -/
theorem condition_sql_eq_ok {st : SqlStage} {node : String} {rule : ConditionRule}
    {stage : Stage} (h : (Stage.sql st).condition node rule = .ok stage) :
    ∃ settled, rule.settle st.schema node = .ok settled ∧
      ((∃ test yes no y n, st.schema.predicate settled.rule.predicate = .ok test ∧
          st.schema.operandExpr settled.rule.yes = .ok yes ∧
          st.schema.operandExpr settled.rule.no = .ok no ∧
          fitBranch st.dialect settled.rule.outputType settled.yesType yes = some y ∧
          fitBranch st.dialect settled.rule.outputType settled.noType no = some n ∧
          stage = .sql { st with
            schema := st.schema.putComputed settled.rule.output settled.rule.outputType
              (.choose test y n) }) ∨
        ∃ input schema, st.materialize = .ok (input, schema) ∧
          stage = conditionInMemory settled.rule input schema) := by
  obtain ⟨settled, hsettled, h⟩ := Outcome.bind_eq_ok.mp h
  refine ⟨settled, hsettled, ?_⟩
  obtain ⟨yes, hyes, h⟩ := Outcome.bind_eq_ok.mp h
  obtain ⟨no, hno, h⟩ := Outcome.bind_eq_ok.mp h
  split at h
  · rename_i y n hy hn
    obtain ⟨test, htest, h⟩ := Outcome.bind_eq_ok.mp h
    exact .inl ⟨test, yes, no, y, n, htest, hyes, hno, hy, hn, (Outcome.pure_eq_ok.mp h).symm⟩
  · obtain ⟨⟨input, schema⟩, hm, h⟩ := Outcome.bind_eq_ok.mp h
    exact .inr ⟨input, schema, hm, (Outcome.pure_eq_ok.mp h).symm⟩

theorem derivedSchema_ofColumns (aliasName : String) (cs : List (SchemaColumn Expr)) :
    SqlStage.derivedSchema aliasName (Schema.ofColumns cs) =
      Schema.ofColumns (cs.zipIdx.map fun (c, i) =>
        { c with carried := .column (some aliasName) (SqlStage.columnAlias i) }) := by
  unfold SqlStage.derivedSchema Schema.ofColumns
  rw [List.zipIdx_map, List.map_map, List.map_map]
  rfl

def Knows (r : Reference) : Stage → Prop
  | .sql st => ∃ x, st.schema.find r = .ok x
  | .memory _ schema => ∃ x, schema.find r = .ok x

theorem checkReference_eq_ok {stage : Stage} {r : Reference} :
    stage.checkReference r = .ok () ↔ stage.Knows r := by
  cases stage with
  | sql st =>
    constructor
    · intro h
      obtain ⟨x, hx, _⟩ := Outcome.bind_eq_ok.mp h
      exact ⟨x, hx⟩
    · rintro ⟨x, hx⟩
      exact Outcome.bind_eq_ok.mpr ⟨x, hx, rfl⟩
  | memory node schema =>
    constructor
    · intro h
      obtain ⟨x, hx, _⟩ := Outcome.bind_eq_ok.mp h
      exact ⟨x, hx⟩
    · rintro ⟨x, hx⟩
      exact Outcome.bind_eq_ok.mpr ⟨x, hx, rfl⟩

/-- A join is one query, or joins the rows of two plans in memory. -/
theorem join_eq_ok {rule : JoinRule} {left right stage : Stage} {derived derived' : Nat}
    (h : join rule left right derived = .ok (stage, derived')) :
    left.Knows rule.left ∧ right.Knows rule.right ∧
      ((∃ l r s, left = .sql l ∧ right = .sql r ∧ l.canFuse r rule = true ∧
          derived' = (if r.needsDerived rule then derived + 1 else derived) ∧
          l.fuse r rule (SqlStage.derivedAlias derived') = .ok s ∧ stage = .sql s) ∨
        ∃ leftNode leftSchema rightNode rightSchema,
          left.materialize = .ok (leftNode, leftSchema) ∧
          right.materialize = .ok (rightNode, rightSchema) ∧ derived' = derived ∧
          stage = .memory (.join leftNode rightNode rule) (leftSchema ++ rightSchema)) := by
  obtain ⟨_, hl, h⟩ := Outcome.bind_eq_ok.mp h
  obtain ⟨_, hr, h⟩ := Outcome.bind_eq_ok.mp h
  refine ⟨checkReference_eq_ok.mp hl, checkReference_eq_ok.mp hr, ?_⟩
  have hmemory (h : left.materialize.bind (fun l => right.materialize.bind fun r =>
      .ok (memory (.join l.1 r.1 rule) (l.2 ++ r.2), derived)) = .ok (stage, derived')) :
      ∃ leftNode leftSchema rightNode rightSchema,
        left.materialize = .ok (leftNode, leftSchema) ∧
        right.materialize = .ok (rightNode, rightSchema) ∧ derived' = derived ∧
        stage = .memory (.join leftNode rightNode rule) (leftSchema ++ rightSchema) := by
    obtain ⟨⟨ln, ls⟩, hln, h⟩ := Outcome.bind_eq_ok.mp h
    obtain ⟨⟨rn, rs⟩, hrn, h⟩ := Outcome.bind_eq_ok.mp h
    obtain ⟨rfl, rfl⟩ := Prod.mk.inj (Outcome.pure_eq_ok.mp h)
    exact ⟨ln, ls, rn, rs, hln, hrn, rfl, rfl⟩
  cases left with
  | memory ln ls => exact .inr (hmemory h)
  | sql l =>
    cases right with
    | memory rn rs => exact .inr (hmemory h)
    | sql r =>
      dsimp only at h
      split at h
      · rename_i hfuse
        obtain ⟨s, hs, h⟩ := Outcome.bind_eq_ok.mp h
        obtain ⟨rfl, rfl⟩ := Prod.mk.inj (Outcome.pure_eq_ok.mp h)
        exact .inl ⟨l, r, s, rfl, rfl, hfuse, rfl, hs, rfl⟩
      · exact .inr (hmemory h)

theorem join_eq_fuse {rule : JoinRule} {left right st : SqlStage} {derived derived' : Nat}
    (hfuse : left.canFuse right rule = true) (hl : (Stage.sql left).Knows rule.left)
    (hr : (Stage.sql right).Knows rule.right)
    (hd : derived' = if right.needsDerived rule then derived + 1 else derived)
    (h : left.fuse right rule (SqlStage.derivedAlias derived') = .ok st) :
    join rule (.sql left) (.sql right) derived = .ok (.sql st, derived') := by
  refine Outcome.bind_eq_ok.mpr ⟨(), checkReference_eq_ok.mpr hl, ?_⟩
  refine Outcome.bind_eq_ok.mpr ⟨(), checkReference_eq_ok.mpr hr, ?_⟩
  dsimp only
  rw [if_pos hfuse, ← hd, h]
  rfl

end Stage

namespace SqlStage

/-- A fused stage is the left one with one more join, on the keys first. -/
theorem fuse_eq_ok {left right s : SqlStage} {rule : JoinRule} {aliasName : String}
    (h : left.fuse right rule aliasName = .ok s) :
    ∃ l r, left.schema.expr rule.left = .ok l ∧
      (right.joinedSide rule aliasName).schema.expr rule.right = .ok r ∧
      s = { left with
        joins := left.joins ++ [.mk rule.kind (right.joinedSide rule aliasName).item
          (.mk l .eq (.expr r) :: (right.joinedSide rule aliasName).on)]
        tables := left.tables ++ (right.joinedSide rule aliasName).tables
        schema := left.schema ++ (right.joinedSide rule aliasName).schema } := by
  obtain ⟨l, hl, h⟩ := Outcome.bind_eq_ok.mp h
  obtain ⟨r, hr, h⟩ := Outcome.bind_eq_ok.mp h
  exact ⟨l, r, hl, hr, (Outcome.pure_eq_ok.mp h).symm⟩

end SqlStage

namespace Graph

theorem mem_of_inputStage {stages : List Stage} {step : Step} {position : Nat} {stage : Stage}
    (h : inputStage stages step position = .ok stage) : stage ∈ stages := by
  unfold inputStage at h
  split at h
  · rename_i st hst
    obtain rfl := Except.ok.inj h
    obtain ⟨i, _, hi⟩ := Option.bind_eq_some_iff.mp hst
    exact List.mem_of_getElem? hi
  · cases h

/-- What a step makes of the stages before it; only a join may count another derived table. -/
theorem compileStep_eq_ok {stages : List Stage} {derived derived' : Nat} {step : Step}
    {stage : Stage} (h : compileStep stages derived step = .ok (stage, derived')) :
    (∃ rule, ∃ left ∈ stages, ∃ right ∈ stages, step.op = .join rule ∧
        Stage.join rule left right derived = .ok (stage, derived')) ∨
      derived' = derived ∧
        ((∃ source, step.op = .source source ∧ Stage.ofSource source = .ok stage) ∨
          ∃ input ∈ stages,
            (∃ conditions, input.filter step.id conditions = .ok stage) ∨
            (∃ rule, input.cast rule = .ok stage) ∨
            (∃ rule, input.arithmetic rule = .ok stage) ∨
            ∃ rule, input.condition step.id rule = .ok stage) := by
  have hinput {f : Stage → Except CompileError Stage}
      (h : (do return (← f (← inputStage stages step 0), derived) :
        Except CompileError (Stage × Nat)) = .ok (stage, derived')) :
      derived' = derived ∧ ∃ input ∈ stages, f input = .ok stage := by
    obtain ⟨input, hi, h⟩ := Outcome.bind_eq_ok.mp h
    obtain ⟨st, hst, h⟩ := Outcome.bind_eq_ok.mp h
    obtain ⟨rfl, rfl⟩ := Prod.mk.inj (Outcome.pure_eq_ok.mp h)
    exact ⟨rfl, input, mem_of_inputStage hi, hst⟩
  unfold compileStep at h
  cases hop : step.op with
  | source source =>
    rw [hop] at h
    obtain ⟨st, hst, h⟩ := Outcome.bind_eq_ok.mp h
    obtain ⟨rfl, rfl⟩ := Prod.mk.inj (Outcome.pure_eq_ok.mp h)
    exact .inr ⟨rfl, .inl ⟨source, rfl, hst⟩⟩
  | join rule =>
    rw [hop] at h
    obtain ⟨left, hl, h⟩ := Outcome.bind_eq_ok.mp h
    obtain ⟨right, hr, h⟩ := Outcome.bind_eq_ok.mp h
    exact .inl ⟨rule, left, mem_of_inputStage hl, right, mem_of_inputStage hr, rfl, h⟩
  | filter conditions =>
    rw [hop] at h
    obtain ⟨hd, input, hm, hs⟩ := hinput h
    exact .inr ⟨hd, .inr ⟨input, hm, .inl ⟨conditions, hs⟩⟩⟩
  | cast rule =>
    rw [hop] at h
    obtain ⟨hd, input, hm, hs⟩ := hinput h
    exact .inr ⟨hd, .inr ⟨input, hm, .inr (.inl ⟨rule, hs⟩)⟩⟩
  | arithmetic rule =>
    rw [hop] at h
    obtain ⟨hd, input, hm, hs⟩ := hinput h
    exact .inr ⟨hd, .inr ⟨input, hm, .inr (.inr (.inl ⟨rule, hs⟩))⟩⟩
  | condition rule =>
    rw [hop] at h
    obtain ⟨hd, input, hm, hs⟩ := hinput h
    exact .inr ⟨hd, .inr ⟨input, hm, .inr (.inr (.inr ⟨rule, hs⟩))⟩⟩

/-- What holds of the stages before a step and is kept by every step holds of all stages, and from
there on compilation goes on as if more steps had followed. -/
theorem compileSteps_induction {P : List Stage → Nat → Prop} {steps : List Step}
    (hstep : ∀ stages derived stage derived', ∀ step ∈ steps, P stages derived →
      compileStep stages derived step = .ok (stage, derived') → P (stages ++ [stage]) derived')
    {stages result : List Stage} {derived : Nat} (h₀ : P stages derived)
    (h : compileSteps stages derived steps = .ok result) :
    ∃ derived', P result derived' ∧
      ∀ more, compileSteps stages derived (steps ++ more) = compileSteps result derived' more := by
  induction steps generalizing stages derived with
  | nil =>
    obtain rfl := Except.ok.inj h
    exact ⟨derived, h₀, fun more => rfl⟩
  | cons step rest ih =>
    obtain ⟨⟨stage, derived'⟩, hs, h⟩ := Outcome.bind_eq_ok.mp h
    have hnext := hstep _ _ _ _ step List.mem_cons_self h₀ hs
    obtain ⟨d, hP, hmore⟩ := ih
      (fun st d s d' step' hm => hstep st d s d' step' (List.mem_cons_of_mem _ hm)) hnext h
    refine ⟨d, hP, fun more => ?_⟩
    rw [← hmore more, List.cons_append, compileSteps, hs]
    rfl

end Graph

end TablePipeline
