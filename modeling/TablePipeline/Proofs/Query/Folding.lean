import TablePipeline.Proofs.Frame.Steps
import TablePipeline.Proofs.Query.Stages

/-!
# Folding joins and filters into one query

A join of two stages of SQL that become one query has the rows that joining their rows in memory
gives, and a filter of a stage keeps the rows that filtering in memory keeps. So it does not matter
to the rows where a step is done.
-/

set_option autoImplicit false

namespace TablePipeline

open Sql (Expr Predicate Named Evaluation Scope allHold project)

variable {ev : Evaluation} {db : String → RowSet}

namespace Schema

variable {ε ε' : Type}

/-- A reference means the same place in two schemas with the same qualifiers and names. -/
theorem find_place {cs : List (SchemaColumn ε)} {ds : List (SchemaColumn ε')}
    (hplain : ds.map SchemaColumn.plain = cs.map SchemaColumn.plain) {r : Reference} {i j : Nat}
    {c : SchemaColumn ε} {d : SchemaColumn ε'} (hc : (ofColumns cs).find r = .ok (.column i c))
    (hd : (ofColumns ds).find r = .ok (.column j d)) : i = j := by
  obtain ⟨i', _, hic, _, hi⟩ :=
    Frame.resolve_of_find (f := ⟨cs.map SchemaColumn.plain, []⟩) rfl hc
  obtain ⟨j', _, hjd, _, hj⟩ :=
    Frame.resolve_of_find (f := ⟨cs.map SchemaColumn.plain, []⟩) hplain.symm hd
  obtain ⟨rfl, _⟩ := Resolved.column.inj hic
  obtain ⟨rfl, _⟩ := Resolved.column.inj hjd
  exact Except.ok.inj (hi.symm.trans hj)

end Schema

namespace SqlStage

variable {derived : Nat}

theorem WellNamed.filters_named {st : SqlStage} (h : st.WellNamed derived) :
    ∀ scope ∈ st.scopes ev db, ∀ p ∈ st.filters, Named scope.aliases p.columns := by
  intro scope hscope p hp
  rw [h.scopes_aliases scope hscope]
  exact h.filters p hp

/-- One query for a join has the joined rows of the two sides, if the keys are of one kind. The
filters of the left side may be asked before the join, and those of the right side in it. -/
theorem WellNamed.fuse_rows {left right st : SqlStage} {rule : JoinRule}
    (hl : left.WellNamed derived) (hr : right.WellNamed derived)
    (hfuse : left.canFuse right rule = true) {n : Nat}
    (hn : right.needsDerived rule = true → derived < n)
    (h : left.fuse right rule (derivedAlias n) = .ok st) {i j : Nat} {cl cr : SchemaColumn Expr}
    (hi : left.schema.find rule.left = .ok (.column i cl))
    (hj : right.schema.find rule.right = .ok (.column j cr)) {k : KeyKind}
    (hkl : ∀ row ∈ left.rows ev db, ∀ v, row[i]? = some v → k.has v)
    (hkr : ∀ row ∈ right.rows ev db, ∀ v, row[j]? = some v → k.has v) :
    st.rows ev db = Rows.join rule.kind (left.rows ev db) i (right.rows ev db) j
      right.schema.length := by
  obtain ⟨cs, hcs, hnamed⟩ := hl.schema
  obtain ⟨htables, ds, es, hds, hes, hplain, _⟩ := hr.joinedSide rule (derivedAlias n)
  have hshows := hr.joinedSide_shows ev db rule (derivedAlias n) hes
  have hdisjoint := hl.joinedSide_disjoint hfuse hn
  rw [htables] at hdisjoint
  obtain ⟨l, r, hexprl, hexprr, rfl⟩ := fuse_eq_ok h
  rw [hcs] at hi hexprl
  rw [hds] at hj
  rw [hes] at hexprr
  have hls : (cs.map (·.carried))[i]? = some l := by
    obtain ⟨i', c, hfind, hc, rfl⟩ := Schema.expr_ofColumns hexprl
    obtain ⟨rfl, rfl⟩ := Resolved.column.inj (Except.ok.inj (hi.symm.trans hfind))
    rw [List.getElem?_map, hc]
    rfl
  have hright : (es.map (·.carried))[j]? = some r := by
    obtain ⟨j', e, hfind, he, rfl⟩ := Schema.expr_ofColumns hexprr
    obtain rfl := Schema.find_place hplain hj hfind
    rw [List.getElem?_map, he]
    rfl
  have hkept {scope : Scope} (hs : scope ∈ (left.scopes ev db).filter (allHold ev left.filters)) :
      scope.aliases = left.tables := hl.scopes_aliases scope (List.mem_filter.mp hs).1
  have hlength : (es.map (·.carried)).length = right.schema.length := by
    have := congrArg List.length hplain
    rw [List.length_map, List.length_map] at this
    rw [hds, Schema.ofColumns_length, List.length_map, this]
  have hschema : left.schema ++ (right.joinedSide rule (derivedAlias n)).schema =
      Schema.ofColumns (cs ++ es) := by rw [hcs, hes, Schema.ofColumns_append]
  rw [rows_eq hschema, rows_eq hcs, List.map_append]
  unfold scopes
  dsimp only
  rw [Sql.joinsScopes_append]
  show ((Sql.joinScopes ev rule.kind _ _ _ (left.scopes ev db)).filter _).map _ = _
  rw [Sql.filter_joinScopes hl.filters_named, ← hlength]
  refine hshows.joinScopes_eq (k := k) (fun scope hs => ?_) hls hright (fun scope hs e he => ?_)
    (fun scope hs => ?_) hkr
  · rw [hkept hs]
    exact hdisjoint _ (List.mem_singleton_self _)
  · obtain ⟨c, hc, rfl⟩ := List.mem_map.mp he
    rw [hkept hs]
    exact hnamed c hc
  · refine hkl (project ev (cs.map (·.carried)) scope) ?_ _ (Sql.project_getElem? hls scope)
    rw [rows_eq hcs]
    exact List.mem_map_of_mem hs

theorem WellNamed.fuse_ok {left right : SqlStage} {rule : JoinRule} (hr : right.WellNamed derived)
    {i j : Nat} {cl cr : SchemaColumn Expr}
    (hi : left.schema.find rule.left = .ok (.column i cl))
    (hj : right.schema.find rule.right = .ok (.column j cr)) (aliasName : String) :
    ∃ st, left.fuse right rule aliasName = .ok st := by
  obtain ⟨_, cs, ds, hcs, hds, hplain, _⟩ := hr.joinedSide rule aliasName
  rw [hcs] at hj
  obtain ⟨x, hx⟩ := Schema.knows_of_plain hplain (Schema.knows_singleton hj) rule.right
    List.mem_cons_self
  rw [← hds] at hx
  exact ⟨_, Outcome.bind_eq_ok.mpr ⟨_, Outcome.bind_eq_ok.mpr ⟨_, hi, rfl⟩,
    Outcome.bind_eq_ok.mpr ⟨_, Outcome.bind_eq_ok.mpr ⟨x, hx, rfl⟩, rfl⟩⟩⟩

def frame (ev : Evaluation) (db : String → RowSet) (st : SqlStage) : Frame :=
  ⟨st.schema.columns.map (·.2.plain), st.rows ev db⟩

/-- A cell that is projected for a reference is the value of its expression. -/
theorem value_of_expr (ev : Evaluation) {cs : List (SchemaColumn Expr)} {f : Frame}
    (hf : f.columns = cs.map SchemaColumn.plain) {r : Reference} {e : Expr}
    (h : (Schema.ofColumns cs).expr r = .ok e) :
    ∃ i, f.resolve r = .ok i ∧ ∀ scope,
      (project ev (cs.map (·.carried)) scope).getD i .null = ev.eval scope.cell e := by
  obtain ⟨i, c, hfind, hc, rfl⟩ := Schema.expr_ofColumns h
  obtain ⟨i', _, hic, _, hi⟩ := Frame.resolve_of_find hf hfind
  obtain ⟨rfl, _⟩ := Resolved.column.inj hic
  refine ⟨i, hi, fun scope => ?_⟩
  have hget : (cs.map (·.carried))[i]? = some c.carried := by
    rw [List.getElem?_map, hc]
    rfl
  rw [List.getD_eq_getElem?_getD, Sql.project_getElem? hget, Option.getD_some]

/-- A comparison that a frame tests is true where its predicate holds. -/
theorem test_of_predicate (hlit : ∀ cells v, ev.eval cells (.literal v) = v)
    {cs : List (SchemaColumn Expr)} {f : Frame} (hf : f.columns = cs.map SchemaColumn.plain)
    {c : Comparison} {p : Predicate} (h : (Schema.ofColumns cs).predicate c = .ok p) :
    ∃ b, f.bindComparison c = .ok b ∧ ∀ scope,
      (b.test? (project ev (cs.map (·.carried)) scope) == some true) = p.holds ev scope := by
  obtain ⟨left, right, hleft, hright, rfl⟩ := Schema.predicate_eq_ok h
  obtain ⟨i, hi, hvalue⟩ := value_of_expr ev hf hleft
  have hbound : ∃ bound, f.BindsRight c.right bound ∧ ∀ scope : Scope,
      bound.operand (project ev (cs.map (·.carried)) scope) = right.value ev scope.cell := by
    cases hc : c.right with
    | none =>
      rw [hc] at hright
      obtain rfl : right = .none := hright
      exact ⟨.fixed .none, rfl, fun _ => rfl⟩
    | value v =>
      rw [hc] at hright
      obtain rfl : right = .expr (.literal v) := hright
      refine ⟨.fixed (.value v), rfl, fun scope => ?_⟩
      exact congrArg CompareOperand.value (hlit scope.cell v).symm
    | list vs =>
      rw [hc] at hright
      obtain rfl : right = .list vs := hright
      exact ⟨.fixed (.list vs), rfl, fun _ => rfl⟩
    | column r =>
      rw [hc] at hright
      obtain ⟨e, he, rfl⟩ := hright
      obtain ⟨j, hj, hcell⟩ := value_of_expr ev hf he
      exact ⟨.column j, ⟨j, hj, rfl⟩, fun scope => congrArg CompareOperand.value (hcell scope)⟩
  obtain ⟨bound, hbound, hsame⟩ := hbound
  refine ⟨⟨i, c.op, bound⟩, Frame.bindComparison_eq_ok.mpr ⟨hi, rfl, hbound⟩, fun scope => ?_⟩
  rw [BoundComparison.test?_eq, hvalue scope, hsame scope]
  rfl

/-- Condition by condition the frame tests what the predicate asks. -/
theorem filter_frame (hlit : ∀ cells v, ev.eval cells (.literal v) = v) {st : SqlStage}
    {cs : List (SchemaColumn Expr)} (hcs : st.schema = Schema.ofColumns cs)
    {coerced : List Comparison} {ps : List Predicate}
    (h : coerced.mapM st.schema.predicate = .ok ps) :
    (st.frame ev db).filter coerced =
      .ok (SqlStage.frame ev db { st with filters := st.filters ++ ps }) := by
  have hf : (st.frame ev db).columns = cs.map SchemaColumn.plain := by
    rw [frame, hcs, Schema.plain_columns]
  rw [hcs] at h
  have hbound : ∃ bound, coerced.mapM (st.frame ev db).bindComparison = .ok bound ∧
      ∀ scope : Scope, (bound.all fun b =>
        b.test? (project ev (cs.map (·.carried)) scope) == some true) = allHold ev ps scope := by
    have hpairs := Outcome.mapM_eq_ok.mp h
    clear h
    induction hpairs with
    | nil => exact ⟨[], rfl, fun _ => rfl⟩
    | cons hp _ ih =>
      obtain ⟨b, hb, htest⟩ := test_of_predicate hlit hf hp
      obtain ⟨bound, hbound, hall⟩ := ih
      refine ⟨b :: bound, ?_, fun scope => ?_⟩
      · rw [List.mapM_cons, hb, hbound]
        rfl
      · rw [List.all_cons, htest scope, hall scope, Sql.allHold_cons]
  obtain ⟨bound, hbound, hall⟩ := hbound
  unfold Frame.filter
  refine Outcome.bind_eq_ok.mpr ⟨bound, hbound, congrArg Except.ok ?_⟩
  apply congrArg (Frame.mk _)
  show (st.rows ev db).filter _ = _
  have hrows : SqlStage.rows ev db { st with filters := st.filters ++ ps } = _ := rows_eq hcs
  rw [rows_eq hcs, hrows, List.filter_map]
  congr 1
  show _ = (st.scopes ev db).filter (allHold ev (st.filters ++ ps))
  rw [List.filter_filter]
  apply List.filter_congr
  intro scope _
  rw [Function.comp_apply, hall scope, Sql.allHold_append, Bool.and_comm]

end SqlStage

namespace Graph

theorem inputStage_eq_ok {stages : List Stage} {step : Step} {position i : Nat} {stage : Stage}
    (hi : step.inputs[position]? = some i) (h : stages[i]? = some stage) :
    inputStage stages step position = .ok stage := by
  unfold inputStage
  rw [hi, Option.bind_some, h]

theorem compileSteps_singleton {stages : List Stage} {derived derived' : Nat} {step : Step}
    {stage : Stage} (h : compileStep stages derived step = .ok (stage, derived')) :
    compileSteps stages derived [step] = .ok (stages ++ [stage]) := by
  rw [compileSteps, h]
  rfl

/-- Folding is sound. Of two stages that compilation built, a join that can be folded into one query
compiles to it, and its rows are the rows of both stages joined in memory. A filter is folded into
the query of its stage, and keeps the rows that the filter in memory keeps. -/
theorem folded_rows (ev : Evaluation) (db : String → RowSet) {steps : List Step}
    (hsteps : Declares steps) {stages : List Stage} (hstages : compileSteps [] 0 steps = .ok stages)
    {left right : SqlStage} {a b : Nat} (hl : stages[a]? = some (.sql left))
    (hr : stages[b]? = some (.sql right)) (id : String) :
    (∀ (rule : JoinRule) (i j : Nat) (cl cr : SchemaColumn Expr) (k : KeyKind),
      left.canFuse right rule = true →
      left.schema.find rule.left = .ok (.column i cl) →
      right.schema.find rule.right = .ok (.column j cr) →
      (∀ row ∈ left.rows ev db, ∀ v, row[i]? = some v → k.has v) →
      (∀ row ∈ right.rows ev db, ∀ v, row[j]? = some v → k.has v) →
      ∃ st,
        compileSteps [] 0 (steps ++ [Step.mk id (.join rule) [a, b]]) =
          .ok (stages ++ [Stage.sql st]) ∧
        st.rows ev db = Rows.join rule.kind (left.rows ev db) i (right.rows ev db) j
          right.schema.length) ∧
      ∀ (conditions : List Comparison) (result : List Stage),
        compileSteps [] 0 (steps ++ [Step.mk id (.filter conditions) [a]]) = .ok result →
        ∃ coerced st, conditions.mapM (left.schema.coerceComparison (.filter id)) = .ok coerced ∧
          result = stages ++ [Stage.sql st] ∧
          ((∀ cells v, ev.eval cells (.literal v) = v) →
            (left.frame ev db).filter coerced = .ok (st.frame ev db)) := by
  obtain ⟨derived, hw, hmore⟩ := compileSteps_wellNamed hsteps hstages
  have hwl : left.WellNamed derived := hw _ (List.mem_of_getElem? hl)
  have hwr : right.WellNamed derived := hw _ (List.mem_of_getElem? hr)
  constructor
  · intro rule i j cl cr k hfuse hi hj hkl hkr
    obtain ⟨n, hn⟩ : ∃ n, n = if right.needsDerived rule then derived + 1 else derived := ⟨_, rfl⟩
    obtain ⟨st, hst⟩ := hwr.fuse_ok hi hj (SqlStage.derivedAlias n)
    have hjoin := Stage.join_eq_fuse hfuse ⟨_, hi⟩ ⟨_, hj⟩ hn hst
    refine ⟨st, ?_, hwl.fuse_rows hwr hfuse (fun hd => ?_) hst hi hj hkl hkr⟩
    · have hstep : compileStep stages derived (Step.mk id (.join rule) [a, b]) =
          .ok (.sql st, n) := by
        unfold compileStep
        dsimp only
        rw [inputStage_eq_ok rfl hl, inputStage_eq_ok rfl hr]
        exact hjoin
      rw [hmore, compileSteps_singleton hstep]
    · rw [hd, if_pos rfl] at hn
      omega
  · intro conditions result h
    obtain ⟨cs, hcs, _⟩ := hwl.schema
    rw [hmore] at h
    obtain ⟨⟨stage, _⟩, hstage, h⟩ := Outcome.bind_eq_ok.mp h
    obtain rfl := Except.ok.inj h
    unfold compileStep at hstage
    dsimp only at hstage
    rw [inputStage_eq_ok rfl hl] at hstage
    obtain ⟨_, hinput, hstage⟩ := Outcome.bind_eq_ok.mp hstage
    obtain rfl := Except.ok.inj hinput
    obtain ⟨st, hst, hstage⟩ := Outcome.bind_eq_ok.mp hstage
    obtain ⟨rfl, rfl⟩ := Prod.mk.inj (Outcome.pure_eq_ok.mp hstage)
    obtain ⟨coerced, hcoerced, hst⟩ := Outcome.bind_eq_ok.mp hst
    obtain ⟨ps, hps, hst⟩ := Outcome.bind_eq_ok.mp hst
    obtain rfl := Outcome.pure_eq_ok.mp hst
    exact ⟨coerced, _, hcoerced, rfl, fun hlit => SqlStage.filter_frame hlit hcs hps⟩

/-- Orders by persons, and persons joined with the towns they live in. -/
def townSteps : List Step := [
  ⟨"orders", .source ⟨"shop", .postgres, "orders", "o", some [⟨"id", none⟩, ⟨"person", none⟩]⟩, []⟩,
  ⟨"people", .source ⟨"shop", .postgres, "people", "p", some [⟨"id", none⟩, ⟨"town", none⟩]⟩, []⟩,
  ⟨"towns", .source ⟨"shop", .postgres, "towns", "t", some [⟨"id", none⟩, ⟨"name", none⟩]⟩, []⟩,
  ⟨"homes", .join ⟨.inner, ⟨some "p", "town"⟩, ⟨some "t", "id"⟩⟩, [1, 2]⟩]

def townTables : String → RowSet
  | "orders" => ⟨["id", "person"],
    [[.integer 1, .integer 10], [.integer 2, .integer 11], [.integer 3, .null]]⟩
  | "people" => ⟨["id", "town"], [[.integer 10, .integer 5], [.integer 11, .integer 6]]⟩
  | "towns" => ⟨["id", "name"], [[.integer 5, .text "Ulm"]]⟩
  | _ => .empty

def tableStage (path aliasName first second : String) : SqlStage where
  connection := "shop"
  kind := .postgres
  source := .table path aliasName
  joins := []
  filters := []
  tables := [aliasName]
  schema := [.column ⟨some aliasName, first, none, .column (some aliasName) first⟩,
    .column ⟨some aliasName, second, none, .column (some aliasName) second⟩]

def homesStage : SqlStage where
  connection := "shop"
  kind := .postgres
  source := .table "people" "p"
  joins := [.mk .inner (.table "towns" "t")
    [.mk (.column (some "p") "town") .eq (.expr (.column (some "t") "id"))]]
  filters := []
  tables := ["p", "t"]
  schema := (tableStage "people" "p" "id" "town").schema ++
    (tableStage "towns" "t" "id" "name").schema

theorem townSteps_declare : Declares townSteps := by
  have hlong (n : Nat) {s : String} (hs : s.length = 1) : s ≠ SqlStage.derivedAlias n := by
    rintro rfl
    rw [SqlStage.derivedAlias, String.length_append] at hs
    have : "__d".length = 3 := rfl
    omega
  intro step hstep source hop
  simp only [townSteps, List.mem_cons, List.not_mem_nil, or_false] at hstep
  rcases hstep with rfl | rfl | rfl | rfl
  · cases hop
    exact ⟨rfl, fun n => hlong n rfl⟩
  · cases hop
    exact ⟨rfl, fun n => hlong n rfl⟩
  · cases hop
    exact ⟨rfl, fun n => hlong n rfl⟩
  · cases hop

theorem folded_rows_towns :
    ∃ st stages, compileSteps [] 0
        (townSteps ++
          [Step.mk "all" (.join ⟨.left, ⟨some "o", "person"⟩, ⟨some "p", "id"⟩⟩) [0, 3]]) =
        .ok (stages ++ [Stage.sql st]) ∧
      st.rows .plain townTables =
        [[.integer 1, .integer 10, .integer 10, .integer 5, .integer 5, .text "Ulm"],
          [.integer 2, .integer 11, .null, .null, .null, .null],
          [.integer 3, .null, .null, .null, .null, .null]] := by
  have hstages : compileSteps [] 0 townSteps = .ok
      [.sql (tableStage "orders" "o" "id" "person"), .sql (tableStage "people" "p" "id" "town"),
        .sql (tableStage "towns" "t" "id" "name"), .sql homesStage] := rfl
  have horders : (tableStage "orders" "o" "id" "person").rows .plain townTables =
      [[.integer 1, .integer 10], [.integer 2, .integer 11], [.integer 3, .null]] := by
    decide +kernel
  have hhomes : homesStage.rows .plain townTables =
      [[.integer 10, .integer 5, .integer 5, .text "Ulm"]] := by
    decide +kernel
  have hleft : (tableStage "orders" "o" "id" "person").schema.find ⟨some "o", "person"⟩ =
      .ok (.column 1 ⟨some "o", "person", none, .column (some "o") "person"⟩) := rfl
  have hright : homesStage.schema.find ⟨some "p", "id"⟩ =
      .ok (.column 0 ⟨some "p", "id", none, .column (some "p") "id"⟩) := rfl
  have hfuse : (tableStage "orders" "o" "id" "person").canFuse homesStage
      ⟨.left, ⟨some "o", "person"⟩, ⟨some "p", "id"⟩⟩ = true := by decide +kernel
  obtain ⟨hjoin, _⟩ := folded_rows .plain townTables townSteps_declare hstages
    (a := 0) (b := 3) rfl rfl "all"
  obtain ⟨st, hst, hrows⟩ := hjoin _ 1 0 _ _ .number hfuse hleft hright
    (by
      intro row hrow v hv
      rw [horders] at hrow
      simp only [List.mem_cons, List.not_mem_nil, or_false] at hrow
      rcases hrow with rfl | rfl | rfl <;> cases hv <;> rfl)
    (by
      intro row hrow v hv
      rw [hhomes] at hrow
      obtain rfl := List.mem_singleton.mp hrow
      cases hv
      rfl)
  refine ⟨st, _, hst, ?_⟩
  rw [hrows, horders, hhomes, Rows.join_eq_flatMap]
  decide +kernel

end Graph

end TablePipeline
