import TablePipeline.Proofs.Plan.Naming
import TablePipeline.Proofs.Query.Extension

/-!
# What a stage means

The rows of a stage are those of its query. They are projected from the scopes of its items where
all its filters are true, and the side that it contributes to a join shows them.
-/

set_option autoImplicit false

namespace TablePipeline

open Sql (Expr Predicate Named Evaluation Scope Binding allHold project)

variable {ev : Evaluation} {db : String → RowSet}

namespace Sql

theorem joinsScopes_append (js ks : List Join) (scopes : List Scope) :
    joinsScopes ev db (js ++ ks) scopes = joinsScopes ev db ks (joinsScopes ev db js scopes) := by
  induction js generalizing scopes with
  | nil => rfl
  | cons j js ih =>
    cases j
    exact ih _

theorem joinsScopes_aliases {joins : List Join} {scopes : List Scope} {tables : List String}
    (h : ∀ scope ∈ scopes, scope.aliases = tables) :
    ∀ scope ∈ joinsScopes ev db joins scopes,
      scope.aliases = tables ++ joins.map (·.item.aliasName) := by
  induction joins generalizing scopes tables with
  | nil => simpa [joinsScopes] using h
  | cons j js ih =>
    obtain ⟨kind, item, on⟩ := j
    intro scope hscope
    have hnext : ∀ scope ∈ joinScopes ev kind item.aliasName (item.result ev db) on scopes,
        scope.aliases = tables ++ [item.aliasName] := by
      intro scope hscope
      obtain ⟨before, hbefore, b, hb, rfl⟩ := mem_joinScopes hscope
      rw [Scope.aliases_append, h before hbefore, ← hb]
      rfl
    rw [ih hnext scope hscope, List.append_assoc]
    rfl

theorem bindings_aliases (aliasName : String) (content : RowSet) :
    ∀ scope ∈ (bindings aliasName content).map ([·]), Scope.aliases scope = [aliasName] := by
  intro scope hscope
  obtain ⟨b, hb, rfl⟩ := List.mem_map.mp hscope
  obtain ⟨row, _, rfl⟩ := List.mem_map.mp hb
  rfl

end Sql

namespace SqlStage

/-- The scopes of the items of a stage, before its filters. -/
def scopes (ev : Evaluation) (db : String → RowSet) (st : SqlStage) : List Scope :=
  Sql.joinsScopes ev db st.joins
    ((Sql.bindings st.source.aliasName (st.source.result ev db)).map ([·]))

def rows (ev : Evaluation) (db : String → RowSet) (st : SqlStage) : List Row :=
  (st.select.result ev db).rows

variable {derived : Nat} {st : SqlStage} {cs : List (SchemaColumn Expr)}

theorem WellNamed.scopes_aliases (h : st.WellNamed derived) :
    ∀ scope ∈ st.scopes ev db, scope.aliases = st.tables := by
  rw [h.tables]
  exact Sql.joinsScopes_aliases (Sql.bindings_aliases _ _)

def labelled (cs : List (SchemaColumn Expr)) : List (Expr × String) :=
  cs.zipIdx.map fun (c, i) => (c.carried, columnAlias i)

theorem labelled_exprs (cs : List (SchemaColumn Expr)) :
    (labelled cs).map (·.1) = cs.map (·.carried) := by
  calc
    (labelled cs).map (·.1) = (cs.zipIdx.map Prod.fst).map (·.carried) := by
      rw [labelled, List.map_map, List.map_map]
      rfl
    _ = cs.map (·.carried) := by rw [List.zipIdx_map_fst]

theorem labelled_aliases (cs : List (SchemaColumn Expr)) :
    (labelled cs).map (·.2) = (List.range cs.length).map columnAlias := by
  calc
    (labelled cs).map (·.2) = (cs.zipIdx.map Prod.snd).map columnAlias := by
      rw [labelled, List.map_map, List.map_map]
      rfl
    _ = (List.range cs.length).map columnAlias := by
      rw [List.zipIdx_map_snd, List.range_eq_range']

theorem select_eq (hcs : st.schema = Schema.ofColumns cs) :
    st.select = .mk ((labelled cs).map fun (e, a) => .expr e a) st.source st.joins st.filters := by
  unfold select labelled
  rw [hcs, Schema.ofColumns, List.zipIdx_map, List.map_map, List.map_map]
  rfl

theorem flatMap_cells (es : List (Expr × String)) (scope : Scope) :
    (es.map fun (e, a) => Sql.SelectItem.expr e a).flatMap (·.cells ev scope) =
      project ev (es.map (·.1)) scope := by
  induction es with
  | nil => rfl
  | cons e es ih =>
    rw [List.map_cons, List.flatMap_cons, ih]
    rfl

theorem flatMap_names (es : List (Expr × String)) (scope : Scope) :
    (es.map fun (e, a) => Sql.SelectItem.expr e a).flatMap (·.names scope) = es.map (·.2) := by
  induction es with
  | nil => rfl
  | cons e es ih =>
    rw [List.map_cons, List.flatMap_cons, ih]
    rfl

theorem rows_eq (hcs : st.schema = Schema.ofColumns cs) :
    st.rows ev db = ((st.scopes ev db).filter (allHold ev st.filters)).map
      (project ev (cs.map (·.carried))) := by
  unfold rows
  rw [select_eq hcs, Sql.Query.result]
  apply List.map_congr_left
  intro scope _
  rw [flatMap_cells, labelled_exprs]

theorem result_columns (hcs : st.schema = Schema.ofColumns cs) :
    (st.select.result ev db).columns = (List.range cs.length).map columnAlias := by
  rw [select_eq hcs, Sql.Query.result]
  dsimp only
  rw [flatMap_names, labelled_aliases]

theorem length_of_mem_rows (hcs : st.schema = Schema.ofColumns cs) {row : Row}
    (h : row ∈ st.rows ev db) : row.length = cs.length := by
  rw [rows_eq hcs] at h
  obtain ⟨scope, _, rfl⟩ := List.mem_map.mp h
  unfold project
  rw [List.length_map, List.length_map]

theorem derivedColumns_getElem? (aliasName : String) {i : Nat} {c : SchemaColumn Expr}
    (h : cs[i]? = some c) : (derivedColumns aliasName cs)[i]? =
      some { c with carried := .column (some aliasName) (columnAlias i) } := by
  unfold derivedColumns
  rw [List.getElem?_map, List.getElem?_zipIdx, h, Nat.zero_add]
  rfl

/-- A derived table gives back the rows of its query. -/
theorem project_derivedColumns {aliasName : String} {scope : Scope}
    (hscope : aliasName ∉ scope.aliases) {row : Row} (hrow : row.length = cs.length) :
    project ev ((derivedColumns aliasName cs).map (·.carried))
      (scope ++ [⟨aliasName, (List.range cs.length).map columnAlias, row⟩]) = row := by
  have hlength : (derivedColumns aliasName cs).length = cs.length := by
    rw [derivedColumns, List.length_map, List.length_zipIdx]
  apply List.ext_getElem?
  intro i
  unfold project
  rw [List.map_map, List.getElem?_map]
  by_cases hi : i < cs.length
  · rw [derivedColumns_getElem? aliasName (List.getElem?_eq_getElem hi), Option.map_some,
      Function.comp_apply, ev.eval_column,
      Scope.cell_append_singleton (b := ⟨aliasName, _, row⟩) hscope,
      Binding.cell_of_injective columnAlias_injective hi]
    rw [List.getElem?_eq_getElem (hrow.symm ▸ hi), Option.getD_some]
  · rw [List.getElem?_eq_none (by omega), List.getElem?_eq_none (by omega), Option.map_none]

theorem WellNamed.shows_derived {right : SqlStage} (hcs : right.schema = Schema.ofColumns cs)
    (kind : Sql.JoinKind) (aliasName : String) :
    Sql.Shows ev kind aliasName (right.select.result ev db) []
      ((derivedColumns aliasName cs).map (·.carried)) (right.rows ev db) := by
  constructor
  case rows_eq =>
    intro scope hscope
    have hall (bs : List Binding) : bs.filter (fun b => allHold ev [] (scope ++ [b])) = bs :=
      List.filter_eq_self.mpr fun b _ => rfl
    rw [hall, Sql.bindings, List.map_map, result_columns hcs]
    refine (List.map_congr_left fun row hrow => ?_).trans (List.map_id _)
    exact project_derivedColumns hscope (length_of_mem_rows hcs hrow)
  case blank_eq =>
    intro _ scope hscope
    apply Sql.project_blank hscope
    intro e he
    obtain ⟨d, hd, rfl⟩ := List.mem_map.mp he
    obtain ⟨⟨c, i⟩, _, rfl⟩ := List.mem_map.mp hd
    exact ⟨columnAlias i, rfl⟩

/-- A left join takes a side as it is only if its columns are plain; these are null where the row
is. -/
theorem WellNamed.shows_plain {right : SqlStage} (h : right.WellNamed derived)
    (hcs : right.schema = Schema.ofColumns cs) {rule : JoinRule}
    (hd : right.needsDerived rule = false)
    (hnamed : ∀ c ∈ cs, Named right.tables c.carried.columns) :
    Sql.Shows ev rule.kind right.source.aliasName (right.source.result ev db) right.filters
      (cs.map (·.carried)) (right.rows ev db) := by
  have htables : right.tables = [right.source.aliasName] := by
    rw [h.tables, joins_eq_nil hd]
    rfl
  have hagree {scope : Scope} (hscope : right.source.aliasName ∉ scope.aliases) (b : Binding) :
      Scope.Agree right.tables (scope ++ [b]) [b] := by
    refine Scope.agree_append_right (fun t ht => ?_) [b]
    rw [htables] at ht
    obtain rfl := List.mem_singleton.mp ht
    exact hscope
  have hexprs : ∀ e ∈ cs.map (·.carried), Named right.tables e.columns := by
    intro e he
    obtain ⟨c, hc, rfl⟩ := List.mem_map.mp he
    exact hnamed c hc
  constructor
  case rows_eq =>
    intro scope hscope
    rw [rows_eq hcs, scopes, joins_eq_nil hd, Sql.joinsScopes, List.filter_map, List.map_map,
      List.filter_congr fun b _ => (hagree hscope b).allHold h.filters]
    exact List.map_congr_left fun b _ => (hagree hscope b).project hexprs
  case blank_eq =>
    intro hkind scope hscope
    apply Sql.project_blank hscope
    intro e he
    obtain ⟨c, hc, rfl⟩ := List.mem_map.mp he
    have hcolumn := isColumn_of_left hcs hd hkind c hc
    have hn := hnamed c hc
    cases hcarried : c.carried with
    | column table name =>
      rw [hcarried, htables] at hn
      obtain ⟨t, ht, htable⟩ := hn (table, name) (List.mem_singleton_self _)
      obtain rfl := List.mem_singleton.mp ht
      exact ⟨name, by rw [show table = _ from htable]⟩
    | _ =>
      rw [hcarried] at hcolumn
      cases hcolumn

/-- The side of a join shows the rows of the stage: its own table under the conditions that were its
filters, or its query as a derived table. -/
theorem WellNamed.joinedSide_shows (ev : Evaluation) (db : String → RowSet) {right : SqlStage}
    (h : right.WellNamed derived) (rule : JoinRule) (aliasName : String)
    {ds : List (SchemaColumn Expr)}
    (hds : (right.joinedSide rule aliasName).schema = Schema.ofColumns ds) :
    Sql.Shows ev rule.kind (right.joinedSide rule aliasName).item.aliasName
      ((right.joinedSide rule aliasName).item.result ev db)
      (right.joinedSide rule aliasName).on (ds.map (·.carried)) (right.rows ev db) := by
  obtain ⟨cs, hcs, hnamed⟩ := h.schema
  cases hd : right.needsDerived rule with
  | true =>
    rw [joinedSide_derived hd] at hds ⊢
    dsimp only at hds
    rw [hcs, derivedSchema_eq] at hds
    obtain rfl := Schema.ofColumns_injective hds
    exact WellNamed.shows_derived hcs rule.kind aliasName
  | false =>
    rw [joinedSide_plain hd] at hds ⊢
    obtain rfl := Schema.ofColumns_injective (hcs.symm.trans hds)
    exact h.shows_plain hcs hd hnamed

end SqlStage

end TablePipeline
