import TablePipeline.Proofs.Query.Scopes
import TablePipeline.Proofs.Rows.KeyEquality
import TablePipeline.Proofs.Rows.NestedLoop

/-!
# Extending scopes by a table

Filters on the tables so far may be asked before a join or after it. Where the table of the join
shows some rows and the join compares two keys of one kind, what is projected from the extended
scopes are the joined rows.
-/

set_option autoImplicit false

namespace TablePipeline.Sql

variable {ev : Evaluation} {kind : JoinKind} {aliasName : String} {content : RowSet}
  {on : List Predicate}

def project (ev : Evaluation) (es : List Expr) (scope : Scope) : Row := es.map (ev.eval scope.cell)

theorem project_append (es es' : List Expr) (scope : Scope) :
    project ev (es ++ es') scope = project ev es scope ++ project ev es' scope := List.map_append

theorem project_getElem? {es : List Expr} {i : Nat} {e : Expr} (h : es[i]? = some e)
    (scope : Scope) : (project ev es scope)[i]? = some (ev.eval scope.cell e) := by
  unfold project
  rw [List.getElem?_map, h]
  rfl

theorem Scope.Agree.project {tables : List String} {scope scope' : Scope}
    (h : Scope.Agree tables scope scope') {es : List Expr}
    (hes : ∀ e ∈ es, Named tables e.columns) :
    project ev es scope = project ev es scope' :=
  List.map_congr_left fun e he => h.eval (hes e he)

theorem Binding.cell_of_injective {f : Nat → String} (hf : Function.Injective f) {n i : Nat}
    (hi : i < n) {aliasName : String} {row : Row} :
    Binding.cell ⟨aliasName, (List.range n).map f, row⟩ (f i) = (row[i]?).getD .null := by
  have hfind : ((List.range n).map f).findIdx? (· == f i) = some i := by
    rw [List.findIdx?_eq_some_iff_getElem]
    refine ⟨by rw [List.length_map, List.length_range]; exact hi, by simp, fun j hj => ?_⟩
    rw [List.getElem_map, List.getElem_range, beq_iff_eq]
    exact fun heq => absurd (hf heq) (by omega)
  unfold cell
  rw [hfind]
  rfl

theorem blank_cell (aliasName : String) (content : RowSet) (name : String) :
    (blank aliasName content).cell name = .null := by
  unfold Binding.cell blank
  dsimp only
  cases content.columns.findIdx? (· == name) with
  | none => rfl
  | some i =>
    rw [Option.bind_some, List.getElem?_replicate]
    split <;> rfl

theorem Scope.cell_append_singleton {scope : Scope} {b : Binding}
    (h : b.aliasName ∉ scope.aliases) (name : String) :
    Scope.cell (scope ++ [b]) (some b.aliasName) name = b.cell name := by
  unfold cell
  dsimp only
  rw [find?_append_of_not_mem h, find?, List.find?_singleton, beq_self_eq_true]
  rfl

/-- Columns of a table are null in its row of nulls. -/
theorem project_blank {scope : Scope} (hscope : aliasName ∉ scope.aliases) {es : List Expr}
    (hes : ∀ e ∈ es, ∃ name, e = .column (some aliasName) name) :
    project ev es (scope ++ [blank aliasName content]) = List.replicate es.length .null := by
  rw [List.eq_replicate_iff]
  refine ⟨List.length_map _, fun v hv => ?_⟩
  obtain ⟨e, he, rfl⟩ := List.mem_map.mp hv
  obtain ⟨name, rfl⟩ := hes e he
  rw [ev.eval_column]
  exact (Scope.cell_append_singleton (b := blank aliasName content) hscope name).trans
    (blank_cell aliasName content name)

theorem mem_extend {b : Binding} {partners : List Binding} {scope scope' : Scope}
    (h : scope' ∈ kind.extend b partners scope) : ∃ b' ∈ b :: partners, scope' = scope ++ [b'] := by
  unfold JoinKind.extend at h
  split at h
  · cases kind with
    | inner => cases h
    | left => exact ⟨b, List.mem_cons_self, List.mem_singleton.mp h⟩
  · obtain ⟨b', hb', rfl⟩ := List.mem_map.mp h
    exact ⟨b', List.mem_cons_of_mem _ hb', rfl⟩

theorem mem_joinScopes {scopes : List Scope} {scope' : Scope}
    (h : scope' ∈ joinScopes ev kind aliasName content on scopes) :
    ∃ scope ∈ scopes, ∃ b, b.aliasName = aliasName ∧ scope' = scope ++ [b] := by
  obtain ⟨scope, hscope, h⟩ := List.mem_flatMap.mp h
  obtain ⟨b, hb, rfl⟩ := mem_extend h
  refine ⟨scope, hscope, b, ?_, rfl⟩
  rcases List.mem_cons.mp hb with rfl | hb
  · rfl
  · obtain ⟨row, _, rfl⟩ := List.mem_map.mp (List.mem_filter.mp hb).1
    rfl

/-- A filter on the tables so far may be asked before the join. -/
theorem filter_joinScopes {scopes : List Scope} {ps : List Predicate}
    (h : ∀ scope ∈ scopes, ∀ p ∈ ps, Named scope.aliases p.columns) :
    (joinScopes ev kind aliasName content on scopes).filter (allHold ev ps) =
      joinScopes ev kind aliasName content on (scopes.filter (allHold ev ps)) := by
  unfold joinScopes
  induction scopes with
  | nil => rfl
  | cons scope scopes ih =>
    have hsame {scope' : Scope}
        (h' : scope' ∈ kind.extend (blank aliasName content)
          ((bindings aliasName content).filter fun b => allHold ev on (scope ++ [b])) scope) :
        allHold ev ps scope' = allHold ev ps scope := by
      obtain ⟨b, _, rfl⟩ := mem_extend h'
      exact (Scope.agree_append_left (List.Subset.refl _) [b]).allHold (h scope List.mem_cons_self)
    have hrest := ih fun scope' hs => h scope' (List.mem_cons_of_mem _ hs)
    rw [List.flatMap_cons, List.filter_append, hrest, List.filter_cons]
    cases hholds : allHold ev ps scope with
    | true =>
      rw [if_pos rfl, List.flatMap_cons, List.filter_eq_self.mpr fun s hs => ?_]
      rw [hsame hs, hholds]
    | false =>
      rw [if_neg (by simp), List.filter_eq_nil_iff.mpr fun s hs => ?_, List.nil_append]
      rw [hsame hs, hholds]
      simp

/-- Beside scopes without its alias, the rows of a table that meet the conditions are some rows, and
in a left join the row of nulls is one of nulls. -/
structure Shows (ev : Evaluation) (kind : JoinKind) (aliasName : String) (content : RowSet)
    (on : List Predicate) (es : List Expr) (rows : List Row) : Prop where
  rows_eq : ∀ scope : Scope, aliasName ∉ scope.aliases →
    ((bindings aliasName content).filter fun b => allHold ev on (scope ++ [b])).map
      (fun b => project ev es (scope ++ [b])) = rows
  blank_eq : kind = .left → ∀ scope : Scope, aliasName ∉ scope.aliases →
    project ev es (scope ++ [blank aliasName content]) = List.replicate es.length .null

variable {es : List Expr} {rows : List Row} {ls : List Expr} {i j : Nat} {l r : Expr} {k : KeyKind}

/-- The key condition is true where the rows match. -/
theorem holds_key {scope : Scope} {b : Binding} (hls : ls[i]? = some l) (hes : es[j]? = some r)
    (hl : Named scope.aliases l.columns) (hv : k.has (ev.eval scope.cell l))
    (hw : k.has (ev.eval (scope ++ [b]).cell r)) :
    (Predicate.mk l .eq (.expr r)).holds ev (scope ++ [b]) =
      Rows.matching i j (project ev ls scope) (project ev es (scope ++ [b])) := by
  have hleft : ev.eval (scope ++ [b]).cell l = ev.eval scope.cell l :=
    (Scope.agree_append_left (List.Subset.refl _) [b]).eval hl
  have hi : JoinKey.ofRow? i (project ev ls scope) = JoinKey.ofScalar? (ev.eval scope.cell l) := by
    rw [JoinKey.ofRow?, project_getElem? hls]
    rfl
  have hj : JoinKey.ofRow? j (project ev es (scope ++ [b])) =
      JoinKey.ofScalar? (ev.eval (scope ++ [b]).cell r) := by
    rw [JoinKey.ofRow?, project_getElem? hes]
    rfl
  have hkey := (Scalar.test?_eq_iff _ _).trans (Scalar.compare?_eq_iff hv hw)
  unfold Predicate.holds Operand.value Rows.matching
  dsimp only
  rw [hleft, hi, hj, Bool.eq_iff_iff, beq_iff_eq, Bool.and_eq_true, beq_iff_eq]
  exact hkey

/-- The partners of a scope show the rows that match what is projected from the scope. -/
theorem Shows.partners_eq (h : Shows ev kind aliasName content on es rows) {scope : Scope}
    (hscope : aliasName ∉ scope.aliases) (hls : ls[i]? = some l) (hes : es[j]? = some r)
    (hl : Named scope.aliases l.columns) (hv : k.has (ev.eval scope.cell l))
    (hw : ∀ row ∈ rows, ∀ v, row[j]? = some v → k.has v) :
    ((bindings aliasName content).filter fun b =>
        allHold ev (.mk l .eq (.expr r) :: on) (scope ++ [b])).map
          (fun b => project ev es (scope ++ [b])) =
      rows.filter (Rows.matching i j (project ev ls scope)) := by
  have hrows := h.rows_eq scope hscope
  rw [← hrows, List.filter_map, List.filter_filter]
  congr 1
  apply List.filter_congr
  intro b hb
  rw [allHold_cons, Function.comp_apply, Bool.and_comm, Bool.and_comm (Rows.matching _ _ _ _)]
  cases hon : allHold ev on (scope ++ [b]) with
  | false => rfl
  | true =>
    have hmem : project ev es (scope ++ [b]) ∈ rows := by
      rw [← hrows]
      exact List.mem_map_of_mem (List.mem_filter.mpr ⟨hb, hon⟩)
    have hr := hw _ hmem _ (project_getElem? hes (scope ++ [b]))
    rw [holds_key hls hes hl hv hr]

/-- What is projected from an extended scope are the joined rows of what was projected before. -/
theorem Shows.extend_eq (h : Shows ev kind aliasName content on es rows) {scope : Scope}
    (hscope : aliasName ∉ scope.aliases) (hls : ls[i]? = some l) (hes : es[j]? = some r)
    (hnamed : ∀ e ∈ ls, Named scope.aliases e.columns) (hv : k.has (ev.eval scope.cell l))
    (hw : ∀ row ∈ rows, ∀ v, row[j]? = some v → k.has v) :
    (kind.extend (blank aliasName content) ((bindings aliasName content).filter fun b =>
        allHold ev (.mk l .eq (.expr r) :: on) (scope ++ [b])) scope).map
          (project ev (ls ++ es)) =
      Rows.joinRow kind es.length (rows.filter (Rows.matching i j (project ev ls scope))).toArray
        (project ev ls scope) := by
  have hl := hnamed l (List.mem_of_getElem? hls)
  have hpartners := h.partners_eq hscope hls hes hl hv hw
  have hleft (b : Binding) : project ev (ls ++ es) (scope ++ [b]) =
      project ev ls scope ++ project ev es (scope ++ [b]) := by
    rw [project_append, (Scope.agree_append_left (List.Subset.refl _) [b]).project hnamed]
  rw [← hpartners]
  unfold JoinKind.extend Rows.joinRow
  rw [List.isEmpty_toArray, List.isEmpty_map]
  split
  · cases kind with
    | inner => rfl
    | left => rw [List.map_singleton, hleft, h.blank_eq rfl scope hscope]
  · rw [List.map_map, List.map_map]
    exact List.map_congr_left fun b _ => hleft b

/-- A join with a table that shows some rows projects to the joined rows. -/
theorem Shows.joinScopes_eq (h : Shows ev kind aliasName content on es rows)
    {scopes : List Scope} (hscopes : ∀ scope ∈ scopes, aliasName ∉ scope.aliases)
    (hls : ls[i]? = some l) (hes : es[j]? = some r)
    (hnamed : ∀ scope ∈ scopes, ∀ e ∈ ls, Named scope.aliases e.columns)
    (hv : ∀ scope ∈ scopes, k.has (ev.eval scope.cell l))
    (hw : ∀ row ∈ rows, ∀ v, row[j]? = some v → k.has v) :
    (joinScopes ev kind aliasName content (.mk l .eq (.expr r) :: on) scopes).map
        (project ev (ls ++ es)) =
      Rows.join kind (scopes.map (project ev ls)) i rows j es.length := by
  rw [Rows.join_eq_flatMap, List.flatMap_map, joinScopes, List.map_flatMap]
  exact List.flatMap_congr fun scope hs =>
    h.extend_eq (hscopes scope hs) hls hes (hnamed scope hs) (hv scope hs) hw

end TablePipeline.Sql
