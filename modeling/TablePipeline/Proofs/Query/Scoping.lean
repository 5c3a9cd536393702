import TablePipeline.Proofs.Query.Scopes

/-!
# Well scoped queries

A query is well scoped if what it projects and what it filters by is of its own items, and the
conditions of each join are of the items up to that join. A derived table is a query of its own,
which sees nothing of the query around it.
-/

set_option autoImplicit false

namespace TablePipeline.Sql

/-- What an item of a select list shows is of some aliased tables. -/
def SelectItem.Within (tables : List String) : SelectItem → Prop
  | .expr e _ => Named tables e.columns
  | .wildcard table => table ∈ tables

/-- The conditions of each join are of the tables before it and of its own item. -/
def JoinsWithin : (tables : List String) → List Join → Prop
  | _, [] => True
  | tables, j :: js => (∀ p ∈ j.on, Named (tables ++ [j.item.aliasName]) p.columns) ∧
      JoinsWithin (tables ++ [j.item.aliasName]) js

theorem joinsWithin_append {tables : List String} {js ks : List Join} :
    JoinsWithin tables (js ++ ks) ↔
      JoinsWithin tables js ∧ JoinsWithin (tables ++ js.map (·.item.aliasName)) ks := by
  induction js generalizing tables with
  | nil => simp [JoinsWithin]
  | cons j js ih =>
    rw [List.cons_append, JoinsWithin, JoinsWithin, ih, and_assoc, List.map_cons,
      List.append_assoc]
    rfl

theorem joinsWithin_singleton {tables : List String} {j : Join} :
    JoinsWithin tables [j] ↔ ∀ p ∈ j.on, Named (tables ++ [j.item.aliasName]) p.columns :=
  and_iff_left trivial

namespace Query

def aliases (q : Query) : List String := q.source.aliasName :: q.joins.map (·.item.aliasName)

structure WellScoped (q : Query) : Prop where
  projection : ∀ item ∈ q.projection, item.Within q.aliases
  filters : ∀ p ∈ q.filters, Named q.aliases p.columns
  joins : JoinsWithin [q.source.aliasName] q.joins

end Query

mutual

def Query.selects : Query → List Query
  | .mk projection source joins filters =>
    .mk projection source joins filters :: (source.selects ++ joinsSelects joins)

def FromItem.selects : FromItem → List Query
  | .table _ _ => []
  | .derived query _ => query.selects

def joinsSelects : List Join → List Query
  | [] => []
  | .mk _ item _ :: js => item.selects ++ joinsSelects js

end

theorem joinsSelects_append (js ks : List Join) :
    joinsSelects (js ++ ks) = joinsSelects js ++ joinsSelects ks := by
  induction js with
  | nil => rfl
  | cons j js ih =>
    obtain ⟨kind, item, on⟩ := j
    rw [List.cons_append, joinsSelects, joinsSelects, ih, List.append_assoc]

theorem joinsSelects_singleton (kind : JoinKind) (item : FromItem) (on : List Predicate) :
    joinsSelects [.mk kind item on] = item.selects := by
  rw [joinsSelects, joinsSelects, List.append_nil]

end TablePipeline.Sql
