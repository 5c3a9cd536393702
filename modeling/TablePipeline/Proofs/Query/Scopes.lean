import Mathlib.Data.List.Basic
import TablePipeline.Proofs.Query.Meaning

/-!
# Scopes and the aliases that expressions name

An expression means the same in two scopes that agree on the aliases it names. So a scope may grow
by tables under other aliases, and a condition on the tables so far may be asked before or after.
-/

set_option autoImplicit false

namespace TablePipeline.Sql

variable {ev : Evaluation}

/-- Every column is of one of some aliased tables. -/
def Named (tables : List String) (columns : List (Option String × String)) : Prop :=
  ∀ c ∈ columns, ∃ t ∈ tables, c.1 = some t

namespace Named

variable {tables tables' : List String} {columns columns' : List (Option String × String)}

theorem nil (tables : List String) : Named tables [] := List.forall_mem_nil _

theorem append (h : Named tables columns) (h' : Named tables columns') :
    Named tables (columns ++ columns') := by
  intro c hc
  rcases List.mem_append.mp hc with hc | hc
  · exact h c hc
  · exact h' c hc

theorem left (h : Named tables (columns ++ columns')) : Named tables columns :=
  fun c hc => h c (List.mem_append_left _ hc)

theorem right (h : Named tables (columns ++ columns')) : Named tables columns' :=
  fun c hc => h c (List.mem_append_right _ hc)

theorem mono (h : Named tables columns) (hs : tables ⊆ tables') : Named tables' columns := by
  intro c hc
  obtain ⟨t, ht, hct⟩ := h c hc
  exact ⟨t, hs ht, hct⟩

end Named

theorem allHold_cons (p : Predicate) (ps : List Predicate) (scope : Scope) :
    allHold ev (p :: ps) scope = (p.holds ev scope && allHold ev ps scope) := List.all_cons

theorem allHold_append (ps qs : List Predicate) (scope : Scope) :
    allHold ev (ps ++ qs) scope = (allHold ev ps scope && allHold ev qs scope) := List.all_append

namespace Scope

theorem aliases_append (scope more : Scope) :
    aliases (scope ++ more) = scope.aliases ++ more.aliases := List.map_append

theorem find?_append_of_mem {scope : Scope} {t : String} (h : t ∈ scope.aliases) (more : Scope) :
    find? (scope ++ more) t = scope.find? t := by
  obtain ⟨b, hb, rfl⟩ := List.mem_map.mp h
  have hsome : (List.find? (·.aliasName == b.aliasName) scope).isSome := by
    rw [List.find?_isSome]
    exact ⟨b, hb, beq_self_eq_true _⟩
  unfold find?
  rw [List.find?_append, Option.or_of_isSome hsome]

theorem find?_append_of_not_mem {scope : Scope} {t : String} (h : t ∉ scope.aliases)
    (more : Scope) : find? (scope ++ more) t = more.find? t := by
  have hnone : List.find? (·.aliasName == t) scope = none := by
    rw [List.find?_eq_none]
    intro b hb heq
    exact h (beq_iff_eq.mp heq ▸ List.mem_map_of_mem hb)
  unfold find?
  rw [List.find?_append, hnone, Option.none_or]

/-- Two scopes agree on some aliases. -/
def Agree (tables : List String) (scope scope' : Scope) : Prop :=
  ∀ t ∈ tables, ∀ name, scope.cell (some t) name = scope'.cell (some t) name

theorem agree_append_left {scope : Scope} {tables : List String} (h : tables ⊆ scope.aliases)
    (more : Scope) : Agree tables (scope ++ more) scope := by
  intro t ht name
  unfold cell
  dsimp only
  rw [find?_append_of_mem (h ht)]

theorem agree_append_right {scope : Scope} {tables : List String}
    (h : ∀ t ∈ tables, t ∉ scope.aliases) (more : Scope) : Agree tables (scope ++ more) more := by
  intro t ht name
  unfold cell
  dsimp only
  rw [find?_append_of_not_mem (h t ht)]

variable {tables : List String} {scope scope' : Scope}

theorem Agree.eval (h : Agree tables scope scope') {e : Expr} (he : Named tables e.columns) :
    ev.eval scope.cell e = ev.eval scope'.cell e := by
  apply ev.eval_congr e _ _
  intro c hc
  obtain ⟨t, ht, hct⟩ := he c hc
  rw [hct]
  exact h t ht c.2

theorem Agree.holds (h : Agree tables scope scope') {p : Predicate}
    (hp : Named tables p.columns) : p.holds ev scope = p.holds ev scope' := by
  obtain ⟨left, op, right⟩ := p
  have hnamed : Named tables (left.columns ++ right.columns) := hp
  have hright : right.value ev scope.cell = right.value ev scope'.cell := by
    cases right with
    | none => rfl
    | list vs => rfl
    | expr e => exact congrArg CompareOperand.value (h.eval hnamed.right)
  unfold Predicate.holds
  dsimp only
  rw [h.eval hnamed.left, hright]

theorem Agree.allHold (h : Agree tables scope scope') {ps : List Predicate}
    (hps : ∀ p ∈ ps, Named tables p.columns) : allHold ev ps scope = allHold ev ps scope' := by
  unfold Sql.allHold
  rw [Bool.eq_iff_iff, List.all_eq_true, List.all_eq_true]
  exact forall₂_congr fun p hp => by rw [h.holds (hps p hp)]

end Scope

end TablePipeline.Sql
