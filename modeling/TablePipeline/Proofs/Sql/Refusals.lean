import TablePipeline.Proofs.Outcome
import TablePipeline.Sql.Writing

/-!
# What may be refused when SQL is written

Where casts are those of the dialect and each operand suits its comparison, only a name or a path
of names may be refused.
-/

set_option autoImplicit false

namespace TablePipeline.Sql

open Outcome (Ends)

variable {α β : Type} {d : Dialect}

def Error.IsName : Error → Prop
  | invalidName .. => True
  | _ => False

/-- Nothing but a name is refused. -/
def OnlyNames (x : Except Error α) : Prop := Ends (fun _ => True) Error.IsName x

namespace OnlyNames

theorem ok (a : α) : OnlyNames (.ok a) := trivial

theorem bind {x : Except Error α} {f : α → Except Error β} (hx : OnlyNames x)
    (hf : ∀ a, OnlyNames (f a)) : OnlyNames (x >>= f) :=
  Ends.bind hx fun a _ => hf a

theorem map {x : Except Error α} (hx : OnlyNames x) (f : α → β) : OnlyNames (x.map f) :=
  Ends.map hx fun _ _ => trivial

theorem mapM {f : α → Except Error β} {xs : List α} (h : ∀ x ∈ xs, OnlyNames (f x)) :
    OnlyNames (xs.mapM f) :=
  (Ends.mapM h).mono fun _ _ => trivial

end OnlyNames

/-! ### Names and paths -/

theorem checkName_onlyNames (name : String) : OnlyNames (checkName d name) := by
  unfold checkName
  split <;> trivial

theorem namePiece_onlyNames (name : String) : OnlyNames (namePiece d name) :=
  (checkName_onlyNames name).map _

theorem tablePath_onlyNames (path : String) : OnlyNames (tablePath d path) := by
  unfold tablePath
  refine OnlyNames.bind ?_ fun segments => ?_
  · unfold splitPath
    split <;> trivial
  · dsimp only
    split
    · trivial
    · exact OnlyNames.mapM fun name _ => checkName_onlyNames name

theorem pathPieces_onlyNames (path : String) : OnlyNames (pathPieces d path) :=
  (tablePath_onlyNames path).map _

theorem quotePath_onlyNames (path : String) : OnlyNames (quotePath d path) :=
  (tablePath_onlyNames path).map _

/-! ### Expressions -/

section Expressions

variable {e e' : Expr}

theorem column_onlyNames (table : Option String) (name : String) :
    OnlyNames ((Expr.column table name).pieces d) := by
  cases table with
  | none => exact (OnlyNames.ok _).bind fun _ => (namePiece_onlyNames name).bind fun _ => .ok _
  | some t =>
    exact (namePiece_onlyNames t).bind fun _ => (OnlyNames.ok _).bind fun _ =>
      (namePiece_onlyNames name).bind fun _ => .ok _

theorem cast_onlyNames {target : ColumnType} (ht : (d.castType? target).isSome)
    (he : OnlyNames (e.pieces d)) : OnlyNames ((e.cast target).pieces d) := by
  obtain ⟨type, htype⟩ := Option.isSome_iff_exists.mp ht
  rw [Expr.pieces, htype]
  exact he.bind fun _ => .ok _

theorem binary_onlyNames (op : ArithmeticOp) (he : OnlyNames (e.pieces d))
    (he' : OnlyNames (e'.pieces d)) : OnlyNames ((Expr.binary op e e').pieces d) :=
  he.bind fun _ => he'.bind fun _ => .ok _

theorem safeDivide_onlyNames (sentinel : Scalar) (he : OnlyNames (e.pieces d))
    (he' : OnlyNames (e'.pieces d)) : OnlyNames ((Expr.safeDivide e e' sentinel).pieces d) :=
  he.bind fun _ => he'.bind fun _ => .ok _

theorem choose_onlyNames {test : Predicate} (ht : OnlyNames (test.pieces d))
    (he : OnlyNames (e.pieces d)) (he' : OnlyNames (e'.pieces d)) :
    OnlyNames ((Expr.choose test e e').pieces d) :=
  ht.bind fun _ => he.bind fun _ => he'.bind fun _ => .ok _

/-- Such an expression that is not the literal null, so that it can be compared with. -/
def Expr.Writable (d : Dialect) (e : Expr) : Prop := OnlyNames (e.pieces d) ∧ e.isNull = false

/-- An operand suits a comparison: none for a test of null, a list that is not empty for `IN`, and
for all others an expression other than the literal null. -/
def Operand.Suits (d : Dialect) (op : CompareOp) : Operand → Prop
  | .none => op = .isNull ∨ op = .isNotNull
  | .list vs => op = .isIn ∧ vs ≠ []
  | .expr e => op ≠ .isIn ∧ e.Writable d

theorem operand_onlyNames {op : CompareOp} {right : Operand} (h : right.Suits d op) :
    OnlyNames (right.pieces d op) := by
  cases right with
  | none => obtain rfl | rfl := h <;> exact .ok _
  | list vs =>
    obtain ⟨rfl, hne⟩ := h
    rw [Operand.pieces, if_neg (by simpa using hne)]
    exact .ok _
  | expr e =>
    obtain ⟨hin, he, hnull⟩ := h
    cases op with
    | isIn => exact (hin rfl).elim
    | isNull => exact .ok _
    | isNotNull => exact .ok _
    | _ =>
      simp only [Operand.pieces, hnull]
      exact he.bind fun _ => .ok _

theorem predicate_onlyNames {op : CompareOp} {right : Operand} (he : OnlyNames (e.pieces d))
    (h : right.Suits d op) : OnlyNames ((Predicate.mk e op right).pieces d) :=
  he.bind fun _ => (operand_onlyNames h).bind fun _ => .ok _

end Expressions

/-! ### Queries -/

section Queries

variable {ps : List Predicate} {joins : List Join} {item : FromItem}

theorem conjunction_onlyNames (h : ∀ p ∈ ps, OnlyNames (p.pieces d)) :
    OnlyNames (conjunctionPieces d ps) :=
  (OnlyNames.mapM h).bind fun _ => .ok _

theorem where_onlyNames (h : ∀ p ∈ ps, OnlyNames (p.pieces d)) : OnlyNames (wherePieces d ps) := by
  unfold wherePieces
  split
  · exact .ok _
  · exact (conjunction_onlyNames h).bind fun _ => .ok _

theorem table_onlyNames (path aliasName : String) :
    OnlyNames ((FromItem.table path aliasName).pieces d) :=
  (pathPieces_onlyNames path).bind fun _ => (namePiece_onlyNames aliasName).bind fun _ => .ok _

theorem derived_onlyNames {q : Query} (h : OnlyNames (q.pieces d)) (aliasName : String) :
    OnlyNames ((FromItem.derived q aliasName).pieces d) :=
  h.bind fun _ => (namePiece_onlyNames aliasName).bind fun _ => .ok _

theorem join_onlyNames (kind : JoinKind) (hitem : OnlyNames (item.pieces d))
    (hps : ∀ p ∈ ps, OnlyNames (p.pieces d)) : OnlyNames ((Join.mk kind item ps).pieces d) :=
  hitem.bind fun _ => (conjunction_onlyNames hps).bind fun _ => .ok _

theorem joins_onlyNames (h : ∀ j ∈ joins, OnlyNames (j.pieces d)) :
    OnlyNames (joinsPieces d joins) := by
  induction joins with
  | nil => exact .ok _
  | cons j js ih =>
    exact (h j List.mem_cons_self).bind
      fun _ => (ih fun j' hj' => h j' (List.mem_cons_of_mem _ hj')).bind fun _ => .ok _

theorem query_onlyNames {projection : List SelectItem}
    (hprojection : ∀ i ∈ projection, OnlyNames (i.pieces d)) (hitem : OnlyNames (item.pieces d))
    (hjoins : ∀ j ∈ joins, OnlyNames (j.pieces d)) (hps : ∀ p ∈ ps, OnlyNames (p.pieces d)) :
    OnlyNames ((Query.mk projection item joins ps).pieces d) :=
  (OnlyNames.mapM hprojection).bind fun _ => hitem.bind fun _ =>
    (joins_onlyNames hjoins).bind fun _ => (where_onlyNames hps).bind fun _ => .ok _

end Queries

end TablePipeline.Sql
