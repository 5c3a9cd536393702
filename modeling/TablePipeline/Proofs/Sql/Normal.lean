import TablePipeline.Proofs.Sql.Paths
import TablePipeline.Proofs.Sql.Written

/-!
# Normal forms

What a text cannot tell is left out of a normal form: the operand of a comparison that takes none,
and how the path of a table was spelled. Constructs with the same normal form are equal up to these,
and a normal form is written as what it is the normal form of.
-/

set_option autoImplicit false

namespace TablePipeline.Sql

mutual

def Expr.normal : Expr → Expr
  | .column table name => .column table name
  | .literal v => .literal v
  | .cast inner target => .cast inner.normal target
  | .binary op left right => .binary op left.normal right.normal
  | .safeDivide numerator denominator sentinel =>
    .safeDivide numerator.normal denominator.normal sentinel
  | .choose test yes no => .choose test.normal yes.normal no.normal

def Predicate.normal : Predicate → Predicate
  | .mk left op right => .mk left.normal op (if op.takesOperand then right.normal else .none)

def Operand.normal : Operand → Operand
  | .none => .none
  | .expr e => .expr e.normal
  | .list values => .list values

end

/-- A path with each segment in quotes; one that cannot be read stays as it is. -/
def normalPath (path : String) : String :=
  match splitPath path with
  | .ok segments => quotedPath .postgres segments
  | .error _ => path

def SelectItem.normal : SelectItem → SelectItem
  | .expr e aliasName => .expr e.normal aliasName
  | .wildcard table => .wildcard table

mutual

def FromItem.normal : FromItem → FromItem
  | .table path aliasName => .table (normalPath path) aliasName
  | .derived query aliasName => .derived query.normal aliasName

def Join.normal : Join → Join
  | .mk kind item on => .mk kind item.normal (on.map Predicate.normal)

def normalJoins : List Join → List Join
  | [] => []
  | j :: js => j.normal :: normalJoins js

def Query.normal : Query → Query
  | .mk projection source joins filters =>
    .mk (projection.map SelectItem.normal) source.normal (normalJoins joins)
      (filters.map Predicate.normal)

end

/-- Paths that can be read have the same normal form just if they have the same segments. -/
theorem normalPath_eq_iff {p q : String} {ps qs : List String} (hp : splitPath p = .ok ps)
    (hq : splitPath q = .ok qs) : normalPath p = normalPath q ↔ ps = qs := by
  rw [normalPath, normalPath, hp, hq]
  constructor
  · intro h
    have hsplit := splitPath_quotedPath (d := .postgres) (splitPath_ne_nil hp)
    dsimp only at h
    rw [h, splitPath_quotedPath (splitPath_ne_nil hq)] at hsplit
    exact (Except.ok.inj hsplit).symm
  · rintro rfl
    rfl

/-! ### Normal forms are written alike -/

theorem Expr.mayBeNull_normal (e : Expr) : e.normal.mayBeNull = e.mayBeNull := by cases e <;> rfl

theorem Expr.isNull_normal (e : Expr) : e.normal.isNull = e.isNull := by cases e <;> rfl

theorem Operand.pieces_ignored (d : Dialect) {op : CompareOp} (h : op.takesOperand = false)
    (right : Operand) : Operand.none.pieces d op = right.pieces d op := by
  cases op with
  | isNull => cases right <;> rfl
  | isNotNull => cases right <;> rfl
  | _ => cases h

mutual

theorem Expr.pieces_normal (d : Dialect) : ∀ e : Expr, e.normal.pieces d = e.pieces d
  | .column _ _ | .literal _ => rfl
  | .cast inner target => by
    rw [Expr.normal, Expr.pieces, Expr.pieces, Expr.pieces_normal d inner]
  | .binary op left right => by
    rw [Expr.normal, Expr.pieces, Expr.pieces, Expr.pieces_normal d left,
      Expr.pieces_normal d right]
  | .safeDivide numerator denominator sentinel => by
    rw [Expr.normal, Expr.pieces, Expr.pieces, Expr.pieces_normal d numerator,
      Expr.pieces_normal d denominator, Expr.mayBeNull_normal, Expr.mayBeNull_normal]
  | .choose test yes no => by
    rw [Expr.normal, Expr.pieces, Expr.pieces, Predicate.pieces_normal d test,
      Expr.pieces_normal d yes, Expr.pieces_normal d no]

theorem Predicate.pieces_normal (d : Dialect) :
    ∀ p : Predicate, p.normal.pieces d = p.pieces d
  | .mk left op right => by
    rw [Predicate.normal, Predicate.pieces, Predicate.pieces, Expr.pieces_normal d left]
    cases h : op.takesOperand with
    | false => rw [if_neg Bool.false_ne_true, Operand.pieces_ignored d h right]
    | true => rw [if_pos rfl, Operand.pieces_normal d op right]

theorem Operand.pieces_normal (d : Dialect) (op : CompareOp) :
    ∀ right : Operand, right.normal.pieces d op = right.pieces d op
  | .none | .list _ => rfl
  | .expr e => by
    rw [Operand.normal, Operand.pieces.eq_def, Operand.pieces.eq_def]
    dsimp only
    rw [Expr.pieces_normal d e, Expr.isNull_normal]

end

theorem conjunctionPieces_normal (d : Dialect) (predicates : List Predicate) :
    conjunctionPieces d (predicates.map Predicate.normal) = conjunctionPieces d predicates := by
  unfold conjunctionPieces
  rw [Outcome.mapM_map_of_eq (Predicate.pieces_normal d)]

theorem wherePieces_normal (d : Dialect) (predicates : List Predicate) :
    wherePieces d (predicates.map Predicate.normal) = wherePieces d predicates := by
  unfold wherePieces
  rw [conjunctionPieces_normal, List.isEmpty_map]

theorem SelectItem.pieces_normal (d : Dialect) (item : SelectItem) :
    item.normal.pieces d = item.pieces d := by
  cases item with
  | expr e aliasName => rw [normal, pieces, pieces, Expr.pieces_normal]
  | wildcard table => rfl

theorem pathPieces_normal {d : Dialect} {path : String} {ps : List Piece}
    (h : pathPieces d path = .ok ps) : pathPieces d (normalPath path) = .ok ps := by
  obtain ⟨segments, hsegments, rfl⟩ := Outcome.map_eq_ok.mp h
  obtain ⟨hsplit, hlength, hnames⟩ := tablePath_eq_ok.mp hsegments
  have hquoted : splitPath (normalPath path) = .ok segments := by
    rw [normalPath, hsplit]
    exact splitPath_quotedPath (splitPath_ne_nil hsplit)
  exact Outcome.map_eq_ok.mpr ⟨segments, tablePath_eq_ok.mpr ⟨hquoted, hlength, hnames⟩, rfl⟩

section
variable {d : Dialect}

mutual

theorem FromItem.pieces_normal :
    ∀ (item : FromItem) {ps : List Piece}, item.pieces d = .ok ps → item.normal.pieces d = .ok ps
  | .table path aliasName, ps, h => by
    rw [FromItem.pieces] at h
    obtain ⟨qs, hqs, h⟩ := Outcome.bind_eq_ok.mp h
    rw [FromItem.normal, FromItem.pieces, pathPieces_normal hqs]
    exact h
  | .derived query aliasName, ps, h => by
    rw [FromItem.pieces] at h
    obtain ⟨qs, hqs, h⟩ := Outcome.bind_eq_ok.mp h
    rw [FromItem.normal, FromItem.pieces, Query.pieces_normal query hqs]
    exact h

theorem Join.pieces_normal :
    ∀ (j : Join) {ps : List Piece}, j.pieces d = .ok ps → j.normal.pieces d = .ok ps
  | .mk kind item on, ps, h => by
    rw [Join.pieces] at h
    obtain ⟨i, hi, h⟩ := Outcome.bind_eq_ok.mp h
    rw [Join.normal, Join.pieces, FromItem.pieces_normal item hi, conjunctionPieces_normal]
    exact h

theorem joinsPieces_normal :
    ∀ (js : List Join) {ps : List Piece}, joinsPieces d js = .ok ps →
      joinsPieces d (normalJoins js) = .ok ps
  | [], _, h => h
  | j :: js, ps, h => by
    rw [joinsPieces] at h
    obtain ⟨p, hp, h⟩ := Outcome.bind_eq_ok.mp h
    obtain ⟨qs, hqs, h⟩ := Outcome.bind_eq_ok.mp h
    rw [normalJoins, joinsPieces, Join.pieces_normal j hp]
    exact Outcome.bind_eq_ok.mpr ⟨p, rfl, Outcome.bind_eq_ok.mpr ⟨qs, joinsPieces_normal js hqs, h⟩⟩

theorem Query.pieces_normal :
    ∀ (q : Query) {ps : List Piece}, q.pieces d = .ok ps → q.normal.pieces d = .ok ps
  | .mk projection source joins filters, ps, h => by
    rw [Query.pieces] at h
    obtain ⟨items, hitems, h⟩ := Outcome.bind_eq_ok.mp h
    obtain ⟨f, hf, h⟩ := Outcome.bind_eq_ok.mp h
    obtain ⟨js, hjs, h⟩ := Outcome.bind_eq_ok.mp h
    rw [Query.normal, Query.pieces, Outcome.mapM_map_of_eq (SelectItem.pieces_normal d), hitems,
      FromItem.pieces_normal source hf, wherePieces_normal]
    exact Outcome.bind_eq_ok.mpr ⟨items, rfl, Outcome.bind_eq_ok.mpr ⟨f, rfl,
      Outcome.bind_eq_ok.mpr ⟨js, joinsPieces_normal joins hjs, h⟩⟩⟩

end

end

end TablePipeline.Sql
