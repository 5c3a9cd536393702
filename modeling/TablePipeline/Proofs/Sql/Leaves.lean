import TablePipeline.Proofs.Rule.Casting
import TablePipeline.Proofs.Sql.Names

/-!
# The leaves of expressions and queries

The names and literals of a construct in the order of its text, those of an operand that is written
again once more. Whatever is written lays out just its leaves, with fixed text around them.
-/

set_option autoImplicit false

namespace TablePipeline.Sql

inductive Leaf
  | name (n : String)
  | value (v : Scalar)
  deriving DecidableEq, Repr

namespace Leaf

def bound? : Leaf → Option Scalar
  | name _ => none
  | value v => if v.isNull then none else some v

def bound (ls : List Leaf) : List Scalar := ls.filterMap bound?

end Leaf

mutual

def Expr.leaves : Expr → List Leaf
  | .column table name => table.toList.map .name ++ [.name name]
  | .literal v => [.value v]
  | .cast inner _ => inner.leaves
  | .binary _ left right => left.leaves ++ right.leaves
  | .safeDivide numerator denominator sentinel =>
    (if numerator.mayBeNull then numerator.leaves else []) ++
      (if denominator.mayBeNull then denominator.leaves else []) ++ denominator.leaves ++
      .value sentinel :: numerator.leaves ++ denominator.leaves
  | .choose test yes no => test.leaves ++ yes.leaves ++ no.leaves

/-- An operand that the comparison does not take is not written. -/
def Predicate.leaves : Predicate → List Leaf
  | .mk left op right => left.leaves ++ if op.takesOperand then right.leaves else []

def Operand.leaves : Operand → List Leaf
  | .none => []
  | .list values => values.map .value
  | .expr e => e.leaves

end

def pathLeaves (path : String) : List Leaf := (pathIdentifiers path).map .name

def SelectItem.leaves : SelectItem → List Leaf
  | .expr e aliasName => e.leaves ++ [.name aliasName]
  | .wildcard table => [.name table]

mutual

def FromItem.leaves : FromItem → List Leaf
  | .table path aliasName => pathLeaves path ++ [.name aliasName]
  | .derived query aliasName => query.leaves ++ [.name aliasName]

def Join.leaves : Join → List Leaf
  | .mk _ item on => item.leaves ++ on.flatMap Predicate.leaves

def joinsLeaves : List Join → List Leaf
  | [] => []
  | j :: js => j.leaves ++ joinsLeaves js

def Query.leaves : Query → List Leaf
  | .mk projection source joins filters =>
    projection.flatMap SelectItem.leaves ++ source.leaves ++ joinsLeaves joins ++
      filters.flatMap Predicate.leaves

end

def Part.leaves : Part → List Leaf
  | .query q => q.leaves
  | .expr e => e.leaves
  | .predicate p => p.leaves
  | .filters ps => ps.flatMap Predicate.leaves
  | .param v => [.value v]
  | .name n => [.name n]
  | .path p => pathLeaves p

/-! ### Fixed text -/

/-- Plain text without the characters of placeholders, which cannot go on a number either. -/
def IsFixed (s : String) : Prop :=
  IsPlain s ∧ '$' ∉ s.toList ∧ '?' ∉ s.toList ∧ s.toList.head?.any Char.isDigit = false

instance (s : String) : Decidable (IsFixed s) := by
  unfold IsFixed
  infer_instance

theorem IsFixed.append {s t : String} (hs : IsFixed s) (ht : IsFixed t) : IsFixed (s ++ t) := by
  obtain ⟨hs, hsd, hsq, hhead⟩ := hs
  obtain ⟨ht, htd, htq, _⟩ := ht
  refine ⟨hs.append ht, ?_, ?_, ?_⟩
  · rw [String.toList_append, List.mem_append]
    exact fun h => h.elim hsd htd
  · rw [String.toList_append, List.mem_append]
    exact fun h => h.elim hsq htq
  · have hne : s.toList ≠ [] := by simpa using hs.1
    rwa [String.toList_append, List.head?_append_of_ne_nil _ hne]

theorem isFixed_castType {d : Dialect} {t : ColumnType} {type : String}
    (h : d.castType? t = some type) : IsFixed type := by
  cases d <;> cases t <;> cases h <;> decide

theorem isFixed_divisionType {d : Dialect} {type : String} (h : d.divisionType? = some type) :
    IsFixed type := by
  cases d <;> cases h <;> decide

theorem isFixed_compareOp (op : CompareOp) : IsFixed op.text := by cases op <;> decide

theorem isFixed_arithmeticOp (op : ArithmeticOp) : IsFixed op.text := by cases op <;> decide

theorem isFixed_joinKind (kind : JoinKind) : IsFixed kind.text := by cases kind <;> decide

/-! ### Pieces -/

/-- Pieces that are some leaves in order, with fixed text around them: null is a word, any other
value is bound. -/
inductive Lays : List Piece → List Leaf → Prop
  | nil : Lays [] []
  | text {s : String} {ps : List Piece} {ls : List Leaf} (hs : IsFixed s) (h : Lays ps ls) :
    Lays (.text s :: ps) ls
  | name (n : String) {ps : List Piece} {ls : List Leaf} (h : Lays ps ls) :
    Lays (.name n :: ps) (.name n :: ls)
  | null {ps : List Piece} {ls : List Leaf} (h : Lays ps ls) :
    Lays (.text "NULL" :: ps) (.value .null :: ls)
  | param {v : Scalar} {ps : List Piece} {ls : List Leaf} (hv : v.isNull = false)
    (h : Lays ps ls) : Lays (.param v :: ps) (.value v :: ls)

namespace Lays

variable {ps qs : List Piece} {ls ms : List Leaf} {s : String}

theorem append (h : Lays ps ls) (h' : Lays qs ms) : Lays (ps ++ qs) (ls ++ ms) := by
  induction h with
  | nil => exact h'
  | text hs _ ih => exact .text hs ih
  | name n _ ih => exact .name n ih
  | null _ ih => exact .null ih
  | param hv _ ih => exact .param hv ih

theorem between (h : Lays ps ls) (hs : IsFixed s) (h' : Lays qs ms) :
    Lays (ps ++ .text s :: qs) (ls ++ ms) :=
  h.append (.text hs h')

theorem snoc (h : Lays ps ls) (hs : IsFixed s) : Lays (ps ++ [.text s]) ls := by
  have := h.between hs .nil
  rwa [List.append_nil] at this

theorem cons_literal (h : Lays ps ls) (v : Scalar) :
    Lays (Piece.literal v :: ps) (.value v :: ls) := by
  unfold Piece.literal
  split
  · rename_i hv
    obtain rfl := Scalar.isNull_eq_true_iff.mp hv
    exact .null h
  · rename_i hv
    exact .param (Bool.eq_false_iff.mpr hv) h

theorem joined {α : Type} (leaves : α → List Leaf) {between : String} (hb : IsFixed between)
    {as : List α} {pss : List (List Piece)}
    (h : List.Forall₂ (fun a ps => Lays ps (leaves a)) as pss) :
    Lays (Piece.joined between pss) (as.flatMap leaves) := by
  induction h with
  | nil => exact .nil
  | @cons a ps as pss ha has ih =>
    cases has with
    | nil => simpa [Piece.joined] using ha
    | cons _ _ => exact ha.between hb ih

theorem numerator (h : Lays ps ls) (d : Dialect) : Lays (numeratorPieces d ps) ls := by
  unfold numeratorPieces
  split
  · rename_i type htype
    have hend : IsFixed (" AS " ++ type ++ ")") :=
      (IsFixed.append (by decide) (isFixed_divisionType htype)).append (by decide)
    exact (h.snoc hend).text (by decide)
  · exact h

/-- The guard of a division lays out the operands that may be null. -/
theorem guard (h : Lays ps ls) (h' : Lays qs ms) (a b : Bool) :
    Lays (nullGuard ((if a then [ps] else []) ++ (if b then [qs] else [])))
      ((if a then ls else []) ++ (if b then ms else [])) := by
  have hwhen : IsFixed "WHEN " := by decide
  have hnull : IsFixed " IS NULL" := by decide
  have hthen : IsFixed " THEN NULL " := by decide
  cases a with
  | false =>
    cases b with
    | false => exact .nil
    | true => exact ((h'.snoc hnull).text hwhen).snoc hthen
  | true =>
    cases b with
    | false =>
      change Lays _ (ls ++ [])
      rw [List.append_nil]
      exact ((h.snoc hnull).text hwhen).snoc hthen
    | true => exact (((h.snoc hnull).between (by decide) (h'.snoc hnull)).text hwhen).snoc hthen

end Lays

theorem lays_values (vs : List Scalar) :
    Lays (Piece.joined ", " (vs.map fun v => [Piece.literal v])) (vs.map .value) := by
  have h : List.Forall₂ (fun v ps => Lays ps [.value v]) vs
      (vs.map fun v => [Piece.literal v]) := by
    rw [List.forall₂_map_right_iff, List.forall₂_same]
    exact fun v _ => Lays.nil.cons_literal v
  have hjoined := Lays.joined (fun v => [.value v]) (by decide : IsFixed ", ") h
  rwa [← List.map_eq_flatMap] at hjoined

/-! ### Expressions -/

theorem ignored_lays {op : CompareOp} (h : op.takesOperand = false) (ls : List Leaf) :
    Lays [.text (" " ++ op.text)] (if op.takesOperand then ls else []) := by
  rw [h, if_neg Bool.false_ne_true]
  exact .text (IsFixed.append (by decide) (isFixed_compareOp op)) .nil

mutual

theorem Expr.lays (d : Dialect) :
    ∀ (e : Expr) {ps : List Piece}, e.pieces d = .ok ps → Lays ps e.leaves
  | .column none name, ps, h => by
    obtain ⟨_, rfl⟩ := column_written h
    exact .name name .nil
  | .column (some table) name, ps, h => by
    obtain ⟨_, _, rfl⟩ := qualified_written h
    exact .name table (.text (by decide) (.name name .nil))
  | .literal v, ps, h => by
    obtain rfl := literal_written h
    exact Lays.nil.cons_literal v
  | .cast inner target, ps, h => by
    obtain ⟨type, i, htype, hi, rfl⟩ := cast_written h
    have hend : IsFixed (" AS " ++ type ++ ")") :=
      (IsFixed.append (by decide) (isFixed_castType htype)).append (by decide)
    exact ((Expr.lays d inner hi).text (by decide)).snoc hend
  | .binary op left right, ps, h => by
    obtain ⟨l, r, hl, hr, rfl⟩ := binary_written h
    have hop : IsFixed (" " ++ op.text ++ " ") :=
      (IsFixed.append (by decide) (isFixed_arithmeticOp op)).append (by decide)
    have hleft : Lays (if op = .divide then numeratorPieces d l else l) left.leaves := by
      split
      · exact (Expr.lays d left hl).numerator d
      · exact Expr.lays d left hl
    exact ((hleft.text (by decide)).between hop (Expr.lays d right hr)).snoc (by decide)
  | .safeDivide numerator denominator sentinel, ps, h => by
    obtain ⟨n, m, hn, hm, rfl⟩ := safeDivide_written h
    have hn := Expr.lays d numerator hn
    have hm := Expr.lays d denominator hm
    have hguard := hn.guard hm numerator.mayBeNull denominator.mayBeNull
    have hquotient := ((hn.numerator d).text (s := " ELSE (") (by decide)).cons_literal sentinel
    exact ((((hguard.text (by decide)).between (by decide) hm).between (by decide)
      hquotient).between (by decide) hm).snoc (by decide)
  | .choose test yes no, ps, h => by
    obtain ⟨p, y, n, hp, hy, hn, rfl⟩ := choose_written h
    have hp := Predicate.lays d test hp
    have hy := Expr.lays d yes hy
    have hn := Expr.lays d no hn
    exact (((hp.text (by decide)).between (by decide) hy).between (by decide) hn).snoc (by decide)

theorem Predicate.lays (d : Dialect) :
    ∀ (p : Predicate) {ps : List Piece}, p.pieces d = .ok ps → Lays ps p.leaves
  | .mk left op right, ps, h => by
    obtain ⟨l, r, hl, hr, rfl⟩ := predicate_written h
    exact (Expr.lays d left hl).append (Operand.lays d op right hr)

theorem Operand.lays (d : Dialect) (op : CompareOp) :
    ∀ (o : Operand) {ps : List Piece}, o.pieces d op = .ok ps →
      Lays ps (if op.takesOperand then o.leaves else [])
  | .none, ps, h => by
    cases operand_written h with
    | ignored _ hop => exact ignored_lays hop _
  | .list values, ps, h => by
    cases operand_written h with
    | ignored _ hop => exact ignored_lays hop _
    | list _ => exact ((lays_values values).text (by decide)).snoc (by decide)
  | .expr e, ps, h => by
    cases operand_written h with
    | ignored _ hop => exact ignored_lays hop _
    | expr hop _ _ hr =>
      have htext : IsFixed (" " ++ op.text ++ " ") :=
        (IsFixed.append (by decide) (isFixed_compareOp op)).append (by decide)
      rw [if_pos hop]
      exact (Expr.lays d e hr).text htext

end

/-! ### Predicates and select lists -/

section
variable {d : Dialect} {ps : List Piece}

theorem conjunction_lays {predicates : List Predicate}
    (h : conjunctionPieces d predicates = .ok ps) :
    Lays ps (predicates.flatMap Predicate.leaves) := by
  obtain ⟨pss, hpss, rfl⟩ := conjunction_written h
  exact .joined Predicate.leaves (by decide) (hpss.imp fun p _ hp => p.lays d hp)

theorem where_lays {predicates : List Predicate} (h : wherePieces d predicates = .ok ps) :
    Lays ps (predicates.flatMap Predicate.leaves) := by
  obtain ⟨rfl, rfl⟩ | ⟨_, qs, hqs, rfl⟩ := where_written h
  · exact .nil
  · exact (conjunction_lays hqs).text (by decide)

theorem SelectItem.lays (item : SelectItem) (h : item.pieces d = .ok ps) :
    Lays ps item.leaves := by
  cases item with
  | expr e aliasName =>
    obtain ⟨qs, hqs, _, rfl⟩ := exprItem_written h
    exact (e.lays d hqs).between (by decide) (.name aliasName .nil)
  | wildcard table =>
    obtain ⟨_, rfl⟩ := wildcard_written h
    exact .name table (.text (by decide) .nil)

theorem path_lays {path : String} (h : pathPieces d path = .ok ps) : Lays ps (pathLeaves path) := by
  obtain ⟨segments, hsplit, _, _, rfl⟩ := path_written h
  have hlays : List.Forall₂ (fun n ps => Lays ps [.name n]) segments
      (segments.map fun n => [.name n]) := by
    rw [List.forall₂_map_right_iff, List.forall₂_same]
    exact fun n _ => .name n .nil
  have hjoined := Lays.joined (fun n => [.name n]) (by decide : IsFixed ".") hlays
  rw [← List.map_eq_flatMap] at hjoined
  rw [pathLeaves, pathIdentifiers, hsplit]
  exact hjoined

end

/-! ### Queries -/

mutual

theorem FromItem.lays (d : Dialect) :
    ∀ (item : FromItem) {ps : List Piece}, item.pieces d = .ok ps → Lays ps item.leaves
  | .table path aliasName, ps, h => by
    obtain ⟨qs, hqs, _, rfl⟩ := table_written h
    exact (path_lays hqs).between (by decide) (.name aliasName .nil)
  | .derived query aliasName, ps, h => by
    obtain ⟨qs, hqs, _, rfl⟩ := derived_written h
    exact ((Query.lays d query hqs).text (by decide)).between (by decide) (.name aliasName .nil)

theorem Join.lays (d : Dialect) :
    ∀ (j : Join) {ps : List Piece}, j.pieces d = .ok ps → Lays ps j.leaves
  | .mk kind item on, ps, h => by
    obtain ⟨i, o, hi, ho, rfl⟩ := join_written h
    have hkind : IsFixed (" " ++ kind.text ++ " ") :=
      (IsFixed.append (by decide) (isFixed_joinKind kind)).append (by decide)
    exact ((FromItem.lays d item hi).text hkind).between (by decide) (conjunction_lays ho)

theorem joins_lays (d : Dialect) :
    ∀ (js : List Join) {ps : List Piece}, joinsPieces d js = .ok ps → Lays ps (joinsLeaves js)
  | [], ps, h => by
    obtain rfl := Except.ok.inj h
    exact .nil
  | j :: js, ps, h => by
    obtain ⟨p, qs, hp, hqs, rfl⟩ := joins_written h
    exact (Join.lays d j hp).append (joins_lays d js hqs)

theorem Query.lays (d : Dialect) :
    ∀ (q : Query) {ps : List Piece}, q.pieces d = .ok ps → Lays ps q.leaves
  | .mk projection source joins filters, ps, h => by
    obtain ⟨items, f, js, w, hitems, hf, hjs, hw, rfl⟩ := select_written h
    have hlist : Lays (if items.isEmpty then [.text "*"] else Piece.joined ", " items)
        (projection.flatMap SelectItem.leaves) := by
      split
      · rename_i hempty
        obtain rfl := List.isEmpty_iff.mp hempty
        obtain rfl := List.forall₂_nil_right_iff.mp hitems
        exact .text (by decide) .nil
      · exact .joined SelectItem.leaves (by decide) (hitems.imp fun item _ hp => item.lays hp)
    exact (((hlist.text (by decide)).between (by decide) (FromItem.lays d source hf)).append
      (joins_lays d joins hjs)).append (where_lays hw)

end

theorem Part.lays {d : Dialect} (part : Part) {ps : List Piece} (h : part.pieces d = .ok ps) :
    Lays ps part.leaves := by
  cases part with
  | query q => exact q.lays d h
  | expr e => exact e.lays d h
  | predicate p => exact p.lays d h
  | filters fs => exact where_lays h
  | param v =>
    obtain rfl := Except.ok.inj h
    exact Lays.nil.cons_literal v
  | name n =>
    obtain ⟨m, hm, h⟩ := Outcome.bind_eq_ok.mp h
    obtain ⟨_, rfl⟩ := namePiece_eq_ok.mp hm
    obtain rfl := Outcome.pure_eq_ok.mp h
    exact .name n .nil
  | path p => exact path_lays h

theorem parts_lay {d : Dialect} {parts : List Part} {pss : List (List Piece)}
    (h : parts.mapM (Part.pieces d) = .ok pss) : Lays pss.flatten (parts.flatMap Part.leaves) := by
  rw [Outcome.mapM_eq_ok] at h
  induction h with
  | nil => exact .nil
  | cons hps _ ih => exact (Part.lays _ hps).append ih

end TablePipeline.Sql
