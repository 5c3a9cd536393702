import TablePipeline.Proofs.Sql.Written
import TablePipeline.Sql.Clause

/-!
# The names of expressions and queries

The names of a construct in the order of its text. A guarded division tests its operands before it
divides them, so their names come again. Whatever is written spells just its names.
-/

set_option autoImplicit false

namespace TablePipeline.Sql

/-- The segments of a path; none of a path that cannot be read. -/
def pathIdentifiers (path : String) : List String := (splitPath path).toOption.getD []

mutual

def Expr.identifiers : Expr → List String
  | .column table name => table.toList ++ [name]
  | .literal _ => []
  | .cast inner _ => inner.identifiers
  | .binary _ left right => left.identifiers ++ right.identifiers
  | .safeDivide numerator denominator _ =>
    (if numerator.mayBeNull then numerator.identifiers else []) ++
      (if denominator.mayBeNull then denominator.identifiers else []) ++ denominator.identifiers ++
      numerator.identifiers ++ denominator.identifiers
  | .choose test yes no => test.identifiers ++ yes.identifiers ++ no.identifiers

/-- An operand that the comparison does not take is not written. -/
def Predicate.identifiers : Predicate → List String
  | .mk left op right => left.identifiers ++ if op.takesOperand then right.identifiers else []

def Operand.identifiers : Operand → List String
  | .none | .list _ => []
  | .expr e => e.identifiers

end

def SelectItem.identifiers : SelectItem → List String
  | .expr e aliasName => e.identifiers ++ [aliasName]
  | .wildcard table => [table]

mutual

def FromItem.identifiers : FromItem → List String
  | .table path aliasName => pathIdentifiers path ++ [aliasName]
  | .derived query aliasName => query.identifiers ++ [aliasName]

def Join.identifiers : Join → List String
  | .mk _ item on => item.identifiers ++ on.flatMap Predicate.identifiers

def joinsIdentifiers : List Join → List String
  | [] => []
  | j :: js => j.identifiers ++ joinsIdentifiers js

def Query.identifiers : Query → List String
  | .mk projection source joins filters =>
    projection.flatMap SelectItem.identifiers ++ source.identifiers ++ joinsIdentifiers joins ++
      filters.flatMap Predicate.identifiers

end

def Condition.identifiers (c : Condition) : List String := pathIdentifiers c.column

def JoinClause.identifiers (c : JoinClause) : List String :=
  pathIdentifiers c.rightTable ++ pathIdentifiers c.leftTable ++
    c.leftColumn :: pathIdentifiers c.rightTable ++ [c.rightColumn]

/-! ### Expressions -/

section
variable {d : Dialect} {n m : List Piece} {ns ms : List String}

theorem Spells.numerator (h : Spells d n ns) : Spells d (numeratorPieces d n) ns := by
  unfold numeratorPieces
  split
  · rename_i type htype
    have hend : IsPlain (" AS " ++ type ++ ")") :=
      (IsPlain.append (by decide) (isPlain_divisionType htype)).append (by decide)
    exact (h.snoc hend).text (by decide)
  · exact h

/-- The guard of a division spells the operands that may be null. -/
theorem Spells.guard (hn : Spells d n ns) (hm : Spells d m ms) (a b : Bool) :
    Spells d (nullGuard ((if a then [n] else []) ++ (if b then [m] else [])))
      ((if a then ns else []) ++ (if b then ms else [])) := by
  have hwhen : IsPlain "WHEN " := by decide
  have hnull : IsPlain " IS NULL" := by decide
  have hthen : IsPlain " THEN NULL " := by decide
  cases a with
  | false =>
    cases b with
    | false => exact .nil
    | true => exact ((hm.snoc hnull).text hwhen).snoc hthen
  | true =>
    cases b with
    | false =>
      change Spells d _ (ns ++ [])
      rw [List.append_nil]
      exact ((hn.snoc hnull).text hwhen).snoc hthen
    | true =>
      exact (((hn.snoc hnull).between (by decide) (hm.snoc hnull)).text hwhen).snoc hthen

end

theorem spells_values {d : Dialect} (vs : List Scalar) :
    Spells d (Piece.joined ", " (vs.map fun v => [Piece.literal v])) [] := by
  have h : List.Forall₂ (fun _ ps => Spells d ps []) vs (vs.map fun v => [Piece.literal v]) := by
    rw [List.forall₂_map_right_iff, List.forall₂_same]
    exact fun v _ => Spells.literal v
  have hjoined := Spells.joined (fun _ => []) (by decide : IsPlain ", ") h
  rwa [List.flatMap_eq_nil_iff.mpr fun _ _ => rfl] at hjoined

theorem ignored_spells {d : Dialect} {op : CompareOp} (h : op.takesOperand = false)
    (ns : List String) :
    Spells d [.text (" " ++ op.text)] (if op.takesOperand then ns else []) := by
  rw [h, if_neg Bool.false_ne_true]
  exact .text (IsPlain.append (by decide) (isPlain_compareOp op)) .nil

mutual

theorem Expr.spells (d : Dialect) :
    ∀ (e : Expr) {ps : List Piece}, e.pieces d = .ok ps → Spells d ps e.identifiers
  | .column none name, ps, h => by
    obtain ⟨hname, rfl⟩ := column_written h
    exact .single hname
  | .column (some table) name, ps, h => by
    obtain ⟨htable, hname, rfl⟩ := qualified_written h
    exact .name htable trivial ((Spells.single hname).text (by decide))
  | .literal v, ps, h => by
    obtain rfl := literal_written h
    exact .literal v
  | .cast inner target, ps, h => by
    obtain ⟨type, i, htype, hi, rfl⟩ := cast_written h
    have hend : IsPlain (" AS " ++ type ++ ")") :=
      (IsPlain.append (by decide) (isPlain_castType htype)).append (by decide)
    exact ((Expr.spells d inner hi).text (by decide)).snoc hend
  | .binary op left right, ps, h => by
    obtain ⟨l, r, hl, hr, rfl⟩ := binary_written h
    have hop : IsPlain (" " ++ op.text ++ " ") :=
      (IsPlain.append (by decide) (isPlain_arithmeticOp op)).append (by decide)
    have hleft : Spells d (if op = .divide then numeratorPieces d l else l) left.identifiers := by
      split
      · exact (Expr.spells d left hl).numerator
      · exact Expr.spells d left hl
    exact ((hleft.text (by decide)).between hop (Expr.spells d right hr)).snoc (by decide)
  | .safeDivide numerator denominator sentinel, ps, h => by
    obtain ⟨n, m, hn, hm, rfl⟩ := safeDivide_written h
    have hn := Expr.spells d numerator hn
    have hm := Expr.spells d denominator hm
    have hguard := hn.guard hm numerator.mayBeNull denominator.mayBeNull
    have hquotient := (hn.numerator.text (s := " ELSE (") (by decide)).cons_literal sentinel
    exact ((((hguard.text (by decide)).between (by decide) hm).between (by decide)
      hquotient).between (by decide) hm).snoc (by decide)
  | .choose test yes no, ps, h => by
    obtain ⟨p, y, n, hp, hy, hn, rfl⟩ := choose_written h
    have hp := Predicate.spells d test hp
    have hy := Expr.spells d yes hy
    have hn := Expr.spells d no hn
    exact (((hp.text (by decide)).between (by decide) hy).between (by decide) hn).snoc (by decide)

theorem Predicate.spells (d : Dialect) :
    ∀ (p : Predicate) {ps : List Piece}, p.pieces d = .ok ps → Spells d ps p.identifiers
  | .mk left op right, ps, h => by
    obtain ⟨l, r, hl, hr, rfl⟩ := predicate_written h
    obtain ⟨hright, ho⟩ := Operand.spells d op right hr
    exact (Expr.spells d left hl).append hright ho

theorem Operand.spells (d : Dialect) (op : CompareOp) :
    ∀ (o : Operand) {ps : List Piece}, o.pieces d op = .ok ps →
      Spells d ps (if op.takesOperand then o.identifiers else []) ∧ Opens ps
  | .none, ps, h => by
    cases operand_written h with
    | ignored _ hop => exact ⟨ignored_spells hop _, trivial⟩
  | .list values, ps, h => by
    cases operand_written h with
    | ignored _ hop => exact ⟨ignored_spells hop _, trivial⟩
    | list _ => exact ⟨((spells_values values).text (by decide)).snoc (by decide), trivial⟩
  | .expr e, ps, h => by
    cases operand_written h with
    | ignored _ hop => exact ⟨ignored_spells hop _, trivial⟩
    | expr hop _ _ hr =>
      have htext : IsPlain (" " ++ op.text ++ " ") :=
        (IsPlain.append (by decide) (isPlain_compareOp op)).append (by decide)
      rw [if_pos hop]
      exact ⟨(Expr.spells d e hr).text htext, trivial⟩

end

/-! ### Predicates and select lists -/

section
variable {d : Dialect} {ps : List Piece}

theorem conjunction_spells {predicates : List Predicate}
    (h : conjunctionPieces d predicates = .ok ps) :
    Spells d ps (predicates.flatMap Predicate.identifiers) := by
  obtain ⟨pss, hpss, rfl⟩ := conjunction_written h
  exact .joined Predicate.identifiers (by decide) (hpss.imp fun p _ hp => p.spells d hp)

theorem where_spells {predicates : List Predicate} (h : wherePieces d predicates = .ok ps) :
    Spells d ps (predicates.flatMap Predicate.identifiers) ∧ Opens ps := by
  obtain ⟨rfl, rfl⟩ | ⟨_, qs, hqs, rfl⟩ := where_written h
  · exact ⟨.nil, trivial⟩
  · exact ⟨(conjunction_spells hqs).text (by decide), trivial⟩

theorem SelectItem.spells (item : SelectItem) (h : item.pieces d = .ok ps) :
    Spells d ps item.identifiers := by
  cases item with
  | expr e aliasName =>
    obtain ⟨qs, hqs, hname, rfl⟩ := exprItem_written h
    exact (e.spells d hqs).between (by decide) (.single hname)
  | wildcard table =>
    obtain ⟨hname, rfl⟩ := wildcard_written h
    exact (Spells.single hname).snoc (by decide)

theorem path_spells {path : String} (h : pathPieces d path = .ok ps) :
    Spells d ps (pathIdentifiers path) := by
  obtain ⟨segments, hsplit, _, hall, rfl⟩ := path_written h
  have hspells : List.Forall₂ (fun n ps => Spells d ps [n]) segments
      (segments.map fun n => [.name n]) := by
    rw [List.forall₂_map_right_iff, List.forall₂_same]
    exact fun n hn => .single (hall n hn)
  have hjoined := Spells.joined (fun n => [n]) (by decide : IsPlain ".") hspells
  rw [List.flatMap_singleton'] at hjoined
  rw [pathIdentifiers, hsplit]
  exact hjoined

end

/-! ### Queries -/

mutual

theorem FromItem.spells (d : Dialect) :
    ∀ (item : FromItem) {ps : List Piece}, item.pieces d = .ok ps → Spells d ps item.identifiers
  | .table path aliasName, ps, h => by
    obtain ⟨qs, hqs, hname, rfl⟩ := table_written h
    exact (path_spells hqs).between (by decide) (.single hname)
  | .derived query aliasName, ps, h => by
    obtain ⟨qs, hqs, hname, rfl⟩ := derived_written h
    exact ((Query.spells d query hqs).text (by decide)).between (by decide) (.single hname)

theorem Join.spells (d : Dialect) :
    ∀ (j : Join) {ps : List Piece}, j.pieces d = .ok ps → Spells d ps j.identifiers ∧ Opens ps
  | .mk kind item on, ps, h => by
    obtain ⟨i, o, hi, ho, rfl⟩ := join_written h
    have hkind : IsPlain (" " ++ kind.text ++ " ") :=
      (IsPlain.append (by decide) (isPlain_joinKind kind)).append (by decide)
    exact ⟨((FromItem.spells d item hi).text hkind).between (by decide) (conjunction_spells ho),
      trivial⟩

theorem joins_spells (d : Dialect) :
    ∀ (js : List Join) {ps : List Piece}, joinsPieces d js = .ok ps →
      Spells d ps (joinsIdentifiers js) ∧ Opens ps
  | [], ps, h => by
    obtain rfl := Except.ok.inj h
    exact ⟨.nil, trivial⟩
  | j :: js, ps, h => by
    obtain ⟨p, qs, hp, hqs, rfl⟩ := joins_written h
    obtain ⟨hj, hopens⟩ := Join.spells d j hp
    obtain ⟨hjs, hopens'⟩ := joins_spells d js hqs
    exact ⟨hj.append hjs hopens', hopens.append hopens'⟩

theorem Query.spells (d : Dialect) :
    ∀ (q : Query) {ps : List Piece}, q.pieces d = .ok ps → Spells d ps q.identifiers
  | .mk projection source joins filters, ps, h => by
    obtain ⟨items, f, js, w, hitems, hf, hjs, hw, rfl⟩ := select_written h
    have hlist : Spells d (if items.isEmpty then [.text "*"] else Piece.joined ", " items)
        (projection.flatMap SelectItem.identifiers) := by
      split
      · rename_i hempty
        obtain rfl := List.isEmpty_iff.mp hempty
        obtain rfl := List.forall₂_nil_right_iff.mp hitems
        exact .text (by decide) .nil
      · exact .joined SelectItem.identifiers (by decide)
          (hitems.imp fun item _ hp => item.spells hp)
    obtain ⟨hjoins, hopens⟩ := joins_spells d joins hjs
    obtain ⟨hwhere, hopens'⟩ := where_spells hw
    exact (((hlist.text (by decide)).between (by decide)
      (FromItem.spells d source hf)).append hjoins hopens).append hwhere hopens'

end

/-! ### Clauses -/

section
variable {d : Dialect} {ps : List Piece}

theorem columnOfPath_identifiers {path : String} {e : Expr} (h : columnOfPath path = .ok e) :
    e.identifiers = pathIdentifiers path := by
  obtain ⟨segments, hsegments, h⟩ := Outcome.bind_eq_ok.mp h
  rw [pathIdentifiers, hsegments]
  split at h
  · obtain rfl := Outcome.pure_eq_ok.mp h
    rfl
  · obtain rfl := Outcome.pure_eq_ok.mp h
    rfl
  · cases h

theorem Condition.operand_identifiers {c : Condition} {op : CompareOp} {o : Operand}
    (h : c.operand op = .ok o) : o.identifiers = [] := by
  unfold operand at h
  split at h <;> cases h <;> rfl

theorem Condition.predicate_identifiers {c : Condition} {p : Predicate} (h : c.predicate = .ok p) :
    p.identifiers = c.identifiers := by
  obtain ⟨op, _, h⟩ := Outcome.bind_eq_ok.mp h
  obtain ⟨left, hleft, h⟩ := Outcome.bind_eq_ok.mp h
  obtain ⟨o, ho, h⟩ := Outcome.bind_eq_ok.mp h
  obtain rfl := Outcome.pure_eq_ok.mp h
  rw [Predicate.identifiers, columnOfPath_identifiers hleft, operand_identifiers ho, ite_self,
    List.append_nil]
  rfl

theorem predicates_identifiers {conditions : List Condition} {predicates : List Predicate}
    (h : conditions.mapM Condition.predicate = .ok predicates) :
    predicates.flatMap Predicate.identifiers = conditions.flatMap Condition.identifiers := by
  rw [Outcome.mapM_eq_ok] at h
  induction h with
  | nil => rfl
  | cons hp _ ih =>
    rw [List.flatMap_cons, List.flatMap_cons, Condition.predicate_identifiers hp, ih]

theorem condition_spells {conditions : List Condition} (h : conditionPieces d conditions = .ok ps) :
    Spells d ps (conditions.flatMap Condition.identifiers) := by
  obtain ⟨predicates, hpredicates, h⟩ := Outcome.bind_eq_ok.mp h
  rw [← predicates_identifiers hpredicates]
  exact (where_spells h).1

theorem JoinClause.spells {c : JoinClause} (h : c.pieces d = .ok ps) :
    Spells d ps c.identifiers := by
  obtain ⟨kind, _, h⟩ := Outcome.bind_eq_ok.mp h
  obtain ⟨left, hleft, h⟩ := Outcome.bind_eq_ok.mp h
  obtain ⟨right, hright, h⟩ := Outcome.bind_eq_ok.mp h
  obtain ⟨l, hl, h⟩ := Outcome.bind_eq_ok.mp h
  obtain ⟨r, hr, h⟩ := Outcome.bind_eq_ok.mp h
  obtain ⟨hleftColumn, rfl⟩ := namePiece_eq_ok.mp hl
  obtain ⟨hrightColumn, rfl⟩ := namePiece_eq_ok.mp hr
  obtain rfl := Outcome.pure_eq_ok.mp h
  have hright := path_spells hright
  have hkind : IsPlain (kind.text ++ " ") := (isPlain_joinKind kind).append (by decide)
  have hequal : Spells d (.name c.leftColumn :: .text " = " :: right)
      (c.leftColumn :: pathIdentifiers c.rightTable) :=
    .name hleftColumn trivial (hright.text (by decide))
  exact (((hright.text hkind).between (by decide) (path_spells hleft)).between (by decide)
    hequal).between (by decide) (.single hrightColumn)

end

end TablePipeline.Sql
