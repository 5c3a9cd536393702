import TablePipeline.Proofs.Sql.Spelling
import TablePipeline.Sql.Writing

/-!
# What is written

The pieces of each construct that is written, by the pieces of its parts.
-/

set_option autoImplicit false

namespace TablePipeline.Sql

variable {d : Dialect} {ps : List Piece}

/-! ### Expressions -/

theorem column_written {name : String} (h : (Expr.column none name).pieces d = .ok ps) :
    nameFault? d name = none ∧ ps = [.name name] := by
  rw [Expr.pieces] at h
  obtain ⟨front, hfront, h⟩ := Outcome.bind_eq_ok.mp h
  obtain rfl := Outcome.pure_eq_ok.mp hfront
  obtain ⟨n, hn, h⟩ := Outcome.bind_eq_ok.mp h
  obtain ⟨hname, rfl⟩ := namePiece_eq_ok.mp hn
  exact ⟨hname, (Outcome.pure_eq_ok.mp h).symm⟩

theorem qualified_written {table name : String}
    (h : (Expr.column (some table) name).pieces d = .ok ps) :
    nameFault? d table = none ∧ nameFault? d name = none ∧
      ps = [.name table, .text ".", .name name] := by
  rw [Expr.pieces] at h
  obtain ⟨t, ht, h⟩ := Outcome.bind_eq_ok.mp h
  obtain ⟨htable, rfl⟩ := namePiece_eq_ok.mp ht
  obtain ⟨front, hfront, h⟩ := Outcome.bind_eq_ok.mp h
  obtain rfl := Outcome.pure_eq_ok.mp hfront
  obtain ⟨n, hn, h⟩ := Outcome.bind_eq_ok.mp h
  obtain ⟨hname, rfl⟩ := namePiece_eq_ok.mp hn
  exact ⟨htable, hname, (Outcome.pure_eq_ok.mp h).symm⟩

theorem literal_written {v : Scalar} (h : (Expr.literal v).pieces d = .ok ps) :
    ps = [Piece.literal v] := by
  rw [Expr.pieces] at h
  exact (Except.ok.inj h).symm

theorem cast_written {inner : Expr} {target : ColumnType}
    (h : (Expr.cast inner target).pieces d = .ok ps) :
    ∃ type i, d.castType? target = some type ∧ inner.pieces d = .ok i ∧
      ps = .text "CAST(" :: i ++ [.text (" AS " ++ type ++ ")")] := by
  rw [Expr.pieces] at h
  split at h
  · cases h
  · rename_i type htype
    obtain ⟨i, hi, h⟩ := Outcome.bind_eq_ok.mp h
    exact ⟨type, i, htype, hi, (Outcome.pure_eq_ok.mp h).symm⟩

theorem binary_written {op : ArithmeticOp} {left right : Expr}
    (h : (Expr.binary op left right).pieces d = .ok ps) :
    ∃ l r, left.pieces d = .ok l ∧ right.pieces d = .ok r ∧
      ps = .text "(" :: (if op = .divide then numeratorPieces d l else l) ++
        .text (" " ++ op.text ++ " ") :: r ++ [.text ")"] := by
  rw [Expr.pieces] at h
  obtain ⟨l, hl, h⟩ := Outcome.bind_eq_ok.mp h
  obtain ⟨r, hr, h⟩ := Outcome.bind_eq_ok.mp h
  exact ⟨l, r, hl, hr, (Outcome.pure_eq_ok.mp h).symm⟩

theorem safeDivide_written {numerator denominator : Expr} {sentinel : Scalar}
    (h : (Expr.safeDivide numerator denominator sentinel).pieces d = .ok ps) :
    ∃ n m, numerator.pieces d = .ok n ∧ denominator.pieces d = .ok m ∧
      ps = .text "CASE " :: nullGuard ((if numerator.mayBeNull then [n] else []) ++
          (if denominator.mayBeNull then [m] else [])) ++
        .text "WHEN " :: m ++ .text " = 0 THEN " :: Piece.literal sentinel :: .text " ELSE (" ::
        numeratorPieces d n ++ .text " / " :: m ++ [.text ") END"] := by
  rw [Expr.pieces] at h
  obtain ⟨n, hn, h⟩ := Outcome.bind_eq_ok.mp h
  obtain ⟨m, hm, h⟩ := Outcome.bind_eq_ok.mp h
  exact ⟨n, m, hn, hm, (Outcome.pure_eq_ok.mp h).symm⟩

theorem choose_written {test : Predicate} {yes no : Expr}
    (h : (Expr.choose test yes no).pieces d = .ok ps) :
    ∃ p y n, test.pieces d = .ok p ∧ yes.pieces d = .ok y ∧ no.pieces d = .ok n ∧
      ps = .text "CASE WHEN " :: p ++ .text " THEN " :: y ++ .text " ELSE " :: n ++
        [.text " END"] := by
  rw [Expr.pieces] at h
  obtain ⟨p, hp, h⟩ := Outcome.bind_eq_ok.mp h
  obtain ⟨y, hy, h⟩ := Outcome.bind_eq_ok.mp h
  obtain ⟨n, hn, h⟩ := Outcome.bind_eq_ok.mp h
  exact ⟨p, y, n, hp, hy, hn, (Outcome.pure_eq_ok.mp h).symm⟩

theorem predicate_written {left : Expr} {op : CompareOp} {right : Operand}
    (h : (Predicate.mk left op right).pieces d = .ok ps) :
    ∃ l r, left.pieces d = .ok l ∧ right.pieces d op = .ok r ∧ ps = l ++ r := by
  rw [Predicate.pieces] at h
  obtain ⟨l, hl, h⟩ := Outcome.bind_eq_ok.mp h
  obtain ⟨r, hr, h⟩ := Outcome.bind_eq_ok.mp h
  exact ⟨l, r, hl, hr, (Outcome.pure_eq_ok.mp h).symm⟩

theorem takesOperand_of_ne {op : CompareOp} (hnull : op ≠ .isNull) (hnotNull : op ≠ .isNotNull) :
    op.takesOperand = true := by
  cases op with
  | isNull => exact (hnull rfl).elim
  | isNotNull => exact (hnotNull rfl).elim
  | _ => rfl

/-- The operand of a comparison, where one is taken. -/
inductive OperandWritten (d : Dialect) : CompareOp → Operand → List Piece → Prop
  | ignored {op : CompareOp} (right : Operand) (hop : op.takesOperand = false) :
    OperandWritten d op right [.text (" " ++ op.text)]
  | list {vs : List Scalar} (hne : vs ≠ []) :
    OperandWritten d .isIn (.list vs)
      (.text " IN (" :: Piece.joined ", " (vs.map fun v => [Piece.literal v]) ++ [.text ")"])
  | expr {op : CompareOp} {e : Expr} {r : List Piece} (hop : op.takesOperand = true)
    (hin : op ≠ .isIn) (hnull : e.isNull = false) (hr : e.pieces d = .ok r) :
    OperandWritten d op (.expr e) (.text (" " ++ op.text ++ " ") :: r)

theorem operand_written {op : CompareOp} {right : Operand} (h : right.pieces d op = .ok ps) :
    OperandWritten d op right ps := by
  cases right with
  | none =>
    unfold Operand.pieces at h
    split at h <;> cases h
    · exact .ignored _ rfl
    · exact .ignored _ rfl
  | list vs =>
    unfold Operand.pieces at h
    split at h
    · cases h
      exact .ignored _ rfl
    · cases h
      exact .ignored _ rfl
    · split at h
      · cases h
      · rename_i hne
        cases h
        exact .list (by simpa using hne)
    · cases h
  | expr e =>
    unfold Operand.pieces at h
    split at h
    · cases h
      exact .ignored _ rfl
    · cases h
      exact .ignored _ rfl
    · cases h
    · rename_i hnull hnotNull hin
      split at h
      · cases h
      · rename_i hliteral
        obtain ⟨r, hr, h⟩ := Outcome.bind_eq_ok.mp h
        obtain rfl := Outcome.pure_eq_ok.mp h
        exact .expr (takesOperand_of_ne hnull hnotNull) hin (Bool.eq_false_iff.mpr hliteral) hr

/-! ### Queries -/

theorem conjunction_written {predicates : List Predicate}
    (h : conjunctionPieces d predicates = .ok ps) :
    ∃ pss, List.Forall₂ (fun p ps => p.pieces d = .ok ps) predicates pss ∧
      ps = Piece.joined " AND " pss := by
  obtain ⟨pss, hpss, h⟩ := Outcome.bind_eq_ok.mp h
  exact ⟨pss, Outcome.mapM_eq_ok.mp hpss, (Outcome.pure_eq_ok.mp h).symm⟩

theorem where_written {predicates : List Predicate} (h : wherePieces d predicates = .ok ps) :
    predicates = [] ∧ ps = [] ∨
      predicates ≠ [] ∧ ∃ qs, conjunctionPieces d predicates = .ok qs ∧
        ps = .text " WHERE " :: qs := by
  unfold wherePieces at h
  split at h
  · rename_i hempty
    exact .inl ⟨List.isEmpty_iff.mp hempty, (Except.ok.inj h).symm⟩
  · rename_i hne
    obtain ⟨qs, hqs, h⟩ := Outcome.bind_eq_ok.mp h
    exact .inr ⟨mt List.isEmpty_iff.mpr hne, qs, hqs, (Outcome.pure_eq_ok.mp h).symm⟩

theorem exprItem_written {e : Expr} {aliasName : String}
    (h : (SelectItem.expr e aliasName).pieces d = .ok ps) :
    ∃ qs, e.pieces d = .ok qs ∧ nameFault? d aliasName = none ∧
      ps = qs ++ [.text " AS ", .name aliasName] := by
  obtain ⟨qs, hqs, h⟩ := Outcome.bind_eq_ok.mp h
  obtain ⟨n, hn, h⟩ := Outcome.bind_eq_ok.mp h
  obtain ⟨hname, rfl⟩ := namePiece_eq_ok.mp hn
  exact ⟨qs, hqs, hname, (Outcome.pure_eq_ok.mp h).symm⟩

theorem wildcard_written {table : String} (h : (SelectItem.wildcard table).pieces d = .ok ps) :
    nameFault? d table = none ∧ ps = [.name table, .text ".*"] := by
  obtain ⟨n, hn, h⟩ := Outcome.bind_eq_ok.mp h
  obtain ⟨hname, rfl⟩ := namePiece_eq_ok.mp hn
  exact ⟨hname, (Outcome.pure_eq_ok.mp h).symm⟩

theorem path_written {path : String} (h : pathPieces d path = .ok ps) :
    ∃ segments, splitPath path = .ok segments ∧ segments.length ≤ 2 ∧
      (∀ n ∈ segments, nameFault? d n = none) ∧
      ps = Piece.joined "." (segments.map fun n => [.name n]) := by
  obtain ⟨segments, hsegments, rfl⟩ := Outcome.map_eq_ok.mp h
  obtain ⟨hsplit, hlength, hnames⟩ := tablePath_eq_ok.mp hsegments
  exact ⟨segments, hsplit, hlength, hnames, rfl⟩

theorem table_written {path aliasName : String}
    (h : (FromItem.table path aliasName).pieces d = .ok ps) :
    ∃ qs, pathPieces d path = .ok qs ∧ nameFault? d aliasName = none ∧
      ps = qs ++ [.text " ", .name aliasName] := by
  rw [FromItem.pieces] at h
  obtain ⟨qs, hqs, h⟩ := Outcome.bind_eq_ok.mp h
  obtain ⟨n, hn, h⟩ := Outcome.bind_eq_ok.mp h
  obtain ⟨hname, rfl⟩ := namePiece_eq_ok.mp hn
  exact ⟨qs, hqs, hname, (Outcome.pure_eq_ok.mp h).symm⟩

theorem derived_written {query : Query} {aliasName : String}
    (h : (FromItem.derived query aliasName).pieces d = .ok ps) :
    ∃ qs, query.pieces d = .ok qs ∧ nameFault? d aliasName = none ∧
      ps = .text "(" :: qs ++ [.text ") ", .name aliasName] := by
  rw [FromItem.pieces] at h
  obtain ⟨qs, hqs, h⟩ := Outcome.bind_eq_ok.mp h
  obtain ⟨n, hn, h⟩ := Outcome.bind_eq_ok.mp h
  obtain ⟨hname, rfl⟩ := namePiece_eq_ok.mp hn
  exact ⟨qs, hqs, hname, (Outcome.pure_eq_ok.mp h).symm⟩

theorem join_written {kind : JoinKind} {item : FromItem} {on : List Predicate}
    (h : (Join.mk kind item on).pieces d = .ok ps) :
    ∃ i o, item.pieces d = .ok i ∧ conjunctionPieces d on = .ok o ∧
      ps = .text (" " ++ kind.text ++ " ") :: i ++ .text " ON " :: o := by
  rw [Join.pieces] at h
  obtain ⟨i, hi, h⟩ := Outcome.bind_eq_ok.mp h
  obtain ⟨o, ho, h⟩ := Outcome.bind_eq_ok.mp h
  exact ⟨i, o, hi, ho, (Outcome.pure_eq_ok.mp h).symm⟩

theorem joins_written {j : Join} {js : List Join} (h : joinsPieces d (j :: js) = .ok ps) :
    ∃ p qs, j.pieces d = .ok p ∧ joinsPieces d js = .ok qs ∧ ps = p ++ qs := by
  rw [joinsPieces] at h
  obtain ⟨p, hp, h⟩ := Outcome.bind_eq_ok.mp h
  obtain ⟨qs, hqs, h⟩ := Outcome.bind_eq_ok.mp h
  exact ⟨p, qs, hp, hqs, (Outcome.pure_eq_ok.mp h).symm⟩

theorem select_written {projection : List SelectItem} {source : FromItem} {joins : List Join}
    {filters : List Predicate} (h : (Query.mk projection source joins filters).pieces d = .ok ps) :
    ∃ items f js w, List.Forall₂ (fun item ps => item.pieces d = .ok ps) projection items ∧
      source.pieces d = .ok f ∧ joinsPieces d joins = .ok js ∧ wherePieces d filters = .ok w ∧
      ps = .text "SELECT " :: (if items.isEmpty then [.text "*"] else Piece.joined ", " items) ++
        .text " FROM " :: f ++ js ++ w := by
  rw [Query.pieces] at h
  obtain ⟨items, hitems, h⟩ := Outcome.bind_eq_ok.mp h
  obtain ⟨f, hf, h⟩ := Outcome.bind_eq_ok.mp h
  obtain ⟨js, hjs, h⟩ := Outcome.bind_eq_ok.mp h
  obtain ⟨w, hw, h⟩ := Outcome.bind_eq_ok.mp h
  exact ⟨items, f, js, w, Outcome.mapM_eq_ok.mp hitems, hf, hjs, hw,
    (Outcome.pure_eq_ok.mp h).symm⟩

end TablePipeline.Sql
