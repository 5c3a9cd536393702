import TablePipeline.Proofs.Sql.Paths

/-!
# The shape of expressions and queries

The shape of a construct has one and the same name in every place of a name, and one value of each
type in the place of its values; null stays null, and a path keeps the number of its segments. With
names that the dialect allows a construct is written just where its shape is, as the same pieces up
to names and values.
-/

set_option autoImplicit false

namespace TablePipeline.Sql

/-! ### Shapes -/

def sample : ColumnType → Scalar
  | .integer => .integer 0
  | .decimal => .decimal .zero
  | .float => .float (.zero false)
  | .text => .text ""
  | .date => .date ⟨1, 1, 1, by decide, by decide, by decide⟩
  | .timestamp => .timestamp (.midnight ⟨1, 1, 1, by decide, by decide, by decide⟩)
  | .boolean => .boolean false

def valueShape (v : Scalar) : Scalar := (v.type?.map sample).getD .null

def pathOfLength : Nat → List Char
  | 0 => ['x']
  | n + 1 => 'x' :: '.' :: pathOfLength n

/-- A path with as many segments; one that cannot be read stays so. -/
def pathShape (path : String) : String :=
  match splitPath path with
  | .ok segments => String.ofList (pathOfLength (segments.length - 1))
  | .error _ => String.ofList ['"']

mutual

def Expr.shape : Expr → Expr
  | .column table _ => .column (table.map fun _ => "x") "x"
  | .literal v => .literal (valueShape v)
  | .cast inner target => .cast inner.shape target
  | .binary op left right => .binary op left.shape right.shape
  | .safeDivide numerator denominator sentinel =>
    .safeDivide numerator.shape denominator.shape (valueShape sentinel)
  | .choose test yes no => .choose test.shape yes.shape no.shape

def Predicate.shape : Predicate → Predicate
  | .mk left op right => .mk left.shape op right.shape

def Operand.shape : Operand → Operand
  | .none => .none
  | .expr e => .expr e.shape
  | .list values => .list (values.map valueShape)

end

def SelectItem.shape : SelectItem → SelectItem
  | .expr e _ => .expr e.shape "x"
  | .wildcard _ => .wildcard "x"

mutual

def FromItem.shape : FromItem → FromItem
  | .table path _ => .table (pathShape path) "x"
  | .derived query _ => .derived query.shape "x"

def Join.shape : Join → Join
  | .mk kind item on => .mk kind item.shape (on.map Predicate.shape)

def joinsShape : List Join → List Join
  | [] => []
  | j :: js => j.shape :: joinsShape js

def Query.shape : Query → Query
  | .mk projection source joins filters =>
    .mk (projection.map SelectItem.shape) source.shape (joinsShape joins)
      (filters.map Predicate.shape)

end

def FilterValue.shape : FilterValue → FilterValue
  | .scalar v => .scalar (valueShape v)
  | .list vs => .list (vs.map valueShape)

def Condition.shape (c : Condition) : Condition :=
  ⟨pathShape c.column, c.operator, c.value.map FilterValue.shape⟩

def JoinClause.shape (c : JoinClause) : JoinClause :=
  ⟨pathShape c.leftTable, pathShape c.rightTable, "x", "x", c.kind⟩

def Piece.shape : Piece → Piece
  | text s => text s
  | name _ => name "x"
  | param v => param (valueShape v)

/-! ### Values, paths and pieces -/

theorem isNull_valueShape (v : Scalar) : (valueShape v).isNull = v.isNull := by cases v <;> rfl

theorem literal_shape (v : Scalar) : Piece.literal (valueShape v) = (Piece.literal v).shape := by
  unfold Piece.literal
  rw [isNull_valueShape]
  split <;> rfl

theorem placeholder_shape (d : Dialect) (n : Nat) (v : Scalar) :
    Piece.placeholder d n (valueShape v) = Piece.placeholder d n v := by
  cases v <;> rfl

theorem joined_shape (between : String) (pss : List (List Piece)) :
    Piece.joined between (pss.map (List.map Piece.shape)) =
      (Piece.joined between pss).map Piece.shape := by
  induction pss with
  | nil => rfl
  | cons ps pss ih =>
    cases pss with
    | nil => rfl
    | cons qs pss =>
      rw [List.map_cons] at ih
      rw [List.map_cons, List.map_cons, joined_cons_cons, joined_cons_cons, ih, List.map_append,
        List.map_cons, Piece.shape]

/-- The text around the names of pieces is a matter of their shape. -/
theorem around_shape (d : Dialect) (n : Nat) (ps : List Piece) :
    Piece.around d n (ps.map Piece.shape) = Piece.around d n ps := by
  induction ps generalizing n with
  | nil => rfl
  | cons p ps ih =>
    cases p with
    | text s => rw [List.map_cons, Piece.shape, Piece.around, Piece.around, ih]
    | name m => rw [List.map_cons, Piece.shape, Piece.around, Piece.around, ih]
    | param v =>
      rw [List.map_cons, Piece.shape, Piece.around, Piece.around, ih, placeholder_shape]

theorem segmentsFrom_pathOfLength (n : Nat) :
    segmentsFrom .start [] (pathOfLength n) = .ok (List.replicate (n + 1) "x") := by
  induction n with
  | zero => rfl
  | succ n ih =>
    have hdot : segmentsFrom .start [] (pathOfLength (n + 1)) =
        (segmentsFrom .start [] (pathOfLength n)).map ("x" :: ·) := rfl
    rw [hdot, ih]
    rfl

theorem splitPath_shape (path : String) :
    Outcome.Mapped (List.map fun _ => "x") (splitPath path) (splitPath (pathShape path)) := by
  unfold pathShape
  cases h : splitPath path with
  | error e =>
    dsimp only [splitPath]
    rw [String.toList_ofList]
    exact .error _ _
  | ok segments =>
    have hne : segments ≠ [] := splitPath_ne_nil h
    have hlength : segments.length - 1 + 1 = segments.length := by
      have := List.length_pos_of_ne_nil hne
      omega
    have hsplit : splitPath (String.ofList (pathOfLength (segments.length - 1))) =
        .ok (segments.map fun _ => "x") := by
      unfold splitPath
      rw [String.toList_ofList, segmentsFrom_pathOfLength, hlength, List.map_const']
    exact hsplit ▸ .pure rfl

/-! ### Writing a shape -/

section
variable {d : Dialect}

theorem nameFault?_x (d : Dialect) : nameFault? d "x" = none := by cases d <;> decide

theorem namePiece_shape {n : String} (h : nameFault? d n = none) :
    Outcome.Mapped Piece.shape (namePiece d n) (namePiece d "x") := by
  rw [namePiece_eq_ok.mpr ⟨h, rfl⟩, namePiece_eq_ok.mpr ⟨nameFault?_x d, rfl⟩]
  exact .pure rfl

theorem pathPieces_shape {path : String} (h : ∀ n ∈ pathIdentifiers path, nameFault? d n = none) :
    Outcome.Mapped (List.map Piece.shape) (pathPieces d path) (pathPieces d (pathShape path)) := by
  refine Outcome.Mapped.map (f := List.map fun _ => "x") ?_ ?_
  · apply (splitPath_shape path).bind
    intro segments hsegments
    rw [pathIdentifiers, hsegments] at h
    dsimp only
    rw [List.length_map]
    split
    · exact .error _ _
    · apply Outcome.Mapped.mapM
      intro n hn
      rw [checkName_eq_ok.mpr ⟨h n hn, rfl⟩, checkName_eq_ok.mpr ⟨nameFault?_x d, rfl⟩]
      exact .pure rfl
  · intro segments
    rw [← joined_shape, List.map_map, List.map_map]
    rfl

theorem numeratorPieces_shape (ps : List Piece) :
    numeratorPieces d (ps.map Piece.shape) = (numeratorPieces d ps).map Piece.shape := by
  unfold numeratorPieces
  split
  · simp [Piece.shape]
  · rfl

theorem nullGuard_shape (pss : List (List Piece)) :
    nullGuard (pss.map (List.map Piece.shape)) = (nullGuard pss).map Piece.shape := by
  have htests : (pss.map (List.map Piece.shape)).map (· ++ [.text " IS NULL"]) =
      (pss.map (· ++ [.text " IS NULL"])).map (List.map Piece.shape) := by
    simp [Piece.shape]
  unfold nullGuard
  rw [htests, joined_shape, List.isEmpty_map]
  split
  · rfl
  · simp [Piece.shape]

theorem mayBeNull_shape (e : Expr) : e.shape.mayBeNull = e.mayBeNull := by
  cases e with
  | literal v => exact isNull_valueShape v
  | _ => rfl

theorem isNull_shape (e : Expr) : e.shape.isNull = e.isNull := by
  cases e with
  | literal v => exact isNull_valueShape v
  | _ => rfl

theorem values_shape (vs : List Scalar) :
    Piece.joined ", " ((vs.map valueShape).map fun v => [Piece.literal v]) =
      (Piece.joined ", " (vs.map fun v => [Piece.literal v])).map Piece.shape := by
  rw [← joined_shape, List.map_map, List.map_map]
  simp [Function.comp_def, literal_shape]

end

mutual

theorem Expr.pieces_shape (d : Dialect) :
    ∀ e : Expr, (∀ n ∈ e.identifiers, nameFault? d n = none) →
      Outcome.Mapped (List.map Piece.shape) (e.pieces d) (e.shape.pieces d)
  | .column none name, h => by
    rw [Expr.pieces, Expr.shape, Option.map_none, Expr.pieces]
    apply (Outcome.Mapped.pure (f := List.map Piece.shape) rfl).bind
    intro front _
    apply (namePiece_shape (h name (by simp [Expr.identifiers]))).bind
    intro n _
    exact .pure (by simp)
  | .column (some table) name, h => by
    rw [Expr.pieces, Expr.shape, Option.map_some, Expr.pieces]
    apply (namePiece_shape (h table (by simp [Expr.identifiers]))).bind
    intro t _
    refine (Outcome.Mapped.pure (f := List.map Piece.shape) (by simp [Piece.shape])).bind
      fun front _ => ?_
    apply (namePiece_shape (h name (by simp [Expr.identifiers]))).bind
    intro n _
    exact .pure (by simp)
  | .literal v, _ => by
    rw [Expr.pieces, Expr.shape, Expr.pieces]
    exact .pure (by rw [literal_shape]; rfl)
  | .cast inner target, h => by
    rw [Expr.pieces, Expr.shape, Expr.pieces]
    cases d.castType? target with
    | none => exact .error _ _
    | some type =>
      apply (Expr.pieces_shape d inner h).bind
      intro ps _
      exact .pure (by simp [Piece.shape])
  | .binary op left right, h => by
    rw [Expr.identifiers, List.forall_mem_append] at h
    rw [Expr.pieces, Expr.shape, Expr.pieces]
    apply (Expr.pieces_shape d left h.1).bind
    intro l _
    refine (Expr.pieces_shape d right h.2).bind fun r _ => .pure ?_
    split
    · simp [Piece.shape, numeratorPieces_shape]
    · simp [Piece.shape]
  | .safeDivide numerator denominator sentinel, h => by
    rw [Expr.identifiers, List.forall_mem_append, List.forall_mem_append] at h
    rw [Expr.pieces, Expr.shape, Expr.pieces]
    apply (Expr.pieces_shape d numerator h.1.2).bind
    intro n _
    refine (Expr.pieces_shape d denominator h.2).bind fun m _ => .pure ?_
    have hguard : nullGuard ((if numerator.mayBeNull then [n.map Piece.shape] else []) ++
          (if denominator.mayBeNull then [m.map Piece.shape] else [])) =
        (nullGuard ((if numerator.mayBeNull then [n] else []) ++
          (if denominator.mayBeNull then [m] else []))).map Piece.shape := by
      rw [← nullGuard_shape, List.map_append]
      congr 2 <;> split <;> rfl
    rw [mayBeNull_shape, mayBeNull_shape, hguard]
    simp [Piece.shape, numeratorPieces_shape, literal_shape]
  | .choose test yes no, h => by
    rw [Expr.identifiers, List.forall_mem_append, List.forall_mem_append] at h
    rw [Expr.pieces, Expr.shape, Expr.pieces]
    apply (Predicate.pieces_shape d test h.1.1).bind
    intro p _
    apply (Expr.pieces_shape d yes h.1.2).bind
    intro y _
    apply (Expr.pieces_shape d no h.2).bind
    intro n _
    exact .pure (by simp [Piece.shape])

theorem Predicate.pieces_shape (d : Dialect) :
    ∀ p : Predicate, (∀ n ∈ p.identifiers, nameFault? d n = none) →
      Outcome.Mapped (List.map Piece.shape) (p.pieces d) (p.shape.pieces d)
  | .mk left op right, h => by
    rw [Predicate.identifiers, List.forall_mem_append] at h
    rw [Predicate.pieces, Predicate.shape, Predicate.pieces]
    apply (Expr.pieces_shape d left h.1).bind
    intro l _
    apply (Operand.pieces_shape d op right h.2).bind
    intro r _
    exact .pure (by simp)

theorem Operand.pieces_shape (d : Dialect) (op : CompareOp) :
    ∀ o : Operand, (∀ n ∈ if op.takesOperand then o.identifiers else [], nameFault? d n = none) →
      Outcome.Mapped (List.map Piece.shape) (o.pieces d op) (o.shape.pieces d op)
  | .none, _ => by
    unfold Operand.pieces Operand.shape
    dsimp only
    split
    · exact .pure rfl
    · exact .pure rfl
    · exact .error _ _
    · exact .error _ _
  | .list values, _ => by
    unfold Operand.pieces Operand.shape
    dsimp only
    rw [List.isEmpty_map, values_shape]
    split
    · exact .pure rfl
    · exact .pure rfl
    · split
      · exact .error _ _
      · exact .pure (by simp [Piece.shape])
    · exact .error _ _
  | .expr e, h => by
    unfold Operand.pieces Operand.shape
    dsimp only
    rw [isNull_shape]
    split
    · exact .pure rfl
    · exact .pure rfl
    · exact .error _ _
    · rename_i hnull hnotNull _
      split
      · exact .error _ _
      · rw [if_pos (takesOperand_of_ne hnull hnotNull)] at h
        apply (Expr.pieces_shape d e h).bind
        intro r _
        exact .pure (by simp [Piece.shape])

end

section
variable {d : Dialect}

theorem conjunctionPieces_shape {ps : List Predicate}
    (h : ∀ n ∈ ps.flatMap Predicate.identifiers, nameFault? d n = none) :
    Outcome.Mapped (List.map Piece.shape) (conjunctionPieces d ps)
      (conjunctionPieces d (ps.map Predicate.shape)) := by
  refine Outcome.Mapped.bind (f := List.map (List.map Piece.shape)) ?_ fun pss _ => ?_
  · refine Outcome.Mapped.mapM fun p hp => p.pieces_shape d fun n hn => ?_
    exact h n (List.mem_flatMap.mpr ⟨p, hp, hn⟩)
  · exact .pure (joined_shape _ _)

theorem wherePieces_shape {ps : List Predicate}
    (h : ∀ n ∈ ps.flatMap Predicate.identifiers, nameFault? d n = none) :
    Outcome.Mapped (List.map Piece.shape) (wherePieces d ps)
      (wherePieces d (ps.map Predicate.shape)) := by
  unfold wherePieces
  rw [List.isEmpty_map]
  split
  · exact .pure rfl
  · apply (conjunctionPieces_shape h).bind
    intro qs _
    exact .pure (by simp [Piece.shape])

theorem SelectItem.pieces_shape (item : SelectItem)
    (h : ∀ n ∈ item.identifiers, nameFault? d n = none) :
    Outcome.Mapped (List.map Piece.shape) (item.pieces d) (item.shape.pieces d) := by
  cases item with
  | expr e aliasName =>
    rw [identifiers, List.forall_mem_append] at h
    apply (e.pieces_shape d h.1).bind
    intro ps _
    apply (namePiece_shape (h.2 aliasName (by simp))).bind
    intro n _
    exact .pure (by simp [Piece.shape])
  | wildcard table =>
    apply (namePiece_shape (h table (by simp [identifiers]))).bind
    intro n _
    exact .pure (by simp [Piece.shape])

end

mutual

theorem FromItem.pieces_shape (d : Dialect) :
    ∀ item : FromItem, (∀ n ∈ item.identifiers, nameFault? d n = none) →
      Outcome.Mapped (List.map Piece.shape) (item.pieces d) (item.shape.pieces d)
  | .table path aliasName, h => by
    rw [FromItem.identifiers, List.forall_mem_append] at h
    rw [FromItem.pieces, FromItem.shape, FromItem.pieces]
    apply (pathPieces_shape h.1).bind
    intro ps _
    apply (namePiece_shape (h.2 aliasName (by simp))).bind
    intro n _
    exact .pure (by simp [Piece.shape])
  | .derived query aliasName, h => by
    rw [FromItem.identifiers, List.forall_mem_append] at h
    rw [FromItem.pieces, FromItem.shape, FromItem.pieces]
    apply (Query.pieces_shape d query h.1).bind
    intro ps _
    apply (namePiece_shape (h.2 aliasName (by simp))).bind
    intro n _
    exact .pure (by simp [Piece.shape])

theorem Join.pieces_shape (d : Dialect) :
    ∀ j : Join, (∀ n ∈ j.identifiers, nameFault? d n = none) →
      Outcome.Mapped (List.map Piece.shape) (j.pieces d) (j.shape.pieces d)
  | .mk kind item on, h => by
    rw [Join.identifiers, List.forall_mem_append] at h
    rw [Join.pieces, Join.shape, Join.pieces]
    apply (FromItem.pieces_shape d item h.1).bind
    intro i _
    apply (conjunctionPieces_shape h.2).bind
    intro o _
    exact .pure (by simp [Piece.shape])

theorem joinsPieces_shape (d : Dialect) :
    ∀ js : List Join, (∀ n ∈ joinsIdentifiers js, nameFault? d n = none) →
      Outcome.Mapped (List.map Piece.shape) (joinsPieces d js) (joinsPieces d (joinsShape js))
  | [], _ => by
    rw [joinsShape, joinsPieces]
    exact .pure rfl
  | j :: js, h => by
    rw [joinsIdentifiers, List.forall_mem_append] at h
    rw [joinsShape, joinsPieces, joinsPieces]
    apply (Join.pieces_shape d j h.1).bind
    intro p _
    apply (joinsPieces_shape d js h.2).bind
    intro ps _
    exact .pure (by simp)

/-- With names that the dialect allows a query is written just where its shape is. -/
theorem Query.pieces_shape (d : Dialect) :
    ∀ q : Query, (∀ n ∈ q.identifiers, nameFault? d n = none) →
      Outcome.Mapped (List.map Piece.shape) (q.pieces d) (q.shape.pieces d)
  | .mk projection source joins filters, h => by
    rw [Query.identifiers, List.forall_mem_append, List.forall_mem_append,
      List.forall_mem_append] at h
    obtain ⟨⟨⟨hprojection, hsource⟩, hjoins⟩, hfilters⟩ := h
    rw [Query.pieces, Query.shape, Query.pieces]
    refine Outcome.Mapped.bind (f := List.map (List.map Piece.shape)) ?_ fun items _ => ?_
    · refine Outcome.Mapped.mapM fun item hitem => item.pieces_shape fun n hn => ?_
      exact hprojection n (List.mem_flatMap.mpr ⟨item, hitem, hn⟩)
    · apply (FromItem.pieces_shape d source hsource).bind
      intro f _
      apply (joinsPieces_shape d joins hjoins).bind
      intro js _
      refine (wherePieces_shape hfilters).bind fun w _ => .pure ?_
      rw [List.isEmpty_map, joined_shape]
      split <;> simp [Piece.shape]

end

/-! ### Clauses -/

section
variable {d : Dialect}

theorem columnOfPath_shape (path : String) :
    Outcome.Mapped Expr.shape (columnOfPath path) (columnOfPath (pathShape path)) := by
  apply (splitPath_shape path).bind
  intro segments _
  match segments with
  | [] => exact .error _ _
  | [column] => exact .pure rfl
  | [table, column] => exact .pure rfl
  | _ :: _ :: _ :: _ => exact .error _ _

theorem Condition.operand_shape (c : Condition) (op : CompareOp) :
    Outcome.Mapped Operand.shape (c.operand op) (c.shape.operand op) := by
  obtain ⟨column, operator, value⟩ := c
  cases op <;> rcases value with _ | v | vs <;> first | exact .pure rfl | exact .error _ _

theorem Condition.predicate_shape (c : Condition) :
    Outcome.Mapped Predicate.shape c.predicate c.shape.predicate := by
  apply (Outcome.Mapped.refl (CompareOp.read c.operator)).bind
  intro op _
  apply (columnOfPath_shape c.column).bind
  intro left _
  apply (c.operand_shape op).bind
  intro o _
  exact .pure rfl

theorem conditionPieces_shape {cs : List Condition}
    (h : ∀ n ∈ cs.flatMap Condition.identifiers, nameFault? d n = none) :
    Outcome.Mapped (List.map Piece.shape) (conditionPieces d cs)
      (conditionPieces d (cs.map Condition.shape)) := by
  refine Outcome.Mapped.bind (f := List.map Predicate.shape) ?_ fun ps hps => ?_
  · exact Outcome.Mapped.mapM fun c _ => c.predicate_shape
  · rw [← predicates_identifiers hps] at h
    exact wherePieces_shape h

theorem JoinClause.pieces_shape (c : JoinClause) (h : ∀ n ∈ c.identifiers, nameFault? d n = none) :
    Outcome.Mapped (List.map Piece.shape) (c.pieces d) (c.shape.pieces d) := by
  rw [identifiers] at h
  simp only [List.forall_mem_append, List.forall_mem_cons] at h
  obtain ⟨⟨⟨hright, hleft⟩, hleftColumn, _⟩, hrightColumn, _⟩ := h
  apply (Outcome.Mapped.refl (JoinKind.read c.kind)).bind
  intro kind _
  apply (pathPieces_shape hleft).bind
  intro left _
  apply (pathPieces_shape hright).bind
  intro right _
  apply (namePiece_shape hleftColumn).bind
  intro l _
  apply (namePiece_shape hrightColumn).bind
  intro r _
  exact .pure (by simp [Piece.shape])

end

end TablePipeline.Sql
