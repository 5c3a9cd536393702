import TablePipeline.Proofs.Sql.Shape

/-!
# No name or value gets out of its place

Whatever its names and values are, a construct that is written reads back as its own names in
quotes; the text around them is the same for all names and values, so none of it comes from them.
-/

set_option autoImplicit false

namespace TablePipeline.Sql

/-- What is written reads back as the names that were meant, in order, and any other names that can
be quoted and any other values of the same types leave the text around the names as it is. -/
def Safe {α β : Type} (d : Dialect) (write : α → Except Error String) (names : α → List String)
    (shape : α → β) : Prop :=
  ∀ a sql, write a = .ok sql →
    ∃ ts, Token.read? d sql = some ts ∧ ts.flatMap (Token.chars d.quote) = sql.toList ∧
      Token.names ts = names a ∧
      ∀ b, shape b = shape a → (∀ n ∈ names b, ∃ quoted, quoteName d n = .ok quoted) →
        ∃ sql' ts', write b = .ok sql' ∧ Token.read? d sql' = some ts' ∧
          Token.around ts' = Token.around ts

section
variable {α : Type} {d : Dialect} {pieces : α → Except Error (List Piece)}
  {names : α → List String} {shape : α → α}

theorem around_eq_of_shape {ps qs : List Piece}
    (h : qs.map Piece.shape = ps.map Piece.shape) (n : Nat) :
    Piece.around d n qs = Piece.around d n ps := by
  rw [← around_shape d n qs, h, around_shape]

/-- Constructs of the same shape with allowed names are written together. -/
theorem exists_pieces_of_shape
    (hshape : ∀ a, (∀ n ∈ names a, nameFault? d n = none) →
      Outcome.Mapped (List.map Piece.shape) (pieces a) (pieces (shape a)))
    {a b : α} {ps : List Piece} (ha : ∀ n ∈ names a, nameFault? d n = none)
    (hps : pieces a = .ok ps) (hb : ∀ n ∈ names b, nameFault? d n = none)
    (hab : shape b = shape a) :
    ∃ qs, pieces b = .ok qs ∧ qs.map Piece.shape = ps.map Piece.shape := by
  have hmapped : (pieces b).toOption.map (List.map Piece.shape) =
      (pieces a).toOption.map (List.map Piece.shape) := by
    rw [← hshape a ha, ← hshape b hb, hab]
  rw [hps] at hmapped
  obtain ⟨qs, hqs, heq⟩ := Option.map_eq_some_iff.mp hmapped
  exact ⟨qs, Outcome.toOption_eq_some.mp hqs, heq⟩

theorem Safe.of_pieces (hspells : ∀ a ps, pieces a = .ok ps → Spells d ps (names a))
    (hshape : ∀ a, (∀ n ∈ names a, nameFault? d n = none) →
      Outcome.Mapped (List.map Piece.shape) (pieces a) (pieces (shape a))) (n : Nat) :
    Safe d (fun a => (pieces a).map (Piece.write d n)) names shape := by
  intro a sql h
  obtain ⟨ps, hps, rfl⟩ := Outcome.map_eq_ok.mp h
  have ha := hspells a ps hps
  obtain ⟨ts, hread, hnames, haround⟩ := ha.read n
  refine ⟨ts, hread, chars_of_readFrom? hread, hnames, ?_⟩
  intro b hab hquoted
  have hb : ∀ m ∈ names b, nameFault? d m = none := fun m hm =>
    quoteName_ok_iff.mp (hquoted m hm)
  obtain ⟨qs, hqs, hshapes⟩ := exists_pieces_of_shape hshape ha.accepted hps hb hab
  obtain ⟨ts', hread', _, haround'⟩ := (hspells b qs hqs).read n
  refine ⟨Piece.write d n qs, ts', Outcome.map_eq_ok.mpr ⟨qs, hqs, rfl⟩, hread', ?_⟩
  rw [haround', haround, around_eq_of_shape hshapes]

theorem Safe.of_fragment (hspells : ∀ a ps, pieces a = .ok ps → Spells d ps (names a))
    (hshape : ∀ a, (∀ n ∈ names a, nameFault? d n = none) →
      Outcome.Mapped (List.map Piece.shape) (pieces a) (pieces (shape a))) :
    Safe d (fun a => ((pieces a).map (Piece.fragment d)).map (·.sql)) names shape := by
  have hwrite : (fun a => ((pieces a).map (Piece.fragment d)).map (·.sql)) =
      fun a => (pieces a).map (Piece.write d 0) := by
    funext a
    cases pieces a <;> rfl
  rw [hwrite]
  exact .of_pieces hspells hshape 0

end

/-- Queries, expressions, lists of predicates and clauses from structured conditions are written
safely in every dialect, and expressions and predicates behind any number of bound values. -/
theorem write_safe (d : Dialect) :
    Safe d (fun q : Query => (q.write d).map (·.sql)) Query.identifiers Query.shape ∧
    (∀ n, Safe d (fun e : Expr => (e.pieces d).map (Piece.write d n)) Expr.identifiers Expr.shape) ∧
    (∀ n, Safe d (fun ps : List Predicate => (conjunctionPieces d ps).map (Piece.write d n))
      (List.flatMap Predicate.identifiers) (List.map Predicate.shape)) ∧
    (∀ n, Safe d (fun ps : List Predicate => (wherePieces d ps).map (Piece.write d n))
      (List.flatMap Predicate.identifiers) (List.map Predicate.shape)) ∧
    Safe d (fun cs : List Condition => (whereClause d cs).map (·.sql))
      (List.flatMap Condition.identifiers) (List.map Condition.shape) ∧
    Safe d (fun c : JoinClause => c.write d) JoinClause.identifiers JoinClause.shape := by
  refine ⟨?query, ?expr, ?conjunction, ?filters, ?conditions, ?join⟩
  case query => exact .of_fragment (fun q _ h => q.spells d h) fun q h => q.pieces_shape d h
  case expr => exact .of_pieces (fun e _ h => e.spells d h) fun e h => e.pieces_shape d h
  case conjunction =>
    exact .of_pieces (fun _ _ h => conjunction_spells h) fun _ h => conjunctionPieces_shape h
  case filters => exact .of_pieces (fun _ _ h => (where_spells h).1) fun _ h => wherePieces_shape h
  case conditions =>
    exact .of_fragment (fun _ _ h => condition_spells h) fun _ h => conditionPieces_shape h
  case join => exact .of_pieces (fun _ _ h => JoinClause.spells h) (fun c h => c.pieces_shape h) 0

end TablePipeline.Sql
