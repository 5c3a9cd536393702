import TablePipeline.Proofs.Sql.QueryRecovery

/-!
# Statements are unambiguous

The symbols of a statement are told from its text and its values, and its normal form is read from
its symbols. So two queries are written alike just if they have the same normal form, and two
expressions as well.
-/

set_option autoImplicit false

namespace TablePipeline.Sql

section
variable {d : Dialect} {ps ps' : List Piece}

theorem symbols_eq_of_write_eq (h : Symbol.Legible d (Piece.symbols d ps))
    (h' : Symbol.Legible d (Piece.symbols d ps')) {n : Nat}
    (hwrite : Piece.write d n ps = Piece.write d n ps')
    (hparams : Piece.params ps = Piece.params ps') : Piece.symbols d ps = Piece.symbols d ps' := by
  refine h.eq_of_write_eq h' (n := n) ?_ ?_
  · rw [Piece.write_symbols, Piece.write_symbols, hwrite]
  · rw [Piece.values_symbols, Piece.values_symbols, hparams]

theorem Expr.normal_eq_of_symbols_eq {e e' : Expr} (h : e.pieces d = .ok ps)
    (h' : e'.pieces d = .ok ps') (hsymbols : Piece.symbols d ps = Piece.symbols d ps') :
    e.normal = e'.normal := by
  let n := max ps.length ps'.length + 1
  have hread : Reader.Reads (Reader.expr d n) (Piece.symbols d ps ++ []) e.normal [] :=
    Reader.readsBack d n h (Nat.lt_succ_of_le (Nat.le_max_left _ _)) nofun
  have hread' : Reader.Reads (Reader.expr d n) (Piece.symbols d ps' ++ []) e'.normal [] :=
    Reader.readsBack d n h' (Nat.lt_succ_of_le (Nat.le_max_right _ _)) nofun
  rw [← hsymbols] at hread'
  exact hread.value_eq hread'

theorem Query.normal_eq_of_symbols_eq {q q' : Query} (h : q.pieces d = .ok ps)
    (h' : q'.pieces d = .ok ps') (hsymbols : Piece.symbols d ps = Piece.symbols d ps') :
    q.normal = q'.normal := by
  let n := max ps.length ps'.length + 1
  have hread := Reader.readsQueries d n h (Nat.lt_succ_of_le (Nat.le_max_left _ _)) .nil
  have hread' := Reader.readsQueries d n h' (Nat.lt_succ_of_le (Nat.le_max_right _ _)) .nil
  rw [← hsymbols] at hread'
  exact hread.value_eq hread'

/-- Behind any number of bound values expressions are written alike just if they have the same
normal form. -/
theorem Expr.written_alike_iff {e e' : Expr} (h : e.pieces d = .ok ps) (h' : e'.pieces d = .ok ps')
    (n : Nat) :
    (Piece.write d n ps = Piece.write d n ps' ∧ Piece.params ps = Piece.params ps') ↔
      e.normal = e'.normal := by
  constructor
  · rintro ⟨hwrite, hparams⟩
    refine Expr.normal_eq_of_symbols_eq h h' (symbols_eq_of_write_eq ?_ ?_ hwrite hparams)
    · exact Symbol.legible_symbols (e.spells d h) (e.lays d h)
    · exact Symbol.legible_symbols (e'.spells d h') (e'.lays d h')
  · intro hnormal
    rw [← Expr.pieces_normal, hnormal, Expr.pieces_normal, h'] at h
    obtain rfl := Except.ok.inj h
    exact ⟨rfl, rfl⟩

theorem Query.written_alike_iff {q q' : Query} {f f' : Fragment} (h : q.write d = .ok f)
    (h' : q'.write d = .ok f') : f = f' ↔ q.normal = q'.normal := by
  obtain ⟨ps, hps, rfl⟩ := Outcome.map_eq_ok.mp h
  obtain ⟨ps', hps', rfl⟩ := Outcome.map_eq_ok.mp h'
  constructor
  · intro hfragment
    obtain ⟨hwrite, hparams⟩ := Fragment.mk.inj hfragment
    refine Query.normal_eq_of_symbols_eq hps hps' (symbols_eq_of_write_eq ?_ ?_ hwrite hparams)
    · exact Symbol.legible_symbols (q.spells d hps) (q.lays d hps)
    · exact Symbol.legible_symbols (q'.spells d hps') (q'.lays d hps')
  · intro hnormal
    have hq := q.pieces_normal hps
    rw [hnormal, q'.pieces_normal hps'] at hq
    obtain rfl := Except.ok.inj hq
    rfl

end

/-- In every dialect two queries that are written are written alike, with the same text and the same
values, just if they have the same normal form: if they are equal up to the operands of comparisons
that take none and up to paths with the same segments. So are two expressions, behind any number of
values that are bound before them. -/
theorem write_unambiguous (d : Dialect) :
    (∀ {q q' : Query} {f f' : Fragment}, q.write d = .ok f → q'.write d = .ok f' →
      (f = f' ↔ q.normal = q'.normal)) ∧
    ∀ {e e' : Expr} {ps ps' : List Piece} (n : Nat), e.pieces d = .ok ps → e'.pieces d = .ok ps' →
      ((Piece.write d n ps = Piece.write d n ps' ∧ Piece.params ps = Piece.params ps') ↔
        e.normal = e'.normal) := by
  constructor
  · intro q q' f f' h h'
    exact Query.written_alike_iff h h'
  · intro e e' ps ps' n h h'
    exact Expr.written_alike_iff h h' n

/-- All columns of the unpaid orders, by some spelling of the table and with some operand. -/
def unpaidOrders (path : String) (operand : Operand) : Query :=
  .mk [] (.table path "o") [] [.mk (.column (some "o") "paid") .isNull operand]

def perUnit (numerator : Expr) : Expr := .binary .divide numerator (.column none "units")

/-- A spelling and an operand are not told from the text, but a cast is told from the one that a
division puts around its numerator. -/
theorem write_unambiguous_unpaidOrders :
    (∃ f f', (unpaidOrders "shop.orders" .none).write .postgres = .ok f ∧
      (unpaidOrders "\"shop\".orders" (.list [])).write .postgres = .ok f' ∧ f = f') ∧
    ∃ ps ps', (perUnit (.column none "price")).pieces .postgres = .ok ps ∧
      (perUnit (.cast (.column none "price") .decimal)).pieces .postgres = .ok ps' ∧
      ¬(Piece.write .postgres 0 ps = Piece.write .postgres 0 ps' ∧
        Piece.params ps = Piece.params ps') := by
  obtain ⟨hqueries, hexprs⟩ := write_unambiguous .postgres
  refine ⟨?queries, ?exprs⟩
  case queries =>
    have hbare : splitPath "shop.orders" = .ok ["shop", "orders"] := by decide +kernel
    have hquoted : splitPath "\"shop\".orders" = .ok ["shop", "orders"] := by decide +kernel
    have hpath := (normalPath_eq_iff hbare hquoted).mpr rfl
    obtain ⟨f, hf⟩ : ∃ f, (unpaidOrders "shop.orders" .none).write .postgres = .ok f := ⟨_, rfl⟩
    obtain ⟨f', hf'⟩ : ∃ f', (unpaidOrders "\"shop\".orders" (.list [])).write .postgres = .ok f' :=
      ⟨_, rfl⟩
    refine ⟨f, f', hf, hf', (hqueries hf hf').mpr ?_⟩
    exact congrArg (fun path => Query.mk [] (.table path "o") []
      [.mk (.column (some "o") "paid") .isNull .none]) hpath
  case exprs =>
    obtain ⟨ps, hps⟩ : ∃ ps, (perUnit (.column none "price")).pieces .postgres = .ok ps := ⟨_, rfl⟩
    obtain ⟨ps', hps'⟩ : ∃ ps', (perUnit (.cast (.column none "price") .decimal)).pieces
        .postgres = .ok ps' := ⟨_, rfl⟩
    refine ⟨ps, ps', hps, hps', mt (hexprs 0 hps hps').mp ?_⟩
    nofun

end TablePipeline.Sql
