import TablePipeline.Proofs.Sql.Grammar
import TablePipeline.Proofs.Sql.Normal
import TablePipeline.Proofs.Sql.Written

/-!
# Reading expressions back

What is written for an expression is read as its normal form, and what stands behind it is left.
Where the reader tries one construct after the other, the ones before the right one fail within a
few symbols.
-/

set_option autoImplicit false

namespace TablePipeline.Sql

open Piece (symbols)

namespace Reader

variable {α β : Type} {p q : Reader α} {f : α → Reader β} {a : α} {b : β} {xs ys zs : List Symbol}

/-- A reader reads something and leaves the rest. -/
def Reads (p : Reader α) (xs : List Symbol) (a : α) (ys : List Symbol) : Prop :=
  p.run xs = some (a, ys)

def Fails (p : Reader α) (xs : List Symbol) : Prop := p.run xs = none

theorem Reads.pure (a : α) (xs : List Symbol) : Reads (Pure.pure a) xs a xs := rfl

theorem Reads.bind (h : Reads p xs a ys) (h' : Reads (f a) ys b zs) : Reads (p >>= f) xs b zs := by
  unfold Reads at *
  rw [StateT.run_bind, h]
  exact h'

theorem Fails.bind (h : Fails p xs) : Fails (p >>= f) xs := by
  unfold Fails at *
  rw [StateT.run_bind, h]
  rfl

theorem Fails.bind_of_reads (h : Reads p xs a ys) (h' : Fails (f a) ys) : Fails (p >>= f) xs := by
  unfold Fails Reads at *
  rw [StateT.run_bind, h]
  exact h'

theorem Reads.left (h : Reads p xs a ys) : Reads (p <|> q) xs a ys := by
  unfold Reads at *
  rw [StateT.run_orElse, h]
  rfl

theorem Reads.right (hp : Fails p xs) (h : Reads q xs a ys) : Reads (p <|> q) xs a ys := by
  unfold Reads Fails at *
  rw [StateT.run_orElse, hp, h]
  rfl

theorem Reads.value_eq {a' : α} {ys' : List Symbol} (h : Reads p xs a ys) (h' : Reads p xs a' ys') :
    a = a' := by
  unfold Reads at *
  rw [h] at h'
  exact (Prod.mk.inj (Option.some.inj h')).1

theorem Fails.orElse (hp : Fails p xs) (hq : Fails q xs) : Fails (p <|> q) xs := by
  unfold Fails at *
  rw [StateT.run_orElse, hp, hq]
  rfl

theorem skipChars_append (cs : List Char) (xs : List Symbol) :
    skipChars cs (cs.map .char ++ xs) = some xs := by
  induction cs with
  | nil => rfl
  | cons c cs ih => rw [List.map_cons, List.cons_append, skipChars, if_pos rfl, ih]

theorem reads_skip (s : String) (xs : List Symbol) :
    Reads (skip s) (Symbol.ofText s ++ xs) () xs := by
  unfold Reads skip Symbol.ofText
  rw [StateT.run, skipChars_append]
  rfl

/-- Behind its text a reader goes on. -/
theorem Reads.skip {g : Unit → Reader β} {s : String} (h : Reads (g ()) xs b ys) :
    Reads (skip s >>= g) (Symbol.ofText s ++ xs) b ys :=
  (reads_skip s xs).bind h

/-- Neither text begins with the other. -/
def Apart (s t : String) : Prop := ¬s.toList <+: t.toList ∧ ¬t.toList <+: s.toList

instance (s t : String) : Decidable (Apart s t) :=
  inferInstanceAs (Decidable (¬s.toList <+: t.toList ∧ ¬t.toList <+: s.toList))

theorem skipChars_of_apart {cs cs' : List Char} (h : ¬cs <+: cs') (h' : ¬cs' <+: cs)
    (xs : List Symbol) : skipChars cs (cs'.map .char ++ xs) = none := by
  induction cs generalizing cs' with
  | nil => exact (h List.nil_prefix).elim
  | cons c cs ih =>
    cases cs' with
    | nil => exact (h' List.nil_prefix).elim
    | cons c' cs' =>
      rw [List.map_cons, List.cons_append, skipChars]
      split
      · rename_i hc
        subst hc
        rw [List.cons_prefix_cons] at h h'
        exact ih (fun hcs => h ⟨rfl, hcs⟩) fun hcs => h' ⟨rfl, hcs⟩
      · rfl

theorem Apart.fails {s t : String} (h : Apart s t) (xs : List Symbol) :
    Fails (skip s) (Symbol.ofText t ++ xs) := by
  unfold Fails skip Symbol.ofText
  rw [StateT.run, skipChars_of_apart h.1 h.2]
  rfl

/-- Of things whose texts are apart the right one is read. -/
theorem oneOf_reads {text : α → String} {as : List α}
    (hapart : as.Pairwise fun a b => Apart (text a) (text b)) {a : α} (ha : a ∈ as)
    (xs : List Symbol) : Reads (oneOf text as) (Symbol.ofText (text a) ++ xs) a xs := by
  induction hapart with
  | nil => cases ha
  | @cons b as hb _ ih =>
    rw [oneOf]
    obtain rfl | ha := List.mem_cons.mp ha
    · exact .left (.skip (.pure _ xs))
    · exact .right ((hb a ha).fails xs).bind (ih ha)

theorem castEnd_reads {d : Dialect} {t : ColumnType} {type : String} (h : d.castType? t = some type)
    (xs : List Symbol) :
    Reads (castEnd d) (Symbol.ofText (" AS " ++ type ++ ")") ++ xs) t xs := by
  have hapart : (castTypes d).Pairwise fun a b =>
      Apart (" AS " ++ a.2 ++ ")") (" AS " ++ b.2 ++ ")") := by
    cases d <;> decide +kernel
  have hmem : (t, type) ∈ castTypes d := by
    refine List.mem_filterMap.mpr ⟨t, by cases t <;> decide, ?_⟩
    rw [h, Option.map_some]
  exact (oneOf_reads hapart hmem xs).bind (.pure t xs)

/-! ### Lists -/

/-- What reads one thing in front of anything but a point. -/
def Clear (xs : List Symbol) : Prop := xs.head? ≠ some (.char '.')

theorem point_fails {rest : List Symbol} (h : Clear rest) : Fails (skip ".") rest := by
  cases rest with
  | nil => rfl
  | cons x xs =>
    cases x with
    | char c =>
      have hc : '.' ≠ c := by
        rintro rfl
        exact h rfl
      unfold Fails skip
      simp [StateT.run, skipChars, hc]
    | _ => rfl

theorem length_le_joined (between : String) (pss : List (List Piece)) :
    pss.length ≤ (Piece.joined between pss).length + 1 := by
  induction pss with
  | nil => exact Nat.zero_le _
  | cons ps pss ih =>
    cases pss with
    | nil => exact Nat.le_add_left _ _
    | cons qs pss =>
      simp only [joined_cons_cons, List.length_append, List.length_cons] at ih ⊢
      omega

/-- Things with the same text between are read if each of fewer than `n` pieces is. -/
theorem separated_reads {d : Dialect} {n : Nat} (between : String)
    {pieces : α → Except Error (List Piece)} {p : Reader β} (normal : α → β)
    (hread : ∀ {a : α} {ps : List Piece} {rest : List Symbol}, pieces a = .ok ps →
      ps.length < n → Clear rest → Reads p (symbols d ps ++ rest) (normal a) rest)
    {as : List α} {pss : List (List Piece)}
    (h : List.Forall₂ (fun a ps => pieces a = .ok ps) as pss)
    (hne : as ≠ []) (hn : (Piece.joined between pss).length < n)
    (hbetween : ∀ rest, Clear (Symbol.ofText between ++ rest)) {rest : List Symbol}
    (hclear : Clear rest) (hstop : Fails (skip between) rest) :
    Reads (separated between p n) (symbols d (Piece.joined between pss) ++ rest) (as.map normal)
      rest := by
  have hall (k : Nat) (hk : as.length ≤ k) : Reads (separated between p k)
      (symbols d (Piece.joined between pss) ++ rest) (as.map normal) rest := by
    induction h generalizing k with
    | nil => exact (hne rfl).elim
    | @cons a ps as pss ha has ih =>
      cases k with
      | zero => cases hk
      | succ k =>
        rw [separated]
        cases has with
        | nil => exact (hread ha hn hclear).bind (.right hstop.bind (.pure _ rest))
        | cons hb hbs =>
          rw [joined_cons_cons, List.length_append, List.length_cons] at hn
          have htail := ih (List.cons_ne_nil _ _) (by omega) k (Nat.succ_le_succ_iff.mp hk)
          rw [joined_cons_cons, Piece.symbols_append, symbols, List.append_assoc,
            List.append_assoc]
          refine (hread ha (by omega) (hbetween _)).bind (.left (.skip ?_))
          exact htail.bind (.pure _ rest)
  have hlength := length_le_joined between pss
  exact hall n (by rw [h.length_eq]; omega)

/-! ### Literals -/

section
variable {d : Dialect} {rest : List Symbol}

/-- Firebird can cast any value other than null. -/
theorem exists_castType {v : Scalar} (h : v.isNull = false) :
    ∃ t type, v.type? = some t ∧ Dialect.firebird.castType? t = some type := by
  cases v with
  | null => cases h
  | _ => exact ⟨_, _, rfl, rfl⟩

theorem symbols_literal {v : Scalar} (h : v.isNull = false) :
    symbols d [Piece.literal v] = Symbol.ofValue d v := by
  rw [Piece.literal, h, if_neg Bool.false_ne_true, symbols, symbols, List.append_nil]

theorem literal_reads (v : Scalar) :
    Reads (literal d) (symbols d [Piece.literal v] ++ rest) v rest := by
  cases hv : v.isNull with
  | true =>
    obtain rfl := Scalar.isNull_eq_true_iff.mp hv
    exact .left rfl
  | false =>
    rw [symbols_literal hv]
    cases d with
    | postgres => rfl
    | mysql => rfl
    | firebird =>
      obtain ⟨t, type, htype, hcast⟩ := exists_castType hv
      unfold Symbol.ofValue
      rw [htype, Option.bind_some, hcast]
      dsimp only
      rw [List.append_assoc, List.cons_append]
      refine .right rfl (.skip ?_)
      exact Reads.bind rfl ((castEnd_reads hcast rest).bind (.pure v rest))

end

/-! ### Expressions -/

section
variable {d : Dialect} {n : Nat} {e : Expr} {ps : List Piece} {rest : List Symbol}

/-- What an expression begins with. Firebird has no bare placeholders. -/
inductive Begins (d : Dialect) (e : Expr) : Symbol → Prop
  | name (n : String) (h : e.isColumn = true) : Begins d e (.name n)
  | null (h : e = .literal .null) : Begins d e (.char 'N')
  | value (v : Scalar) (h : d ≠ .firebird) : Begins d e (.value v)
  | paren : Begins d e (.char '(')
  | word : Begins d e (.char 'C')

theorem begins_of_pieces (h : e.pieces d = .ok ps) :
    ∃ x xs, symbols d ps = x :: xs ∧ Begins d e x := by
  cases e with
  | column table name =>
    cases table with
    | none =>
      obtain ⟨_, rfl⟩ := column_written h
      exact ⟨_, _, rfl, .name name rfl⟩
    | some table =>
      obtain ⟨_, _, rfl⟩ := qualified_written h
      exact ⟨_, _, rfl, .name table rfl⟩
  | literal v =>
    obtain rfl := literal_written h
    cases hv : v.isNull with
    | true =>
      obtain rfl := Scalar.isNull_eq_true_iff.mp hv
      exact ⟨_, _, rfl, .null rfl⟩
    | false =>
      rw [symbols_literal hv]
      cases d with
      | postgres => exact ⟨_, _, rfl, .value v nofun⟩
      | mysql => exact ⟨_, _, rfl, .value v nofun⟩
      | firebird =>
        obtain ⟨t, type, htype, hcast⟩ := exists_castType hv
        unfold Symbol.ofValue
        rw [htype, Option.bind_some, hcast]
        exact ⟨_, _, rfl, .word⟩
  | cast inner target =>
    obtain ⟨type, i, _, _, rfl⟩ := cast_written h
    exact ⟨_, _, rfl, .word⟩
  | binary op left right =>
    obtain ⟨l, r, _, _, rfl⟩ := binary_written h
    exact ⟨_, _, rfl, .paren⟩
  | safeDivide numerator denominator sentinel =>
    obtain ⟨n, m, _, _, rfl⟩ := safeDivide_written h
    exact ⟨_, _, rfl, .word⟩
  | choose test yes no =>
    obtain ⟨p, y, n, _, _, _, rfl⟩ := choose_written h
    exact ⟨_, _, rfl, .word⟩

theorem name_fails (h : e.pieces d = .ok ps) (hcolumn : e.isColumn = false) :
    Fails name (symbols d ps ++ rest) := by
  obtain ⟨x, xs, hps, hx⟩ := begins_of_pieces h
  rw [hps]
  cases hx with
  | name n hname => rw [hcolumn] at hname; cases hname
  | _ => rfl

theorem value_fails (h : e.pieces .firebird = .ok ps) :
    Fails value (symbols .firebird ps ++ rest) := by
  obtain ⟨x, xs, hps, hx⟩ := begins_of_pieces h
  rw [hps]
  cases hx with
  | value v hd => exact (hd rfl).elim
  | _ => rfl

theorem zero_fails (h : e.pieces d = .ok ps) :
    Fails (skip " = 0 THEN ") (Symbol.ofText " = " ++ (symbols d ps ++ rest)) := by
  obtain ⟨x, xs, hps, hx⟩ := begins_of_pieces h
  rw [hps]
  cases hx <;> rfl

/-- The branch of a division that gives null is none of a choice. -/
theorem nullBranch_fails (h : e.pieces d = .ok ps) :
    Fails (skip " IS NULL THEN NULL WHEN ") (Symbol.ofText " IS NULL" ++
      (Symbol.ofText " THEN " ++ (symbols d ps ++ (Symbol.ofText " ELSE " ++ rest)))) := by
  obtain ⟨x, xs, hps, hx⟩ := begins_of_pieces h
  cases hx with
  | null he =>
    subst he
    obtain rfl := literal_written h
    rfl
  | _ => rw [hps]; rfl

/-- Expressions of fewer than `n` pieces are read back. -/
def ReadsBack (d : Dialect) (n : Nat) : Prop :=
  ∀ {e : Expr} {ps : List Piece} {rest : List Symbol}, e.pieces d = .ok ps → ps.length < n →
    Clear rest → Reads (expr d n) (symbols d ps ++ rest) e.normal rest

theorem symbols_literal_cons (v : Scalar) (ps : List Piece) :
    symbols d (Piece.literal v :: ps) = symbols d [Piece.literal v] ++ symbols d ps :=
  Piece.symbols_append [Piece.literal v] ps

theorem clear_text {s : String} (h : s.toList.head?.any (· != '.') = true) (xs : List Symbol) :
    Clear (Symbol.ofText s ++ xs) := by
  unfold Clear Symbol.ofText
  cases hs : s.toList with
  | nil => rw [hs] at h; cases h
  | cons c cs => rw [hs] at h; simpa using h

theorem arithmeticOp_reads (op : ArithmeticOp) (rest : List Symbol) :
    Reads (oneOf (fun op : ArithmeticOp => " " ++ op.text ++ " ")
      [.add, .subtract, .multiply, .divide])
      (Symbol.ofText (" " ++ op.text ++ " ") ++ rest) op rest :=
  oneOf_reads (by decide +kernel) (by cases op <;> decide) rest

theorem compareOp_reads {op : CompareOp} (hop : op.takesOperand = true) (hin : op ≠ .isIn)
    (rest : List Symbol) :
    Reads (oneOf (fun op : CompareOp => " " ++ op.text ++ " ")
      [.eq, .notEq, .gt, .lt, .gtEq, .ltEq, .like])
      (Symbol.ofText (" " ++ op.text ++ " ") ++ rest) op rest := by
  refine oneOf_reads (by decide +kernel) ?_ rest
  cases op with
  | isIn => exact (hin rfl).elim
  | isNull => cases hop
  | isNotNull => cases hop
  | _ => decide

theorem numerator_written (h : e.pieces d = .ok ps) :
    ∃ e' : Expr, e'.pieces d = .ok (numeratorPieces d ps) ∧
      ∀ rest, Reads (numerator d e'.normal) rest e.normal rest := by
  cases d with
  | postgres =>
    refine ⟨.cast e .decimal, ?_, fun _ => rfl⟩
    rw [Expr.pieces, h]
    rfl
  | mysql => exact ⟨e, h, fun _ => rfl⟩
  | firebird =>
    refine ⟨.cast e .float, ?_, fun _ => rfl⟩
    rw [Expr.pieces, h]
    rfl

theorem literals_read {vs : List Scalar} (hne : vs ≠ [])
    (hn : (Piece.joined ", " (vs.map fun v => [Piece.literal v])).length < n) :
    Reads (separated ", " (literal d) n)
      (symbols d (Piece.joined ", " (vs.map fun v => [Piece.literal v])) ++
        (Symbol.ofText ")" ++ rest)) vs (Symbol.ofText ")" ++ rest) := by
  let pieces (v : Scalar) : Except Error (List Piece) := .ok [Piece.literal v]
  have hread {v : Scalar} {ps : List Piece} {rest : List Symbol} (h : pieces v = .ok ps)
      (_ : ps.length < n) (_ : Clear rest) :
      Reads (literal d) (symbols d ps ++ rest) (id v) rest := by
    obtain rfl := Except.ok.inj h
    exact literal_reads v
  have hwritten : List.Forall₂ (fun v ps => pieces v = .ok ps) vs
      (vs.map fun v => [Piece.literal v]) := by
    rw [List.forall₂_map_right_iff, List.forall₂_same]
    exact fun _ _ => rfl
  have hclose : Clear (Symbol.ofText ")" ++ rest) := clear_text rfl rest
  have hlist := separated_reads ", " id hread hwritten hne hn (clear_text rfl) hclose rfl
  rwa [List.map_id] at hlist

theorem clear_operand {op : CompareOp} {right : Operand} (h : OperandWritten d op right ps)
    (rest : List Symbol) : Clear (symbols d ps ++ rest) := by
  cases h with
  | list _ =>
    rw [List.cons_append, symbols, List.append_assoc]
    exact clear_text rfl _
  | ignored _ _ =>
    rw [symbols, List.append_assoc]
    exact clear_text (by cases op <;> rfl) _
  | expr _ _ _ _ =>
    rw [symbols, List.append_assoc]
    exact clear_text (by cases op <;> rfl) _

theorem comparison_reads (hback : ReadsBack d n) {op : CompareOp} {right : Operand} (left : Expr)
    (h : OperandWritten d op right ps) (hn : ps.length ≤ n) (hclear : Clear rest) :
    Reads (comparison d (expr d n) n left) (symbols d ps ++ rest)
      (.mk left op (if op.takesOperand then right.normal else .none)) rest := by
  cases h with
  | ignored right hop =>
    cases op with
    | isNull => exact .left rfl
    | isNotNull => exact .right rfl (.left rfl)
    | _ => cases hop
  | @list vs hne =>
    simp only [List.cons_append, List.length_cons, List.length_append] at hn
    simp only [symbols, Piece.symbols_append, List.cons_append, List.append_assoc,
      List.append_nil]
    refine .right rfl (.right rfl (.left (.skip ?_)))
    exact (literals_read hne (by omega)).bind (.skip (.pure _ rest))
  | @expr op e r hop hin hnull hr =>
    rw [if_pos hop, symbols, List.append_assoc]
    have hothers : Fails (skip " IS NULL")
          (Symbol.ofText (" " ++ op.text ++ " ") ++ (symbols d r ++ rest)) ∧
        Fails (skip " IS NOT NULL")
          (Symbol.ofText (" " ++ op.text ++ " ") ++ (symbols d r ++ rest)) ∧
        Fails (skip " IN (")
          (Symbol.ofText (" " ++ op.text ++ " ") ++ (symbols d r ++ rest)) := by
      cases op with
      | isIn => exact (hin rfl).elim
      | isNull => cases hop
      | isNotNull => cases hop
      | _ => exact ⟨rfl, rfl, rfl⟩
    obtain ⟨hnull, hnotNull, hlist⟩ := hothers
    refine .right hnull.bind (.right hnotNull.bind (.right hlist.bind ?_))
    exact (compareOp_reads hop hin _).bind ((hback hr hn hclear).bind (.pure _ rest))

/-- The comparison of a choice is not taken for the guard or for the test of a division. -/
theorem division_fails {op : CompareOp} {right : Operand} {qs : List Piece}
    (h : OperandWritten d op right ps) (hyes : e.pieces d = .ok qs) :
    Fails (skip " IS NULL OR ") (symbols d ps ++
        (Symbol.ofText " THEN " ++ (symbols d qs ++ (Symbol.ofText " ELSE " ++ rest)))) ∧
      Fails (skip " IS NULL THEN NULL WHEN ") (symbols d ps ++
        (Symbol.ofText " THEN " ++ (symbols d qs ++ (Symbol.ofText " ELSE " ++ rest)))) ∧
      Fails (skip " = 0 THEN ") (symbols d ps ++
        (Symbol.ofText " THEN " ++ (symbols d qs ++ (Symbol.ofText " ELSE " ++ rest)))) := by
  cases h with
  | ignored right hop =>
    cases op with
    | isNull => exact ⟨rfl, nullBranch_fails hyes, rfl⟩
    | isNotNull => exact ⟨rfl, rfl, rfl⟩
    | _ => cases hop
  | list _ => exact ⟨rfl, rfl, rfl⟩
  | expr hop hin hnull hr =>
    rw [symbols, List.append_assoc]
    cases op with
    | isIn => exact (hin rfl).elim
    | isNull => cases hop
    | isNotNull => cases hop
    | eq => exact ⟨rfl, rfl, zero_fails hr⟩
    | _ => exact ⟨rfl, rfl, rfl⟩

theorem length_le_numerator (d : Dialect) (ps : List Piece) :
    ps.length ≤ (numeratorPieces d ps).length := by
  unfold numeratorPieces
  cases d.divisionType? with
  | none => exact Nat.le_refl _
  | some type =>
    rw [List.length_append, List.length_cons]
    omega

theorem symbols_guard_one (ps : List Piece) :
    symbols d (nullGuard [ps]) = Symbol.ofText "WHEN " ++ (symbols d ps ++
      (Symbol.ofText " IS NULL" ++ Symbol.ofText " THEN NULL ")) := by
  simp [nullGuard, Piece.joined, symbols, Piece.symbols_append]

theorem symbols_guard_two (ps qs : List Piece) :
    symbols d (nullGuard [ps, qs]) = Symbol.ofText "WHEN " ++ (symbols d ps ++
      (Symbol.ofText " IS NULL" ++ (Symbol.ofText " OR " ++ (symbols d qs ++
        (Symbol.ofText " IS NULL" ++ Symbol.ofText " THEN NULL "))))) := by
  simp [nullGuard, Piece.joined, symbols, Piece.symbols_append]

/-! Texts that meet between two pieces, as the reader takes them. -/

theorem caseWhen_symbols (xs : List Symbol) :
    Symbol.ofText "CASE " ++ (Symbol.ofText "WHEN " ++ xs) = Symbol.ofText "CASE WHEN " ++ xs := rfl

theorem nullWhen_symbols (xs : List Symbol) :
    Symbol.ofText " IS NULL" ++ (Symbol.ofText " THEN NULL " ++ (Symbol.ofText "WHEN " ++ xs)) =
      Symbol.ofText " IS NULL THEN NULL WHEN " ++ xs := rfl

theorem nullOr_symbols (xs : List Symbol) :
    Symbol.ofText " IS NULL" ++ (Symbol.ofText " OR " ++ xs) =
      Symbol.ofText " IS NULL OR " ++ xs := rfl

section
variable (hback : ReadsBack d n)
include hback

/-- A bound value of Firebird begins with the same text, but a placeholder stands in it. -/
theorem cast_reads {inner : Expr} {target : ColumnType}
    (h : (Expr.cast inner target).pieces d = .ok ps) (hn : ps.length < n + 1) :
    Reads (expr d (n + 1)) (symbols d ps ++ rest) (Expr.cast inner target).normal rest := by
  obtain ⟨type, i, htype, hi, rfl⟩ := cast_written h
  simp only [List.cons_append, List.length_cons, List.length_append, List.length_nil] at hn
  simp only [symbols, Piece.symbols_append, List.cons_append, List.append_assoc, List.append_nil]
  have hliteral : Fails (literal d) (Symbol.ofText "CAST(" ++ (symbols d i ++
      (Symbol.ofText (" AS " ++ type ++ ")") ++ rest))) := by
    cases d with
    | postgres => rfl
    | mysql => rfl
    | firebird => exact .orElse rfl (Fails.bind_of_reads (reads_skip _ _) (value_fails hi).bind)
  have hend : Clear (Symbol.ofText (" AS " ++ type ++ ")") ++ rest) := by
    refine clear_text ?_ rest
    rw [String.append_assoc, String.toList_append]
    rfl
  refine .right rfl (.right hliteral.bind (.right rfl (.left (.skip ?_))))
  exact (hback hi (by omega) hend).bind ((castEnd_reads htype rest).bind (.pure _ rest))

theorem binary_reads {op : ArithmeticOp} {left right : Expr}
    (h : (Expr.binary op left right).pieces d = .ok ps) (hn : ps.length < n + 1) :
    Reads (expr d (n + 1)) (symbols d ps ++ rest) (Expr.binary op left right).normal rest := by
  obtain ⟨l, r, hl, hr, rfl⟩ := binary_written h
  have hleft : ∃ left' : Expr,
      left'.pieces d = .ok (if op = .divide then numeratorPieces d l else l) ∧
        ∀ rest, Reads (leftOperand d op left'.normal) rest left.normal rest := by
    unfold leftOperand
    split
    · exact numerator_written hl
    · exact ⟨left, hl, fun rest => .pure _ rest⟩
  obtain ⟨left', hl', hnumerator⟩ := hleft
  simp only [List.cons_append, List.length_cons, List.length_append, List.length_nil] at hn
  simp only [symbols, Piece.symbols_append, List.cons_append, List.append_assoc, List.append_nil]
  have hop (xs : List Symbol) : Clear (Symbol.ofText (" " ++ op.text ++ " ") ++ xs) :=
    clear_text (by cases op <;> rfl) xs
  refine .right rfl (.right (by cases d <;> rfl) (.left (.skip ?_)))
  refine (hback hl' (by omega) (hop _)).bind ((arithmeticOp_reads op _).bind ?_)
  refine (hback hr (by omega) (clear_text rfl rest)).bind (.skip ?_)
  exact (hnumerator rest).bind (.pure _ rest)

/-- The left side may be read as the operand of a guard or as a denominator first, which fails. -/
theorem choose_reads {test : Predicate} {yes no : Expr}
    (h : (Expr.choose test yes no).pieces d = .ok ps) (hn : ps.length < n + 1) :
    Reads (expr d (n + 1)) (symbols d ps ++ rest) (Expr.choose test yes no).normal rest := by
  obtain ⟨p, y, m, hp, hy, hm, rfl⟩ := choose_written h
  obtain ⟨left, op, right⟩ := test
  obtain ⟨l, r, hl, hr, rfl⟩ := predicate_written hp
  have hright := operand_written hr
  simp only [List.cons_append, List.length_cons, List.length_append, List.length_nil] at hn
  simp only [symbols, Piece.symbols_append, List.cons_append, List.append_assoc, List.append_nil]
  obtain ⟨hor, hnull, hzero⟩ := division_fails hright hy
  have hcase : Reads (branches d (expr d n) n left.normal) (symbols d r ++
      (Symbol.ofText " THEN " ++ (symbols d y ++ (Symbol.ofText " ELSE " ++
        (symbols d m ++ (Symbol.ofText " END" ++ rest))))))
      (Expr.choose (.mk left op right) yes no).normal rest := by
    refine .right hor.bind (.right hnull.bind (.right hzero.bind ?_))
    refine (comparison_reads hback left.normal hright (by omega) (clear_text rfl _)).bind (.skip ?_)
    refine (hback hy (by omega) (clear_text rfl _)).bind (.skip ?_)
    exact (hback hm (by omega) (clear_text rfl _)).bind (.skip (.pure _ rest))
  refine .right rfl (.right (by cases d <;> rfl) (.right rfl (.right rfl (.skip ?_))))
  exact (hback hl (by omega) (clear_operand hright _)).bind hcase

theorem division_reads {numerator denominator : Expr} {q m : List Piece} (sentinel : Scalar)
    (hq : numerator.pieces d = .ok q) (hm : denominator.pieces d = .ok m)
    (hqn : (numeratorPieces d q).length < n) (hmn : m.length < n) :
    Reads (division d (expr d n) denominator.normal)
      (Symbol.ofText " = 0 THEN " ++ (symbols d [Piece.literal sentinel] ++
        (Symbol.ofText " ELSE (" ++ (symbols d (numeratorPieces d q) ++ (Symbol.ofText " / " ++
          (symbols d m ++ (Symbol.ofText ") END" ++ rest)))))))
      (Expr.safeDivide numerator denominator sentinel).normal rest := by
  obtain ⟨quotient, hquotient, hnumerator⟩ := numerator_written hq
  refine .skip ((literal_reads sentinel).bind (.skip ?_))
  refine (hback hquotient hqn (clear_text rfl _)).bind (.skip ?_)
  refine (hback hm hmn (clear_text rfl _)).bind (.skip ?_)
  exact (hnumerator rest).bind (.pure _ rest)

/-- Whichever operands a guard tests, the division behind it is read. -/
theorem guard_reads {numerator denominator result : Expr} {q m : List Piece} {xs : List Symbol}
    (hq : numerator.pieces d = .ok q) (hm : denominator.pieces d = .ok m) (hqn : q.length < n)
    (hmn : m.length < n) (a b : Bool)
    (hdivision : Reads (division d (expr d n) denominator.normal)
      (Symbol.ofText " = 0 THEN " ++ xs) result rest) :
    Reads (caseOf d (expr d n) n) (Symbol.ofText "CASE " ++
      (symbols d (nullGuard ((if a then [q] else []) ++ (if b then [m] else []))) ++
        (Symbol.ofText "WHEN " ++ (symbols d m ++ (Symbol.ofText " = 0 THEN " ++ xs)))))
      result rest := by
  have hbehind := (hback hm hmn (clear_text (s := " = 0 THEN ") rfl xs)).bind hdivision
  cases a with
  | false =>
    rw [if_neg Bool.false_ne_true, List.nil_append]
    cases b with
    | false =>
      exact .skip ((hback hm hmn (clear_text rfl _)).bind
        (.right rfl (.right rfl (.left hdivision))))
    | true =>
      rw [if_pos rfl, symbols_guard_one]
      simp only [List.append_assoc, caseWhen_symbols, nullWhen_symbols]
      exact .skip ((hback hm hmn (clear_text rfl _)).bind (.right rfl (.left (.skip hbehind))))
  | true =>
    rw [if_pos rfl]
    cases b with
    | false =>
      rw [if_neg Bool.false_ne_true, List.append_nil, symbols_guard_one]
      simp only [List.append_assoc, caseWhen_symbols, nullWhen_symbols]
      exact .skip ((hback hq hqn (clear_text rfl _)).bind (.right rfl (.left (.skip hbehind))))
    | true =>
      rw [if_pos rfl, List.singleton_append, symbols_guard_two]
      simp only [List.append_assoc, caseWhen_symbols, nullWhen_symbols, nullOr_symbols]
      refine .skip ((hback hq hqn (clear_text rfl _)).bind (.left (.skip ?_)))
      exact (hback hm hmn (clear_text rfl _)).bind (.skip hbehind)

theorem safeDivide_reads {numerator denominator : Expr} {sentinel : Scalar}
    (h : (Expr.safeDivide numerator denominator sentinel).pieces d = .ok ps)
    (hn : ps.length < n + 1) :
    Reads (expr d (n + 1)) (symbols d ps ++ rest)
      (Expr.safeDivide numerator denominator sentinel).normal rest := by
  obtain ⟨q, m, hq, hm, rfl⟩ := safeDivide_written h
  have hlength := length_le_numerator d q
  simp only [List.cons_append, List.length_cons, List.length_append, List.length_nil] at hn
  simp only [symbols, Piece.symbols_append, List.cons_append, List.append_assoc]
  rw [symbols_literal_cons]
  simp only [symbols, Piece.symbols_append, List.append_assoc]
  refine .right rfl (.right (by cases d <;> rfl) (.right rfl (.right rfl ?_)))
  exact guard_reads hback hq hm (by omega) (by omega) _ _
    (division_reads hback sentinel hq hm (by omega) (by omega))

end

/-- Every expression is read back: its parts have fewer pieces than it has. -/
theorem readsBack (d : Dialect) (n : Nat) : ReadsBack d n := by
  induction n with
  | zero =>
    intro e ps rest _ hn
    exact (Nat.not_lt_zero _ hn).elim
  | succ n ih =>
    intro e ps rest h hn hclear
    cases e with
    | column table name =>
      cases table with
      | none =>
        obtain ⟨_, rfl⟩ := column_written h
        exact .left (Reads.bind rfl (.right (point_fails hclear).bind (.pure _ rest)))
      | some table =>
        obtain ⟨_, _, rfl⟩ := qualified_written h
        exact .left rfl
    | literal v =>
      obtain rfl := literal_written h
      have hcolumn : Fails name (symbols d [Piece.literal v] ++ rest) := name_fails h rfl
      exact .right hcolumn.bind (.left ((literal_reads v).bind (.pure _ rest)))
    | cast inner target => exact cast_reads ih h hn
    | binary op left right => exact binary_reads ih h hn
    | safeDivide numerator denominator sentinel => exact safeDivide_reads ih h hn
    | choose test yes no => exact choose_reads ih h hn

end

end Reader

end TablePipeline.Sql
