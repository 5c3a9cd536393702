import TablePipeline.Plan.Compile
import TablePipeline.Proofs.Graph.Settings
import TablePipeline.Proofs.Plan.Columns
import TablePipeline.Proofs.Rule.Casting
import TablePipeline.Proofs.Sql.Refusals

/-!
# Schemas that can be written

The columns of a stage of SQL carry expressions that are written but for the names in them, and
never the literal null. What rules take from such a schema or add to it is of the same kind, and a
rule fails only over a reference or over types that do not meet.
-/

set_option autoImplicit false

namespace TablePipeline

open Outcome (Ends)
open Sql (Expr Predicate OnlyNames)

variable {ε : Type} {d : Sql.Dialect}

/-- The faults of a graph that its checks do not find: they depend on the columns of the inputs or
on the names of a dialect. -/
def CompileError.Foreseen : CompileError → Prop
  | unresolved .. | literal .. | branchColumn .. | branches .. => True
  | sql e => e.IsName
  | noOperands _ | missingInput _ | missingOutput => False

theorem CompileError.Foreseen.kind {e : CompileError} (h : e.Foreseen) :
    e.toFailure.kind = .unresolvedReference ∨ e.toFailure.kind = .incompatibleTypes ∨
      e.toFailure.kind = .invalidIdentifier := by
  cases e with
  | unresolved => exact .inl rfl
  | literal => exact .inr (.inl rfl)
  | branchColumn => exact .inr (.inl rfl)
  | branches => exact .inr (.inl rfl)
  | sql e =>
    cases e with
    | invalidName => exact .inr (.inr rfl)
    | _ => exact h.elim
  | _ => exact h.elim

theorem Sql.OnlyNames.foreseen {α : Type} {x : Except Sql.Error α} (h : OnlyNames x) :
    Ends (fun _ => True) CompileError.Foreseen (x.mapError .sql) :=
  Ends.mapError h fun _ he => he

theorem Scalar.isNull_eq_false {v : Scalar} (h : v ≠ .null) : v.isNull = false := by
  cases v with
  | null => exact (h rfl).elim
  | _ => rfl

/-! ### Schemas -/

namespace Schema

variable {s : Schema Expr} {r : Reference}

/-- The expressions that a schema carries can be written but for names, and none is the literal
null. -/
def Writable (d : Sql.Dialect) (s : Schema Expr) : Prop :=
  ∀ c, SchemaItem.column c ∈ s → c.carried.Writable d

theorem mem_of_mem_columns {s : Schema ε} {i : Nat} {c : SchemaColumn ε} (h : (i, c) ∈ s.columns) :
    SchemaItem.column c ∈ s := by
  obtain ⟨⟨item, j⟩, hmem, hitem⟩ := List.mem_filterMap.mp h
  cases item with
  | column c' =>
    obtain ⟨rfl, rfl⟩ := Prod.mk.inj (Option.some.inj hitem)
    exact List.mem_of_getElem? (List.mem_zipIdx_iff_getElem?.mp hmem)
  | openSource q t => cases hitem

theorem find_ends (s : Schema ε) (r : Reference) :
    Ends (fun x => ∀ i c, x = .column i c → SchemaItem.column c ∈ s) CompileError.Foreseen
      (s.find r) := by
  refine Ends.mapError (E := fun _ => True) ?_ fun _ _ => trivial
  unfold resolve
  split
  · rename_i i c hits
    rintro _ _ ⟨⟩
    exact mem_of_mem_columns (Reference.mem_of_mem_hits (hits ▸ List.mem_singleton_self _))
  · split <;> split <;> first | exact trivial | rintro _ _ ⟨⟩
  · trivial

theorem expr_ends (hs : s.Writable d) (r : Reference) :
    Ends (Expr.Writable d) CompileError.Foreseen (s.expr r) := by
  refine (find_ends s r).bind fun x hx => ?_
  cases x with
  | column i c => exact hs c (hx i c rfl)
  | inOpen qualifier table name => exact ⟨Sql.column_onlyNames (some table) name, rfl⟩

theorem operandExpr_ends (hs : s.Writable d) (o : RuleOperand) :
    Ends (fun e => OnlyNames (e.pieces d)) CompileError.Foreseen (s.operandExpr o) := by
  cases o with
  | column r => exact (expr_ends hs r).mono fun _ he => he.1
  | literal v => exact OnlyNames.ok [Sql.Piece.literal v]

theorem operandType?_ends (s : Schema ε) (o : RuleOperand) :
    Ends (fun _ => True) CompileError.Foreseen (s.operandType? o) := by
  cases o with
  | column r => exact (find_ends s r).bind fun _ _ => trivial
  | literal v => trivial

/-! Literals are settled before they are compared, and stay what their operator takes. -/

theorem coerceLiteral_ends (place : PlanPlace) (type? : Option ColumnType) (v : Scalar) :
    Ends (fun w => v ≠ .null → w ≠ .null) CompileError.Foreseen
      (coerceLiteral place type? v) := by
  unfold coerceLiteral
  split
  · split
    · exact id
    · cases hw : v.cast _ with
      | error fault => trivial
      | ok w =>
        rintro hv rfl
        cases Scalar.type?_of_cast hw (Scalar.isNull_eq_false hv)
  · exact id

theorem coerceComparison_ends (s : Schema ε) {place : PlanPlace} {c : Comparison}
    (hc : c.WellPosed) :
    Ends Comparison.WellPosed CompileError.Foreseen (s.coerceComparison place c) := by
  obtain ⟨column, op, right⟩ := c
  refine (find_ends s column).bind fun x _ => ?_
  cases right with
  | none => exact hc
  | value v =>
    obtain ⟨hin, hv⟩ := hc
    dsimp only
    split
    · exact ⟨hin, hv⟩
    · refine Ends.bind (P := fun right => ∃ w, right = .value w ∧ w ≠ .null) ?_ ?_
      · exact (coerceLiteral_ends place _ v).map fun w hw => ⟨w, rfl, hw hv⟩
      · rintro _ ⟨w, rfl, hw⟩
        exact ⟨hin, hw⟩
  | list vs =>
    obtain ⟨hin, hne⟩ := hc
    refine Ends.bind (P := fun right => ∃ ws, right = .list ws ∧ ws ≠ []) ?_ ?_
    · have hvs (v : Scalar) : Ends (fun _ => True) _ (coerceLiteral place x.type? v) :=
        (coerceLiteral_ends place x.type? v).mono fun _ _ => trivial
      refine (Ends.mapM fun v _ => hvs v).map fun ws hws => ⟨ws, rfl, ?_⟩
      rintro rfl
      exact hne (List.length_eq_zero_iff.mp hws.1.symm)
    · rintro _ ⟨ws, rfl, hws⟩
      exact ⟨hin, hws⟩
  | column r => exact (find_ends s r).bind fun _ _ => hc

theorem predicate_ends (hs : s.Writable d) {c : Comparison} (hc : c.WellPosed) :
    Ends (fun p => OnlyNames (p.pieces d)) CompileError.Foreseen (s.predicate c) := by
  obtain ⟨column, op, right⟩ := c
  have hmk (right : Sql.Operand) (hright : right.Suits d op) :
      Ends (fun p => OnlyNames (p.pieces d)) CompileError.Foreseen
        (do return Predicate.mk (← s.expr column) op right) :=
    (expr_ends hs column).bind fun _ he => Sql.predicate_onlyNames he.1 hright
  cases right with
  | none => exact hmk .none hc
  | value v =>
    exact hmk _ ⟨hc.1, OnlyNames.ok [Sql.Piece.literal v], Scalar.isNull_eq_false hc.2⟩
  | list vs => exact hmk (.list vs) hc
  | column r =>
    refine Ends.bind (P := fun right => ∃ e, right = .expr e ∧ e.Writable d) ?_ ?_
    · exact (expr_ends hs r).map fun e he => ⟨e, rfl, he⟩
    · rintro _ ⟨e, rfl, he⟩
      exact hmk _ ⟨hc, he⟩

/-! A computed column takes the place of another or is the last. -/

theorem putComputed_cases (s : Schema ε) (name : String) (type? : Option ColumnType) (carried : ε) :
    (∃ i, s.putComputed name type? carried = s.set i (.column ⟨none, name, type?, carried⟩)) ∨
      s.putComputed name type? carried = s ++ [.column ⟨none, name, type?, carried⟩] := by
  unfold putComputed
  dsimp only
  split
  · rename_i i _ _
    exact .inl ⟨i, rfl⟩
  · exact .inr rfl

theorem Writable.append {s' : Schema Expr} (hs : s.Writable d) (hs' : s'.Writable d) :
    (s ++ s').Writable d := by
  intro c hc
  rcases List.mem_append.mp hc with hc | hc
  · exact hs c hc
  · exact hs' c hc

theorem Writable.set (hs : s.Writable d) (i : Nat) {c : SchemaColumn Expr}
    (hc : c.carried.Writable d) : Schema.Writable d (s.set i (.column c)) := by
  intro c' hc'
  rcases List.mem_or_eq_of_mem_set hc' with hc' | heq
  · exact hs c' hc'
  · obtain rfl := SchemaItem.column.inj heq
    exact hc

theorem Writable.putComputed (hs : s.Writable d) (name : String) (type? : Option ColumnType)
    {e : Expr} (he : e.Writable d) : (s.putComputed name type? e).Writable d := by
  obtain ⟨i, hi⟩ | hlast := putComputed_cases s name type? e
  · rw [hi]
    exact hs.set i he
  · rw [hlast]
    refine hs.append fun c hc => ?_
    obtain rfl := SchemaItem.column.inj (List.mem_singleton.mp hc)
    exact he

theorem opens_append (s s' : Schema ε) : (s ++ s').opens = s.opens ++ s'.opens :=
  List.filterMap_append

theorem opens_set_le (s : Schema ε) (i : Nat) (c : SchemaColumn ε) :
    (Schema.opens (s.set i (.column c))).length ≤ s.opens.length := by
  induction s generalizing i with
  | nil => exact Nat.le_refl _
  | cons item s ih =>
    cases i with
    | zero =>
      cases item with
      | column c' => exact Nat.le_refl _
      | openSource q t => exact Nat.le_succ _
    | succ i =>
      cases item with
      | column c' => exact ih i
      | openSource q t => exact Nat.succ_le_succ (ih i)

theorem opens_putComputed_le (s : Schema ε) (name : String) (type? : Option ColumnType)
    (carried : ε) : (s.putComputed name type? carried).opens.length ≤ s.opens.length := by
  obtain ⟨i, hi⟩ | hlast := putComputed_cases s name type? carried
  · rw [hi]
    exact opens_set_le s i _
  · rw [hlast, opens_append]
    simp [opens]

theorem length_le_putComputed (s : Schema ε) (name : String) (type? : Option ColumnType)
    (carried : ε) : s.length ≤ (s.putComputed name type? carried).length := by
  obtain ⟨i, hi⟩ | hlast := putComputed_cases s name type? carried
  · rw [hi]
    exact Nat.le_of_eq List.length_set.symm
  · rw [hlast, List.length_append]
    exact Nat.le_add_right _ _

end Schema

/-! ### Rules -/

theorem ConditionRule.branch_ends (s : Schema ε) (place : PlanPlace) (declared : Option ColumnType)
    (o : RuleOperand) : Ends (fun _ => True) CompileError.Foreseen (branch s place declared o) := by
  cases o with
  | column r =>
    refine (s.find_ends r).bind fun x _ => ?_
    dsimp only
    split
    · split <;> trivial
    · trivial
  | literal v =>
    cases declared with
    | none => trivial
    | some t =>
      refine Ends.bind (P := fun _ => True) ?_ fun _ _ => trivial
      refine Ends.mapError (E := fun _ => True) ?_ fun _ _ => trivial
      cases v.cast t <;> trivial

/-- A condition stays well posed when its literals are settled. -/
theorem ConditionRule.settle_ends {rule : ConditionRule} (hrule : rule.predicate.WellPosed)
    (s : Schema ε) (node : String) :
    Ends (fun settled => settled.rule.predicate.WellPosed) CompileError.Foreseen
      (rule.settle s node) := by
  refine (s.coerceComparison_ends hrule).bind fun predicate hpredicate => ?_
  refine (branch_ends s _ rule.outputType rule.yes).bind fun yes _ => ?_
  refine (branch_ends s _ rule.outputType rule.no).bind fun no _ => ?_
  dsimp only
  split
  · exact hpredicate
  · split
    · exact hpredicate
    · trivial
  · exact hpredicate

/-- Arithmetic on two operands or more is an expression, and never a literal. -/
theorem ArithmeticRule.expr_ends (rule : ArithmeticRule) {es : List Expr}
    (hes : ∀ e ∈ es, OnlyNames (e.pieces d)) (hlength : 2 ≤ es.length) :
    Ends (Expr.Writable d) CompileError.Foreseen (rule.expr es) := by
  have hbinary (op : Sql.ArithmeticOp) {a b : Expr} (ha : OnlyNames (a.pieces d))
      (hb : OnlyNames (b.pieces d)) : (Expr.binary op a b).Writable d :=
    ⟨Sql.binary_onlyNames op ha hb, rfl⟩
  have hzero {inner e : Expr} (hi : OnlyNames (inner.pieces d)) (he : OnlyNames (e.pieces d)) :
      (zeroGuard rule.divideByZero inner e).Writable d :=
    ⟨Sql.choose_onlyNames
        (Sql.predicate_onlyNames he ⟨nofun, OnlyNames.ok [Sql.Piece.literal _], rfl⟩)
      (OnlyNames.ok [Sql.Piece.literal rule.divideByZero]) hi, rfl⟩
  have hnull {inner e : Expr} (hi : OnlyNames (inner.pieces d)) (he : OnlyNames (e.pieces d)) :
      (nullGuard inner e).Writable d :=
    ⟨Sql.choose_onlyNames (Sql.predicate_onlyNames he (.inl rfl))
      (OnlyNames.ok [Sql.Piece.literal .null]) hi, rfl⟩
  obtain _ | ⟨first, _ | ⟨second, rest⟩⟩ := es
  · simp at hlength
  · simp at hlength
  obtain ⟨hfirst, hrest⟩ := List.forall_mem_cons.mp hes
  have hcore (op : Sql.ArithmeticOp) :
      ((second :: rest).foldl (Expr.binary op) first).Writable d := by
    obtain ⟨hsecond, hrest⟩ := List.forall_mem_cons.mp hrest
    exact List.foldlRecOn (motive := Expr.Writable d) rest _ (hbinary op hfirst hsecond)
      fun e he e' he' => hbinary op he.1 (hrest e' he')
  have hguarded {core : Expr} (h : core.Writable d) :
      (((first :: second :: rest).filter (·.mayBeNull)).foldl nullGuard
        ((second :: rest).reverse.foldl (zeroGuard rule.divideByZero) core)).Writable d := by
    refine List.foldlRecOn (motive := Expr.Writable d) _ _ ?_
      fun e he e' he' => hnull he.1 (hes e' (List.mem_of_mem_filter he'))
    exact List.foldlRecOn (motive := Expr.Writable d) _ _ h
      fun e he e' he' => hzero he.1 (hrest e' (List.mem_reverse.mp he'))
  unfold expr
  dsimp only
  split
  · rename_i heq
    obtain ⟨rfl, _⟩ := List.cons.inj heq
    exact ⟨Sql.safeDivide_onlyNames _ hfirst (hrest _ List.mem_cons_self), rfl⟩
  · split
    · exact hguarded (hcore _)
    · exact hcore _

end TablePipeline
