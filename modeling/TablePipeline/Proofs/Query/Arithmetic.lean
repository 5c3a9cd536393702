import TablePipeline.Proofs.Query.Computing
import TablePipeline.Proofs.Rule.Casting

/-!
# Arithmetic in a query

The expression of an arithmetic rule has the value that the rule has in memory. Sums and products
are one chain of operations, in which a null makes the whole null. A chain of quotients stands
inside a check of each divisor for zero, and those inside a check of each operand for null, so that
a null counts before a zero divisor and a zero divisor before the quotient.
-/

set_option autoImplicit false

namespace TablePipeline

open Sql (ArithmeticOp Cells ComputeTo Expr binary?)

variable {cells : Cells} {es : List Expr} {vs : List Scalar}

/-- A number of a query is read as itself. -/
theorem Scalar.eq_of_toNumber {v : Scalar} {n : Number} (hv : KeyKind.number.has v = true)
    (h : v.toNumber = .ok n) : v = n.toScalar := by
  cases v with
  | integer m =>
    cases h
    rfl
  | decimal d =>
    cases h
    rfl
  | null => cases h
  | _ => cases hv

/-! ### Chains of operations -/

theorem value?_chain_null {op : ArithmeticOp} {first : Expr}
    (h : first.value? cells = some .null ∨ ∃ e ∈ es, e.value? cells = some .null) :
    (es.foldl (Expr.binary op) first).value? cells = some .null := by
  induction es generalizing first with
  | nil =>
    rcases h with h | ⟨e, he, _⟩
    · exact h
    · cases he
  | cons e es ih =>
    refine ih ?_
    rw [Expr.value?]
    rcases h with h | ⟨e', he', h⟩
    · exact .inl (by rw [h, Sql.binary?_null_left])
    · rcases List.mem_cons.mp he' with rfl | he'
      · exact .inl (by rw [h, Sql.binary?_null_right])
      · exact .inr ⟨e', he', h⟩

/-- A chain follows the operands as they are gone through in memory. What is chained so far has the
value of the accumulator. -/
theorem value?_chain {op : ArithmeticOp} {divideByZero r : Scalar} {first : Expr} {acc : Number}
    (hes : ComputeTo cells es vs) (hkind : ∀ v ∈ vs, KeyKind.number.has v = true)
    (hzero : op = .divide → vs.any Scalar.readsZero = false)
    (hfirst : first.value? cells = some acc.toScalar)
    (h : Arithmetic.fold op divideByZero acc vs = .ok r) :
    (es.foldl (Expr.binary op) first).value? cells = some r := by
  induction hes generalizing first acc with
  | nil =>
    obtain rfl := Except.ok.inj h
    exact hfirst
  | @cons e v es vs he hes ih =>
    obtain ⟨n, hn, ⟨⟨hop, hz⟩, _⟩ | ⟨hne, next, hcombine, hfold⟩⟩ :=
      Arithmetic.fold_cons_eq_ok.mp h
    · have hany := hzero hop
      rw [List.any_cons, Scalar.readsZero_eq hn, hz] at hany
      cases hany
    · refine ih (fun v hv => hkind v (List.mem_cons_of_mem _ hv))
        (fun hop => (Bool.or_eq_false_iff.mp (hzero hop)).2) ?_ hfold
      have hstep := Arithmetic.step_eq_ok.mpr (.inr ⟨hne, next, hcombine, rfl⟩)
      rw [Expr.value?, hfirst, he, Scalar.eq_of_toNumber (hkind v List.mem_cons_self) hn,
        Sql.binary?_numbers, hstep]
      rfl

/-! ### Checks around a chain -/

theorem value?_zeroGuards (sentinel : Scalar) (inner : Expr) (hes : ComputeTo cells es vs)
    (hkind : ∀ v ∈ vs, KeyKind.number.has v = true) :
    (es.reverse.foldl (zeroGuard sentinel) inner).value? cells =
      if vs.any Scalar.readsZero then some sentinel else inner.value? cells := by
  rw [List.foldl_reverse]
  induction hes with
  | nil => rfl
  | @cons e v es vs he hes ih =>
    have hv := Scalar.test?_zero (hkind v List.mem_cons_self)
    rw [List.foldr_cons, Sql.value?_zeroGuard he, List.any_cons,
      ih fun v hv => hkind v (List.mem_cons_of_mem _ hv)]
    by_cases hz : v.readsZero = true
    · rw [if_pos (hv.mpr hz), hz, Bool.true_or, if_pos rfl]
    · rw [if_neg (mt hv.mp hz), Bool.eq_false_of_not_eq_true hz, Bool.false_or]

theorem value_ne_null {e : Expr} {v : Scalar} (he : e.value? cells = some v)
    (h : e.mayBeNull = false) : v.isNull = false := by
  cases e with
  | literal w =>
    obtain rfl := Option.some.inj he
    exact h
  | _ => cases h

theorem value?_nullGuards (inner : Expr) (hes : ComputeTo cells es vs) :
    ((es.filter (·.mayBeNull)).foldl nullGuard inner).value? cells =
      if vs.any Scalar.isNull then some .null else inner.value? cells := by
  induction hes generalizing inner with
  | nil => rfl
  | @cons e v es vs he hes ih =>
    rw [List.any_cons]
    cases hmay : e.mayBeNull with
    | true =>
      rw [List.filter_cons_of_pos hmay, List.foldl_cons, ih, Sql.value?_nullGuard he]
      cases v.isNull with
      | true => rw [Bool.true_or, if_pos rfl, ite_self]
      | false => rw [Bool.false_or, if_neg Bool.false_ne_true]
    | false =>
      rw [List.filter_cons_of_neg (by rw [hmay]; exact Bool.false_ne_true), ih,
        value_ne_null he hmay, Bool.false_or]

/-! ### The expression of a rule -/

namespace ArithmeticRule

variable {rule : ArithmeticRule} {first : Expr} {rest : List Expr}

theorem expr_chain (h : rule.op ≠ .divide) :
    rule.expr (first :: rest) = .ok (rest.foldl (Expr.binary rule.op) first) := by
  unfold expr
  dsimp only
  split
  · rename_i hop
    exact absurd hop h
  · rw [if_neg h]

theorem expr_quotient (h : rule.op = .divide) (denominator : Expr) :
    rule.expr [first, denominator] = .ok (.safeDivide first denominator rule.divideByZero) := by
  unfold expr
  rw [h]

theorem expr_quotients (h : rule.op = .divide) (hlength : 2 ≤ rest.length) :
    rule.expr (first :: rest) =
      .ok (((first :: rest).filter (·.mayBeNull)).foldl nullGuard
        (rest.reverse.foldl (zeroGuard rule.divideByZero)
          (rest.foldl (Expr.binary .divide) first))) := by
  unfold expr
  dsimp only
  split
  · simp at hlength
  · rw [if_pos h, h]

theorem value?_safeDivide {n d : Expr} {v w r sentinel : Scalar} (hn : n.value? cells = some v)
    (hd : d.value? cells = some w) (hv : KeyKind.number.has v = true)
    (hw : KeyKind.number.has w = true)
    (h : Arithmetic.evaluate .divide [v, w] sentinel = .ok r) :
    (Expr.safeDivide n d sentinel).value? cells = some r := by
  have hvalue : (Expr.safeDivide n d sentinel).value? cells =
      if v.isNull || w.isNull then some .null
      else if w.test? .eq (.value (.integer 0)) = some true then some sentinel
      else binary? .divide (some v) (some w) := by
    rw [Expr.value?, hn, hd]
    rfl
  have hany : [v, w].any Scalar.isNull = (v.isNull || w.isNull) := by
    rw [List.any_cons, List.any_cons, List.any_nil, Bool.or_false]
  rw [hvalue, ← hany]
  cases hnull : [v, w].any Scalar.isNull with
  | true =>
    rw [if_pos rfl, Arithmetic.evaluate_null hnull h]
  | false =>
    rw [if_neg Bool.false_ne_true]
    obtain ⟨a, ha, hfold⟩ := (Arithmetic.evaluate_eq_ok hnull).mp h
    obtain ⟨b, hb, ⟨⟨_, hz⟩, hr⟩ | ⟨hne, next, hcombine, hlast⟩⟩ :=
      Arithmetic.fold_cons_eq_ok.mp hfold
    · rw [if_pos ((Scalar.test?_zero hw).mpr (by rw [Scalar.readsZero_eq hb, hz])), hr]
    · have hz : ¬ b.isZero = true := fun hz => hne ⟨rfl, hz⟩
      obtain rfl := Except.ok.inj hlast
      have hstep := Arithmetic.step_eq_ok.mpr (.inr ⟨hne, next, hcombine, rfl⟩)
      rw [if_neg (mt (Scalar.test?_zero hw).mp (by rwa [Scalar.readsZero_eq hb])),
        Scalar.eq_of_toNumber hv ha, Scalar.eq_of_toNumber hw hb, Sql.binary?_numbers, hstep]
      rfl

theorem value?_quotients {first : Expr} {v r sentinel : Scalar}
    (hfirst : first.value? cells = some v) (hes : ComputeTo cells es vs)
    (hkind : ∀ w ∈ v :: vs, KeyKind.number.has w = true)
    (h : Arithmetic.evaluate .divide (v :: vs) sentinel = .ok r) :
    (((first :: es).filter (·.mayBeNull)).foldl nullGuard
      (es.reverse.foldl (zeroGuard sentinel)
        (es.foldl (Expr.binary .divide) first))).value? cells = some r := by
  have hrest : ∀ w ∈ vs, KeyKind.number.has w = true := fun w hw =>
    hkind w (List.mem_cons_of_mem _ hw)
  rw [value?_nullGuards _ (.cons hfirst hes)]
  cases hnull : (v :: vs).any Scalar.isNull with
  | true => rw [if_pos rfl, Arithmetic.evaluate_null hnull h]
  | false =>
    rw [if_neg Bool.false_ne_true, value?_zeroGuards sentinel _ hes hrest]
    obtain ⟨n, hn, hfold⟩ := (Arithmetic.evaluate_eq_ok hnull).mp h
    cases hzero : vs.any Scalar.readsZero with
    | true => rw [if_pos rfl, Arithmetic.fold_zeroDivisor hzero hfold]
    | false =>
      rw [if_neg Bool.false_ne_true]
      refine value?_chain hes hrest (fun _ => hzero) ?_ hfold
      rw [hfirst, Scalar.eq_of_toNumber (hkind v List.mem_cons_self) hn]

theorem value?_sum {op : ArithmeticOp} (hop : op ≠ .divide) {first : Expr} {v r sentinel : Scalar}
    (hfirst : first.value? cells = some v) (hes : ComputeTo cells es vs)
    (hkind : ∀ w ∈ v :: vs, KeyKind.number.has w = true)
    (h : Arithmetic.evaluate op (v :: vs) sentinel = .ok r) :
    (es.foldl (Expr.binary op) first).value? cells = some r := by
  cases hnull : (v :: vs).any Scalar.isNull with
  | true =>
    rw [Arithmetic.evaluate_null hnull h]
    refine value?_chain_null ?_
    obtain ⟨w, hw, hwnull⟩ := List.any_eq_true.mp hnull
    obtain rfl := Scalar.isNull_eq_true_iff.mp hwnull
    rcases List.mem_cons.mp hw with rfl | hw
    · exact .inl hfirst
    · obtain ⟨e, he, hvalue⟩ := Outcome.exists_of_forall₂ hes.flip hw
      exact .inr ⟨e, he, hvalue⟩
  | false =>
    obtain ⟨n, hn, hfold⟩ := (Arithmetic.evaluate_eq_ok hnull).mp h
    refine value?_chain hes (fun w hw => hkind w (List.mem_cons_of_mem _ hw))
      (fun h => absurd h hop) ?_ hfold
    rw [hfirst, Scalar.eq_of_toNumber (hkind v List.mem_cons_self) hn]

/-- The expression of an arithmetic rule has the value that the rule has in memory, for operands
that are null, whole numbers or decimals. -/
theorem expr_value (rule : ArithmeticRule) (cells : Cells) (es : List Expr) (vs : List Scalar)
    (r : Scalar) (hlength : 2 ≤ es.length) (hes : ComputeTo cells es vs)
    (hkind : ∀ v ∈ vs, KeyKind.number.has v = true)
    (h : Arithmetic.evaluate rule.op vs rule.divideByZero = .ok r) :
    ∃ e, rule.expr es = .ok e ∧ e.value? cells = some r := by
  cases hes with
  | nil => cases hlength
  | @cons first v rest ws hfirst hrest =>
    by_cases hop : rule.op = .divide
    · rw [hop] at h
      cases hrest with
      | nil => exact absurd hlength (Nat.not_succ_le_self 1)
      | @cons d w rest ws hd hrest =>
        cases hrest with
        | nil =>
          exact ⟨_, expr_quotient hop d, value?_safeDivide hfirst hd
            (hkind v List.mem_cons_self) (hkind w (by simp)) h⟩
        | cons he hmore =>
          refine ⟨_, expr_quotients hop (Nat.le_add_left 2 _), ?_⟩
          exact value?_quotients hfirst (.cons hd (.cons he hmore)) hkind h
    · exact ⟨_, expr_chain hop, value?_sum hop hfirst hrest hkind h⟩

/-- In a chain of quotients a null counts before the zero divisor in front of it. -/
theorem expr_value_null :
    ∃ e, (ArithmeticRule.mk [.column ⟨none, "a"⟩, .column ⟨none, "b"⟩, .column ⟨none, "c"⟩] .divide
        "share" (.integer 7) .abort).expr [.column none "a", .column none "b", .column none "c"] =
          .ok e ∧
      e.value? (fun _ name => if name = "a" then .integer 1 else if name = "b" then .integer 0
        else .null) = some .null :=
  expr_value _ _ _ [.integer 1, .integer 0, .null] _ (by decide)
    (.cons rfl (.cons rfl (.cons rfl .nil))) (by decide) rfl

end ArithmeticRule

end TablePipeline
