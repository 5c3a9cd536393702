import Mathlib.Tactic.FinCases
import TablePipeline.Proofs.Rows.KeyEquality

/-!
# Comparing from either side

Two cells that change places are in the opposite order, or cannot be compared as before. So each
operator of order has one that says the same from the other side, and one that says the opposite.
-/

set_option autoImplicit false

namespace TablePipeline

open Sql (CompareOp)

instance : Std.OrientedOrd Date where
  eq_swap {d e} := by
    show (compare d.year e.year).then ((compare d.month e.month).then (compare d.day e.day)) =
      ((compare e.year d.year).then ((compare e.month d.month).then (compare e.day d.day))).swap
    rw [Ordering.swap_then, Ordering.swap_then, ← Std.OrientedCmp.eq_swap,
      ← Std.OrientedCmp.eq_swap, ← Std.OrientedCmp.eq_swap]

instance : Std.OrientedOrd Timestamp where
  eq_swap {t u} := by
    show (compare t.date u.date).then ((compare t.second u.second).then (compare t.nano u.nano)) =
      ((compare u.date t.date).then
        ((compare u.second t.second).then (compare u.nano t.nano))).swap
    rw [Ordering.swap_then, Ordering.swap_then, ← Std.OrientedCmp.eq_swap,
      ← Std.OrientedCmp.eq_swap, ← Std.OrientedCmp.eq_swap]

theorem Decimal.compareWith_swap (a b : Decimal) : (a.compareWith b).swap = b.compareWith a := by
  unfold compareWith
  exact Std.OrientedCmp.eq_swap.symm

theorem Binary64.compare?_swap (x y : Binary64) :
    (x.compare? y).map Ordering.swap = y.compare? x := by
  unfold compare?
  rw [Bool.or_comm]
  split
  · rfl
  · exact congrArg some Std.OrientedCmp.eq_swap.symm

section Ordered

variable {α : Type} [Ord α] [Std.OrientedOrd α]

theorem map_compare_swap (x? : Option α) (a : α) :
    (x?.map (compare a ·)).map Ordering.swap = x?.map (compare · a) := by
  cases x? with
  | none => rfl
  | some x => exact congrArg some Std.OrientedCmp.eq_swap.symm

theorem map_compare_swap' (x? : Option α) (a : α) :
    (x?.map (compare · a)).map Ordering.swap = x?.map (compare a ·) := by
  cases x? with
  | none => rfl
  | some x => exact congrArg some Std.OrientedCmp.eq_swap.symm

theorem some_compare_swap (a b : α) : (some (compare a b)).map Ordering.swap = some (compare b a) :=
  congrArg some Std.OrientedCmp.eq_swap.symm

end Ordered

namespace Scalar

theorem compareNumbers?_swap (v w : Scalar) :
    (compareNumbers? v w).map Ordering.swap = compareNumbers? w v := by
  have hfloats :
      (v.toFloat?.bind fun x => w.toFloat?.bind (x.compare? ·)).map Ordering.swap =
        w.toFloat?.bind fun y => v.toFloat?.bind (y.compare? ·) := by
    cases v.toFloat? with
    | none => cases w.toFloat? <;> rfl
    | some x =>
      cases w.toFloat? with
      | none => rfl
      | some y => exact x.compare?_swap y
  unfold compareNumbers?
  cases v.toDecimal? with
  | none => cases w.toDecimal? <;> exact hfloats
  | some c =>
    cases w.toDecimal? with
    | none => exact hfloats
    | some d => exact congrArg some (c.compareWith_swap d)

theorem bind_compareNumbers?_swap (d? : Option Decimal) (v : Scalar) :
    (d?.bind fun d => compareNumbers? (decimal d) v).map Ordering.swap =
      d?.bind fun d => compareNumbers? v (decimal d) := by
  cases d? with
  | none => rfl
  | some d => exact compareNumbers?_swap (decimal d) v

theorem bind_compareNumbers?_swap' (d? : Option Decimal) (v : Scalar) :
    (d?.bind fun d => compareNumbers? v (decimal d)).map Ordering.swap =
      d?.bind fun d => compareNumbers? (decimal d) v := by
  cases d? with
  | none => rfl
  | some d => exact compareNumbers?_swap v (decimal d)

theorem compare?_swap_of_numbers {v w : Scalar} (hv : v.compare? w = compareNumbers? v w)
    (hw : w.compare? v = compareNumbers? w v) :
    (v.compare? w).map Ordering.swap = w.compare? v := by
  rw [hv, hw]
  exact compareNumbers?_swap v w

/-- A text is read as what the other cell is, whichever side it stands on; cells of the same kind
are compared as they are, and no others have an order. -/
theorem compare?_swap (v w : Scalar) : (v.compare? w).map Ordering.swap = w.compare? v := by
  cases v with
  | null => exact (compare?_null_right w).symm
  | text s =>
    cases w with
    | null => rfl
    | text t => exact some_compare_swap s t
    | boolean q => simpa only [compare?] using map_compare_swap' (readBoolean? s) q
    | date e => simpa only [compare?] using map_compare_swap' (Calendar.readDate? s) e
    | timestamp u =>
      simpa only [compare?] using map_compare_swap' (Calendar.readTimestamp? (Text.trim s)) u
    | integer _ | decimal _ | float _ =>
      simpa only [compare?] using bind_compareNumbers?_swap (readDecimal? s) _
  | boolean p =>
    cases w with
    | null => rfl
    | text t => simpa only [compare?] using map_compare_swap (readBoolean? t) p
    | boolean q => exact some_compare_swap p q
    | _ => exact compare?_swap_of_numbers rfl rfl
  | date d =>
    cases w with
    | null => rfl
    | text t => simpa only [compare?] using map_compare_swap (Calendar.readDate? t) d
    | date e => exact some_compare_swap d e
    | timestamp u => simpa only [compare?] using some_compare_swap (.midnight d) u
    | _ => exact compare?_swap_of_numbers rfl rfl
  | timestamp t =>
    cases w with
    | null => rfl
    | text u =>
      simpa only [compare?] using map_compare_swap (Calendar.readTimestamp? (Text.trim u)) t
    | date e => simpa only [compare?] using some_compare_swap t (.midnight e)
    | timestamp u => exact some_compare_swap t u
    | _ => exact compare?_swap_of_numbers rfl rfl
  | integer _ | decimal _ | float _ =>
    cases w with
    | null => rfl
    | text t => simpa only [compare?] using bind_compareNumbers?_swap' (readDecimal? t) _
    | _ => exact compare?_swap_of_numbers rfl rfl

/-! ### The operators of order -/

/-- The operators that an order of two cells answers. -/
def orderOps : List CompareOp := [.eq, .notEq, .gt, .lt, .gtEq, .ltEq]

variable {v w : Scalar} {op : CompareOp}

theorem test?_order (hop : op ∈ orderOps) (v w : Scalar) :
    v.test? op (.value w) = (v.compare? w).bind (answers? · op) := by
  cases hv : v.isNull with
  | true =>
    obtain rfl : v = null := by
      cases v with
      | null => rfl
      | _ => cases hv
    fin_cases hop <;> rfl
  | false =>
    fin_cases hop <;> simp only [test?, hv, Bool.false_eq_true, if_false]

theorem test?_order_isNone (hop : op ∈ orderOps) (v w : Scalar) :
    (v.test? op (.value w)).isNone = (v.compare? w).isNone := by
  rw [test?_order hop]
  cases v.compare? w with
  | none => rfl
  | some o => fin_cases hop <;> rfl

/-- An order that is swapped answers an operator as the order itself answers the one from the other
side. -/
theorem test?_swap {op' : CompareOp} (hop : op ∈ orderOps) (hop' : op' ∈ orderOps)
    (h : ∀ o, answers? o.swap op' = answers? o op) (v w : Scalar) :
    v.test? op (.value w) = w.test? op' (.value v) := by
  rw [test?_order hop, test?_order hop', ← compare?_swap v w]
  cases v.compare? w with
  | none => rfl
  | some o => exact (h o).symm

theorem test?_negated {op' : CompareOp} (hop : op ∈ orderOps) (hop' : op' ∈ orderOps)
    (h : ∀ o, answers? o op = (answers? o op').map not) (v w : Scalar) :
    v.test? op (.value w) = (v.test? op' (.value w)).map not := by
  rw [test?_order hop, test?_order hop']
  cases v.compare? w with
  | none => rfl
  | some o => exact h o

/-- Cells that change places are in the opposite order, or are not compared as before. So each
operator of order gives the same as the one that is read from the other side; all six are unknown
together, and three of them are the other three negated. -/
theorem compare?_either_side (v w : Scalar) :
    w.compare? v = (v.compare? w).map Ordering.swap ∧
      v.test? .eq (.value w) = w.test? .eq (.value v) ∧
      v.test? .notEq (.value w) = w.test? .notEq (.value v) ∧
      v.test? .gt (.value w) = w.test? .lt (.value v) ∧
      v.test? .gtEq (.value w) = w.test? .ltEq (.value v) ∧
      (∀ op ∈ orderOps, v.test? op (.value w) = none ↔ v.compare? w = none) ∧
      v.test? .notEq (.value w) = (v.test? .eq (.value w)).map not ∧
      v.test? .ltEq (.value w) = (v.test? .gt (.value w)).map not ∧
      v.test? .gtEq (.value w) = (v.test? .lt (.value w)).map not := by
  refine ⟨(compare?_swap v w).symm, ?_, ?_, ?_, ?_, fun op hop => ?_, ?_, ?_, ?_⟩
  case refine_5 =>
    rw [← Option.isNone_iff_eq_none, test?_order_isNone hop, Option.isNone_iff_eq_none]
  case refine_1 | refine_2 | refine_3 | refine_4 =>
    exact test?_swap (by decide) (by decide) (by rintro (_ | _ | _) <;> rfl) v w
  case refine_6 | refine_7 | refine_8 =>
    exact test?_negated (by decide) (by decide) (by rintro (_ | _ | _) <;> rfl) v w

/-- A text is compared with a number as the number that it can be read as, on either side. -/
theorem compare?_either_side_text :
    CompareOp.gtEq ∈ orderOps ∧
      ((text " 1.50").test? .gtEq (.value (integer 2)) = none ↔
        (text " 1.50").compare? (integer 2) = none) ∧
      (text " 1.50").compare? (integer 2) = some .lt ∧
      (integer 2).compare? (text " 1.50") = some .gt := by
  have hless : (text " 1.50").compare? (integer 2) = some .lt := by decide +kernel
  obtain ⟨hswap, -, -, -, -, hunknown, -⟩ := compare?_either_side (text " 1.50") (integer 2)
  refine ⟨by decide, hunknown .gtEq (by decide), hless, ?_⟩
  rw [hswap, hless]
  rfl

end Scalar

end TablePipeline
