import Mathlib.Data.Rat.Floor
import TablePipeline.Scalar

/-!
# The numbers that cells stand for

A decimal is a form of a rational number. Its sign and its whole part are those of the number, and
its normal form is one of the same number.
-/

set_option autoImplicit false

namespace TablePipeline

attribute [local instance (high)] instPowNat

namespace Decimal

def value (d : Decimal) : ℚ := d.signed / (10 ^ d.scale : Nat)

theorem cast_pow_pos (s : Nat) : (0 : ℚ) < (10 ^ s : Nat) :=
  Nat.cast_pos.mpr (Nat.pow_pos (by decide))

theorem value_eq_iff (a b : Decimal) : a.value = b.value ↔ a.compareWith b = .eq := by
  have hpow (n : Nat) : ((10 ^ n : Nat) : ℚ) ≠ 0 := (cast_pow_pos n).ne'
  unfold value compareWith
  rw [compare_eq_iff_eq, div_eq_div_iff (hpow _) (hpow _), ← Int.cast_inj (α := ℚ)]
  push_cast
  rfl

theorem floor_eq (d : Decimal) : d.floor = ⌊d.value⌋ := by
  have hpow : (0 : Int) ≤ 10 ^ d.scale := Int.le_of_lt (Int.pow_pos (by decide))
  rw [value, Rat.floor_intCast_div_natCast, floor, Int.fdiv_eq_ediv_of_nonneg _ hpow]
  norm_cast

theorem value_of_negative (d : Decimal) :
    d.value = if d.negative then -((d.coefficient : ℚ) / (10 ^ d.scale : Nat))
      else (d.coefficient : ℚ) / (10 ^ d.scale : Nat) := by
  unfold value signed
  split
  · rw [Int.cast_neg, neg_div, Int.cast_natCast]
  · rw [Int.cast_natCast]

theorem value_normalize (d : Decimal) : d.normalize.value = d.value := by
  unfold normalize
  split
  · rename_i h
    simp [value_of_negative, h, zero]
  · have hstrip : ((stripZeros d.coefficient d.scale).1 : ℚ) /
        (10 ^ (stripZeros d.coefficient d.scale).2 : Nat) =
        (d.coefficient : ℚ) / (10 ^ d.scale : Nat) := by
      rw [div_eq_div_iff (cast_pow_pos _).ne' (cast_pow_pos _).ne']
      exact_mod_cast stripZeros_value d.coefficient d.scale
    rw [value_of_negative, value_of_negative, shortened, hstrip]

end Decimal

/-- The value of a number; infinities and floats beyond the decimals have none. -/
def Scalar.decimalValue? (v : Scalar) : Option ℚ := v.toDecimal?.map Decimal.value

end TablePipeline
