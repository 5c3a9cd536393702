import TablePipeline.Number.Digits
import TablePipeline.Number.Rounding

/-!
# Decimal numbers

A decimal is a sign, a coefficient of 96 bits and a scale of at most 28 places. The same number has
several forms (`1.5`, `1.50`), which `normalize` unites; zero may carry a sign until then.
-/

set_option autoImplicit false

namespace TablePipeline

attribute [local instance (high)] instPowNat

/-- A number `± coefficient / 10 ^ scale`. -/
@[ext]
structure Decimal where
  negative : Bool
  coefficient : Nat
  scale : Nat
  coefficient_lt : coefficient < 2 ^ (96 : Nat)
  scale_le : scale ≤ 28
  deriving DecidableEq

namespace Decimal

instance : Repr Decimal where
  reprPrec d _ := repr (d.negative, d.coefficient, d.scale)

def ofParts? (negative : Bool) (coefficient scale : Nat) : Option Decimal :=
  if h : coefficient < 2 ^ (96 : Nat) ∧ scale ≤ 28 then
    some ⟨negative, coefficient, scale, h.1, h.2⟩
  else none

def zero : Decimal := ⟨false, 0, 0, by decide, by decide⟩

instance : Inhabited Decimal := ⟨zero⟩

def isZero (d : Decimal) : Bool := d.coefficient == 0

def signed (d : Decimal) : Int := if d.negative then -d.coefficient else d.coefficient

def ofInt64 (n : Int64) : Decimal where
  negative := n.toInt < 0
  coefficient := n.toInt.natAbs
  scale := 0
  coefficient_lt := by have := n.le_toInt; have := n.toInt_lt; omega
  scale_le := by decide

theorem isZero_ofInt64 (n : Int64) : (ofInt64 n).isZero = (n == 0) := by
  have hzero : n.toInt.natAbs = 0 ↔ n = 0 := by
    rw [Int.natAbs_eq_zero, ← Int64.toInt_inj]
    rfl
  rw [Bool.eq_iff_iff, beq_iff_eq, ← hzero]
  exact beq_iff_eq

def ofUInt64 (n : UInt64) : Decimal where
  negative := false
  coefficient := n.toNat
  scale := 0
  coefficient_lt := Nat.lt_trans n.toNat_lt (by decide)
  scale_le := by decide

/-- Whether `a` and `b`, both over their scales, stand in an order as numbers. -/
def compareWith (a b : Decimal) : Ordering :=
  compare (a.signed * 10 ^ b.scale) (b.signed * 10 ^ a.scale)

/-- Takes zeros off the end of a coefficient, at most `scale` of them. -/
def stripZeros (coefficient : Nat) : Nat → Nat × Nat
  | 0 => (coefficient, 0)
  | scale + 1 =>
    if coefficient % 10 = 0 then stripZeros (coefficient / 10) scale else (coefficient, scale + 1)

theorem stripZeros_le (c s : Nat) : (stripZeros c s).1 ≤ c ∧ (stripZeros c s).2 ≤ s := by
  induction s generalizing c with
  | zero => simp [stripZeros]
  | succ s ih =>
    rw [stripZeros]
    split
    · have := ih (c / 10)
      omega
    · simp

theorem stripZeros_value (c s : Nat) :
    (stripZeros c s).1 * 10 ^ s = c * 10 ^ (stripZeros c s).2 := by
  induction s generalizing c with
  | zero => simp [stripZeros]
  | succ s ih =>
    rw [stripZeros]
    split
    · rename_i h
      have hc : c / 10 * 10 = c := by omega
      calc
        (stripZeros (c / 10) s).1 * 10 ^ (s + 1)
            = (stripZeros (c / 10) s).1 * 10 ^ s * 10 := by rw [Nat.pow_succ, Nat.mul_assoc]
        _ = c / 10 * 10 ^ (stripZeros (c / 10) s).2 * 10 := by rw [ih]
        _ = c / 10 * 10 * 10 ^ (stripZeros (c / 10) s).2 := Nat.mul_right_comm _ _ _
        _ = c * 10 ^ (stripZeros (c / 10) s).2 := by rw [hc]
    · rfl

/-- The form of the same number without zeros at the end. -/
def shortened (d : Decimal) : Decimal :=
  let r := stripZeros d.coefficient d.scale
  ⟨d.negative, r.1, r.2, Nat.lt_of_le_of_lt (stripZeros_le _ _).1 d.coefficient_lt,
    Nat.le_trans (stripZeros_le _ _).2 d.scale_le⟩

/-- The form without zeros at the end and without a signed zero. -/
def normalize (d : Decimal) : Decimal := if d.coefficient = 0 then zero else d.shortened

/-- The digits around a point, as many behind it as the scale says. -/
def digits (coefficient scale : Nat) : List Char :=
  if scale = 0 then Digits.write coefficient
  else Digits.write (coefficient / 10 ^ scale) ++
    '.' :: Digits.pad scale (coefficient % 10 ^ scale)

/-- All places of the form, zeros at the end included. -/
def text (d : Decimal) : String :=
  String.ofList ((if d.negative then ['-'] else []) ++ digits d.coefficient d.scale)

def rounded (tie : Tie) (d : Decimal) : Nat := roundDiv tie d.coefficient (10 ^ d.scale)

def roundToInt (tie : Tie) (d : Decimal) : Int :=
  if d.negative then -(d.rounded tie : Int) else d.rounded tie

def floor (d : Decimal) : Int := d.signed.fdiv (10 ^ d.scale)

end Decimal

end TablePipeline
