import TablePipeline.Number.Decimal

/-!
# Arithmetic of decimals

Each operation gives the exact result rounded, a half to the even neighbour, to the greatest scale
up to 28 at which the coefficient fits 96 bits, and nothing if even the whole part does not fit.
-/

set_option autoImplicit false

namespace TablePipeline.Decimal

attribute [local instance (high)] instPowNat

/-- The fraction `n / d · 10 ^ scale` at the greatest scale, from `scale` down, that fits. -/
def fitFrom (negative : Bool) (n d : Nat) : Nat → Option Decimal
  | 0 => ofParts? negative (roundDiv .toEven n d) 0
  | scale + 1 =>
    let c := roundDiv .toEven (n * 10 ^ (scale + 1)) d
    if c < 2 ^ (96 : Nat) then ofParts? negative c (scale + 1) else fitFrom negative n d scale

/-- A fraction that fits at a scale is rounded there or at a greater one. -/
theorem fitFrom_eq {scale j : Nat} (negative : Bool) (n d : Nat) (hscale : scale ≤ 28)
    (hj : j ≤ scale) (hfit : roundDiv .toEven (n * 10 ^ j) d < 2 ^ (96 : Nat)) :
    ∃ r, fitFrom negative n d scale = some r ∧ j ≤ r.scale ∧ r.scale ≤ scale ∧
      r.coefficient = roundDiv .toEven (n * 10 ^ r.scale) d := by
  induction scale with
  | zero =>
    obtain rfl := Nat.le_zero.mp hj
    rw [Nat.pow_zero, Nat.mul_one] at hfit
    refine ⟨⟨negative, roundDiv .toEven n d, 0, hfit, hscale⟩, ?_, Nat.le_refl 0, Nat.le_refl 0, ?_⟩
    · rw [fitFrom, ofParts?, dif_pos ⟨hfit, hscale⟩]
    · rw [Nat.pow_zero, Nat.mul_one]
  | succ scale ih =>
    by_cases hc : roundDiv .toEven (n * 10 ^ (scale + 1)) d < 2 ^ (96 : Nat)
    · refine ⟨⟨negative, _, scale + 1, hc, hscale⟩, ?_, hj, Nat.le_refl _, rfl⟩
      rw [fitFrom, if_pos hc, ofParts?, dif_pos ⟨hc, hscale⟩]
    · have hne : j ≠ scale + 1 := by
        rintro rfl
        exact hc hfit
      obtain ⟨r, hr, hlow, hhigh, hcoefficient⟩ := ih (by omega) (by omega)
      refine ⟨r, ?_, hlow, by omega, hcoefficient⟩
      rw [fitFrom, if_neg hc, hr]

/-- An exact coefficient over `10 ^ scale`, rounded to fit. -/
def fit (negative : Bool) (coefficient scale : Nat) : Option Decimal :=
  fitFrom negative coefficient (10 ^ scale) (min scale 28)

/-- A zero summand leaves the other one as it is. -/
def add? (a b : Decimal) : Option Decimal :=
  if a.isZero then some b
  else if b.isZero then some a
  else
    let scale := max a.scale b.scale
    let sum := a.signed * 10 ^ (scale - a.scale) + b.signed * 10 ^ (scale - b.scale)
    fit (if sum = 0 then a.negative else sum < 0) sum.natAbs scale

/-- The number with the other sign; zero keeps its form. -/
def negate (d : Decimal) : Decimal := if d.isZero then d else { d with negative := !d.negative }

def sub? (a b : Decimal) : Option Decimal := add? a b.negate

def mul? (a b : Decimal) : Option Decimal :=
  if a.isZero || b.isZero then some zero
  else fit (a.negative != b.negative) (a.coefficient * b.coefficient) (a.scale + b.scale)

/-- Nothing for a zero divisor. A quotient of the coefficients without a remainder keeps the
difference of the scales, any other one loses its zeros at the end. -/
def div? (a b : Decimal) : Option Decimal :=
  let negative := a.negative != b.negative
  if b.isZero then none
  else if a.isZero then some zero
  else if a.coefficient % b.coefficient = 0 then
    let q := a.coefficient / b.coefficient
    if b.scale ≤ a.scale then ofParts? negative q (a.scale - b.scale)
    else ofParts? negative (q * 10 ^ (b.scale - a.scale)) 0
  else
    (fitFrom negative (a.coefficient * 10 ^ b.scale) (b.coefficient * 10 ^ a.scale) 28).map
      shortened

end TablePipeline.Decimal
