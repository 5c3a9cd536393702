import TablePipeline.Number.Binary64
import TablePipeline.Number.Decimal

/-!
# Between binary and decimal numbers

A finite binary number becomes a decimal of about sixteen significant digits. Its factors of two
are first traded for factors of five inside 96 bits; then digits at the end are dropped, each
rounding the rest half up, until at most 52 bits are left or no place is behind the point.
-/

set_option autoImplicit false

namespace TablePipeline.Binary64

attribute [local instance (high)] instPowNat

private def bound : Nat := 2 ^ (96 : Nat)

/-- Clears `n` halvings: an even coefficient is halved, an odd one becomes five times as large with
one more place, or is halved with a loss where that does not fit. The second part counts the
places that were saved. -/
private def clearHalves : Nat → Nat → Nat → Nat × Nat
  | 0, c, saved => (c, saved)
  | n + 1, c, saved =>
    if c % 2 = 0 then clearHalves n (c / 2) (saved + 1)
    else if c * 5 < bound then clearHalves n (c * 5) saved
    else clearHalves n (c / 2) (saved + 1)

/-- Clears `n` doublings: the coefficient is doubled with one more place, or divided by five where
that does not fit. -/
private def clearDoubles : Nat → Nat → Nat → Nat × Nat
  | 0, c, places => (c, places)
  | n + 1, c, places =>
    if c < 2 ^ (95 : Nat) then clearDoubles n (c * 2) (places + 1)
    else clearDoubles n (c / 5) places

/-- Appends `n` zeros, if they fit. -/
private def appendZeros : Nat → Nat → Option Nat
  | 0, c => some c
  | n + 1, c => if c * 10 < bound then appendZeros n (c * 10) else none

private def dropDigit (c : Nat) : Nat := if 5 ≤ c % 10 then c / 10 + 1 else c / 10

/-- Drops `n` places; a coefficient that vanishes has no places at all. -/
private def dropPlaces : Nat → Nat → Nat → Nat × Nat
  | 0, c, places => (c, places)
  | n + 1, c, places => if c / 10 = 0 then (0, 0) else dropPlaces n (dropDigit c) (places - 1)

/-- Drops places until the coefficient is below `2 ^ 52`. -/
private def dropExcess : Nat → Nat → Nat × Nat
  | c, 0 => (c, 0)
  | c, places + 1 => if c < 2 ^ (52 : Nat) then (c, places + 1) else dropExcess (dropDigit c) places

/-- The coefficient and the places of a finite magnitude. Of `e10` places those in front of the
point are positive. -/
private def places? (x : Binary64) : Option (Nat × Nat) := do
  let e := x.exponent
  let (c, e10) := if e < 0 then
      let (c, saved) := clearHalves (-e).toNat x.significand 0
      (c, e + saved)
    else
      let (c, more) := clearDoubles e.toNat x.significand 0
      (c, e - more)
  if 0 < e10 then return (← appendZeros e10.toNat c, 0)
  let places := (-e10).toNat
  let (c, places) := if 28 < places then dropPlaces (places - 28) c places else (c, places)
  let (c, places) := dropExcess c places
  return Decimal.stripZeros c places

/-- The decimal of a number; infinity, NaN and numbers beyond 96 bits have none. -/
def toDecimal? (x : Binary64) : Option Decimal := do
  if !x.isFinite then none
  else if x.isZero then Decimal.ofParts? x.negative 0 0
  else
    let (c, places) ← x.places?
    Decimal.ofParts? x.negative c places

/-- The binary number of a decimal. With places behind the point it is the sum of the whole part
and the fraction, rounded once more to that many places. -/
def ofDecimal (d : Decimal) : Binary64 :=
  if d.scale = 0 then ofInt d.signed
  else
    let unit := 10 ^ d.scale
    let whole := ofRatio false (d.coefficient / unit) 1
    let fraction := (ofRatio false (d.coefficient % unit) 1).div (ofRatio false unit 1)
    let magnitude :=
      if fraction.isZero then whole
      else
        let power := ofRatio false unit 1
        (((whole.add fraction).mul power).round).div power
    if d.negative then magnitude.negate else magnitude

end TablePipeline.Binary64
