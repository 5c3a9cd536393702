import TablePipeline.Number.Binary64
import TablePipeline.Number.Digits

/-!
# Texts of binary numbers

A finite number is nearest to every real number of an interval around it, the ends included when
its significand is even. For one digit, two digits and so on, the two neighbours of the number on
that decimal grid are tried; the first grid with a neighbour in the interval gives the digits. A
layout says which numbers are written with an exponent and how the rest of the text looks.
-/

set_option autoImplicit false

namespace TablePipeline.Binary64

attribute [local instance (high)] instPowNat

/-- Digits `d` and an exponent `k` stand for `d · 10 ^ k`. -/
structure Shortest where
  digits : Nat
  exponent : Int
  deriving DecidableEq, Repr

/-- The interval of a number in quarters of its last binary place. -/
private structure Interval where
  low : Nat
  middle : Nat
  high : Nat
  closed : Bool

private def interval (x : Binary64) : Interval :=
  let m := x.significand
  let low := if m = 2 ^ (52 : Nat) ∧ x.exponent > -1074 then 4 * m - 1 else 4 * m - 2
  ⟨low, 4 * m, 4 * m + 2, m % 2 == 0⟩

/-- `n / d · 10 ^ -k` as a fraction. -/
private def overTen (n d : Nat) (k : Int) : Nat × Nat :=
  if 0 ≤ k then (n, d * 10 ^ k.toNat) else (n * 10 ^ (-k).toNat, d)

/-- The greatest `k` with `10 ^ k ≤ n / d`. -/
private def tenExponent (n d : Nat) : Int :=
  let guess : Int := (Digits.count n : Int) - Digits.count d
  let (a, b) := overTen n d guess
  if a < b then guess - 1 else guess

/-- Compares `c · a / b` with the ends times `unitNum / unitDen`. -/
private def Interval.holds (i : Interval) (unitNum unitDen : Nat) (c : Nat) (a b : Nat) : Bool :=
  let p := c * a * unitDen
  let low := i.low * unitNum * b
  let high := i.high * unitNum * b
  if i.closed then low ≤ p && p ≤ high else low < p && p < high

/-- The neighbour on the grid `10 ^ k` that reads back, the nearer one if both do. -/
private def onGrid (i : Interval) (unitNum unitDen : Nat) (k : Int) : Option Nat :=
  let (n, d) := overTen (i.middle * unitNum) unitDen k
  let below := n / d
  let (a, b) := overTen 1 1 (-k)
  let lowHit := i.holds unitNum unitDen below a b && below != 0
  let highHit := i.holds unitNum unitDen (below + 1) a b
  let twice := 2 * (n % d)
  if lowHit && highHit then
    some (if twice < d || (twice == d && below % 2 == 0) then below else below + 1)
  else if lowHit then some below
  else if highHit then some (below + 1)
  else none

private def stripZeros : Nat → Nat → Int → Shortest
  | 0, d, k => ⟨d, k⟩
  | n + 1, d, k => if d % 10 = 0 ∧ d ≠ 0 then stripZeros n (d / 10) (k + 1) else ⟨d, k⟩

/-- The shortest digits of the magnitude of a finite number other than zero. -/
def shortest (x : Binary64) : Shortest :=
  let i := x.interval
  let q := x.exponent - 2
  let (unitNum, unitDen) := if 0 ≤ q then (2 ^ q.toNat, 1) else (1, 2 ^ (-q).toNat)
  let top := tenExponent (i.middle * unitNum) unitDen
  let found := (List.range 17).findSome? fun (n : Nat) =>
    let k := top - (n : Int)
    (onGrid i unitNum unitDen k).map fun d => stripZeros 17 d k
  found.getD ⟨0, 0⟩

structure Layout where
  /-- Whether a number below `10 ^ (e + 1)` and not below `10 ^ e` is written without exponent. -/
  positional : Int → Bool
  /-- What follows a whole number. -/
  whole : String
  /-- The sign of an exponent that is not negative. -/
  exponentPlus : String

namespace Layout

/-- Never an exponent, and nothing behind a whole number. -/
def plain : Layout := ⟨fun _ => true, "", ""⟩

/-- JSON: an exponent below `10 ^ -5` and from `10 ^ 16`, and `.0` behind a whole number. -/
def json : Layout := ⟨fun e => -5 ≤ e && e < 16, ".0", "+"⟩

/-- Log lines: an exponent below `10 ^ -4` and from `10 ^ 16`, without a sign if it is positive. -/
def log : Layout := ⟨fun e => -4 ≤ e && e < 16, ".0", ""⟩

private def positionalText (l : Layout) (digits : List Char) (k : Int) : String :=
  if 0 ≤ k then String.ofList (digits ++ List.replicate k.toNat '0') ++ l.whole
  else
    let places := (-k).toNat
    if places < digits.length then
      let cut := digits.length - places
      String.ofList (digits.take cut ++ '.' :: digits.drop cut)
    else String.ofList ('0' :: '.' :: List.replicate (places - digits.length) '0' ++ digits)

private def exponentText (l : Layout) (digits : List Char) (e : Int) : String :=
  let mantissa := match digits with
    | [] => []
    | [d] => [d]
    | d :: ds => d :: '.' :: ds
  String.ofList mantissa ++ "e" ++ (if 0 ≤ e then l.exponentPlus else "") ++ Digits.signedText e

end Layout

def text (l : Layout) (x : Binary64) : String :=
  if x.isNaN then "NaN"
  else
    let sign := if x.negative then "-" else ""
    if x.isInfinite then sign ++ "inf"
    else if x.isZero then sign ++ "0" ++ l.whole
    else
      let s := x.shortest
      let digits := Digits.write s.digits
      let e := s.exponent + digits.length - 1
      sign ++
        if l.positional e then l.positionalText digits s.exponent else l.exponentText digits e

end TablePipeline.Binary64
