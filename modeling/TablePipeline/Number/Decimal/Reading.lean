import TablePipeline.Number.Decimal
import TablePipeline.Number.Integer

/-!
# Reading decimals

The plain form has an optional sign, digits, at most one point and separators `_` behind the first
digit. Digits are taken while the coefficient stays below 96 bits and the scale at most 28; a whole
part that is too long is refused, the next digit of a fraction that is too long rounds the last
place. The scientific form moves the point of a plain one by an exponent of at most 28.
-/

set_option autoImplicit false

namespace TablePipeline.Decimal

attribute [local instance (high)] instPowNat

/-- What a run of digits has come to. -/
structure Reading where
  coefficient : Nat
  scale : Nat
  pointSeen : Bool
  digitSeen : Bool
  /-- The first digit that did not fit. -/
  next : Option Nat

def Reading.step (r : Reading) (c : Char) : Option Reading :=
  if c.isDigit then
    if r.next.isSome then some r
    else
      let c' := 10 * r.coefficient + Digits.ofChar c
      if c' < 2 ^ (96 : Nat) ∧ (r.pointSeen → r.scale < 28) then
        some { r with
          coefficient := c'
          scale := if r.pointSeen then r.scale + 1 else r.scale
          digitSeen := true }
      else if r.pointSeen then some { r with next := some (Digits.ofChar c) }
      else none
  else if c = '.' then if r.pointSeen then none else some { r with pointSeen := true }
  else if c = '_' then if r.digitSeen then some r else none
  else none

def Reading.finish (negative : Bool) (r : Reading) : Option Decimal :=
  if !r.digitSeen then none
  else
    let parts (coefficient scale : Nat) :=
      ofParts? (negative && coefficient != 0) coefficient scale
    match r.next with
    | some d =>
      if d < 5 then parts r.coefficient r.scale
      else if r.coefficient + 1 < 2 ^ (96 : Nat) then parts (r.coefficient + 1) r.scale
      else if r.scale = 0 then none
      else parts ((r.coefficient + 5) / 10) (r.scale - 1)
    | none => parts r.coefficient r.scale

def readDigits (negative : Bool) (cs : List Char) : Option Decimal := do
  (← cs.foldlM Reading.step ⟨0, 0, false, false, none⟩).finish negative

def readPlain? (s : String) : Option Decimal :=
  match s.toList with
  | '-' :: cs => readDigits true cs
  | '+' :: cs => readDigits false cs
  | cs => readDigits false cs

/-- Splits at the first `e` or `E`. -/
private def splitExponent : List Char → Option (List Char × List Char)
  | [] => none
  | c :: cs =>
    if c = 'e' ∨ c = 'E' then some ([], cs)
    else (splitExponent cs).map fun (base, exponent) => (c :: base, exponent)

/-- Moves the point `e` places to the left; a scale beyond 28 rounds the coefficient, a half away
from zero. -/
def shiftLeft? (d : Decimal) (e : Nat) : Option Decimal :=
  if d.scale + e ≤ 28 then ofParts? d.negative d.coefficient (d.scale + e)
  else ofParts? d.negative
    (roundDiv .away d.coefficient (10 ^ (d.scale + e - 28))) 28

def shiftRight? (d : Decimal) (e : Nat) : Option Decimal :=
  if e ≤ d.scale then ofParts? d.negative d.coefficient (d.scale - e)
  else ofParts? d.negative (d.coefficient * 10 ^ (e - d.scale)) 0

private def readExponent? (cs : List Char) : Option Nat :=
  match Integer.readUnsigned 28 (String.ofList cs) with
  | .ok e => some e
  | .error _ => none

def readScientific? (s : String) : Option Decimal := do
  let (base, exponent) ← splitExponent s.toList
  let d ← readPlain? (String.ofList base)
  match exponent with
  | '-' :: cs => d.shiftLeft? (← readExponent? cs)
  | cs => d.shiftRight? (← readExponent? cs)

/-- Reads either form. -/
def read? (s : String) : Option Decimal := readPlain? s <|> readScientific? s

end TablePipeline.Decimal
