import TablePipeline.Number.Binary64
import TablePipeline.Number.Digits
import TablePipeline.Text.Class

/-!
# Reading binary numbers

A text has an optional sign and then `inf`, `infinity` or `nan` in any case, or digits with at most
one point and at least one digit, and an optional exponent. The nearest number is taken.
-/

set_option autoImplicit false

namespace TablePipeline.Binary64

attribute [local instance (high)] instPowNat

/-- The number nearest to `digits · 10 ^ exponent`. A magnitude that no exponent of two can hold
gives infinity or zero without being worked out. -/
def ofScientific (negative : Bool) (digits : Nat) (exponent : Int) : Binary64 :=
  let size := (Digits.count digits : Int) + exponent
  if digits = 0 then zero negative
  else if 400 < size then infinity negative
  else if size < -400 then zero negative
  else if 0 ≤ exponent then ofRatio negative (digits * 10 ^ exponent.toNat) 1
  else ofRatio negative digits (10 ^ (-exponent).toNat)

private def readExponent? : List Char → Option Int
  | '-' :: cs => if cs.isEmpty || !cs.all Char.isDigit then none else some (-Digits.value cs)
  | '+' :: cs => if cs.isEmpty || !cs.all Char.isDigit then none else some (Digits.value cs)
  | cs => if cs.isEmpty || !cs.all Char.isDigit then none else some (Digits.value cs)

private def readNumber? (negative : Bool) (cs : List Char) : Option Binary64 :=
  let whole := cs.takeWhile Char.isDigit
  let rest := cs.dropWhile Char.isDigit
  let (places, rest) := match rest with
    | '.' :: tail => (tail.takeWhile Char.isDigit, tail.dropWhile Char.isDigit)
    | _ => ([], rest)
  let digits := whole ++ places
  if digits.isEmpty then none
  else
    let exponent := match rest with
      | [] => some 0
      | c :: tail => if c = 'e' ∨ c = 'E' then readExponent? tail else none
    exponent.map fun e => ofScientific negative (Digits.value digits) (e - places.length)

private def readUnsigned? (negative : Bool) (cs : List Char) : Option Binary64 :=
  let word := Text.lowerAscii (String.ofList cs)
  if word == "inf" || word == "infinity" then some (infinity negative)
  else if word == "nan" then some nan
  else readNumber? negative cs

def read? (s : String) : Option Binary64 :=
  match s.toList with
  | '-' :: cs => readUnsigned? true cs
  | '+' :: cs => readUnsigned? false cs
  | cs => readUnsigned? false cs

end TablePipeline.Binary64
