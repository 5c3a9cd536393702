import TablePipeline.Number.Digits

/-!
# Whole numbers with a range

Reading goes from left to right and stops at the first fault: a character that is no digit, or the
digit at which the number leaves its range.
-/

set_option autoImplicit false

namespace TablePipeline.Integer

attribute [local instance (high)] instPowNat

inductive ReadError
  | empty
  | invalidDigit
  | tooLarge
  | tooSmall
  deriving DecidableEq, Repr

def ReadError.message : ReadError → String
  | .empty => "cannot parse integer from empty string"
  | .invalidDigit => "invalid digit found in string"
  | .tooLarge => "number too large to fit in target type"
  | .tooSmall => "number too small to fit in target type"

def readDigits (most : Nat) (overflow : ReadError) : Nat → List Char → Except ReadError Nat
  | n, [] => .ok n
  | n, c :: cs =>
    if !c.isDigit then .error .invalidDigit
    else if 10 * n + Digits.ofChar c > most then .error overflow
    else readDigits most overflow (10 * n + Digits.ofChar c) cs

/-- Reads a number from zero to `most`; a plus sign may stand in front. -/
def readUnsigned (most : Nat) (s : String) : Except ReadError Nat :=
  match s.toList with
  | [] => .error .empty
  | ['+'] | ['-'] => .error .invalidDigit
  | '+' :: cs => readDigits most .tooLarge 0 cs
  | cs => readDigits most .tooLarge 0 cs

def readSigned (s : String) : Except ReadError Int64 :=
  match s.toList with
  | [] => .error .empty
  | ['+'] | ['-'] => .error .invalidDigit
  | '-' :: cs => (readDigits (2 ^ (63 : Nat)) .tooSmall 0 cs).map fun n => Int64.ofInt (-n)
  | '+' :: cs => (readDigits (2 ^ (63 : Nat) - 1) .tooLarge 0 cs).map Int64.ofNat
  | cs => (readDigits (2 ^ (63 : Nat) - 1) .tooLarge 0 cs).map Int64.ofNat

def maxUnsigned64 : Nat := 2 ^ (64 : Nat) - 1

def fit? (n : Int) : Option Int64 :=
  if -2 ^ (63 : Nat) ≤ n ∧ n < 2 ^ (63 : Nat) then some (Int64.ofInt n) else none

theorem fit?_eq_none_iff (n : Int) : fit? n = none ↔ n < -2 ^ (63 : Nat) ∨ 2 ^ (63 : Nat) ≤ n := by
  unfold fit?
  split <;> simp <;> omega

theorem toInt_of_fit? {n : Int} {k : Int64} (h : fit? n = some k) : k.toInt = n := by
  unfold fit? at h
  split at h
  · rename_i hn
    obtain rfl := Option.some.inj h
    exact Int64.toInt_ofInt_of_le (by simpa using hn.1) (by simpa using hn.2)
  · cases h

def text (n : Int64) : String := Digits.signedText n.toInt

end TablePipeline.Integer
