/-!
# UTF-8

A character is one to four bytes. A lead byte fixes how many follow and the range of the second
one; all further ones lie between `80` and `BF`. A text with errors can be read with a replacement
character for each longest part that begins a character and goes wrong.
-/

set_option autoImplicit false

namespace TablePipeline.Utf8

/-- What a lead byte asks for: how many bytes follow, the range of the first of these, and the bits
that it holds itself. -/
structure Lead where
  follow : Nat
  low : Nat
  high : Nat
  bits : Nat
  deriving DecidableEq, Repr

/-- Lead bytes; the ranges keep out overlong forms, surrogates and all beyond `10FFFF`. -/
def lead? (b : UInt8) : Option Lead :=
  let n := b.toNat
  if n < 0x80 then some ⟨0, 0x80, 0xBF, n⟩
  else if 0xC2 ≤ n ∧ n ≤ 0xDF then some ⟨1, 0x80, 0xBF, n - 0xC0⟩
  else if n = 0xE0 then some ⟨2, 0xA0, 0xBF, 0⟩
  else if n = 0xED then some ⟨2, 0x80, 0x9F, 13⟩
  else if 0xE1 ≤ n ∧ n ≤ 0xEF then some ⟨2, 0x80, 0xBF, n - 0xE0⟩
  else if n = 0xF0 then some ⟨3, 0x90, 0xBF, 0⟩
  else if 0xF1 ≤ n ∧ n ≤ 0xF3 then some ⟨3, 0x80, 0xBF, n - 0xF0⟩
  else if n = 0xF4 then some ⟨3, 0x80, 0x8F, 4⟩
  else none

/-- Reads `k` bytes, the first one within a range, and adds their bits to `acc`. Gives what is left
behind the bytes that fit. -/
def readFollow : (k low high acc : Nat) → List UInt8 → Option Nat × List UInt8
  | 0, _, _, acc, bytes => (some acc, bytes)
  | _ + 1, _, _, _, [] => (none, [])
  | k + 1, low, high, acc, b :: rest =>
    if low ≤ b.toNat ∧ b.toNat ≤ high then readFollow k 0x80 0xBF (acc * 64 + (b.toNat - 0x80)) rest
    else (none, b :: rest)

theorem readFollow_length (k low high acc : Nat) (bytes : List UInt8) :
    (readFollow k low high acc bytes).2.length ≤ bytes.length := by
  induction k generalizing low high acc bytes with
  | zero => simp [readFollow]
  | succ k ih =>
    cases bytes with
    | nil => simp [readFollow]
    | cons b rest =>
      simp only [readFollow]
      split
      · exact Nat.le_succ_of_le (ih ..)
      · simp

/-- Splits off the first character, or the bytes that were meant to be one. -/
def next (b : UInt8) (rest : List UInt8) : Option Char × List UInt8 :=
  match lead? b with
  | none => (none, rest)
  | some l =>
    let (n, rest) := readFollow l.follow l.low l.high l.bits rest
    (n.map Char.ofNat, rest)

theorem next_length (b : UInt8) (rest : List UInt8) : (next b rest).2.length ≤ rest.length := by
  unfold next
  split
  · simp
  · exact readFollow_length ..

/-- The characters of some bytes; where a character fails, `none`. -/
def pieces : List UInt8 → List (Option Char)
  | [] => []
  | b :: rest =>
    let step := next b rest
    step.1 :: pieces step.2
termination_by bytes => bytes.length
decreasing_by
  have := next_length b rest
  simp only [List.length_cons]
  omega

def decode? (bytes : List UInt8) : Option String :=
  ((pieces bytes).mapM id).map String.ofList

def encode (s : String) : List UInt8 := s.toList.flatMap String.utf8EncodeChar

def replacement : Char := Char.ofNat 0xFFFD

def decodeLossy (bytes : List UInt8) : String :=
  String.ofList ((pieces bytes).map (·.getD replacement))

end TablePipeline.Utf8
