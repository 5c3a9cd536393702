import TablePipeline.Number.Digits

/-!
# Base64

The standard alphabet with padding. Only the canonical form is read: padding to full groups of four,
nothing behind it, and no bits set that stand for no byte.
-/

set_option autoImplicit false

namespace TablePipeline.Base64

/-- Why a text is not base64; bytes are told with their place. -/
inductive Fault
  | invalidByte (byte : UInt8) (offset : Nat)
  | invalidLength
  | invalidLastSymbol (byte : UInt8) (offset : Nat)
  | invalidPadding
  deriving DecidableEq, Repr

def Fault.message : Fault → String
  | invalidByte b n =>
    "Invalid byte " ++ Digits.text b.toNat ++ ", offset " ++ Digits.text n ++ "."
  | invalidLength => "Encoded text cannot have a 6-bit remainder."
  | invalidLastSymbol b n =>
    "Invalid last symbol " ++ Digits.text b.toNat ++ ", offset " ++ Digits.text n ++ "."
  | invalidPadding => "Invalid padding"

def symbol (n : Nat) : Char :=
  if n < 26 then Char.ofNat (65 + n)
  else if n < 52 then Char.ofNat (71 + n)
  else if n < 62 then Char.ofNat (n - 4)
  else if n = 62 then '+'
  else '/'

def value? (b : UInt8) : Option Nat :=
  let n := b.toNat
  if 65 ≤ n ∧ n ≤ 90 then some (n - 65)
  else if 97 ≤ n ∧ n ≤ 122 then some (n - 71)
  else if 48 ≤ n ∧ n ≤ 57 then some (n + 4)
  else if n = 43 then some 62
  else if n = 47 then some 63
  else none

def pad : UInt8 := 61

def encodeChars : List UInt8 → List Char
  | [] => []
  | [a] =>
    let n := a.toNat * 16
    [symbol (n / 64), symbol (n % 64), '=', '=']
  | [a, b] =>
    let n := (a.toNat * 256 + b.toNat) * 4
    [symbol (n / 4096), symbol (n / 64 % 64), symbol (n % 64), '=']
  | a :: b :: c :: rest =>
    let n := (a.toNat * 256 + b.toNat) * 256 + c.toNat
    symbol (n / 262144) :: symbol (n / 4096 % 64) :: symbol (n / 64 % 64) :: symbol (n % 64) ::
      encodeChars rest

def encode (bytes : List UInt8) : String := String.ofList (encodeChars bytes)

/-- The values of the symbols from an offset on. Padding stands at the third or fourth place of its
group, and no symbol follows it; `padded` is the place where it began. -/
def scan : Nat → Option Nat → List UInt8 → Except Fault (List Nat)
  | _, _, [] => .ok []
  | i, padded, b :: rest =>
    if b = pad then
      if i % 4 < 2 then .error (.invalidByte b (padded.getD i))
      else scan (i + 1) (padded <|> some i) rest
    else match padded, value? b with
      | some first, _ => .error (.invalidByte pad first)
      | none, none => .error (.invalidByte b i)
      | none, some v => (scan (i + 1) none rest).map (v :: ·)

/-- The bytes of some values, and the bits that are left over. -/
def collect : List Nat → List UInt8 × Nat
  | a :: b :: c :: d :: rest =>
    let n := ((a * 64 + b) * 64 + c) * 64 + d
    let (bytes, left) := collect rest
    (UInt8.ofNat (n / 65536) :: UInt8.ofNat (n / 256 % 256) :: UInt8.ofNat (n % 256) :: bytes, left)
  | [a, b, c] =>
    let n := (a * 64 + b) * 64 + c
    ([UInt8.ofNat (n / 1024), UInt8.ofNat (n / 4 % 256)], n % 4)
  | [a, b] =>
    let n := a * 64 + b
    ([UInt8.ofNat (n / 16)], n % 16)
  | [a] => ([], a)
  | [] => ([], 0)

def decode (text : List UInt8) : Except Fault (List UInt8) := do
  if text.length % 4 = 1 then
    match text.getLast? with
    | some b =>
      if b ≠ pad ∧ (value? b).isNone then throw (.invalidByte b (text.length - 1))
    | none => pure ()
    throw .invalidLength
  let values ← scan 0 none text
  if text.length % 4 ≠ 0 then throw .invalidPadding
  let (bytes, left) := collect values
  if left ≠ 0 then
    throw (.invalidLastSymbol (text.getD (values.length - 1) 0) (values.length - 1))
  return bytes

end TablePipeline.Base64
