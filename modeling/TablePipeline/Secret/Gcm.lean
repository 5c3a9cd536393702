import TablePipeline.Secret.Aes256

/-!
# Authenticated encryption

Counter mode over a block cipher, with a tag over the sealed bytes. Opening gives the plain bytes
only if the tag is right.
-/

set_option autoImplicit false

namespace TablePipeline

attribute [local instance (high)] instPowNat

/-- Seals and opens bytes under a number used once. -/
structure Cipher where
  sealBytes : (nonce plain : List UInt8) → List UInt8
  openBytes? : (nonce sealed : List UInt8) → Option (List UInt8)

def Cipher.Inverts (c : Cipher) : Prop :=
  ∀ nonce plain, c.openBytes? nonce (c.sealBytes nonce plain) = some plain

namespace Gcm

/-- Bytes as a number, the first one highest. -/
def number (bytes : List UInt8) : Nat := bytes.foldl (fun n b => 256 * n + b.toNat) 0

/-- A number in `width` bytes, the highest first. -/
def bytesOf (width n : Nat) : List UInt8 :=
  (List.range width).map fun i => UInt8.ofNat (n / 256 ^ (width - 1 - i) % 256)

/-- The field of 2 to the 128 elements has its lowest coefficient in the highest bit. Adds up the
multiples of `v` that the `n` low bits of `x` ask for, from the highest down. -/
def productFrom (x : Nat) : Nat → (acc v : Nat) → Nat
  | 0, acc, _ => acc
  | n + 1, acc, v =>
    let acc := if x.testBit n then acc ^^^ v else acc
    let v := if v.testBit 0 then (v >>> 1) ^^^ (0xe1 <<< 120) else v >>> 1
    productFrom x n acc v

def product (x y : Nat) : Nat := productFrom x 128 0 y

/-- Blocks of sixteen bytes; the last may be shorter. -/
def blocks (bytes : List UInt8) : List (List UInt8) :=
  if _h : bytes = [] then [] else bytes.take 16 :: blocks (bytes.drop 16)
termination_by bytes.length
decreasing_by
  have := List.length_pos_iff.2 _h
  simp only [List.length_drop]
  omega

/-- The hash of blocks; a short one is filled up with zeros. -/
def fold (h : Nat) (bs : List (List UInt8)) : Nat :=
  bs.foldl (fun acc b => product (acc ^^^ number (b ++ List.replicate (16 - b.length) 0)) h) 0

/-- The block that is encrypted for the `n`-th part of a message. -/
def counter (nonce : List UInt8) (n : Nat) : List UInt8 := nonce ++ bytesOf 4 n

/-- Adds the stream of encrypted counters to blocks, from counter `n` on. -/
def stream (encrypt : List UInt8 → List UInt8) (nonce : List UInt8) :
    Nat → List (List UInt8) → List UInt8
  | _, [] => []
  | n, b :: bs =>
    List.zipWith (· ^^^ ·) b (encrypt (counter nonce n)) ++ stream encrypt nonce (n + 1) bs

def tag (encrypt : List UInt8 → List UInt8) (nonce sealed : List UInt8) : List UInt8 :=
  let h := number (encrypt (List.replicate 16 0))
  let s := fold h (blocks sealed ++ [bytesOf 16 (8 * sealed.length)])
  bytesOf 16 (s ^^^ number (encrypt (counter nonce 1)))

def tagLength : Nat := 16

/-- Sealing with a block cipher; the tag follows the sealed bytes. -/
def cipher (encrypt : List UInt8 → List UInt8) : Cipher where
  sealBytes nonce plain :=
    let sealed := stream encrypt nonce 2 (blocks plain)
    sealed ++ tag encrypt nonce sealed
  openBytes? nonce bytes :=
    let sealed := bytes.take (bytes.length - tagLength)
    let found := bytes.drop (bytes.length - tagLength)
    if bytes.length < tagLength ∨ found ≠ tag encrypt nonce sealed then none
    else some (stream encrypt nonce 2 (blocks sealed))

end Gcm

def Cipher.ofKey (key : List UInt8) : Cipher :=
  let keys := Aes256.roundKeys (Aes256.schedule key)
  Gcm.cipher (Aes256.encrypt keys)

end TablePipeline
