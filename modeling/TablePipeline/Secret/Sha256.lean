/-!
# SHA-256, and keys from phrases

The hash keeps eight words and takes in blocks of sixteen. A keyed hash is the hash of a padded key
and of the hash under another padding; a phrase is stretched by adding up many keyed hashes.
-/

set_option autoImplicit false

namespace TablePipeline.Sha256

attribute [local instance (high)] instPowNat

structure State where
  a : UInt32
  b : UInt32
  c : UInt32
  d : UInt32
  e : UInt32
  f : UInt32
  g : UInt32
  h : UInt32
  deriving DecidableEq, Repr, Inhabited

def initial : State :=
  ⟨0x6a09e667, 0xbb67ae85, 0x3c6ef372, 0xa54ff53a, 0x510e527f, 0x9b05688c, 0x1f83d9ab, 0x5be0cd19⟩

def roundConstants : Array UInt32 := #[
  0x428a2f98, 0x71374491, 0xb5c0fbcf, 0xe9b5dba5, 0x3956c25b, 0x59f111f1, 0x923f82a4, 0xab1c5ed5,
  0xd807aa98, 0x12835b01, 0x243185be, 0x550c7dc3, 0x72be5d74, 0x80deb1fe, 0x9bdc06a7, 0xc19bf174,
  0xe49b69c1, 0xefbe4786, 0x0fc19dc6, 0x240ca1cc, 0x2de92c6f, 0x4a7484aa, 0x5cb0a9dc, 0x76f988da,
  0x983e5152, 0xa831c66d, 0xb00327c8, 0xbf597fc7, 0xc6e00bf3, 0xd5a79147, 0x06ca6351, 0x14292967,
  0x27b70a85, 0x2e1b2138, 0x4d2c6dfc, 0x53380d13, 0x650a7354, 0x766a0abb, 0x81c2c92e, 0x92722c85,
  0xa2bfe8a1, 0xa81a664b, 0xc24b8b70, 0xc76c51a3, 0xd192e819, 0xd6990624, 0xf40e3585, 0x106aa070,
  0x19a4c116, 0x1e376c08, 0x2748774c, 0x34b0bcb5, 0x391c0cb3, 0x4ed8aa4a, 0x5b9cca4f, 0x682e6ff3,
  0x748f82ee, 0x78a5636f, 0x84c87814, 0x8cc70208, 0x90befffa, 0xa4506ceb, 0xbef9a3f7, 0xc67178f2]

@[inline] def rotateRight (x : UInt32) (n : UInt32) : UInt32 := (x >>> n) ||| (x <<< (32 - n))

/-- Appends words to a schedule until it has `n` more. -/
def extend : Nat → Array UInt32 → Array UInt32
  | 0, w => w
  | n + 1, w =>
    let i := w.size
    let x := w.getD (i - 15) 0
    let y := w.getD (i - 2) 0
    let s0 := rotateRight x 7 ^^^ rotateRight x 18 ^^^ (x >>> 3)
    let s1 := rotateRight y 17 ^^^ rotateRight y 19 ^^^ (y >>> 10)
    extend n (w.push (w.getD (i - 16) 0 + s0 + w.getD (i - 7) 0 + s1))

/-- The last `n` rounds over a schedule. -/
def rounds (w : Array UInt32) : Nat → (a b c d e f g h : UInt32) → State
  | 0, a, b, c, d, e, f, g, h => ⟨a, b, c, d, e, f, g, h⟩
  | n + 1, a, b, c, d, e, f, g, h =>
    let s1 := rotateRight e 6 ^^^ rotateRight e 11 ^^^ rotateRight e 25
    let choice := (e &&& f) ^^^ ((~~~ e) &&& g)
    let t1 := h + s1 + choice + roundConstants.getD (63 - n) 0 + w.getD (63 - n) 0
    let s0 := rotateRight a 2 ^^^ rotateRight a 13 ^^^ rotateRight a 22
    let majority := (a &&& b) ^^^ (a &&& c) ^^^ (b &&& c)
    rounds w n (t1 + (s0 + majority)) a b c (d + t1) e f g

def compress (s : State) (block : Array UInt32) : State :=
  let r := rounds (extend 48 block) 64 s.a s.b s.c s.d s.e s.f s.g s.h
  ⟨s.a + r.a, s.b + r.b, s.c + r.c, s.d + r.d, s.e + r.e, s.f + r.f, s.g + r.g, s.h + r.h⟩

/-- The word of four bytes, the first one highest. -/
def word (a b c d : UInt8) : UInt32 :=
  (a.toUInt32 <<< 24) ||| (b.toUInt32 <<< 16) ||| (c.toUInt32 <<< 8) ||| d.toUInt32

def words : List UInt8 → List UInt32
  | a :: b :: c :: d :: rest => word a b c d :: words rest
  | _ => []

def wordBytes (w : UInt32) : List UInt8 :=
  [(w >>> 24).toUInt8, (w >>> 16).toUInt8, (w >>> 8).toUInt8, w.toUInt8]

def State.words (s : State) : List UInt32 := [s.a, s.b, s.c, s.d, s.e, s.f, s.g, s.h]

def State.bytes (s : State) : List UInt8 := s.words.flatMap wordBytes

/-- A number in eight bytes, the highest first. -/
def lengthBytes (n : Nat) : List UInt8 :=
  (List.range 8).map fun i => UInt8.ofNat (n / 256 ^ (7 - i) % 256)

/-- Bytes filled up to full blocks, behind `before` bytes in blocks of their own. -/
def padded (before : Nat) (bytes : List UInt8) : List UInt8 :=
  bytes ++ 0x80 :: List.replicate ((119 - bytes.length % 64) % 64) 0 ++
    lengthBytes (8 * (before + bytes.length))

def absorb (s : State) (ws : List UInt32) : State :=
  if _h : ws.length < 16 then s
  else absorb (compress s (ws.take 16).toArray) (ws.drop 16)
termination_by ws.length
decreasing_by simp only [List.length_drop]; omega

/-- Finishes a hash of which `before` bytes were taken in. -/
def finish (s : State) (before : Nat) (bytes : List UInt8) : State :=
  absorb s (words (padded before bytes))

def hash (bytes : List UInt8) : State := finish initial 0 bytes

/-- A key prepared for keyed hashes: the state behind the inner padding and behind the outer one. -/
structure Keyed where
  inner : State
  outer : State

/-- A long key is hashed first; a short one is filled up with zeros. -/
def keyed (key : List UInt8) : Keyed :=
  let key := if 64 < key.length then (hash key).bytes else key
  let block := key ++ List.replicate (64 - key.length) 0
  ⟨absorb initial (words (block.map (· ^^^ 0x36))), absorb initial (words (block.map (· ^^^ 0x5c)))⟩

def Keyed.hash (k : Keyed) (bytes : List UInt8) : State :=
  finish k.outer 64 (finish k.inner 64 bytes).bytes

/-- A hash as a message that follows one block: filled up to a block with its length in bits. -/
@[inline] def State.asBlock (s : State) : Array UInt32 :=
  #[s.a, s.b, s.c, s.d, s.e, s.f, s.g, s.h, 0x80000000, 0, 0, 0, 0, 0, 0, 768]

def Keyed.rehash (k : Keyed) (s : State) : State :=
  compress k.outer (compress k.inner s.asBlock).asBlock

@[inline] def State.xor (s t : State) : State :=
  ⟨s.a ^^^ t.a, s.b ^^^ t.b, s.c ^^^ t.c, s.d ^^^ t.d, s.e ^^^ t.e, s.f ^^^ t.f, s.g ^^^ t.g,
    s.h ^^^ t.h⟩

/-- Adds `n` more keyed hashes to a sum of which the last was `u`. -/
def Keyed.sum (k : Keyed) : Nat → State → State → State
  | 0, _, acc => acc
  | n + 1, u, acc =>
    let u := k.rehash u
    k.sum n u (acc.xor u)

/-- The 32 bytes that a phrase and a salt give after some rounds. -/
def stretch (phrase salt : List UInt8) (rounds : Nat) : List UInt8 :=
  let k := keyed phrase
  let first := k.hash (salt ++ [0, 0, 0, 1])
  (k.sum (rounds - 1) first first).bytes

end TablePipeline.Sha256
