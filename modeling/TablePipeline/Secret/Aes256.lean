/-!
# AES with keys of 256 bits

A block is sixteen bytes, column by column. Fourteen rounds each put the bytes through a table, turn
the rows, mix the columns and add a part of the expanded key.
-/

set_option autoImplicit false

namespace TablePipeline.Aes256

/-- Twice a byte in the field of 256 elements. -/
def double (b : UInt8) : UInt8 := (b <<< 1) ^^^ (if b &&& 0x80 = 0 then 0 else 0x1b)

/-- The product of two bytes in the field; `n` is the number of bits of `b` that count. -/
def product (n : Nat) (a b : UInt8) : UInt8 :=
  match n with
  | 0 => 0
  | n + 1 => (if b &&& 1 = 0 then 0 else a) ^^^ product n (double a) (b >>> 1)

/-- The inverse of a byte is its 254th power; zero goes to zero. -/
def inverse (a : UInt8) : UInt8 :=
  let times := product 8
  let a2 := times a a
  let a3 := times a2 a
  let a6 := times a3 a3
  let a7 := times a6 a
  let a14 := times a7 a7
  let a15 := times a14 a
  let a30 := times a15 a15
  let a31 := times a30 a
  let a62 := times a31 a31
  let a63 := times a62 a
  let a126 := times a63 a63
  let a127 := times a126 a
  times a127 a127

def rotateLeft (b : UInt8) (n : UInt8) : UInt8 := (b <<< n) ||| (b >>> (8 - n))

/-- The table entry of a byte: its inverse, spread over the bits. -/
def substituted (b : UInt8) : UInt8 :=
  let i := inverse b
  i ^^^ rotateLeft i 1 ^^^ rotateLeft i 2 ^^^ rotateLeft i 3 ^^^ rotateLeft i 4 ^^^ 0x63

def table : Array UInt8 := (Array.range 256).map fun n => substituted (UInt8.ofNat n)

def substitute (b : UInt8) : UInt8 := table.getD b.toNat 0

/-- Four bytes, a column of a block. -/
abbrev Word := UInt8 × UInt8 × UInt8 × UInt8

def Word.add (x y : Word) : Word :=
  (x.1 ^^^ y.1, x.2.1 ^^^ y.2.1, x.2.2.1 ^^^ y.2.2.1, x.2.2.2 ^^^ y.2.2.2)

def Word.substitute (x : Word) : Word :=
  (Aes256.substitute x.1, Aes256.substitute x.2.1, Aes256.substitute x.2.2.1,
    Aes256.substitute x.2.2.2)

def Word.turn (x : Word) : Word := (x.2.1, x.2.2.1, x.2.2.2, x.1)

/-- Appends words to an expanded key until it has `n` more; `factor` belongs to the next group of
eight. -/
def expand : Nat → UInt8 → Array Word → Array Word
  | 0, _, w => w
  | n + 1, factor, w =>
    let i := w.size
    let last := w.getD (i - 1) (0, 0, 0, 0)
    let old := w.getD (i - 8) (0, 0, 0, 0)
    if i % 8 = 0 then
      expand n (double factor) (w.push (old.add ((last.turn.substitute).add (factor, 0, 0, 0))))
    else if i % 8 = 4 then expand n factor (w.push (old.add last.substitute))
    else expand n factor (w.push (old.add last))

def wordsOf : List UInt8 → List Word
  | a :: b :: c :: d :: rest => (a, b, c, d) :: wordsOf rest
  | _ => []

def bytesOf (ws : List Word) : List UInt8 := ws.flatMap fun (a, b, c, d) => [a, b, c, d]

/-- The sixty words of a key of 32 bytes. -/
def schedule (key : List UInt8) : List Word := (expand 52 1 (wordsOf key).toArray).toList

structure Block where
  c0 : Word
  c1 : Word
  c2 : Word
  c3 : Word

namespace Block

def add (x y : Block) : Block := ⟨x.c0.add y.c0, x.c1.add y.c1, x.c2.add y.c2, x.c3.add y.c3⟩

def substitute (x : Block) : Block :=
  ⟨x.c0.substitute, x.c1.substitute, x.c2.substitute, x.c3.substitute⟩

/-- Turns the second row by one column, the third by two, the fourth by three. -/
def shiftRows (x : Block) : Block :=
  ⟨(x.c0.1, x.c1.2.1, x.c2.2.2.1, x.c3.2.2.2), (x.c1.1, x.c2.2.1, x.c3.2.2.1, x.c0.2.2.2),
    (x.c2.1, x.c3.2.1, x.c0.2.2.1, x.c1.2.2.2), (x.c3.1, x.c0.2.1, x.c1.2.2.1, x.c2.2.2.2)⟩

def mixColumn (w : Word) : Word :=
  let (a, b, c, d) := w
  (double a ^^^ double b ^^^ b ^^^ c ^^^ d, a ^^^ double b ^^^ double c ^^^ c ^^^ d,
    a ^^^ b ^^^ double c ^^^ double d ^^^ d, double a ^^^ a ^^^ b ^^^ c ^^^ double d)

def mixColumns (x : Block) : Block :=
  ⟨mixColumn x.c0, mixColumn x.c1, mixColumn x.c2, mixColumn x.c3⟩

def bytes (x : Block) : List UInt8 := bytesOf [x.c0, x.c1, x.c2, x.c3]

end Block

/-- Sixteen bytes as a block; missing ones are zero. -/
def blockOf (bytes : List UInt8) : Block :=
  match wordsOf (bytes ++ List.replicate 16 0) with
  | a :: b :: c :: d :: _ => ⟨a, b, c, d⟩
  | _ => ⟨(0, 0, 0, 0), (0, 0, 0, 0), (0, 0, 0, 0), (0, 0, 0, 0)⟩

/-- The parts of an expanded key, four words each. -/
def roundKeys : List Word → List Block
  | a :: b :: c :: d :: rest => ⟨a, b, c, d⟩ :: roundKeys rest
  | _ => []

/-- The rounds with some keys; the last one mixes no columns. -/
def encryptRounds : List Block → Block → Block
  | [], x => x
  | [k], x => x.substitute.shiftRows.add k
  | k :: ks, x => encryptRounds ks (x.substitute.shiftRows.mixColumns.add k)

def encrypt (keys : List Block) (bytes : List UInt8) : List UInt8 :=
  match keys with
  | [] => bytes
  | k :: ks => (encryptRounds ks ((blockOf bytes).add k)).bytes

end TablePipeline.Aes256
