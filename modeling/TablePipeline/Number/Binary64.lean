import TablePipeline.Number.Rounding

/-!
# Binary floating-point numbers of 64 bits

A number is held as its bits. Order, decoding and rounding are defined on the bits; the four
operations are the machine's. `ofRatio` is the nearest number to a fraction, a tie going to the even
significand.
-/

set_option autoImplicit false

namespace TablePipeline

attribute [local instance (high)] instPowNat

structure Binary64 where
  bits : UInt64
  deriving DecidableEq, Repr

namespace Binary64

def negative (x : Binary64) : Bool := 2 ^ (63 : Nat) ≤ x.bits.toNat

/-- The bits without the sign; they grow with the magnitude. -/
def magnitude (x : Binary64) : Nat := x.bits.toNat % 2 ^ (63 : Nat)

/-- The magnitude bits of infinity; those of NaN are greater. -/
def infinityBits : Nat := 2047 * 2 ^ (52 : Nat)

def isNaN (x : Binary64) : Bool := infinityBits < x.magnitude

def isInfinite (x : Binary64) : Bool := x.magnitude == infinityBits

def isFinite (x : Binary64) : Bool := x.magnitude < infinityBits

def isZero (x : Binary64) : Bool := x.magnitude == 0

/-- Orders numbers that are no NaN; both zeros have the key 0. -/
def key (x : Binary64) : Int := if x.negative then -x.magnitude else x.magnitude

/-- The order of two numbers; NaN is not ordered. -/
def compare? (x y : Binary64) : Option Ordering :=
  if x.isNaN || y.isNaN then none else some (compare x.key y.key)

/-- The significand `m` of a finite number `m · 2 ^ exponent`. -/
def significand (x : Binary64) : Nat :=
  let e := x.magnitude / 2 ^ (52 : Nat)
  let f := x.magnitude % 2 ^ (52 : Nat)
  if e = 0 then f else f + 2 ^ (52 : Nat)

def exponent (x : Binary64) : Int :=
  let e : Nat := x.magnitude / 2 ^ (52 : Nat)
  if e = 0 then -1074 else (e : Int) - 1075

private def ofMagnitude (negative : Bool) (magnitude : Nat) : Binary64 :=
  ⟨UInt64.ofNat (if negative then 2 ^ (63 : Nat) + magnitude else magnitude)⟩

def infinity (negative : Bool) : Binary64 := ofMagnitude negative infinityBits

def zero (negative : Bool) : Binary64 := ofMagnitude negative 0

def nan : Binary64 := ⟨0x7FF8000000000000⟩

/-- The numerator and denominator of `n / d · 2 ^ -q`. -/
private def scaled (n d : Nat) (q : Int) : Nat × Nat :=
  if 0 ≤ q then (n, d * 2 ^ q.toNat) else (n * 2 ^ (-q).toNat, d)

/-- The number nearest to `n / d`. -/
def ofRatio (negative : Bool) (n d : Nat) : Binary64 :=
  if n = 0 then zero negative
  else
    let guess : Int := (n.log2 : Int) - d.log2 - 52
    let first := scaled n d guess
    let q := max (if first.1 < first.2 * 2 ^ (52 : Nat) then guess - 1 else guess) (-1074)
    let parts := scaled n d q
    let bits := (q + 1074).toNat * 2 ^ (52 : Nat) + roundDiv .toEven parts.1 parts.2
    if bits < infinityBits then ofMagnitude negative bits else infinity negative

def ofInt (n : Int) : Binary64 := ofRatio (n < 0) n.natAbs 1

def toFloat (x : Binary64) : Float := Float.ofBits x.bits

def ofFloat (x : Float) : Binary64 := ⟨x.toBits⟩

def add (x y : Binary64) : Binary64 := ofFloat (x.toFloat + y.toFloat)

def sub (x y : Binary64) : Binary64 := ofFloat (x.toFloat - y.toFloat)

def mul (x y : Binary64) : Binary64 := ofFloat (x.toFloat * y.toFloat)

def div (x y : Binary64) : Binary64 := ofFloat (x.toFloat / y.toFloat)

/-- The nearest whole number, a half going away from zero. Without a negative exponent a number is
whole. -/
def round (x : Binary64) : Binary64 :=
  if x.isFinite ∧ x.exponent < 0 then
    ofRatio x.negative (roundDiv .away x.significand (2 ^ (-x.exponent).toNat)) 1
  else x

def negate (x : Binary64) : Binary64 := ofMagnitude (!x.negative) x.magnitude

def toSingle (x : Binary64) : Binary64 := ofFloat x.toFloat.toFloat32.toFloat

/-! ### Magnitudes -/

variable {negative : Bool} {m n d : Nat}

private theorem magnitude_ofMagnitude (h : m < 2 ^ (63 : Nat)) :
    (ofMagnitude negative m).magnitude = m := by
  unfold ofMagnitude magnitude
  rw [UInt64.toNat_ofNat']
  cases negative <;> simp only [Bool.false_eq_true, if_false, if_true] <;> omega

theorem magnitude_lt (x : Binary64) : x.magnitude < 2 ^ (63 : Nat) := Nat.mod_lt _ (by decide)

theorem magnitude_negate (x : Binary64) : x.negate.magnitude = x.magnitude :=
  magnitude_ofMagnitude x.magnitude_lt

theorem magnitude_infinity : (infinity negative).magnitude = infinityBits :=
  magnitude_ofMagnitude (by decide)

theorem magnitude_zero : (zero negative).magnitude = 0 := magnitude_ofMagnitude (by decide)

private theorem magnitude_capped (negative : Bool) (bits : Nat) :
    (if bits < infinityBits then ofMagnitude negative bits else infinity negative).magnitude =
      min bits infinityBits := by
  split
  · rename_i h
    rw [magnitude_ofMagnitude (Nat.lt_trans h (by decide)), Nat.min_eq_left (Nat.le_of_lt h)]
  · rename_i h
    rw [magnitude_infinity, Nat.min_eq_right (Nat.le_of_not_lt h)]

/-- The bits of a nearest number: those of infinity where they would be more. -/
private theorem magnitude_ofRatio (hn : n ≠ 0) {guess q : Int}
    (hguess : (n.log2 : Int) - d.log2 - 52 = guess)
    (hq : max (if (scaled n d guess).1 < (scaled n d guess).2 * 2 ^ (52 : Nat) then guess - 1
      else guess) (-1074) = q) :
    (ofRatio negative n d).magnitude =
      min ((q + 1074).toNat * 2 ^ (52 : Nat) +
        roundDiv .toEven (scaled n d q).1 (scaled n d q).2) infinityBits := by
  unfold ofRatio
  rw [if_neg hn, hguess]
  extract_lets _ first q' parts bits
  have hq' : q' = q := hq
  rw [magnitude_capped]
  simp only [bits, parts, hq']

theorem magnitude_ofRatio_le (negative : Bool) (n d : Nat) :
    (ofRatio negative n d).magnitude ≤ infinityBits := by
  by_cases hn : n = 0
  · have hzero : ofRatio negative n d = zero negative := if_pos hn
    rw [hzero, magnitude_zero]
    exact Nat.zero_le _
  · rw [magnitude_ofRatio hn rfl rfl]
    exact Nat.min_le_right _ _

private theorem scaled_whole (hn : n ≠ 0) :
    (scaled n 1 (n.log2 - 52)).2 * 2 ^ (52 : Nat) ≤ (scaled n 1 (n.log2 - 52)).1 ∧
      (scaled n 1 (n.log2 - 52)).1 ≤ 2 ^ (53 : Nat) * (scaled n 1 (n.log2 - 52)).2 := by
  have hlow : 2 ^ n.log2 ≤ n := Nat.log2_self_le hn
  have hhigh : n < 2 ^ (n.log2 + 1) := Nat.lt_log2_self
  unfold scaled
  split
  · rename_i hq
    obtain ⟨k, hk⟩ : ∃ k, n.log2 = k + 52 := ⟨n.log2 - 52, by omega⟩
    have hexp : ((n.log2 : Int) - 52).toNat = k := by omega
    rw [hk] at hlow hhigh
    rw [hexp]
    dsimp only
    rw [Nat.one_mul, ← Nat.pow_add, ← Nat.pow_add]
    exact ⟨hlow, by rw [show 53 + k = k + 52 + 1 by omega]; exact Nat.le_of_lt hhigh⟩
  · rename_i hq
    obtain ⟨k, hk⟩ : ∃ k, n.log2 + k = 52 := ⟨52 - n.log2, by omega⟩
    have hexp : (-((n.log2 : Int) - 52)).toNat = k := by omega
    rw [hexp]
    dsimp only
    have hlow' := Nat.mul_le_mul_right (2 ^ k) hlow
    have hhigh' := Nat.mul_le_mul_right (2 ^ k) (Nat.le_of_lt hhigh)
    rw [← Nat.pow_add, hk] at hlow'
    rw [← Nat.pow_add, show n.log2 + 1 + k = 53 by omega] at hhigh'
    rw [Nat.one_mul, Nat.mul_one]
    exact ⟨hlow', hhigh'⟩

private theorem scaled_snd_pos (n : Nat) (q : Int) : 0 < (scaled n 1 q).2 := by
  unfold scaled
  split
  · exact Nat.mul_pos Nat.one_pos (Nat.pow_pos (by decide))
  · exact Nat.one_pos

/-- The number nearest to a whole number of 96 bits is finite and not zero. -/
theorem magnitude_ofRatio_whole (hn : n ≠ 0) (hlt : n < 2 ^ (96 : Nat)) :
    0 < (ofRatio negative n 1).magnitude ∧ (ofRatio negative n 1).magnitude < infinityBits := by
  have hlog : n.log2 < 96 := (Nat.log2_lt hn).mpr hlt
  obtain ⟨hlow, hhigh⟩ := scaled_whole hn
  have hpos := scaled_snd_pos n (n.log2 - 52)
  have hq : max (if (scaled n 1 (n.log2 - 52)).1 < (scaled n 1 (n.log2 - 52)).2 * 2 ^ (52 : Nat)
      then (n.log2 : Int) - 52 - 1 else n.log2 - 52) (-1074) = n.log2 - 52 := by
    rw [if_neg (Nat.not_lt.mpr hlow)]
    omega
  rw [magnitude_ofRatio hn (by rw [show Nat.log2 1 = 0 by decide]; omega) hq]
  have hround : roundDiv .toEven (scaled n 1 (n.log2 - 52)).1 (scaled n 1 (n.log2 - 52)).2 ≤
      2 ^ (53 : Nat) := roundDiv_le hpos hhigh
  have hround' : 2 ^ (52 : Nat) ≤
      roundDiv .toEven (scaled n 1 (n.log2 - 52)).1 (scaled n 1 (n.log2 - 52)).2 :=
    le_roundDiv hpos (by rwa [Nat.mul_comm])
  unfold infinityBits
  constructor <;> omega

end Binary64

end TablePipeline
