import Mathlib
import TablePipeline.Number.Conversion

/-!
# Where the machine's operations give NaN

The machine takes a number apart into a sign, a significand and an exponent, or sees that it is
zero, infinite or NaN. Sums, products and quotients of the parts are NaN only where a number is, or
where infinities or zeros meet. The binary number of a decimal is worked out without that.
-/

set_option autoImplicit false

namespace TablePipeline.Binary64

attribute [local instance (high)] instPowNat

open Float.Model (UnpackedFloat)
open Float.Model.UnpackedFloat (Sign unpackExponent unpackMantissa)

variable {x y : Binary64}

/-- A number as the machine takes it apart. -/
def unpacked (x : Binary64) : UnpackedFloat := .unpack .binary64 x.bits.toBitVec

def storedExponent (x : Binary64) : BitVec 11 := @unpackExponent .binary64 x.bits.toBitVec

def storedMantissa (x : Binary64) : BitVec 52 := @unpackMantissa .binary64 x.bits.toBitVec

theorem magnitude_eq (x : Binary64) :
    x.magnitude = x.storedExponent.toNat * 2 ^ (52 : Nat) + x.storedMantissa.toNat := by
  have hlt := x.bits.toBitVec.isLt
  have hexponent : x.storedExponent.toNat = x.bits.toNat / 2 ^ (52 : Nat) % 2 ^ (11 : Nat) := by
    simp [storedExponent, unpackExponent, BitVec.extractLsb, Nat.shiftRight_eq_div_pow]
  have hmantissa : x.storedMantissa.toNat = x.bits.toNat % 2 ^ (52 : Nat) := by
    simp [storedMantissa, unpackMantissa, BitVec.extractLsb]
  rw [hexponent, hmantissa]
  unfold magnitude
  omega

/-- What the machine sees of a number follows from its magnitude. -/
theorem unpacked_cases (x : Binary64) :
    x.isNaN = true ∧ x.unpacked = .notANumber ∨
      x.magnitude = infinityBits ∧ (∃ s, x.unpacked = .infinity s) ∨
      x.magnitude = 0 ∧ (∃ s, x.unpacked = .zero s) ∨
      0 < x.magnitude ∧ x.magnitude < infinityBits ∧ ∃ s m e h, x.unpacked = .finite s m e h := by
  have hmagnitude := magnitude_eq x
  have hexponent := x.storedExponent.isLt
  have hmantissa := x.storedMantissa.isLt
  unfold unpacked isNaN infinityBits
  rw [UnpackedFloat.unpack, decide_eq_true_iff]
  dsimp only
  split
  · rename_i hones
    have hones : x.storedExponent.toNat = 2047 := congrArg BitVec.toNat hones
    split
    · rename_i hzero
      have hzero : x.storedMantissa.toNat = 0 := congrArg BitVec.toNat hzero
      exact .inr (.inl ⟨by omega, _, rfl⟩)
    · rename_i hne
      have hne : x.storedMantissa.toNat ≠ 0 := fun h => hne (BitVec.eq_of_toNat_eq h)
      exact .inl ⟨by omega, rfl⟩
  · rename_i hones
    have hones : x.storedExponent.toNat ≠ 2047 := fun h => hones (BitVec.eq_of_toNat_eq h)
    split
    · rename_i hzero
      have hzero : x.storedExponent.toNat = 0 := congrArg BitVec.toNat hzero
      split
      · rename_i hnone
        have hnone : x.storedMantissa.toNat = 0 := congrArg BitVec.toNat hnone
        exact .inr (.inr (.inl ⟨by omega, _, rfl⟩))
      · rename_i hne
        have hne : x.storedMantissa.toNat ≠ 0 := fun h => hne (BitVec.eq_of_toNat_eq h)
        exact .inr (.inr (.inr ⟨by omega, by omega, _, _, _, Nat.pos_of_ne_zero hne, rfl⟩))
    · rename_i hne
      have hne : x.storedExponent.toNat ≠ 0 := fun h => hne (BitVec.eq_of_toNat_eq h)
      have hpos : 0 < (1#1 ++ x.storedMantissa).toNat := by
        rw [BitVec.toNat_append, ← Nat.shiftLeft_add_eq_or_of_lt hmantissa, Nat.shiftLeft_eq]
        exact Nat.lt_add_right _ (by decide)
      exact .inr (.inr (.inr ⟨by omega, by omega, _, _, _, hpos, rfl⟩))

theorem isNaN_iff : x.isNaN = true ↔ x.unpacked = .notANumber := by
  rw [isNaN, decide_eq_true_iff]
  rcases unpacked_cases x with ⟨hnan, h⟩ | ⟨hm, s, h⟩ | ⟨hm, s, h⟩ | ⟨-, hm, s, m, e, hpos, h⟩
  · simpa only [h, iff_true, isNaN, decide_eq_true_iff] using hnan
  all_goals
    rw [h]
    simp only [reduceCtorEq, iff_false]
    omega

theorem unpacked_ne_notANumber (h : x.isNaN = false) : x.unpacked ≠ .notANumber := by
  rwa [← Bool.not_eq_true, isNaN_iff] at h

theorem isNaN_of_isFinite (h : x.isFinite = true) : x.isNaN = false := by
  rw [isFinite, decide_eq_true_iff] at h
  rw [isNaN, decide_eq_false_iff_not]
  exact Nat.lt_asymm h

theorem unpacked_ne_infinity (h : x.isFinite = true) (s : Sign) : x.unpacked ≠ .infinity s := by
  rw [isFinite, decide_eq_true_iff] at h
  rcases unpacked_cases x with ⟨-, h'⟩ | ⟨hm, -⟩ | ⟨-, s', h'⟩ | ⟨-, -, s', m, e, hpos, h'⟩
  case inr.inl => exact absurd h (Nat.not_lt.mpr (Nat.le_of_eq hm.symm))
  all_goals
    rw [h']
    exact UnpackedFloat.noConfusion

theorem unpacked_finite (h : x.isFinite = true) (hpos : 0 < x.magnitude) :
    ∃ s m e h, x.unpacked = .finite s m e h := by
  rw [isFinite, decide_eq_true_iff] at h
  rcases unpacked_cases x with ⟨hnan, -⟩ | ⟨hm, -⟩ | ⟨hm, -⟩ | ⟨-, -, hfinite⟩
  · rw [isNaN, decide_eq_true_iff] at hnan
    exact absurd h (Nat.lt_asymm hnan)
  · exact absurd h (Nat.not_lt.mpr (Nat.le_of_eq hm.symm))
  · exact absurd hm (Nat.ne_of_gt hpos)
  · exact hfinite

/-! ### What is packed -/

theorem unpack_eq_notANumber_iff {b : BitVec 64} :
    UnpackedFloat.unpack .binary64 b = .notANumber ↔
      @unpackExponent .binary64 b = -1#11 ∧ @unpackMantissa .binary64 b ≠ 0#52 := by
  unfold UnpackedFloat.unpack
  dsimp only
  by_cases hones : @unpackExponent .binary64 b = -1#11
  · rw [if_pos hones]
    by_cases hnone : @unpackMantissa .binary64 b = 0#52
    · rw [if_pos hnone]
      exact ⟨UnpackedFloat.noConfusion, fun h => absurd hnone h.2⟩
    · rw [if_neg hnone]
      exact ⟨fun _ => ⟨hones, hnone⟩, fun _ => rfl⟩
  · rw [if_neg hones]
    refine ⟨fun h => ?_, fun h => absurd h.1 hones⟩
    repeat' split at h
    all_goals cases h

/-- What is packed and is no NaN is none when it is unpacked. -/
theorem unpack_pack {f : UnpackedFloat} (hf : f ≠ .notANumber) :
    UnpackedFloat.unpack .binary64 (f.pack .binary64) ≠ .notANumber := by
  rw [ne_eq, unpack_eq_notANumber_iff]
  rintro ⟨hones, hsome⟩
  cases f with
  | notANumber => exact hf rfl
  | infinity s => exact hsome UnpackedFloat.unpackMantissa_packComponents
  | zero s => exact hsome UnpackedFloat.unpackMantissa_packComponents
  | finite s m e hpos =>
    unfold UnpackedFloat.pack at hones hsome
    dsimp only at hones hsome
    split at hones
    · rename_i hlarge
      rw [if_pos hlarge] at hsome
      exact hsome UnpackedFloat.unpackMantissa_packComponents
    · rename_i hsmall
      have hsmall : ¬2 ^ 11 ≤ (e + 1023 + 52).toNat + 1 := hsmall
      split at hones
      · rw [UnpackedFloat.unpackExponent_packComponents] at hones
        have hones : (e + 1023 + 52).toNat % 2 ^ 11 = 2047 := congrArg BitVec.toNat hones
        omega
      · rw [UnpackedFloat.unpackExponent_packComponents] at hones
        exact absurd hones (by decide)

theorem isNaN_ofFloat_pack {f : UnpackedFloat} (hf : f ≠ .notANumber) :
    (ofFloat ⟨Float.Model.pack f⟩).isNaN = false := by
  rw [← Bool.not_eq_true, isNaN_iff]
  exact unpack_pack hf

theorem unpack_toFloat (x : Binary64) : x.toFloat.toModel.unpack = x.unpacked := by
  show UnpackedFloat.unpack .binary64 (x.unpacked.pack .binary64) = x.unpacked
  by_cases h : x.unpacked = .notANumber
  · rw [h]
    exact UnpackedFloat.unpack_packedNaN
  · have hvalid : Float.Model.Format.binary64.Valid x.bits.toBitVec :=
      ⟨fun hones hsome => absurd (unpack_eq_notANumber_iff.mpr ⟨hones, hsome⟩) h⟩
    unfold unpacked
    rw [UnpackedFloat.pack_unpack_of_valid hvalid]

/-! ### The operations -/

section Parts

variable {f g : UnpackedFloat}

theorem roundWithAccuracy_ne (s : Sign) (m : Nat) (e : Int) (a : UnpackedFloat.Accuracy) :
    UnpackedFloat.roundWithAccuracy .binary64 s m e a ≠ .notANumber := by
  unfold UnpackedFloat.roundWithAccuracy
  dsimp only
  split <;> exact UnpackedFloat.noConfusion

theorem normalize_ne (m e : Int) (s : Sign) :
    UnpackedFloat.normalize .binary64 m e s ≠ .notANumber := by
  unfold UnpackedFloat.normalize
  split
  · exact roundWithAccuracy_ne _ _ _ _
  · exact UnpackedFloat.noConfusion
  · exact roundWithAccuracy_ne _ _ _ _

theorem add_ne (hf : f ≠ .notANumber) (hg : g ≠ .notANumber) (hfinite : ∀ s, f ≠ .infinity s) :
    UnpackedFloat.add .binary64 f g ≠ .notANumber := by
  cases f with
  | notANumber => exact absurd rfl hf
  | infinity s => exact absurd rfl (hfinite s)
  | zero s =>
    cases g with
    | notANumber => exact absurd rfl hg
    | zero s' => cases s <;> cases s' <;> exact UnpackedFloat.noConfusion
    | _ => exact UnpackedFloat.noConfusion
  | finite s m e hpos =>
    cases g with
    | notANumber => exact absurd rfl hg
    | finite s' m' e' hpos' => exact normalize_ne _ _ _
    | _ => exact UnpackedFloat.noConfusion

variable {s : Sign} {m : Nat} {e : Int} {hpos : 0 < m}

theorem mul_finite_ne (hf : f ≠ .notANumber) :
    UnpackedFloat.mul .binary64 f (.finite s m e hpos) ≠ .notANumber := by
  cases f with
  | notANumber => exact absurd rfl hf
  | finite s' m' e' hpos' => exact roundWithAccuracy_ne _ _ _ _
  | _ => exact UnpackedFloat.noConfusion

theorem div_finite_ne (hf : f ≠ .notANumber) :
    UnpackedFloat.div .binary64 f (.finite s m e hpos) ≠ .notANumber := by
  cases f with
  | notANumber => exact absurd rfl hf
  | finite s' m' e' hpos' => exact roundWithAccuracy_ne _ _ _ _
  | _ => exact UnpackedFloat.noConfusion

end Parts

/-- An operation that the machine does on the parts is no NaN if it is none on the parts. -/
theorem isNaN_of_parts (op : UnpackedFloat → UnpackedFloat → UnpackedFloat)
    (h : op x.unpacked y.unpacked ≠ .notANumber) :
    (ofFloat ⟨.pack (op x.toFloat.toModel.unpack y.toFloat.toModel.unpack)⟩).isNaN = false := by
  rw [unpack_toFloat, unpack_toFloat]
  exact isNaN_ofFloat_pack h

theorem isNaN_add (hx : x.isFinite = true) (hy : y.isNaN = false) : (x.add y).isNaN = false := by
  apply isNaN_of_parts (.add .binary64)
  exact add_ne (unpacked_ne_notANumber (isNaN_of_isFinite hx)) (unpacked_ne_notANumber hy)
    (unpacked_ne_infinity hx)

theorem isNaN_mul (hx : x.isNaN = false) (hy : y.isFinite = true) (hpos : 0 < y.magnitude) :
    (x.mul y).isNaN = false := by
  apply isNaN_of_parts (.mul .binary64)
  obtain ⟨s, m, e, h, hy⟩ := unpacked_finite hy hpos
  rw [hy]
  exact mul_finite_ne (unpacked_ne_notANumber hx)

theorem isNaN_div (hx : x.isNaN = false) (hy : y.isFinite = true) (hpos : 0 < y.magnitude) :
    (x.div y).isNaN = false := by
  apply isNaN_of_parts (.div .binary64)
  obtain ⟨s, m, e, h, hy⟩ := unpacked_finite hy hpos
  rw [hy]
  exact div_finite_ne (unpacked_ne_notANumber hx)

/-! ### The binary number of a decimal -/

theorem isNaN_negate (x : Binary64) : x.negate.isNaN = x.isNaN := by
  unfold isNaN
  rw [magnitude_negate]

theorem isNaN_ofRatio (negative : Bool) (n d : Nat) : (ofRatio negative n d).isNaN = false := by
  rw [isNaN, decide_eq_false_iff_not]
  exact Nat.not_lt.mpr (magnitude_ofRatio_le negative n d)

theorem isNaN_ofInt (n : Int) : (ofInt n).isNaN = false := isNaN_ofRatio _ _ _

theorem isNaN_round (h : x.isNaN = false) : x.round.isNaN = false := by
  unfold round
  split
  · exact isNaN_ofRatio _ _ _
  · exact h

theorem isFinite_ofRatio_whole (negative : Bool) {n : Nat} (hlt : n < 2 ^ (96 : Nat)) :
    (ofRatio negative n 1).isFinite = true := by
  rw [isFinite, decide_eq_true_iff]
  by_cases hn : n = 0
  · have hzero : ofRatio negative n 1 = zero negative := if_pos hn
    rw [hzero, magnitude_zero]
    decide
  · exact (magnitude_ofRatio_whole hn hlt).2

/-- The binary number of a decimal is a number: its whole part is finite, and so is the power of ten
that the fraction is divided by. -/
theorem isNaN_ofDecimal (d : Decimal) : (ofDecimal d).isNaN = false := by
  unfold ofDecimal
  split
  · exact isNaN_ofInt _
  extract_lets unit whole fraction power magnitude
  have hunit : unit < 2 ^ (96 : Nat) :=
    Nat.lt_of_le_of_lt (Nat.pow_le_pow_right (by decide) d.scale_le) (by decide)
  have hpos : 0 < power.magnitude :=
    (magnitude_ofRatio_whole (Nat.ne_of_gt (Nat.pow_pos (by decide))) hunit).1
  have hpower : power.isFinite = true := isFinite_ofRatio_whole false hunit
  have hwhole : whole.isFinite = true :=
    isFinite_ofRatio_whole false (Nat.lt_of_le_of_lt (Nat.div_le_self _ _) d.coefficient_lt)
  have hfraction : fraction.isNaN = false := isNaN_div (isNaN_ofRatio _ _ _) hpower hpos
  have hmagnitude : magnitude.isNaN = false := by
    unfold magnitude
    split
    · exact isNaN_of_isFinite hwhole
    · have hscaled := isNaN_mul (isNaN_add hwhole hfraction) hpower hpos
      exact isNaN_div (isNaN_round hscaled) hpower hpos
  split
  · rwa [isNaN_negate]
  · exact hmagnitude

end TablePipeline.Binary64
