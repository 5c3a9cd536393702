import Mathlib.Tactic.Linarith
import TablePipeline.Proofs.Number.Reading
import TablePipeline.Proofs.Number.Value
import TablePipeline.Rule.Cast

/-!
# Rounding to whole numbers

A cast to a whole number takes the nearest one, the one further from zero if there are two. It
never wraps around: there is a fault where that number has no place in 64 bits.
-/

set_option autoImplicit false

namespace TablePipeline

attribute [local instance (high)] instPowNat

/-- No whole number is nearer to `x` than `k`, and none that is as near lies further from zero. -/
def NearestAway (x : ℚ) (k : ℤ) : Prop :=
  ∀ m : ℤ, m ≠ k → |x - k| < |x - m| ∨ |x - k| = |x - m| ∧ |m| < |k|

namespace NearestAway

variable {x : ℚ} {k m : ℤ}

theorem unique (hk : NearestAway x k) (hm : NearestAway x m) : k = m := by
  by_contra hne
  rcases hk m (Ne.symm hne) with hlt | ⟨heq, habs⟩
  · rcases hm k hne with hlt' | ⟨heq', _⟩
    · exact lt_asymm hlt hlt'
    · exact hlt.ne heq'.symm
  · rcases hm k hne with hlt' | ⟨_, habs'⟩
    · exact hlt'.ne heq.symm
    · exact lt_asymm habs habs'

theorem neg (h : NearestAway x k) : NearestAway (-x) (-k) := by
  intro m hm
  have hflip (n : ℤ) : |-x - n| = |x - (-n : ℤ)| := by
    rw [← abs_neg]
    push_cast
    ring_nf
  have hne : -m ≠ k := fun h => hm (by omega)
  rw [hflip, hflip, neg_neg, abs_neg, ← abs_neg m]
  exact h (-m) hne

/-- Half a unit below a number belongs to it, half a unit above does not. -/
theorem of_bounds {n : ℕ} (hx : 0 ≤ x) (hlow : (n : ℚ) - 1 / 2 ≤ x) (hhigh : x < n + 1 / 2) :
    NearestAway x n := by
  intro m hm
  have hnear : |x - n| ≤ 1 / 2 := abs_le.mpr ⟨by linarith, by linarith⟩
  push_cast
  rcases lt_or_gt_of_ne hm with hlt | hgt
  · have hm1 : (m : ℚ) + 1 ≤ n := by exact_mod_cast hlt
    have hfar : |x - m| = x - m := abs_of_nonneg (by linarith)
    rcases lt_or_eq_of_le hnear with hinside | hhalf
    · exact .inl (by linarith)
    · have hbelow : x - n = -(1 / 2) := by
        rcases abs_choice (x - n) with habs | habs <;> linarith
      by_cases hm2 : m + 1 = n
      · have hm2' : (m : ℚ) + 1 = n := by exact_mod_cast hm2
        refine .inr ⟨by linarith, ?_⟩
        have hn : (0 : ℚ) < n := by linarith
        have hn' : 0 < n := by exact_mod_cast hn
        rw [abs_of_nonneg (by omega), abs_of_nonneg (by omega)]
        omega
      · have hm3 : (m : ℚ) + 2 ≤ n := by
          have : m + 2 ≤ n := by omega
          exact_mod_cast this
        exact .inl (by linarith)
  · have hm1 : (n : ℚ) + 1 ≤ m := by exact_mod_cast hgt
    have hfar : |x - m| = m - x := by
      rw [abs_sub_comm]
      exact abs_of_nonneg (by linarith)
    exact .inl (by linarith)

end NearestAway

namespace Decimal

theorem nearestAway_roundToInt (d : Decimal) : NearestAway d.value (d.roundToInt .away) := by
  have hpow := cast_pow_pos d.scale
  have hlow := two_mul_roundDiv_le .away d.coefficient (10 ^ d.scale)
  have hhigh := roundDiv_away_lt d.coefficient (Nat.pow_pos (n := d.scale) (by decide : 0 < 10))
  have hrounded : NearestAway ((d.coefficient : ℚ) / (10 ^ d.scale : Nat)) (d.rounded .away) := by
    apply NearestAway.of_bounds
    · exact div_nonneg (Nat.cast_nonneg _) hpow.le
    · rw [le_div_iff₀ hpow]
      have hlow' : (2 : ℚ) * (d.rounded .away * (10 ^ d.scale : Nat)) ≤
          2 * d.coefficient + (10 ^ d.scale : Nat) := by exact_mod_cast hlow
      linarith
    · rw [div_lt_iff₀ hpow]
      have hhigh' : (2 : ℚ) * d.coefficient <
          2 * (d.rounded .away * (10 ^ d.scale : Nat)) + (10 ^ d.scale : Nat) := by
        exact_mod_cast hhigh
      linarith
  rw [value_of_negative, roundToInt]
  split
  · exact hrounded.neg
  · exact hrounded

end Decimal

theorem Integer.fit?_toInt (n : Int64) : Integer.fit? n.toInt = some n := by
  have hlow := n.le_toInt
  have hhigh := n.toInt_lt
  rw [fit?, if_pos ⟨by omega, by omega⟩, Int64.ofInt_toInt]

theorem roundToInteger_ofInt64 (n : Int64) : roundToInteger (.ofInt64 n) = .ok n := by
  have hrounded : (Decimal.ofInt64 n).rounded .away = n.toInt.natAbs := roundDiv_one _ _
  have hint : (Decimal.ofInt64 n).roundToInt .away = n.toInt := by
    rw [Decimal.roundToInt, hrounded]
    simp only [Decimal.ofInt64, decide_eq_true_eq]
    split <;> omega
  rw [roundToInteger, hint, Integer.fit?_toInt]

namespace Scalar

theorem cast_decimal_integer (d : Decimal) :
    (decimal d).cast .integer = (roundToInteger d).map integer :=
  rfl

/-- A text that is a whole number of 64 bits is read as such, any other number is rounded. -/
theorem cast_text_integer (s : String) : (text s).cast .integer =
    match readInteger? s with
    | some n => .ok (integer n)
    | none => match readDecimal? s with
      | some d => (roundToInteger d).map integer
      | none => .error (.cannotCast (text s) .integer) := by
  show (castToInteger (text s)).map integer = _
  unfold castToInteger orFault
  dsimp only
  cases readInteger? s with
  | some n => rfl
  | none => cases readDecimal? s <;> rfl

theorem cast_text_decimal (s : String) : (text s).cast .decimal =
    match readDecimal? s with
    | some d => .ok (decimal d)
    | none => .error (.cannotCast (text s) .decimal) := by
  show (castToDecimal (text s)).map decimal = _
  unfold castToDecimal orFault
  dsimp only
  cases readDecimal? s <;> rfl

theorem readDecimal?_of_cast {s : String} {d : Decimal}
    (h : (text s).cast .decimal = .ok (decimal d)) : readDecimal? s = some d := by
  rw [cast_text_decimal] at h
  split at h
  · rename_i e he
    obtain rfl := Scalar.decimal.inj (Except.ok.inj h)
    exact he
  · cases h

/-- What is read as a whole number is read as the same decimal. -/
theorem readDecimal?_of_readInteger? {s : String} {n : Int64} (h : readInteger? s = some n) :
    readDecimal? s = some (.ofInt64 n) := by
  unfold readInteger? at h
  split at h
  · rename_i k hk
    obtain rfl := Option.some.inj h
    rw [readDecimal?, Decimal.read?, Decimal.readPlain?_of_readSigned hk]
    rfl
  · cases h

/-- A cast to a whole number gives the nearest one, away from zero in the middle of two, if it is
one of 64 bits, and a fault else. A text is rounded as the decimal is that it is read as. -/
theorem cast_integer_rounds :
    (∀ d : Decimal, ∃ k : ℤ, (∀ m, NearestAway d.value m ↔ m = k) ∧
      ((∃ n : Int64, n.toInt = k ∧ (decimal d).cast .integer = .ok (integer n)) ∨
        (k < -2 ^ (63 : ℕ) ∨ 2 ^ (63 : ℕ) ≤ k) ∧
          (decimal d).cast .integer = .error (.outsideIntegerRange d))) ∧
      ∀ (s : String) (d : Decimal), (text s).cast .decimal = .ok (decimal d) →
        (text s).cast .integer = (decimal d).cast .integer := by
  constructor
  · intro d
    have hnearest := d.nearestAway_roundToInt
    refine ⟨d.roundToInt .away, fun m => ⟨fun hm => hm.unique hnearest, ?_⟩, ?_⟩
    · rintro rfl
      exact hnearest
    · rw [cast_decimal_integer, roundToInteger]
      cases hfit : Integer.fit? (d.roundToInt .away) with
      | some n => exact .inl ⟨n, Integer.toInt_of_fit? hfit, rfl⟩
      | none => exact .inr ⟨(Integer.fit?_eq_none_iff _).mp hfit, rfl⟩
  · intro s d h
    have hd := readDecimal?_of_cast h
    rw [cast_text_integer, cast_decimal_integer]
    cases hn : readInteger? s with
    | none =>
      rw [hd]
    | some n =>
      rw [readDecimal?_of_readInteger? hn] at hd
      obtain rfl := Option.some.inj hd
      rw [roundToInteger_ofInt64]
      rfl

theorem cast_integer_rounds_half :
    (text "-2.5").cast .decimal = .ok (decimal ⟨true, 25, 1, by decide, by decide⟩) ∧
      (text "-2.5").cast .integer = .ok (integer (-3)) := by
  have hread : (text "-2.5").cast .decimal =
      .ok (decimal ⟨true, 25, 1, by decide, by decide⟩) := by
    decide +kernel
  refine ⟨hread, ?_⟩
  rw [cast_integer_rounds.2 _ _ hread]
  decide +kernel

end Scalar

end TablePipeline
