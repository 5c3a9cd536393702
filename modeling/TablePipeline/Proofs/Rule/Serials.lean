import Mathlib.Tactic.Linarith
import TablePipeline.Proofs.Calendar.DayNumber
import TablePipeline.Proofs.Number.Value
import TablePipeline.Proofs.Outcome
import TablePipeline.Rule.Cast

/-!
# Serials of spreadsheets

A number is cast to the day of its whole part. The part behind the point becomes milliseconds, and
where these round to a whole day the date is the one after, which may be a day too late.
-/

set_option autoImplicit false

namespace TablePipeline

attribute [local instance (high)] instPowNat

def millisPerDay : Nat := 86400000

/-! ### Milliseconds -/

theorem product_le {f : Decimal} (hf : f.coefficient < 10 ^ f.scale) (k : Nat) :
    f.coefficient * millisPerDay * 10 ^ k ≤ millisPerDay * 10 ^ k * 10 ^ f.scale := by
  calc
    f.coefficient * millisPerDay * 10 ^ k ≤ 10 ^ f.scale * millisPerDay * 10 ^ k :=
      Nat.mul_le_mul_right _ (Nat.mul_le_mul_right _ (Nat.le_of_lt hf))
    _ = millisPerDay * 10 ^ k * 10 ^ f.scale := by rw [Nat.mul_assoc, Nat.mul_comm]

theorem product_fits {f : Decimal} (hf : f.coefficient < 10 ^ f.scale) :
    roundDiv .toEven (f.coefficient * millisPerDay * 10 ^ min f.scale 20) (10 ^ f.scale) <
      2 ^ (96 : Nat) := by
  calc
    roundDiv .toEven (f.coefficient * millisPerDay * 10 ^ min f.scale 20) (10 ^ f.scale)
        ≤ millisPerDay * 10 ^ min f.scale 20 :=
      roundDiv_le (Nat.pow_pos (by decide)) (product_le hf _)
    _ ≤ millisPerDay * 10 ^ (20 : Nat) :=
      Nat.mul_le_mul_left _ (Nat.pow_le_pow_right (by decide) (Nat.min_le_right _ _))
    _ < 2 ^ (96 : Nat) := by decide

/-- The milliseconds are rounded twice, and the scale between has twenty places where it can. -/
theorem serialMillis_eq {f : Decimal} (hf : f.coefficient < 10 ^ f.scale) :
    ∃ k, k ≤ f.scale ∧ min f.scale 20 ≤ k ∧ serialMillis f =
      roundDiv .toEven (roundDiv .toEven (f.coefficient * millisPerDay * 10 ^ k) (10 ^ f.scale))
        (10 ^ k) := by
  by_cases hzero : f.coefficient = 0
  · refine ⟨f.scale, Nat.le_refl _, Nat.min_le_left _ _, ?_⟩
    have hproduct : f.mul? (.ofInt64 86400000) = some .zero := by
      simp [Decimal.mul?, Decimal.isZero, hzero]
    have hnone : roundDiv .toEven (0 * 10 ^ f.scale) (10 ^ f.scale) = 0 :=
      roundDiv_mul (Nat.pow_pos (by decide))
    rw [Nat.zero_mul] at hnone
    rw [serialMillis, hproduct, hzero, Nat.zero_mul, Nat.zero_mul, hnone, hnone]
    rfl
  · obtain ⟨r, hr, hlow, hhigh, hcoefficient⟩ := Decimal.fitFrom_eq (f.negative != false)
      (f.coefficient * millisPerDay) (10 ^ f.scale) f.scale_le (Nat.min_le_left _ _)
      (product_fits hf)
    have hproduct : f.mul? (.ofInt64 86400000) = some r := by
      have hzeros : (f.isZero || (Decimal.ofInt64 86400000).isZero) = false := by
        rw [Decimal.isZero, beq_eq_false_iff_ne.mpr hzero]
        decide
      rw [Decimal.mul?, hzeros, if_neg Bool.false_ne_true, ← hr]
      show Decimal.fitFrom _ _ _ (min f.scale 28) = _
      rw [Nat.min_eq_left f.scale_le]
      rfl
    refine ⟨r.scale, hhigh, hlow, ?_⟩
    rw [serialMillis, hproduct]
    dsimp only
    rw [Decimal.rounded, hcoefficient]

theorem serialMillis_le {f : Decimal} (hf : f.coefficient < 10 ^ f.scale) :
    serialMillis f ≤ millisPerDay := by
  obtain ⟨k, _, _, heq⟩ := serialMillis_eq hf
  rw [heq]
  apply roundDiv_le (Nat.pow_pos (by decide))
  exact roundDiv_le (Nat.pow_pos (by decide)) (product_le hf k)

/-- No decimal lies so little under the last half of a millisecond that its product with the length
of a day is rounded into it. -/
theorem half_le_of_near {r s : Nat} (hlow : 20 ≤ s) (hhigh : s ≤ 28)
    (h : (2 * millisPerDay - 1) * 10 ^ s ≤ 2 * (r * millisPerDay) + 10 ^ (s - 20)) :
    (2 * millisPerDay - 1) * 10 ^ s ≤ 2 * (r * millisPerDay) := by
  unfold millisPerDay at *
  obtain rfl | rfl | rfl | rfl | rfl | rfl | rfl | rfl | rfl :
    s = 20 ∨ s = 21 ∨ s = 22 ∨ s = 23 ∨ s = 24 ∨ s = 25 ∨ s = 26 ∨ s = 27 ∨ s = 28 := by omega
  all_goals
    simp only [Nat.reducePow, Nat.reduceMul, Nat.reduceSub] at h ⊢
    omega

/-- Rounding adds half a unit of the scale at most, and half of the bound is a whole number, below
which nothing is rounded that is not below it. -/
theorem half_le_roundDiv_iff {r s k : Nat} (hlow : 20 ≤ k) (hk : k ≤ s) (hhigh : s ≤ 28) :
    (2 * millisPerDay - 1) * 10 ^ k ≤ 2 * roundDiv .toEven (r * millisPerDay * 10 ^ k) (10 ^ s) ↔
      (2 * millisPerDay - 1) * 10 ^ s ≤ 2 * (r * millisPerDay) := by
  constructor
  · intro h
    have hround := two_mul_roundDiv_le .toEven (r * millisPerDay * 10 ^ k) (10 ^ s)
    have hsplit : 10 ^ s = 10 ^ (s - k) * 10 ^ k := by rw [← Nat.pow_add, Nat.sub_add_cancel hk]
    have hplaces : 10 ^ (s - k) ≤ 10 ^ (s - 20) := Nat.pow_le_pow_right (by decide) (by omega)
    apply half_le_of_near (by omega) hhigh
    refine Nat.le_trans ?_ (Nat.add_le_add_left hplaces _)
    apply Nat.le_of_mul_le_mul_right (c := 10 ^ k) ?_ (Nat.pow_pos (by decide))
    calc
      (2 * millisPerDay - 1) * 10 ^ s * 10 ^ k
          = (2 * millisPerDay - 1) * 10 ^ k * 10 ^ s := Nat.mul_right_comm _ _ _
      _ ≤ 2 * roundDiv .toEven (r * millisPerDay * 10 ^ k) (10 ^ s) * 10 ^ s :=
        Nat.mul_le_mul_right _ h
      _ ≤ 2 * (r * millisPerDay * 10 ^ k) + 10 ^ s := by rwa [Nat.mul_assoc]
      _ = (2 * (r * millisPerDay) + 10 ^ (s - k)) * 10 ^ k := by
        rw [Nat.add_mul, ← hsplit, Nat.mul_assoc 2]
  · intro h
    have heven : 10 ^ k = 2 * (5 * 10 ^ (k - 1)) := by
      rw [← Nat.mul_assoc, ← Nat.pow_succ']
      congr 1
      omega
    rw [heven, Nat.mul_left_comm]
    apply Nat.mul_le_mul_left
    apply le_roundDiv (Nat.pow_pos (by decide))
    calc
      (2 * millisPerDay - 1) * (5 * 10 ^ (k - 1)) * 10 ^ s
          = (2 * millisPerDay - 1) * 10 ^ s * (5 * 10 ^ (k - 1)) := Nat.mul_right_comm _ _ _
      _ ≤ 2 * (r * millisPerDay) * (5 * 10 ^ (k - 1)) := Nat.mul_le_mul_right _ h
      _ = r * millisPerDay * (2 * (5 * 10 ^ (k - 1))) := by rw [Nat.mul_comm 2, Nat.mul_assoc]

/-- The milliseconds of a fraction are a whole day from half of one before midnight on. That they
are rounded twice makes no difference. -/
theorem serialMillis_eq_day_iff {f : Decimal} (hf : f.coefficient < 10 ^ f.scale) :
    serialMillis f = millisPerDay ↔
      (2 * millisPerDay - 1) * 10 ^ f.scale ≤ 2 * (f.coefficient * millisPerDay) := by
  obtain ⟨k, hk, hlow, heq⟩ := serialMillis_eq hf
  have hpow (k : Nat) : 0 < 10 ^ k := Nat.pow_pos (by decide)
  have hle := serialMillis_le hf
  have hreached : serialMillis f = millisPerDay ↔ (2 * millisPerDay - 1) * 10 ^ k ≤
      2 * roundDiv .toEven (f.coefficient * millisPerDay * 10 ^ k) (10 ^ f.scale) := by
    rw [← even_le_roundDiv_iff (hpow k) (by decide) (by decide), ← heq]
    omega
  rw [hreached]
  by_cases hsmall : f.scale ≤ 20
  · have hexact : k = f.scale := by omega
    rw [hexact, roundDiv_mul (hpow _)]
  · exact half_le_roundDiv_iff (by omega) hk f.scale_le

/-! ### The day -/

theorem ofMillis?_of_lt {d : Date} {m : Nat} (h : m < millisPerDay) :
    ∃ t, Timestamp.ofMillis? d m = some t ∧ t.date = d := by
  have hday : ((m : Int) / 86400000) = 0 := by unfold millisPerDay at h; omega
  unfold Timestamp.ofMillis?
  rw [hday, Date.addDays?_zero, Option.bind_eq_bind, Option.bind_some, Timestamp.ofParts?,
    dif_pos (by unfold millisPerDay at h; omega)]
  exact ⟨_, rfl, rfl⟩

theorem ofMillis?_day {d e : Date} (h : d.Next e) :
    Timestamp.ofMillis? d millisPerDay = some (.midnight e) := by
  have hday : d.addDays? 1 = some e := (Date.DaysAfter.succ h (.zero e)).addDays?_eq
  unfold Timestamp.ofMillis?
  show (d.addDays? 1).bind _ = _
  rw [hday]
  rfl

/-- What a serial in range stands for: a moment of its day, or midnight of the next one. -/
theorem ofSerial_cases {d : Decimal} (hlow : 1 ≤ d.floor) (hhigh : d.floor ≤ maxSerial) :
    ∃ day next, Date.DaysAfter d.floor.toNat serialEpoch day ∧ day.Next next ∧
      (serialMillis d.fraction < millisPerDay → ∃ t, ofSerial d = .ok t ∧ t.date = day) ∧
      (serialMillis d.fraction = millisPerDay → ofSerial d = .ok (.midnight next)) := by
  have hepoch : serialEpoch.dayNumber = 693899 := by decide
  have hlast := Date.dayNumber_last
  have hrange : d.floor ≤ 2958465 := hhigh
  obtain ⟨next, hafter⟩ := serialEpoch.exists_daysAfter (d.floor.toNat + 1) (by omega)
  obtain ⟨day, hday, hrest⟩ := hafter.split
  have hnext : day.Next next := by
    cases hrest with
    | succ hnext hzero =>
      cases hzero
      exact hnext
  have hadd : serialEpoch.addDays? d.floor = some day := by
    have hadd := hday.addDays?_eq
    rwa [Int.toNat_of_nonneg (by omega)] at hadd
  have hserial {t : Timestamp} (ht : Timestamp.ofMillis? day (serialMillis d.fraction) = some t) :
      ofSerial d = .ok t := by
    unfold ofSerial
    dsimp only
    rw [if_pos ⟨hlow, hhigh⟩, hadd, Option.bind_some, ht]
  refine ⟨day, next, hday, hnext, ?_, ?_⟩
  · intro hmillis
    obtain ⟨t, ht, hdate⟩ := ofMillis?_of_lt (d := day) hmillis
    exact ⟨t, hserial ht, hdate⟩
  · intro hmillis
    rw [hserial]
    rw [hmillis, ofMillis?_day hnext]

theorem ofSerial_of_outside {d : Decimal} (h : ¬(1 ≤ d.floor ∧ d.floor ≤ maxSerial)) :
    ofSerial d = .error (.outsideSerialRange d) := by
  unfold ofSerial
  exact if_neg h

/-! ### The number behind the point -/

theorem Decimal.fract_value {d : Decimal} (h : 0 < d.floor) :
    Int.fract d.value = (d.fraction.coefficient : ℚ) / (10 ^ d.fraction.scale : Nat) := by
  have hnegative : d.negative = false := by
    cases hn : d.negative with
    | false => rfl
    | true =>
      have hvalue : d.value ≤ 0 := by
        rw [value_of_negative, hn, if_pos rfl, neg_nonpos]
        exact div_nonneg (Nat.cast_nonneg _) (cast_pow_pos _).le
      rw [floor_eq, Int.floor_pos] at h
      linarith
  rw [value_of_negative, hnegative, if_neg Bool.false_ne_true,
    Int.fract_div_natCast_eq_div_natCast_mod]
  rfl

theorem Decimal.fraction_lt (d : Decimal) : d.fraction.coefficient < 10 ^ d.fraction.scale :=
  Nat.mod_lt _ (Nat.pow_pos (by decide))

/-- Half a millisecond before midnight a number is taken to the next day. -/
def RoundsUp (x : ℚ) : Prop := 1 - 1 / 172800000 ≤ Int.fract x

theorem serialMillis_eq_day_iff_roundsUp {d : Decimal} (h : 0 < d.floor) :
    serialMillis d.fraction = millisPerDay ↔ RoundsUp d.value := by
  rw [serialMillis_eq_day_iff d.fraction_lt, RoundsUp, Decimal.fract_value h,
    le_div_iff₀ (Decimal.cast_pow_pos _)]
  generalize d.fraction.coefficient = c
  generalize 10 ^ d.fraction.scale = p
  have hwhole : (2 * millisPerDay - 1) * p ≤ 2 * (c * millisPerDay) ↔
      172799999 * p ≤ 172800000 * c := by
    unfold millisPerDay
    omega
  rw [hwhole, ← Nat.cast_le (α := ℚ)]
  push_cast
  constructor
  · intro h
    linarith
  · intro h
    linarith

/-- A serial has a moment just if its whole part is a day number of spreadsheets. -/
theorem ofSerial_eq_ok_iff (d : Decimal) :
    (∃ t, ofSerial d = .ok t) ↔ 1 ≤ ⌊d.value⌋ ∧ ⌊d.value⌋ ≤ maxSerial := by
  rw [← d.floor_eq]
  constructor
  · rintro ⟨t, ht⟩
    by_contra h
    rw [ofSerial_of_outside h] at ht
    cases ht
  · rintro ⟨hlow, hhigh⟩
    obtain ⟨day, next, _, _, hbefore, hcarry⟩ := ofSerial_cases hlow hhigh
    rcases Nat.lt_or_eq_of_le (serialMillis_le d.fraction_lt) with hlt | heq
    · obtain ⟨t, ht, _⟩ := hbefore hlt
      exact ⟨t, ht⟩
    · exact ⟨_, hcarry heq⟩

/-- The moment of a serial lies on the day of its whole part, or is midnight of the next one. -/
theorem date_of_ofSerial {d : Decimal} {t : Timestamp} (h : ofSerial d = .ok t) :
    (¬RoundsUp d.value → Date.DaysAfter ⌊d.value⌋.toNat serialEpoch t.date) ∧
      (RoundsUp d.value →
        Date.DaysAfter (⌊d.value⌋.toNat + 1) serialEpoch t.date ∧ t = .midnight t.date) := by
  obtain ⟨hlow, hhigh⟩ := (ofSerial_eq_ok_iff d).mp ⟨t, h⟩
  rw [← d.floor_eq] at hlow hhigh ⊢
  obtain ⟨day, next, hday, hnext, hbefore, hcarry⟩ := ofSerial_cases hlow hhigh
  rw [← serialMillis_eq_day_iff_roundsUp (by omega)]
  constructor
  · intro hne
    have hle := serialMillis_le d.fraction_lt
    obtain ⟨u, hu, rfl⟩ := hbefore (by omega)
    obtain rfl := Except.ok.inj (h.symm.trans hu)
    exact hday
  · intro heq
    obtain rfl := Except.ok.inj (h.symm.trans (hcarry heq))
    exact ⟨hday.trans (.succ hnext (.zero next)), rfl⟩

/-! ### Casts -/

def firstSerialDay : Date := (Date.ofParts? 1899 12 31).get (by decide)

def lastSerialDay : Date := (Date.ofParts? 9999 12 31).get (by decide)

theorem daysAfter_firstSerialDay : Date.DaysAfter 1 serialEpoch firstSerialDay :=
  .succ (b := firstSerialDay) (.day rfl rfl rfl) (.zero firstSerialDay)

theorem daysAfter_lastSerialDay : Date.DaysAfter 2958465 serialEpoch lastSerialDay := by
  have hepoch : serialEpoch.dayNumber = 693899 := by decide
  have hlast := Date.dayNumber_last
  have hnumber : lastSerialDay.dayNumber = 3652364 := by decide
  obtain ⟨d, hd⟩ := serialEpoch.exists_daysAfter 2958465 (by omega)
  have hday : d = lastSerialDay := by
    apply Date.dayNumber_injective
    rw [hd.dayNumber_eq, hepoch, hnumber]
    rfl
  exact hday ▸ hd

/-- The days that come out are past the last one only where more days are counted than there are day
numbers. -/
theorem serialDay_range {n : Nat} {d : Date} (h : Date.DaysAfter n serialEpoch d) (hn : 0 < n) :
    ¬compare d firstSerialDay = .lt ∧ (compare lastSerialDay d = .lt ↔ maxSerial < n) := by
  rw [h.compare_eq_lt_iff daysAfter_firstSerialDay, daysAfter_lastSerialDay.compare_eq_lt_iff h,
    maxSerial]
  omega

namespace Scalar

theorem cast_of_toDecimal? {v : Scalar} {d : Decimal} (h : v.toDecimal? = some d) :
    v.cast .date = (ofSerial d).map (fun t => date t.date) ∧
      v.cast .timestamp = (ofSerial d).map timestamp := by
  have hday : (do return (← ofSerial (← orFault v .date (some d))).date) =
      (ofSerial d).map (·.date) := by
    show (ofSerial d >>= fun t => pure t.date) = _
    cases ofSerial d <;> rfl
  have hnumber : ¬v.isNull = true ∧ v.castToDate = (ofSerial d).map (·.date) ∧
      v.castToTimestamp = ofSerial d := by
    rw [← hday]
    unfold castToDate castToTimestamp
    cases v with
    | integer n =>
      dsimp only
      rw [h]
      exact ⟨Bool.false_ne_true, rfl, rfl⟩
    | decimal c =>
      dsimp only
      rw [h]
      exact ⟨Bool.false_ne_true, rfl, rfl⟩
    | float x =>
      dsimp only
      rw [h]
      exact ⟨Bool.false_ne_true, rfl, rfl⟩
    | _ => cases h
  obtain ⟨hnull, hdate, htimestamp⟩ := hnumber
  unfold cast
  rw [if_neg hnull]
  dsimp only
  rw [hdate, htimestamp, if_neg hnull]
  exact ⟨by cases ofSerial d <;> rfl, rfl⟩

/-- A number is cast to a date and to a moment just if its whole part is a day number of
spreadsheets, and the moment is one of the date. It is that day, unless the number rounds up: then
it is the next one, which after the last day number is past the last day. -/
theorem cast_serial {v : Scalar} {x : ℚ} (hv : v.decimalValue? = some x) :
    (∀ target, target = .date ∨ target = .timestamp →
      ((∃ w, v.cast target = .ok w) ↔ 1 ≤ ⌊x⌋ ∧ ⌊x⌋ ≤ maxSerial)) ∧
    (1 ≤ ⌊x⌋ ∧ ⌊x⌋ ≤ maxSerial → ∃ t, v.cast .date = .ok (date t.date) ∧
      v.cast .timestamp = .ok (timestamp t) ∧
      (¬RoundsUp x → Date.DaysAfter ⌊x⌋.toNat serialEpoch t.date) ∧
      (RoundsUp x →
        Date.DaysAfter (⌊x⌋.toNat + 1) serialEpoch t.date ∧ t = .midnight t.date) ∧
      ¬compare t.date firstSerialDay = .lt ∧
      (compare lastSerialDay t.date = .lt ↔ ⌊x⌋ = maxSerial ∧ RoundsUp x)) := by
  obtain ⟨c, hc, rfl⟩ := Option.map_eq_some_iff.mp hv
  obtain ⟨hdate, htimestamp⟩ := cast_of_toDecimal? hc
  constructor
  · have hok {f : Timestamp → Scalar} :
        (∃ w, (ofSerial c).map f = .ok w) ↔ 1 ≤ ⌊c.value⌋ ∧ ⌊c.value⌋ ≤ maxSerial := by
      rw [← ofSerial_eq_ok_iff]
      cases ofSerial c <;> simp [Except.map]
    rintro target (rfl | rfl)
    · rw [hdate]
      exact hok
    · rw [htimestamp]
      exact hok
  · intro hrange
    obtain ⟨t, ht⟩ := (ofSerial_eq_ok_iff c).mpr hrange
    have hday := date_of_ofSerial ht
    rw [hdate, htimestamp, ht]
    refine ⟨t, rfl, rfl, hday.1, hday.2, ?_⟩
    unfold maxSerial at hrange ⊢
    by_cases hup : RoundsUp c.value
    · obtain ⟨hfirst, hlast⟩ := serialDay_range (hday.2 hup).1 (Nat.succ_pos _)
      refine ⟨hfirst, hlast.trans ?_⟩
      simp only [hup, and_true, maxSerial]
      omega
    · obtain ⟨hfirst, hlast⟩ := serialDay_range (hday.1 hup) (by omega)
      refine ⟨hfirst, hlast.trans ?_⟩
      simp only [hup, and_false, iff_false, maxSerial]
      omega

theorem cast_serial_noon :
    (decimal ⟨false, 452925, 1, by decide, by decide⟩).decimalValue? =
        some (Decimal.value ⟨false, 452925, 1, by decide, by decide⟩) ∧
      (decimal ⟨false, 452925, 1, by decide, by decide⟩).cast .date =
        .ok (date ⟨2024, 1, 1, by decide, by decide, by decide⟩) ∧
      ∃ t, (decimal ⟨false, 452925, 1, by decide, by decide⟩).cast .timestamp =
          .ok (timestamp t) ∧
        t.date = ⟨2024, 1, 1, by decide, by decide, by decide⟩ := by
  have hdate : (decimal ⟨false, 452925, 1, by decide, by decide⟩).cast .date =
      .ok (date ⟨2024, 1, 1, by decide, by decide, by decide⟩) := by
    decide +kernel
  have hrange : 1 ≤ ⌊Decimal.value ⟨false, 452925, 1, by decide, by decide⟩⌋ ∧
      ⌊Decimal.value ⟨false, 452925, 1, by decide, by decide⟩⌋ ≤ maxSerial := by
    rw [← Decimal.floor_eq]
    decide
  refine ⟨rfl, hdate, ?_⟩
  obtain ⟨t, ht, htimestamp, _⟩ :=
    (cast_serial (v := decimal ⟨false, 452925, 1, by decide, by decide⟩) rfl).2 hrange
  exact ⟨t, htimestamp, Scalar.date.inj (Except.ok.inj (ht.symm.trans hdate))⟩

/-- The last fraction of the last day number becomes a day that has none. -/
theorem cast_serial_pastLastDay :
    Decimal.floor ⟨false, 29584659999999999, 10, by decide, by decide⟩ = maxSerial ∧
      (decimal ⟨false, 29584659999999999, 10, by decide, by decide⟩).cast .date =
        .ok (date ⟨10000, 1, 1, by decide, by decide, by decide⟩) ∧
      ¬Date.DaysAfter 2958465 serialEpoch ⟨10000, 1, 1, by decide, by decide, by decide⟩ := by
  refine ⟨by decide, by decide +kernel, ?_⟩
  intro h
  have hunique := h.unique daysAfter_lastSerialDay
  revert hunique
  decide

end Scalar

end TablePipeline
