import TablePipeline.Proofs.Calendar.DayNumber
import TablePipeline.Proofs.Calendar.Layouts

/-!
# Reading RFC 3339

Date, time and fraction are read as they were written, with any of the separators; what becomes of
the text is then up to the zone behind them.
-/

set_option autoImplicit false

namespace TablePipeline

attribute [local instance (high)] instPowNat

theorem Timestamp.minusMinutes?_zero (t : Timestamp) : t.minusMinutes? 0 = some t := by
  have hsecond := t.second_lt
  have hday : ((t.second : Int) - 0 * 60) / 86400 = 0 := by omega
  have hrest : (((t.second : Int) - 0 * 60) % 86400).toNat = t.second := by omega
  unfold minusMinutes?
  dsimp only
  rw [hday, hrest, Date.addDays?_zero, Option.bind_eq_bind, Option.bind_some, ofParts?,
    dif_pos ⟨t.second_lt, t.nano_lt, t.leap_second⟩]

namespace Calendar

theorem length_le_utf8ByteSize (cs : List Char) :
    cs.length ≤ (String.ofList cs).utf8ByteSize := by
  induction cs with
  | nil => exact Nat.zero_le _
  | cons c cs ih =>
    rw [← List.singleton_append, String.ofList_append, String.utf8ByteSize_append,
      List.length_append, ← String.singleton_eq_ofList, String.utf8ByteSize_singleton]
    have hc := c.utf8Size_pos
    simp only [List.length_singleton]
    omega

/-- The moment of a date and a clock, where second 60 is a leap second. -/
theorem timestamp?_of_clock (d : Date) {hour minute second nano : Nat} (hh : hour < 24)
    (hm : minute < 60) (hs : second ≤ 60) (hn : nano < 1000000000) :
    ∃ t : Timestamp, Parts.timestamp? ⟨d.year, d.month, d.day, hour, minute, second, nano⟩ =
        some t ∧ t.date = d ∧ t.second = hour * 3600 + minute * 60 + min second 59 ∧
      t.nano = nano + if second = 60 then 1000000000 else 0 := by
  unfold Parts.timestamp? Parts.date? Parts.clock?
  dsimp only
  rw [Date.ofParts?_eq, if_neg (by omega)]
  simp only [Option.bind_eq_bind, Option.bind_some]
  split
  · rename_i heq
    rw [Option.bind_some, Timestamp.ofParts?, dif_pos (by omega)]
    exact ⟨_, rfl, rfl, by simp [heq], Nat.add_comm ..⟩
  · rw [Option.bind_some, Timestamp.ofParts?, dif_pos (by omega)]
    exact ⟨_, rfl, rfl, by dsimp only; omega, rfl⟩

theorem IsFraction.lt {cs : List Char} {nano : Nat} (h : IsFraction cs nano) :
    nano < 1000000000 := by
  cases h with
  | none => decide
  | @digits k n _ hle hn =>
    have hpow : 10 ^ k * 10 ^ (9 - k) = 10 ^ (9 : Nat) := by
      rw [← Nat.pow_add, Nat.add_sub_cancel' hle]
    calc
      n * 10 ^ (9 - k) < 10 ^ k * 10 ^ (9 - k) :=
        Nat.mul_lt_mul_of_pos_right hn (Nat.pow_pos (by decide))
      _ = 1000000000 := hpow

/-- The moment of a clock reading in the zone that is written behind it. -/
def inZone (t : Timestamp) (zone : List Char) : Except ReadError Timestamp := do
  let (offset, cs) ← readOffset zone
  if !cs.isEmpty then throw .tooLong
  if 23 * 60 + 59 < offset.natAbs then throw .outOfRange
  match t.minusMinutes? offset with
  | some t => pure t
  | none => throw .outOfRange

theorem inZone_utc (t : Timestamp) : inZone t ['Z'] = .ok t := by
  unfold inZone
  rw [readOffset_utc]
  dsimp only [bind, Except.bind]
  rw [List.isEmpty_nil, Bool.not_true, if_neg Bool.false_ne_true, if_neg (by decide),
    Timestamp.minusMinutes?_zero]
  rfl

theorem inZone_nil (t : Timestamp) : inZone t [] = .error .tooShort := by
  unfold inZone
  rw [readOffset_nil]
  rfl

/-- Date and clock with a separator between, as they are written in front of a fraction. -/
def clockFront (sep : Char) (year month day hour minute second : Nat) (rest : List Char) :
    List Char :=
  Digits.pad 4 year ++ '-' :: (Digits.pad 2 month ++ '-' :: (Digits.pad 2 day ++
    sep :: (Digits.pad 2 hour ++ ':' :: (Digits.pad 2 minute ++ ':' :: (Digits.pad 2 second ++
      rest)))))

theorem length_clockFront (sep : Char) {year month day hour minute second : Nat}
    (hyear : year < 10000) (hmonth : month < 100) (hday : day < 100) (hh : hour < 100)
    (hm : minute < 100) (hs : second < 100) (rest : List Char) :
    (clockFront sep year month day hour minute second rest).length =
      rfc3339Length + rest.length := by
  have h4 := Digits.length_pad (Nat.zero_lt_succ 3) (show year < 10 ^ 4 by omega)
  have h2 {n : Nat} (hn : n < 100) := Digits.length_pad Nat.zero_lt_two (show n < 10 ^ 2 by omega)
  simp only [clockFront, List.length_append, List.length_cons, h4, h2 hmonth, h2 hday, h2 hh, h2 hm,
    h2 hs]
  unfold rfc3339Length
  omega

/-- The fields are read in turn: the date, the separator, the clock and the zone, which does not
begin with a point. -/
theorem readRfc3339_clockFront (d : Date) (hy : 0 ≤ d.year ∧ d.year ≤ 9999)
    {hour minute second nano : Nat} (hh : hour < 24) (hm : minute < 60) (hs : second ≤ 60)
    {sep : Char} (hsep : sep = 't' ∨ sep = 'T' ∨ sep = ' ') {fraction zone : List Char}
    (hfraction : IsFraction fraction nano)
    (hzone : ∀ c ∈ zone.head?, c.isDigit = false ∧ c ≠ '.') :
    ∃ t : Timestamp, readRfc3339 (String.ofList (clockFront sep d.year.toNat d.month d.day hour
          minute second (fraction ++ zone))) = inZone t zone ∧
      t.date = d ∧ t.second = hour * 3600 + minute * 60 + min second 59 ∧
      t.nano = nano + if second = 60 then 1000000000 else 0 := by
  obtain ⟨t, ht, hdate, hsecond, hnano⟩ := timestamp?_of_clock d hh hm hs hfraction.lt
  refine ⟨t, ?_, hdate, hsecond, hnano⟩
  have hmonth := d.month_range
  have hday := d.day_le
  have hyear : ((d.year.toNat : Nat) : Int) = d.year := Int.toNat_of_nonneg hy.1
  have hlength := length_clockFront sep (show d.year.toNat < 10000 by omega)
    (show d.month < 100 by omega) (show d.day < 100 by omega) (show hour < 100 by omega)
    (show minute < 100 by omega) (show second < 100 by omega) (fraction ++ zone)
  have hsize := length_le_utf8ByteSize
    (clockFront sep d.year.toNat d.month d.day hour minute second (fraction ++ zone))
  have hread2 {n : Nat} (hn : n < 10 ^ 2) := strictNumber_pad (Nat.zero_lt_two) hn
  have hdateParts : (⟨d.year, d.month, d.day, 0, 0, 0, 0⟩ : Parts).date? = some d := d.ofParts?_eq
  have hclock : (Parts.clock? ⟨d.year, d.month, d.day, hour, minute, second, nano⟩).isNone =
      false := by
    cases hc : Parts.clock? ⟨d.year, d.month, d.day, hour, minute, second, nano⟩ with
    | some c => rfl
    | none => simp [Parts.timestamp?, hc] at ht
  unfold readRfc3339
  rw [if_neg (by omega), String.toList_ofList, clockFront,
    strictNumber_pad (Nat.zero_lt_succ 3) (by omega)]
  dsimp only [bind, Except.bind]
  rw [strictChar_cons]
  dsimp only
  rw [hread2 (by omega)]
  dsimp only
  rw [strictChar_cons]
  dsimp only
  rw [hread2 (by omega)]
  dsimp only
  rw [hyear, hdateParts, Option.isNone_some, if_neg Bool.false_ne_true, if_pos hsep]
  dsimp only [pure, Except.pure]
  rw [hread2 (by omega)]
  dsimp only
  rw [strictChar_cons]
  dsimp only
  rw [hread2 (by omega)]
  dsimp only
  rw [strictChar_cons]
  dsimp only
  rw [hread2 (by omega)]
  dsimp only
  cases hfraction with
  | none =>
    rw [List.nil_append]
    split
    · exact absurd rfl (hzone '.' rfl).2
    · rw [hclock, if_neg Bool.false_ne_true, ht]
      rfl
  | digits hpos hle hn =>
    simp only [List.cons_append, takeNanos_pad hpos hle hn fun c hc => (hzone c hc).1]
    rw [hclock, if_neg Bool.false_ne_true, ht]
    rfl

/-- Date and clock with microseconds in universal time, as they are written. -/
def utcChars (year month day hour minute second micro : Nat) : List Char :=
  Digits.pad 4 year ++ '-' :: (Digits.pad 2 month ++ '-' :: (Digits.pad 2 day ++
    'T' :: (Digits.pad 2 hour ++ ':' :: (Digits.pad 2 minute ++ ':' :: (Digits.pad 2 second ++
      '.' :: (Digits.pad 6 micro ++ ['Z']))))))

theorem readRfc3339_utcChars (d : Date) (hy : 0 ≤ d.year ∧ d.year ≤ 9999)
    {hour minute second micro : Nat} (hh : hour < 24) (hm : minute < 60) (hs : second ≤ 60)
    (hmicro : micro < 1000000) :
    ∃ t : Timestamp, readRfc3339 (String.ofList
        (utcChars d.year.toNat d.month d.day hour minute second micro)) = .ok t ∧
      t.date = d ∧ t.second = hour * 3600 + minute * 60 + min second 59 ∧
      t.nano = micro * 1000 + if second = 60 then 1000000000 else 0 := by
  have hfraction := IsFraction.digits (k := 6) (by decide) (by decide)
    (show micro < 10 ^ (6 : Nat) from hmicro)
  have hzone : ∀ c ∈ ['Z'].head?, c.isDigit = false ∧ c ≠ '.' := by
    rintro c ⟨⟩
    decide
  obtain ⟨t, ht, hparts⟩ :=
    readRfc3339_clockFront d hy hh hm hs (.inr (.inl rfl)) hfraction hzone
  exact ⟨t, ht.trans (inZone_utc t), hparts⟩

end Calendar

end TablePipeline
