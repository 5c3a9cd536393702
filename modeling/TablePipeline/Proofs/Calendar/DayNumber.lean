import Mathlib.Tactic.Common
import TablePipeline.Calendar.Date

/-!
# Days by their numbers

The date of a day number is the date that has it. Years are counted from March and taken apart into
eras of four hundred years, so that leap days come last wherever they are. A day is followed by
another one of its month, by the first of the next month or by the first of the next year; adding
days to a date is going that many steps, and every step goes to a later date.
-/

set_option autoImplicit false

namespace TablePipeline.Date

/-- The year of a day in an era, if it is year `4 * q + r = 100 * c + s` of it: the leap days before
it are those of whole cycles of four years, but for those of hundred years. Only the last day of an
era would count as one of a fifth century. -/
theorem yearOfEra_eq {q r c s doy doe : Int} (hr : 0 ≤ r ∧ r < 4) (hc : 0 ≤ c ∧ c < 4)
    (hs : 0 ≤ s ∧ s < 100) (hyoe : 4 * q + r = 100 * c + s) (hdoy : 0 ≤ doy)
    (hends : doy ≤ 364 ∨ doy = 365 ∧ r = 3 ∧ (s ≤ 98 ∨ c = 3))
    (hdoe : doe = 36524 * c + 365 * s + (q - 25 * c) + doy) :
    0 ≤ doe ∧ doe < 146097 ∧
      (doe - doe / 1460 + doe / 36524 - doe / 146096) / 365 = 4 * q + r := by
  have hq : 25 * c ≤ q ∧ q ≤ 25 * c + 24 := by omega
  have hdoe4 : doe = 1460 * q + 365 * r + (q - c) + doy := by omega
  have hrest : 0 ≤ 365 * s + (q - 25 * c) + doy ∧ 365 * s + (q - 25 * c) + doy ≤ 36524 ∧
      (365 * s + (q - 25 * c) + doy = 36524 → c = 3 ∧ s = 99 ∧ doy = 365) := by
    clear hdoe hdoe4
    omega
  have hrange : 0 ≤ doe ∧ doe < 146097 := by
    clear hdoe4 hends hyoe
    omega
  refine ⟨hrange.1, hrange.2, ?_⟩
  have hcenturies : doe / 36524 - doe / 146096 = c := by
    clear hdoe4 hends hyoe
    omega
  have hleap : doe / 1460 = q ∧ doy ≤ 364 ∨ doe / 1460 = q + 1 ∧ 1 ≤ doy ∧ doy ≤ 365 := by
    have hqc : 0 ≤ q - c ∧ q - c ≤ 99 := by
      clear hdoe hdoe4 hends hrest hcenturies hrange
      omega
    generalize q - c = k at hdoe4 hqc
    clear hdoe hcenturies hrest hyoe hq hs hc hrange
    by_cases hnext : 365 * r + k + doy < 1460
    · exact .inl ⟨by omega, by omega⟩
    · exact .inr ⟨by omega, by omega, by omega⟩
  have hsum : doe - doe / 1460 + doe / 36524 - doe / 146096 =
      365 * (4 * q + r) + (q + doy - doe / 1460) := by
    clear hleap hdoe hrest hends
    omega
  rw [hsum]
  generalize doe / 1460 = a at hleap ⊢
  clear hdoe hdoe4 hcenturies hsum hrest
  omega

/-- The year that began with the last March. -/
def marchYear (d : Date) : Int := if d.month ≤ 2 then d.year - 1 else d.year

def marchMonth (d : Date) : Int := if d.month ≤ 2 then d.month + 9 else d.month - 3

def marchDay (d : Date) : Int := (153 * d.marchMonth + 2) / 5 + d.day - 1

theorem dayNumber_eq (d : Date) : d.dayNumber =
    365 * d.marchYear + d.marchYear / 4 - d.marchYear / 100 + d.marchYear / 400 + d.marchDay := by
  dsimp only [dayNumber, marchDay, marchYear, marchMonth]
  omega

/-- Month and day are read from the days since March, of which there are 366 in a leap year. -/
theorem marchDay_spec (d : Date) :
    0 ≤ d.marchDay ∧ (5 * d.marchDay + 2) / 153 = d.marchMonth ∧
      (d.marchDay ≤ 364 ∨ d.marchDay = 365 ∧ d.month = 2 ∧ isLeapYear d.year = true) := by
  obtain ⟨year, month, day, hyear, hmonth, hday⟩ := d
  unfold marchDay marchMonth
  dsimp only
  obtain rfl | rfl | rfl | rfl | rfl | rfl | rfl | rfl | rfl | rfl | rfl | rfl :
    month = 1 ∨ month = 2 ∨ month = 3 ∨ month = 4 ∨ month = 5 ∨ month = 6 ∨ month = 7 ∨
      month = 8 ∨ month = 9 ∨ month = 10 ∨ month = 11 ∨ month = 12 := by omega
  case inr.inl =>
    cases hleap : isLeapYear year with
    | true =>
      simp [daysInMonth, hleap] at hday ⊢
      omega
    | false =>
      simp [daysInMonth, hleap] at hday ⊢
      omega
  all_goals
    simp [daysInMonth] at hday ⊢
    omega

/-- A leap day ends a year from March that is the last of four, and not of hundred unless of four
hundred. -/
theorem marchYear_of_leapDay {d : Date} (hmonth : d.month = 2) (hleap : isLeapYear d.year = true) :
    d.marchYear % 4 = 3 ∧ (d.marchYear % 100 ≤ 98 ∨ d.marchYear % 400 / 100 = 3) := by
  simp only [isLeapYear, Bool.and_eq_true, Bool.or_eq_true, beq_iff_eq, bne_iff_ne] at hleap
  rw [marchYear, if_pos (by omega)]
  omega

theorem marchMonth_add (d : Date) :
    (if d.marchMonth < 10 then d.marchMonth + 3 else d.marchMonth - 9) = d.month := by
  have hmonth := d.month_range
  unfold marchMonth
  split <;> split <;> omega

theorem partsOfDayNumber_dayNumber (d : Date) :
    partsOfDayNumber d.dayNumber = (d.year, d.month, d.day) := by
  obtain ⟨hdoy, hmonth, hends⟩ := d.marchDay_spec
  have hends : d.marchDay ≤ 364 ∨ d.marchDay = 365 ∧ d.marchYear % 4 = 3 ∧
      (d.marchYear % 100 ≤ 98 ∨ d.marchYear % 400 / 100 = 3) :=
    hends.imp_right fun ⟨hday, hfeb, hleap⟩ => ⟨hday, marchYear_of_leapDay hfeb hleap⟩
  have hdoe : d.dayNumber - 146097 * (d.marchYear / 400) =
      36524 * (d.marchYear % 400 / 100) + 365 * (d.marchYear % 100) +
        (d.marchYear % 400 / 4 - 25 * (d.marchYear % 400 / 100)) + d.marchDay := by
    rw [dayNumber_eq]
    omega
  obtain ⟨hlow, hhigh, hyoe⟩ := yearOfEra_eq (by omega) (by omega) (by omega) (by omega) hdoy hends
    hdoe
  have hera : d.dayNumber / 146097 = d.marchYear / 400 := by omega
  have hrest : d.dayNumber % 146097 = d.dayNumber - 146097 * (d.marchYear / 400) := by omega
  have hyear : 4 * (d.marchYear % 400 / 4) + d.marchYear % 4 = d.marchYear % 400 := by omega
  have hday : d.dayNumber - 146097 * (d.marchYear / 400) - (365 * (d.marchYear % 400) +
      d.marchYear % 400 / 4 - d.marchYear % 400 / 100) = d.marchDay := by omega
  unfold partsOfDayNumber
  dsimp only
  rw [hera, hrest, hyoe, hyear, hday, hmonth, marchMonth_add]
  refine Prod.ext ?_ (Prod.ext (Int.toNat_natCast d.month) ?_)
  · dsimp only
    rw [marchYear]
    split <;> omega
  · dsimp only [marchDay]
    omega

theorem ofDayNumber?_dayNumber (d : Date) : ofDayNumber? d.dayNumber = some d := by
  rw [ofDayNumber?, partsOfDayNumber_dayNumber]
  exact d.ofParts?_eq

theorem addDays?_zero (d : Date) : d.addDays? 0 = some d := by
  rw [addDays?, Int.add_zero, ofDayNumber?_dayNumber]

/-! ### The day after -/

variable {a b c d e : Date} {n : Nat}

/-- The one date is the day before the other. -/
inductive Next : Date → Date → Prop
  | day {d e : Date} (hyear : e.year = d.year) (hmonth : e.month = d.month)
      (hday : e.day = d.day + 1) : Next d e
  | month {d e : Date} (hlast : d.day = daysInMonth d.year d.month) (hyear : e.year = d.year)
      (hmonth : e.month = d.month + 1) (hday : e.day = 1) : Next d e
  | year {d e : Date} (hlast : d.month = 12 ∧ d.day = 31) (hyear : e.year = d.year + 1)
      (hmonth : e.month = 1) (hday : e.day = 1) : Next d e

/-- The second date is so many days after the first. -/
inductive DaysAfter : Nat → Date → Date → Prop
  | zero (d : Date) : DaysAfter 0 d d
  | succ {n : Nat} {a b c : Date} (hnext : Next a b) (hrest : DaysAfter n b c) :
      DaysAfter (n + 1) a c

def last : Date := (ofParts? 262142 12 31).get (by decide)

theorem dayNumber_last : last.dayNumber = 95745704 := by decide

/-! ### Day numbers -/

/-- The next day has the next number; only the length of February depends on the year. -/
theorem Next.dayNumber_eq (h : Next d e) : e.dayNumber = d.dayNumber + 1 := by
  cases h with
  | day hyear hmonth hday =>
    rw [dayNumber, dayNumber, hyear, hmonth, hday]
    split <;> omega
  | month hlast hyear hmonth hday =>
    have hd := d.month_range
    have he := e.month_range
    rw [hmonth] at he
    rw [dayNumber, dayNumber, hyear, hmonth, hday, hlast]
    simp only [daysInMonth, isLeapYear, Bool.and_eq_true, Bool.or_eq_true, beq_iff_eq,
      bne_iff_ne]
    generalize d.year = y
    generalize d.month = m at hd he
    obtain rfl | rfl | rfl | rfl | rfl | rfl | rfl | rfl | rfl | rfl | rfl :
      m = 1 ∨ m = 2 ∨ m = 3 ∨ m = 4 ∨ m = 5 ∨ m = 6 ∨ m = 7 ∨ m = 8 ∨ m = 9 ∨ m = 10 ∨
        m = 11 := by omega
    case inr.inl =>
      by_cases hleap : y % 4 = 0 ∧ (y % 100 ≠ 0 ∨ y % 400 = 0)
      · rw [if_pos hleap]
        simp
        omega
      · rw [if_neg hleap]
        simp
        omega
    all_goals simp <;> omega
  | year hlast hyear hmonth hday =>
    rw [dayNumber, dayNumber, hyear, hmonth, hday, hlast.1, hlast.2]
    simp
    omega

theorem DaysAfter.dayNumber_eq (h : DaysAfter n d e) : e.dayNumber = d.dayNumber + n := by
  induction h with
  | zero d => exact (Int.add_zero _).symm
  | succ hnext _ ih =>
    rw [ih, hnext.dayNumber_eq]
    omega

theorem dayNumber_injective (h : a.dayNumber = b.dayNumber) : a = b := by
  apply Option.some.inj
  rw [← ofDayNumber?_dayNumber a, ← ofDayNumber?_dayNumber b, h]

theorem DaysAfter.addDays?_eq (h : DaysAfter n d e) : d.addDays? n = some e := by
  rw [addDays?, ← h.dayNumber_eq, ofDayNumber?_dayNumber]

theorem DaysAfter.unique (hb : DaysAfter n a b) (hc : DaysAfter n a c) : b = c :=
  dayNumber_injective (hb.dayNumber_eq.trans hc.dayNumber_eq.symm)

theorem DaysAfter.trans {m : Nat} (hab : DaysAfter m a b) (hbc : DaysAfter n b c) :
    DaysAfter (m + n) a c := by
  induction hab with
  | zero => rwa [Nat.zero_add]
  | succ hnext _ ih =>
    rw [Nat.add_right_comm]
    exact .succ hnext (ih hbc)

theorem DaysAfter.split {m : Nat} (h : DaysAfter (m + n) a c) :
    ∃ b, DaysAfter m a b ∧ DaysAfter n b c := by
  induction m generalizing a with
  | zero => exact ⟨a, .zero a, by rwa [Nat.zero_add] at h⟩
  | succ m ih =>
    rw [Nat.add_right_comm] at h
    cases h with
    | succ hnext hrest =>
      obtain ⟨b, hb, hc⟩ := ih hrest
      exact ⟨b, .succ hnext hb, hc⟩

/-! ### There is a next day -/

theorem exists_next (d : Date) (h : d.year < 262142 ∨ ¬(d.month = 12 ∧ d.day = 31)) :
    ∃ e, Next d e := by
  have hyear := d.year_range
  have hmonth := d.month_range
  have hday := d.day_range
  by_cases hmore : d.day < daysInMonth d.year d.month
  · exact ⟨⟨d.year, d.month, d.day + 1, hyear, hmonth, by omega⟩, .day rfl rfl rfl⟩
  · by_cases hlast : d.month = 12
    · have hdecember : daysInMonth d.year d.month = 31 := by
        rw [hlast]
        rfl
      have hjanuary : daysInMonth (d.year + 1) 1 = 31 := rfl
      exact ⟨⟨d.year + 1, 1, 1, by omega, by decide, by omega⟩,
        .year ⟨hlast, by omega⟩ rfl rfl rfl⟩
    · have hfirst : 1 ≤ daysInMonth d.year (d.month + 1) := by
        unfold daysInMonth
        split
        · split <;> decide
        · split <;> decide
      exact ⟨⟨d.year, d.month + 1, 1, hyear, by omega, by decide, hfirst⟩,
        .month (by omega) rfl rfl rfl⟩

theorem exists_daysAfter (d : Date) (n : Nat) (h : d.dayNumber + n ≤ last.dayNumber) :
    ∃ e, DaysAfter n d e := by
  induction n generalizing d with
  | zero => exact ⟨d, .zero d⟩
  | succ n ih =>
    have hnext : ∃ e, Next d e := by
      apply exists_next
      by_contra hlast
      have hyear := d.year_range
      have hmonth : d.month = 12 := by omega
      have hnumber : d.dayNumber = last.dayNumber := by
        rw [dayNumber_last, dayNumber, hmonth, show d.day = 31 by omega,
          show d.year = 262142 by omega]
        rfl
      omega
    obtain ⟨e, he⟩ := hnext
    obtain ⟨f, hf⟩ := ih e (by rw [he.dayNumber_eq]; omega)
    exact ⟨f, .succ he hf⟩

/-! ### Later dates -/

theorem compare_eq_lt_iff : compare a b = .lt ↔
    a.year < b.year ∨ a.year = b.year ∧
      (a.month < b.month ∨ a.month = b.month ∧ a.day < b.day) := by
  show (compare a.year b.year).then ((compare a.month b.month).then (compare a.day b.day)) = _ ↔ _
  rw [Ordering.then_eq_lt, Ordering.then_eq_lt, Int.compare_eq_lt, Nat.compare_eq_lt,
    Nat.compare_eq_lt, Int.compare_eq_eq, Nat.compare_eq_eq]

theorem compare_trans (hab : compare a b = .lt) (hbc : compare b c = .lt) :
    compare a c = .lt := by
  rw [compare_eq_lt_iff] at *
  omega

theorem compare_asymm (hab : compare a b = .lt) : ¬compare b a = .lt := by
  rw [compare_eq_lt_iff] at *
  omega

theorem Next.compare_eq (h : Next d e) : compare d e = .lt := by
  rw [compare_eq_lt_iff]
  cases h <;> omega

theorem DaysAfter.compare_eq (h : DaysAfter n d e) (hn : 0 < n) : compare d e = .lt := by
  induction h with
  | zero d => exact absurd hn (Nat.lt_irrefl 0)
  | @succ n a b c hnext hrest ih =>
    cases n with
    | zero =>
      cases hrest
      exact hnext.compare_eq
    | succ n => exact compare_trans hnext.compare_eq (ih (Nat.succ_pos n))

/-- Of two dates after the same one the later is the one that more days lead to. -/
theorem DaysAfter.compare_eq_lt_iff {m : Nat} (hb : DaysAfter m a b) (hc : DaysAfter n a c) :
    compare b c = .lt ↔ m < n := by
  have hlater {m n : Nat} {b c : Date} (hb : DaysAfter m a b) (hc : DaysAfter n a c)
      (h : m < n) : compare b c = .lt := by
    obtain ⟨k, rfl⟩ := Nat.exists_eq_add_of_lt h
    rw [Nat.add_assoc] at hc
    obtain ⟨e, he, hrest⟩ := hc.split
    rw [hb.unique he]
    exact hrest.compare_eq (Nat.succ_pos k)
  constructor
  · intro h
    by_contra hle
    rcases Nat.lt_or_eq_of_le (Nat.not_lt.mp hle) with hlt | rfl
    · exact compare_asymm h (hlater hc hb hlt)
    · rw [hb.unique hc] at h
      exact compare_asymm h h
  · exact hlater hb hc

end TablePipeline.Date
