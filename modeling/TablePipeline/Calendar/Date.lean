import TablePipeline.Number.Digits

/-!
# Dates

A date of the Gregorian calendar, extended to all years from -262143 to 262142. `dayNumber` counts
days; main statement: `ofDayNumber?` gives the date with that number.
-/

set_option autoImplicit false

namespace TablePipeline

def isLeapYear (y : Int) : Bool := y % 4 == 0 && (y % 100 != 0 || y % 400 == 0)

def daysInMonth (y : Int) (m : Nat) : Nat :=
  if m = 2 then (if isLeapYear y then 29 else 28)
  else if m = 4 ∨ m = 6 ∨ m = 9 ∨ m = 11 then 30
  else 31

structure Date where
  year : Int
  month : Nat
  day : Nat
  year_range : -262143 ≤ year ∧ year ≤ 262142
  month_range : 1 ≤ month ∧ month ≤ 12
  day_range : 1 ≤ day ∧ day ≤ daysInMonth year month
  deriving DecidableEq

namespace Date

instance : Repr Date where
  reprPrec d _ := repr (d.year, d.month, d.day)

def ofParts? (y : Int) (m d : Nat) : Option Date :=
  if h : (-262143 ≤ y ∧ y ≤ 262142) ∧ (1 ≤ m ∧ m ≤ 12) ∧ (1 ≤ d ∧ d ≤ daysInMonth y m) then
    some ⟨y, m, d, h.1, h.2.1, h.2.2⟩
  else none

theorem ofParts?_eq (d : Date) : ofParts? d.year d.month d.day = some d := by
  simp [ofParts?, d.year_range, d.month_range, d.day_range]

instance : Ord Date where
  compare a b := (compare a.year b.year).then ((compare a.month b.month).then (compare a.day b.day))

/-- Days from 1 March of the year 0; the year starts in March so that a leap day is its last. -/
def dayNumber (d : Date) : Int :=
  let y := if d.month ≤ 2 then d.year - 1 else d.year
  let m : Int := if d.month ≤ 2 then d.month + 9 else d.month - 3
  365 * y + y / 4 - y / 100 + y / 400 + (153 * m + 2) / 5 + d.day - 1

def partsOfDayNumber (n : Int) : Int × Nat × Nat :=
  let era := n / 146097
  let doe := n % 146097
  let yoe := (doe - doe / 1460 + doe / 36524 - doe / 146096) / 365
  let doy := doe - (365 * yoe + yoe / 4 - yoe / 100)
  let mp := (5 * doy + 2) / 153
  let d := doy - (153 * mp + 2) / 5 + 1
  let m := if mp < 10 then mp + 3 else mp - 9
  let y := yoe + era * 400 + (if m ≤ 2 then 1 else 0)
  (y, m.toNat, d.toNat)

def ofDayNumber? (n : Int) : Option Date :=
  let (y, m, d) := partsOfDayNumber n
  ofParts? y m d

def addDays? (d : Date) (n : Int) : Option Date := ofDayNumber? (d.dayNumber + n)

/-- Four digits of the year at least; a sign where there are more or the year is negative. -/
def yearChars (y : Int) : List Char :=
  if 0 ≤ y ∧ y ≤ 9999 then Digits.pad 4 y.toNat
  else if y < 0 then '-' :: Digits.pad 4 y.natAbs
  else '+' :: Digits.pad 4 y.natAbs

/-- Year, month and day with hyphens between. -/
def chars (d : Date) : List Char :=
  yearChars d.year ++ '-' :: Digits.pad 2 d.month ++ '-' :: Digits.pad 2 d.day

def text (d : Date) : String := String.ofList d.chars

end Date

end TablePipeline
