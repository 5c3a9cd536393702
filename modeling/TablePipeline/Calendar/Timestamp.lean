import TablePipeline.Calendar.Date

/-!
# Points in time

A timestamp is a date, a second of the day and nanoseconds. A leap second is the last second of a
minute with a thousand million nanoseconds more; it is written as second 60.
-/

set_option autoImplicit false

namespace TablePipeline

@[ext]
structure Timestamp where
  date : Date
  second : Nat
  nano : Nat
  second_lt : second < 86400
  nano_lt : nano < 2000000000
  leap_second : 1000000000 ≤ nano → second % 60 = 59
  deriving DecidableEq

namespace Timestamp

instance : Repr Timestamp where
  reprPrec t _ := repr (t.date, t.second, t.nano)

def ofParts? (date : Date) (second nano : Nat) : Option Timestamp :=
  if h : second < 86400 ∧ nano < 2000000000 ∧ (1000000000 ≤ nano → second % 60 = 59) then
    some ⟨date, second, nano, h.1, h.2.1, h.2.2⟩
  else none

instance : Ord Timestamp where
  compare a b :=
    (compare a.date b.date).then ((compare a.second b.second).then (compare a.nano b.nano))

def midnight (d : Date) : Timestamp := ⟨d, 0, 0, by decide, by decide, by decide⟩

/-- Nanoseconds as a fraction of none, three, six or nine digits, whichever is exact first. -/
def fractionChars (nano : Nat) : List Char :=
  if nano = 0 then []
  else if nano % 1000000 = 0 then '.' :: Digits.pad 3 (nano / 1000000)
  else if nano % 1000 = 0 then '.' :: Digits.pad 6 (nano / 1000)
  else '.' :: Digits.pad 9 nano

def clockChars (second nano : Nat) : List Char :=
  let s := second % 60 + nano / 1000000000
  Digits.pad 2 (second / 3600) ++ ':' :: Digits.pad 2 (second / 60 % 60) ++ ':' :: Digits.pad 2 s

def charsWith (separator : Char) (t : Timestamp) : List Char :=
  t.date.chars ++ separator :: clockChars t.second t.nano ++
    fractionChars (t.nano % 1000000000)

def text (t : Timestamp) : String := String.ofList (t.charsWith ' ')

def rfc3339 (t : Timestamp) : String := String.ofList (t.charsWith 'T') ++ "+00:00"

/-- The nanoseconds since the start of the day counting; a leap second lies inside the next one. -/
def totalNanos (t : Timestamp) : Int :=
  (t.date.dayNumber * 86400 + t.second) * 1000000000 + t.nano

/-- Nanoseconds from `b` to `a`. A leap second counts as one second more from a later time of day
on. -/
def nanosSince (a b : Timestamp) : Int :=
  let leap : Int :=
    if b.second < a.second ∧ 1000000000 ≤ b.nano then 1000000000
    else if a.second < b.second ∧ 1000000000 ≤ a.nano then -1000000000
    else 0
  a.totalNanos - b.totalNanos + leap

/-- A moment some milliseconds after midnight of a day, if its date is in range. -/
def ofMillis? (date : Date) (millis : Nat) : Option Timestamp := do
  let day ← date.addDays? (millis / 86400000)
  ofParts? day (millis % 86400000 / 1000) (millis % 1000 * 1000000)

/-- The same moment some minutes earlier on the clock, if its date is in range. -/
def minusMinutes? (t : Timestamp) (minutes : Int) : Option Timestamp := do
  let total : Int := (t.second : Int) - minutes * 60
  let day ← t.date.addDays? (total / 86400)
  ofParts? day (total % 86400).toNat t.nano

end Timestamp

end TablePipeline
