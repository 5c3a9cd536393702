import TablePipeline.Calendar.Timestamp
import TablePipeline.Number.Integer
import TablePipeline.Text.Class

/-!
# Reading dates and timestamps

A layout is a list of fields; a number in it may have blanks in front and fewer digits than its
width. RFC 3339 is read strictly, with a cause for each refusal.
-/

set_option autoImplicit false

namespace TablePipeline.Calendar

attribute [local instance (high)] instPowNat

inductive Field
  /-- Up to four digits, or any number of them behind a sign. -/
  | year
  | month
  | day
  | hour
  | minute
  | second
  /-- Nothing, or a point and digits, of which the first nine count. -/
  | fraction
  | literal (c : Char)
  /-- Any number of blanks. -/
  | blanks
  deriving DecidableEq

/-- What has been read so far. -/
structure Parts where
  year : Int := 0
  month : Nat := 0
  day : Nat := 0
  hour : Nat := 0
  minute : Nat := 0
  second : Nat := 0
  nano : Nat := 0

/-- One to `width` digits and the rest. -/
def takeNumber (width : Nat) (cs : List Char) : Option (Nat × List Char) :=
  let digits := (cs.take width).takeWhile Char.isDigit
  if digits.isEmpty then none else some (Digits.value digits, cs.drop digits.length)

/-- Digits behind a point as nanoseconds; digits past nine are skipped. -/
def takeNanos (cs : List Char) : Option (Nat × List Char) :=
  let digits := cs.takeWhile Char.isDigit
  if digits.isEmpty then none
  else
    let used := digits.take 9
    some (Digits.value used * 10 ^ (9 - used.length), cs.dropWhile Char.isDigit)

/-- A year: up to four digits, or all digits behind a sign. -/
def takeYear (cs : List Char) : Option (Int × List Char) :=
  match cs with
  | '-' :: rest => (takeNumber rest.length rest).map fun (n, rest) => (-(n : Int), rest)
  | '+' :: rest => (takeNumber rest.length rest).map fun (n, rest) => ((n : Int), rest)
  | _ => (takeNumber 4 cs).map fun (n, rest) => ((n : Int), rest)

def Field.read (f : Field) (p : Parts) (cs : List Char) : Option (Parts × List Char) :=
  let number (set : Nat → Parts) :=
    (takeNumber 2 (Text.trimFront cs)).map fun (n, rest) => (set n, rest)
  match f with
  | .year => (takeYear (Text.trimFront cs)).map fun (y, rest) => ({ p with year := y }, rest)
  | .month => number fun n => { p with month := n }
  | .day => number fun n => { p with day := n }
  | .hour => number fun n => { p with hour := n }
  | .minute => number fun n => { p with minute := n }
  | .second => number fun n => { p with second := n }
  | .fraction =>
    match cs with
    | '.' :: rest => (takeNanos rest).map fun (n, rest) => ({ p with nano := n }, rest)
    | _ => some (p, cs)
  | .literal c =>
    match cs with
    | c' :: rest => if c = c' then some (p, rest) else none
    | [] => none
  | .blanks => some (p, Text.trimFront cs)

/-- Reads the fields of a layout in turn; nothing may be left. -/
def readFields : List Field → Parts → List Char → Option Parts
  | [], p, [] => some p
  | [], _, _ :: _ => none
  | f :: fs, p, cs => (f.read p cs).bind fun (p, rest) => readFields fs p rest

def Parts.date? (p : Parts) : Option Date := Date.ofParts? p.year p.month p.day

/-- The second of the day and the nanoseconds; second 60 is a leap second. -/
def Parts.clock? (p : Parts) : Option (Nat × Nat) :=
  if 23 < p.hour ∨ 59 < p.minute ∨ 60 < p.second then none
  else if p.second = 60 then some (p.hour * 3600 + p.minute * 60 + 59, 1000000000 + p.nano)
  else some (p.hour * 3600 + p.minute * 60 + p.second, p.nano)

def Parts.timestamp? (p : Parts) : Option Timestamp := do
  let date ← p.date?
  let (second, nano) ← p.clock?
  Timestamp.ofParts? date second nano

/-- The layouts of a date, in the order in which they are tried. -/
def dateLayouts : List (List Field) :=
  [[.year, .literal '-', .month, .literal '-', .day],
   [.day, .literal '/', .month, .literal '/', .year],
   [.year, .literal '/', .month, .literal '/', .day],
   [.day, .literal '.', .month, .literal '.', .year]]

def clockFields : List Field :=
  [.hour, .literal ':', .minute, .literal ':', .second, .fraction]

/-- The layouts of a timestamp, in the order in which they are tried. -/
def timestampLayouts : List (List Field) :=
  [[.year, .literal '-', .month, .literal '-', .day, .blanks] ++ clockFields,
   [.year, .literal '-', .month, .literal '-', .day, .literal 'T'] ++ clockFields]

inductive ReadError
  | outOfRange
  | invalid
  | tooShort
  | tooLong
  deriving DecidableEq, Repr

def ReadError.message : ReadError → String
  | .outOfRange => "input is out of range"
  | .invalid => "input contains invalid characters"
  | .tooShort => "premature end of input"
  | .tooLong => "trailing input"

/-- Exactly `n` digits, behind those already read. -/
private def exactDigits : Nat → Nat → List Char → Except ReadError (Nat × List Char)
  | 0, n, cs => .ok (n, cs)
  | _ + 1, _, [] => .error .tooShort
  | k + 1, n, c :: cs =>
    if c.isDigit then exactDigits k (10 * n + Digits.ofChar c) cs else .error .invalid

private def strictNumber (width : Nat) (cs : List Char) : Except ReadError (Nat × List Char) :=
  exactDigits width 0 cs

private theorem exactDigits_append (ds rest : List Char) (hds : ∀ c ∈ ds, c.isDigit = true)
    (n : Nat) : exactDigits ds.length n (ds ++ rest) =
      .ok (ds.foldl (fun n c => 10 * n + Digits.ofChar c) n, rest) := by
  induction ds generalizing n with
  | nil => rfl
  | cons d ds ih =>
    rw [List.length_cons, List.cons_append, exactDigits, if_pos (hds d List.mem_cons_self)]
    exact ih (fun c hc => hds c (List.mem_cons_of_mem d hc)) _

/-- A number that is filled up to a width is read back. -/
theorem strictNumber_pad {width n : Nat} (hw : 0 < width) (h : n < 10 ^ width)
    (rest : List Char) : strictNumber width (Digits.pad width n ++ rest) = .ok (n, rest) := by
  have hread := exactDigits_append (Digits.pad width n) rest
    (fun _ hc => Digits.isDigit_of_mem_pad hc) 0
  rw [Digits.length_pad hw h] at hread
  rw [strictNumber, hread]
  exact congrArg (fun k => Except.ok (k, rest)) (Digits.value_pad width n)

theorem strictNumber_of_not_digit {width : Nat} (hw : 0 < width) {c : Char}
    (hc : c.isDigit = false) (rest : List Char) :
    strictNumber width (c :: rest) = .error .invalid := by
  obtain ⟨k, rfl⟩ := Nat.exists_eq_succ_of_ne_zero (Nat.ne_of_gt hw)
  rw [strictNumber, exactDigits, hc, if_neg Bool.false_ne_true]

private def strictChar (c : Char) : List Char → Except ReadError (List Char)
  | [] => .error .tooShort
  | c' :: cs => if c = c' then .ok cs else .error .invalid

theorem strictChar_cons (c : Char) (rest : List Char) : strictChar c (c :: rest) = .ok rest :=
  if_pos rfl

/-- The minutes that a zone is ahead of universal time. -/
def readOffset : List Char → Except ReadError (Int × List Char)
  | [] => .error .tooShort
  | c :: cs => do
    if c = 'Z' ∨ c = 'z' then return (0, cs)
    let sign : Int ← if c = '+' then pure 1
      else if c = '-' ∨ c = Char.ofNat 0x2212 then pure (-1)
      else throw .invalid
    if (String.ofList cs).utf8ByteSize < 2 then throw .tooShort
    let (hours, cs) ← strictNumber 2 cs
    let cs ← strictChar ':' cs
    if (String.ofList cs).utf8ByteSize < 2 then throw .tooShort
    match cs with
    | a :: b :: cs =>
      if !(a.isDigit && b.isDigit) then throw .invalid
      let minutes := Digits.value [a, b]
      if 59 < minutes then throw .outOfRange
      return (sign * (hours * 60 + minutes : Nat), cs)
    | _ => throw .invalid

theorem readOffset_nil : readOffset [] = .error .tooShort := rfl

theorem readOffset_utc (rest : List Char) : readOffset ('Z' :: rest) = .ok (0, rest) := rfl

/-- The byte length of date and time without a fraction. -/
def rfc3339Length : Nat := 19

/-- Reads an RFC 3339 time and takes it to universal time. The date is checked before the time is
read, the time before the zone, and the end before the range of the zone. -/
def readRfc3339 (s : String) : Except ReadError Timestamp := do
  if s.utf8ByteSize < rfc3339Length then throw .tooShort
  let (year, cs) ← strictNumber 4 s.toList
  let cs ← strictChar '-' cs
  let (month, cs) ← strictNumber 2 cs
  let cs ← strictChar '-' cs
  let (day, cs) ← strictNumber 2 cs
  let parts : Parts := { year := year, month := month, day := day }
  if parts.date?.isNone then throw .outOfRange
  let cs ← match cs with
    | [] => throw .tooShort
    | c :: cs => if c = 't' ∨ c = 'T' ∨ c = ' ' then pure cs else throw .invalid
  let (hour, cs) ← strictNumber 2 cs
  let cs ← strictChar ':' cs
  let (minute, cs) ← strictNumber 2 cs
  let cs ← strictChar ':' cs
  let (second, cs) ← strictNumber 2 cs
  let (nano, cs) ← match cs with
    | '.' :: rest => match takeNanos rest with
      | some found => pure found
      | none => throw (if rest.isEmpty then .tooShort else .invalid)
    | _ => pure (0, cs)
  let parts := { parts with hour := hour, minute := minute, second := second, nano := nano }
  if parts.clock?.isNone then throw .outOfRange
  let (offset, cs) ← readOffset cs
  if !cs.isEmpty then throw .tooLong
  if 23 * 60 + 59 < offset.natAbs then throw .outOfRange
  match parts.timestamp?.bind (·.minusMinutes? offset) with
  | some t => pure t
  | none => throw .outOfRange

/-- Reads a timestamp: RFC 3339 first, then the layouts. -/
def readTimestamp? (s : String) : Option Timestamp :=
  match readRfc3339 s with
  | .ok t => some t
  | .error _ => timestampLayouts.findSome? fun l => (readFields l {} s.toList).bind (·.timestamp?)

/-- Reads a date between blanks: the layouts of a date first, then those of a timestamp. -/
def readDate? (s : String) : Option Date :=
  let s := Text.trim s
  (dateLayouts.findSome? fun l => (readFields l {} s.toList).bind (·.date?)) <|>
    (readTimestamp? s).map (·.date)

end TablePipeline.Calendar
