import TablePipeline.Calendar.Reading
import TablePipeline.Json
import TablePipeline.Text.Class

/-!
# The clock of a rehearsal and labels of runs

A rehearsal has a clock of its own that starts at a fixed moment and advances by a millisecond a
step. Times from the clock are told as `<now>`, since no two rehearsals need agree on them. Runs
are named by numbers: in requests a label stands for an id; in what is told of the responses each id
is a label again.
-/

set_option autoImplicit false

namespace TablePipeline.Rehearsal

def start : Timestamp := .midnight ⟨2026, 10, 1, by decide, by decide, by decide⟩

def moment (millis : Nat) : Timestamp := (Timestamp.ofMillis? start.date millis).getD start

/-- The text of a moment, told as now if it came from the clock. -/
def momentText (t : Timestamp) : String :=
  if 0 ≤ t.nanosSince start then "<now>" else t.rfc3339

/-- Goes through a text and puts in what `f` gives for a part of it: the new characters, and how
many old ones they stand for, of which the first `skip` are done with. -/
def retellChars (f : List Char → Option (List Char × Nat)) : (skip : Nat) → List Char → List Char
  | _, [] => []
  | skip + 1, _ :: cs => retellChars f skip cs
  | 0, c :: cs =>
    match f (c :: cs) with
    | some (new, n + 1) => new ++ retellChars f n cs
    | _ => c :: retellChars f 0 cs

def lastUpdate : List Char := "(last update ".toList

def updateTime? (cs : List Char) : Option (List Char × Nat) :=
  if lastUpdate.isPrefixOf cs then
    let time := (cs.drop lastUpdate.length).takeWhile (· != ')')
    match Calendar.readRfc3339 (String.ofList time) with
    | .ok t => some (lastUpdate ++ (momentText t).toList, lastUpdate.length + time.length)
    | .error _ => none
  else none

/-- A message without times that came from the clock. -/
def timeless (s : String) : String := String.ofList (retellChars updateTime? 0 s.toList)

def runId (n : Nat) : String :=
  "00000000-0000-4000-8000-" ++ String.ofList (Digits.pad 12 n)

def runLabel (n : Nat) : String := "run#" ++ Digits.text n

private def idStart : List Char := "00000000-0000-4000-8000-".toList

/-- An id in front of a text, as its label. -/
def labelOfId? (cs : List Char) : Option (List Char × Nat) :=
  let digits := (cs.drop idStart.length).take 12
  if idStart.isPrefixOf cs && digits.length = 12 && digits.all Char.isDigit then
    some ((runLabel (Digits.value digits)).toList, idStart.length + 12)
  else none

private def labelStart : List Char := "run#".toList

/-- A label in front of a text, as the id of one of the first runs. -/
def idOfLabel? (runs : Nat) (cs : List Char) : Option (List Char × Nat) :=
  let digits := (cs.drop labelStart.length).takeWhile Char.isDigit
  if labelStart.isPrefixOf cs && !digits.isEmpty && Digits.value digits < runs then
    some ((runId (Digits.value digits)).toList, labelStart.length + digits.length)
  else none

/-- A path with ids for the labels of the first runs. -/
def resolvePath (runs : Nat) (path : String) : String :=
  String.ofList (retellChars (idOfLabel? runs) 0 path.toList)

/-- A text as it is told: labels for ids, and no times of the clock. -/
def retellText (s : String) : String :=
  timeless (String.ofList (retellChars labelOfId? 0 s.toList))

private def portMark : List Char := "<port>".toList

def fillPort (port : Nat) (s : String) : String :=
  let port? (cs : List Char) : Option (List Char × Nat) :=
    if portMark.isPrefixOf cs then some (Digits.write port, portMark.length) else none
  String.ofList (retellChars port? 0 s.toList)

mutual

/-- A value as it is told. Members that `special` names become what it gives, or are left out. -/
def retell (special : String → Option (Json → Option Json)) : Json → Json
  | .text s => .text (retellText s)
  | .list items => .list (retellItems special items)
  | .object members => .object (retellMembers special members)
  | j => j

private def retellItems (special : String → Option (Json → Option Json)) : List Json → List Json
  | [] => []
  | j :: js => retell special j :: retellItems special js

private def retellMembers (special : String → Option (Json → Option Json)) :
    List (String × Json) → List (String × Json)
  | [] => []
  | (name, j) :: rest =>
    let told := match special name with
      | some f => f j
      | none => some (retell special j)
    match told with
    | some j => (name, j) :: retellMembers special rest
    | none => retellMembers special rest

end

end TablePipeline.Rehearsal
