import TablePipeline.Number.Binary64.Layout

/-!
# JSON values

Whole numbers of 64 bits, signed or not, are kept exactly; any other number is binary. The members
of an object have increasing names, so each object has one form.
-/

set_option autoImplicit false

namespace TablePipeline

inductive Json
  | null
  | bool (value : Bool)
  | int (value : Int)
  | float (value : Binary64)
  | text (value : String)
  | list (items : List Json)
  | object (members : List (String × Json))

namespace Json

instance : Inhabited Json := ⟨null⟩

/-- Puts a member in its place; one of the same name is replaced. -/
def insertMember (name : String) (value : Json) : List (String × Json) → List (String × Json)
  | [] => [(name, value)]
  | (n, v) :: rest =>
    if name < n then (name, value) :: (n, v) :: rest
    else if name = n then (name, value) :: rest
    else (n, v) :: insertMember name value rest

/-- The object of some members; of two with one name the later counts. -/
def ofMembers (members : List (String × Json)) : Json :=
  object (members.foldl (fun acc (n, v) => insertMember n v acc) [])

def member? (name : String) : Json → Option Json
  | object members => (members.find? (·.1 == name)).map (·.2)
  | _ => none

private def hex4 (n : Nat) : List Char :=
  let digits := Digits.writeHex n
  List.replicate (4 - digits.length) '0' ++ digits

def escapeChar (c : Char) : List Char :=
  if c = '"' ∨ c = '\\' then ['\\', c]
  else if c = '\n' then ['\\', 'n']
  else if c = '\r' then ['\\', 'r']
  else if c = '\t' then ['\\', 't']
  else if c = Char.ofNat 8 then ['\\', 'b']
  else if c = Char.ofNat 12 then ['\\', 'f']
  else if c.toNat < 0x20 then '\\' :: 'u' :: hex4 c.toNat
  else [c]

def writeText (s : String) : String := String.ofList ('"' :: s.toList.flatMap escapeChar ++ ['"'])

mutual

/-- The text of a value, without blanks. Numbers that are not finite have none and become null. -/
def write : Json → String
  | null => "null"
  | bool b => if b then "true" else "false"
  | int n => Digits.signedText n
  | float x => if x.isFinite then x.text .json else "null"
  | text s => writeText s
  | list items => "[" ++ writeItems items ++ "]"
  | object members => "\x7b" ++ writeMembers members ++ "\x7d"

private def writeItems : List Json → String
  | [] => ""
  | [v] => write v
  | v :: vs => write v ++ "," ++ writeItems vs

private def writeMembers : List (String × Json) → String
  | [] => ""
  | [(n, v)] => writeText n ++ ":" ++ write v
  | (n, v) :: rest => writeText n ++ ":" ++ write v ++ "," ++ writeMembers rest

end

end Json

end TablePipeline
