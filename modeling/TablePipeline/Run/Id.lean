import TablePipeline.Text.Class

/-!
# Ids of runs

An id is 32 hexadecimal digits. They are written in groups of 8, 4, 4, 4 and 12 with hyphens; read
in any case, plain or in groups, and in groups also between braces or after `urn:uuid:`.
-/

set_option autoImplicit false

namespace TablePipeline.RunId

def isHexDigit (c : Char) : Bool :=
  c.isDigit || ('a' ≤ c && c ≤ 'f') || ('A' ≤ c && c ≤ 'F')

def groupSizes : List Nat := [8, 4, 4, 4, 12]

/-- Cuts digits into groups with hyphens between. -/
def grouped : List Nat → List Char → List Char
  | [], _ => []
  | [n], cs => cs.take n
  | n :: ns, cs => cs.take n ++ '-' :: grouped ns (cs.drop n)

/-- Reads 32 digits without hyphens. -/
private def readPlain? (cs : List Char) : Option (List Char) :=
  if cs.length = 32 ∧ cs.all isHexDigit then some cs else none

private def readGrouped? (cs : List Char) : Option (List Char) :=
  let groups := Text.splitChars '-' cs
  if groups.map (·.length) = groupSizes ∧ groups.all (·.all isHexDigit) then some groups.flatten
  else none

/-- What stands before the groups in a name of the scheme `urn`. -/
def scheme : List Char := "urn:uuid:".toList

private def readWrapped? (cs : List Char) : Option (List Char) :=
  match cs with
  | '\x7b' :: rest =>
    if rest.getLast? = some '\x7d' then readGrouped? rest.dropLast else none
  | cs =>
    if scheme.isPrefixOf cs then readGrouped? (cs.drop scheme.length) else readGrouped? cs

/-- Reads an id and gives it as it is written. -/
def read? (s : String) : Option String :=
  (readPlain? s.toList <|> readWrapped? s.toList).map fun digits =>
    String.ofList (grouped groupSizes (digits.map Char.toLower))

end TablePipeline.RunId
