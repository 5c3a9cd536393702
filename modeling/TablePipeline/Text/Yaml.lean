import TablePipeline.Number.Digits
import TablePipeline.Text.Class

/-!
# Writing YAML

Maps and lists are written in block style, two blanks deeper for each map; the items of a list stand
as deep as its name. A text stands plain unless it could be read as something else.
-/

set_option autoImplicit false

namespace TablePipeline

inductive Yaml
  | text (value : String)
  | whole (value : Nat)
  | boolean (value : Bool)
  | list (items : List Yaml)
  | map (members : List (String × Yaml))

namespace Yaml

/-- Words that are read as something other than text. -/
def reserved : List String := ["", "~", "null", "true", "false", "yes", "no", "on", "off"]

private def isPlainChar (c : Char) : Bool :=
  c.isAlphanum || c = ' ' || c = '/' || c = '_' || c = '-' || c = '.' || c = '\x7b' || c = '\x7d'

/-- Whether a text can stand without quotes: it begins with a letter or a slash, and none of its
characters has a meaning of its own there. -/
def isPlain (s : String) : Bool :=
  (match s.toList with
    | [] => false
    | c :: cs => (c.isAlpha || c = '/') && cs.all isPlainChar && (c :: cs).getLast? != some ' ') &&
    !reserved.contains (Text.lowerAscii s)

/-- A text on one line, in single quotes where it needs them. -/
def scalarText (s : String) : String :=
  if isPlain s then s
  else
    String.ofList ('\'' :: s.toList.flatMap (fun c => if c = '\'' then [c, c] else [c]) ++ ['\''])

private def blanks (n : Nat) : String := String.ofList (List.replicate n ' ')

mutual

/-- What follows a name or a dash, `depth` blanks deep, with the end of its line. -/
def writeAt (depth : Nat) : Yaml → String
  | text s => " " ++ scalarText s ++ "\n"
  | whole n => " " ++ Digits.text n ++ "\n"
  | boolean b => (if b then " true" else " false") ++ "\n"
  | list [] => " []\n"
  | list (item :: items) => "\n" ++ writeItems depth (item :: items)
  | map [] => " \x7b\x7d\n"
  | map (m :: members) => "\n" ++ writeMembers (depth + 2) (m :: members)

private def writeItems (depth : Nat) : List Yaml → String
  | [] => ""
  | map (m :: members) :: items =>
    let body := writeMembers (depth + 2) (m :: members)
    blanks depth ++ "- " ++ String.ofList (body.toList.drop (depth + 2)) ++ writeItems depth items
  | item :: items => blanks depth ++ "-" ++ writeAt depth item ++ writeItems depth items

private def writeMembers (depth : Nat) : List (String × Yaml) → String
  | [] => ""
  | (name, value) :: rest =>
    blanks depth ++ scalarText name ++ ":" ++ writeAt depth value ++ writeMembers depth rest

end

/-- A document: the members of a map, or any other value on its own. -/
def write : Yaml → String
  | map (m :: members) => writeMembers 0 (m :: members)
  | v => writeAt 0 v

end Yaml

end TablePipeline
