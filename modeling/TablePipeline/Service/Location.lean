import TablePipeline.Service.Route
import TablePipeline.Text.Quoted

/-!
# Where runs and tables are kept

The location of the store of runs is a file or memory, after an optional scheme. Options follow a
question mark. A file can be opened if the directory that it is to stand in is there. The location
of a server has a scheme, and a port, if there is one, in digits.
-/

set_option autoImplicit false

namespace TablePipeline

inductive StoreLocation
  | memory
  | file (path : String)
  deriving DecidableEq, Repr

inductive LocationFault
  | unknownValue (value option : String)
  | unknownOption (option : String)
  | notText
  deriving DecidableEq, Repr

def LocationFault.message : LocationFault → String
  | unknownValue value option =>
    "unknown value " ++ Text.quoted value ++ " for `" ++ option ++ "`"
  | unknownOption option =>
    "unknown query parameter `" ++ option ++ "` while parsing connection URL"
  | notText => "invalid utf-8 sequence"

namespace StoreLocation

/-- Drops a text from the front as often as it stands there. -/
private def dropAll (start : List Char) (cs : List Char) : List Char :=
  if _h : start ≠ [] ∧ start.isPrefixOf cs ∧ cs ≠ [] then dropAll start (cs.drop start.length)
  else cs
termination_by cs.length
decreasing_by
  have h₁ := List.length_pos_iff.2 _h.1
  have h₂ := List.length_pos_iff.2 _h.2.2
  simp only [List.length_drop]
  omega

/-- The values that an option may have; any if there is no list. -/
def options : List (String × Option (List String)) := [
  ("mode", some ["ro", "rw", "rwc", "memory"]),
  ("cache", some ["private", "shared"]),
  ("immutable", some ["true", "1", "false", "0"]),
  ("vfs", none)]

private def checkOption (name value : String) : Except LocationFault Unit :=
  match options.lookup name with
  | none => .error (.unknownOption name)
  | some none => .ok ()
  | some (some values) => if value ∈ values then .ok () else .error (.unknownValue value name)

/-- An option and its value, with plus signs for blanks. -/
private def readOption (cs : List Char) : String × String :=
  let plain (cs : List Char) : String :=
    Utf8.decodeLossy (Route.segmentBytes (cs.map fun c => if c = '+' then ' ' else c))
  (plain (cs.takeWhile (· != '=')), plain ((cs.dropWhile (· != '=')).drop 1))

/-- Reads a location; options are read from left to right. -/
def read (s : String) : Except LocationFault StoreLocation := do
  let cs := dropAll "sqlite:".toList (dropAll "sqlite://".toList s.toList)
  let path := cs.takeWhile (· != '?')
  let options :=
    ((Text.splitChars '&' ((cs.dropWhile (· != '?')).drop 1)).filter (!·.isEmpty)).map readOption
  let location ← if path = ":memory:".toList then pure memory
    else match Utf8.decode? (Route.segmentBytes path) with
      | some path => pure (file path)
      | none => throw .notText
  options.forM fun (name, value) => checkOption name value
  return if ("mode", "memory") ∈ options then memory else location

/-- The directory of a file; the present one for a bare name. -/
def directory (path : String) : String :=
  let front := (path.toList.reverse.dropWhile (· != '/')).reverse
  match front with
  | [] => "."
  | ['/'] => "/"
  | front => String.ofList front.dropLast

end StoreLocation

namespace ServerLocation

inductive Fault
  | noScheme
  | noPort
  deriving DecidableEq, Repr

def Fault.message : Fault → String
  | noScheme => "relative URL without a base"
  | noPort => "invalid port number"

private def isSchemeChar (c : Char) : Bool := c.isAlphanum || c = '+' || c = '-' || c = '.'

/-- What follows the scheme and its colon. -/
private def afterScheme? (cs : List Char) : Option (List Char) :=
  match cs, cs.dropWhile isSchemeChar with
  | c :: _, ':' :: rest => if c.isAlpha then some rest else none
  | _, _ => none

/-- The host and port between two slashes and the path; none without the slashes. -/
private def authority : List Char → List Char
  | '/' :: '/' :: rest => rest.takeWhile fun c => c != '/' && c != '?' && c != '#'
  | _ => []

/-- What follows the host; a host in brackets may hold colons. -/
private def afterHost (cs : List Char) : List Char :=
  let host := (cs.reverse.takeWhile (· != '@')).reverse
  match host with
  | '[' :: _ => (host.dropWhile (· != ']')).drop 1
  | _ => host.dropWhile (· != ':')

/-- Checks the scheme, then the port. -/
def check (s : String) : Except Fault Unit :=
  match afterScheme? (Text.trimChars s.toList) with
  | none => .error .noScheme
  | some rest =>
    match afterHost (authority rest) with
    | ':' :: port =>
      if port.all Char.isDigit && Digits.value port ≤ 0xFFFF then .ok () else .error .noPort
    | _ => .ok ()

end ServerLocation

end TablePipeline
