import TablePipeline.Run.Id
import TablePipeline.Text.Utf8

/-!
# Routes

A request names a method and a path. The path leads to a route, and each route answers one method;
one that is read may also be asked for its head. The id of a run in a path may have bytes written
with a percent sign.
-/

set_option autoImplicit false

namespace TablePipeline

inductive Route
  | health
  | testConnection
  | sealText
  | createRun
  | runPipeline
  | showRun (id : String)
  | executeRun (id : String)
  | reconcileRun (id : String)
  deriving DecidableEq, Repr

namespace Route

private def hexValue? (c : Char) : Option Nat :=
  if !RunId.isHexDigit c then none
  else if c.isDigit then some (c.toNat - '0'.toNat)
  else some (c.toLower.toNat - 'a'.toNat + 10)

/-- The bytes of a segment; a percent sign with two hexadecimal digits stands for one. -/
def segmentBytes : List Char → List UInt8
  | [] => []
  | '%' :: a :: b :: cs =>
    match hexValue? a, hexValue? b with
    | some x, some y => UInt8.ofNat (16 * x + y) :: segmentBytes cs
    | _, _ => String.utf8EncodeChar '%' ++ segmentBytes (a :: b :: cs)
  | c :: cs => String.utf8EncodeChar c ++ segmentBytes cs

def segmentText? (segment : String) : Option String := Utf8.decode? (segmentBytes segment.toList)

/-- The segments of a path, without what follows a question mark or a number sign. -/
def segments (path : String) : List String :=
  (Text.splitChars '/' (path.toList.takeWhile fun c => c != '?' && c != '#')).map String.ofList

/-- The route of a path; ids are as they stand there. -/
def ofPath? (path : String) : Option Route :=
  match segments path with
  | ["", "healthz"] => some health
  | ["", "api", "v1", "connections", "test"] => some testConnection
  | ["", "api", "v1", "secrets", "encrypt"] => some sealText
  | ["", "api", "v1", "runs"] => some createRun
  | ["", "api", "v1", "pipelines", "run"] => some runPipeline
  | ["", "api", "v1", "runs", id] => if id.isEmpty then none else some (showRun id)
  | ["", "api", "v1", "runs", id, "execute"] => if id.isEmpty then none else some (executeRun id)
  | ["", "api", "v1", "runs", id, "reconcile"] =>
    if id.isEmpty then none else some (reconcileRun id)
  | _ => none

def method : Route → String
  | health | showRun _ => "GET"
  | _ => "POST"

def answers (r : Route) (method : String) : Bool :=
  method == r.method || (method == "HEAD" && r.method == "GET")

end Route

end TablePipeline
