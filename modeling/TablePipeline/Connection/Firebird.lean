import TablePipeline.Connection.Endpoint
import TablePipeline.Text.Utf8

/-!
# Firebird

Its client reports errors as text. Values that it has no type for are sent as text, and bytes that
come back are read as text.
-/

set_option autoImplicit false

namespace TablePipeline

inductive FirebirdError
  | sql (message : String) (code : Int)
  | socket (message : String)
  | other (message : String)
  deriving DecidableEq, Repr

namespace FirebirdError

def text : FirebirdError → String
  | sql message code => "sql error " ++ Digits.signedText code ++ ": " ++ message
  | socket message => "io error: " ++ message
  | other message => "error: " ++ message

/-- What is added to failures of the network. -/
def networkHint (endpoint : Endpoint) (f : Failure) : Failure :=
  match f.kind with
  | .hostUnreachable | .connectionRefused | .connectionTimeout =>
    { f with message := f.message ++
        ". Firebird servers are often reachable only through the office VPN; " ++
        "confirm the VPN is up and port " ++ Digits.text endpoint.port ++ " is open" }
  | _ => f

/-- The failure that an operator is told, by the words of the error. -/
def toFailure (endpoint : Endpoint) (e : FirebirdError) : Failure :=
  let lower := Text.lowerAscii e.text
  if Text.contains lower "user name and password" then endpoint.authFailed
  else if Text.contains lower "i/o error" ∧ Text.contains lower "open" then
    endpoint.unknownDatabase
  else match endpoint.sniff? e.text with
    | some f => networkHint endpoint f
    | none =>
      match e with
      | sql .. => ⟨.queryError, e.text⟩
      | _ => ⟨.unknown, "firebird at " ++ endpoint.text ++ ": " ++ e.text⟩

def onClose (endpoint : Endpoint) (e : FirebirdError) : Failure :=
  ⟨.unknown, "closing " ++ endpoint.text ++ ": " ++ e.text⟩

end FirebirdError

inductive FirebirdValue
  | null
  | boolean (value : Bool)
  | integer (value : Int64)
  | floating (value : Binary64)
  | text (value : String)
  | timestamp (value : Timestamp)
  | binary (bytes : List UInt8)
  deriving DecidableEq, Repr

namespace FirebirdValue

/-- A parameter as it is sent. Decimals and dates go as text, which the cast around the placeholder
reads. -/
def ofScalar : Scalar → FirebirdValue
  | .null => null
  | .boolean b => boolean b
  | .integer n => integer n
  | .float x => floating x
  | .timestamp t => timestamp t
  | v => text v.display

def toScalar : FirebirdValue → Scalar
  | null => .null
  | boolean b => .boolean b
  | integer n => .integer n
  | floating x => .float x
  | text s => .text s
  | timestamp t => .timestamp t
  | binary bytes => .text (Utf8.decodeLossy bytes)

/-- Rows of named values as a row set; the first row names the columns. -/
def rowSet (rows : List (List (String × FirebirdValue))) : RowSet where
  columns := match rows with
    | [] => []
    | first :: _ => first.map fun c => Text.trim c.1
  rows := rows.map fun row => row.map fun c => c.2.toScalar

end FirebirdValue

end TablePipeline
