import TablePipeline.Connection.Client
import TablePipeline.Exchange.Scalar
import TablePipeline.Rehearsal.Server

/-!
# Clients and servers in JSON

Errors of clients, values of Firebird, scripts of servers and what servers saw.
-/

set_option autoImplicit false

namespace TablePipeline.Exchange

def failure (f : Failure) : Json :=
  .ofMembers [("kind", .text f.kind.name), ("message", .text f.message)]

def socketError : String → SocketError
  | "ConnectionRefused" => .refused
  | "TimedOut" => .timedOut
  | "NotFound" | "AddrNotAvailable" => .notFound
  | _ => .other

def readClientError (j : Json) : Read ClientError := do
  match j.member? "database", j.member? "io", j.member? "tls" with
  | some m, _, _ => return .database (← readText m) (memberText? j "code") none
  | none, some kind, _ => return .socket (socketError (← readText kind)) (← memberText j "message")
  | none, none, some m => return .tls (← readText m)
  | none, none, none => return .protocol (← memberText j "protocol")

def readFirebirdError (j : Json) : Read FirebirdError := do
  match j.member? "sql", member j "code", j.member? "io" with
  | some m, .int code, _ => return .sql (← readText m) code
  | none, _, some _ => return .socket (← memberText j "message")
  | none, _, none => return .other (← memberText j "other")
  | _, _, _ => form "error"

def firebirdValue : FirebirdValue → Json
  | .null => .text "null"
  | .boolean b => .ofMembers [("boolean", .bool b)]
  | .integer n => .ofMembers [("integer", .int n.toInt)]
  | .floating x => .ofMembers [("floating", .text (floatText x))]
  | .text s => .ofMembers [("text", .text s)]
  | .timestamp t => .ofMembers [("timestamp", .text t.text)]
  | .binary _ => .null

private def readByte : Json → Read UInt8
  | .int n => .ok (UInt8.ofNat n.toNat)
  | _ => form "byte"

def readFirebirdValue (j : Json) : Read FirebirdValue := do
  match j.member? "bin" with
  | some bytes => return .binary (← (← readList bytes).mapM readByte)
  | none => return .ofScalar (← readScalar j)

def readNamedValue : Json → Read (String × FirebirdValue)
  | .list [name, v] => do return (← readText name, ← readFirebirdValue v)
  | _ => form "cell"

private def readError? (j : Json) (name : String) : Read (Option FirebirdError) :=
  match j.member? name with
  | some e => some <$> readFirebirdError e
  | none => .ok none

def readRule (j : Json) : Read Rehearsal.ServerRule := do
  let columns ← match j.member? "columns" with
    | some cs => some <$> (← readList cs).mapM (memberText · "name")
    | none => pure none
  return {
    start := ← memberText j "sql"
    skip := match member j "skip" with | .int n => n.toNat | _ => 0
    columns
    rows := ← (← memberList j "rows").mapM fun r => do (← readList r).mapM readFirebirdValue
    error := ← readError? j "error" }

def readServer (j : Json) : Read Rehearsal.Server := do
  return {
    rules := ← (← memberList j "rules").mapM readRule
    connectError := ← readError? j "connectError"
    closeError := ← readError? j "disconnectError"
    isDown := match member j "down" with | .bool b => b | _ => false }

/-- How many parameters a statement may have to be told in full. -/
def maxToldParams : Nat := 500

def serverEvent : Rehearsal.ServerEvent → Json
  | .connected e password => .ofMembers [("connect", .text e.user), ("database", .text e.database),
      ("password", .text password), ("host", .text e.host), ("port", .int e.port)]
  | .asked sql params =>
    if maxToldParams < params.length then
      .ofMembers [("sqlStart", .text (String.ofList (sql.toList.take 60))),
        ("sqlLength", .int sql.utf8ByteSize), ("paramCount", .int params.length)]
    else
      .ofMembers [("sql", .text sql), ("params", .list (params.map fun
        | .null => .null
        | v => firebirdValue v))]

end TablePipeline.Exchange
