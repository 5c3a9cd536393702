import TablePipeline.Connection.Endpoint
import TablePipeline.Warehouse.Table

/-!
# Failures of database clients

What the clients of Postgres and MySQL report, its text, and the failure that an operator is told. A
failed login or a missing database is told apart while connecting only.
-/

set_option autoImplicit false

namespace TablePipeline

inductive ClientError
  | configuration (message : String)
  /-- The server's message, with its state and its number where it gives them. -/
  | database (message : String) (state : Option String) (number : Option Nat)
  | socket (error : SocketError) (message : String)
  | tls (message : String)
  | protocol (message : String)
  | decode (message : String)
  | decodeColumn (index : Nat) (message : String)
  /-- A row was asked for and none came. -/
  | noRow
  deriving DecidableEq, Repr

namespace ClientError

def text : ClientError → String
  | configuration message => "error with configuration: " ++ message
  | database message _ _ => "error returned from database: " ++ message
  | socket _ message => "error communicating with database: " ++ message
  | tls message => "error occurred while attempting to establish a TLS connection: " ++ message
  | protocol message => "encountered unexpected or invalid data: " ++ message
  | decode message => "error occurred while decoding: " ++ message
  | decodeColumn index message =>
    "error occurred while decoding column " ++ Digits.text index ++ ": " ++ message
  | noRow => "no rows returned by a query that expected to return at least one row"

/-- The text of an error and those of its causes. -/
def messages (e : ClientError) : List String :=
  match e with
  | configuration message | database message _ _ | socket _ message | tls message
  | decode message | decodeColumn _ message => [e.text, message]
  | protocol _ | noRow => [e.text]

def noRouteText : String := "Network is unreachable (os error 101)"

def noRoute : ClientError := .socket .other noRouteText

/-- The server's message with its state, or the text of any other error. -/
def withState (e : ClientError) : String :=
  match e with
  | database message (some state) _ => message ++ " (SQLSTATE " ++ state ++ ")"
  | database message none _ => message
  | e => e.text

/-- The server's message with its number if it gives one, or the text of the error. -/
def withNumber (e : ClientError) : String :=
  match e with
  | database message _ (some number) => message ++ " (error " ++ Digits.text number ++ ")"
  | e => e.text

/-- A failure that is told by its words, or else not known. -/
private def sniffed (endpoint : Endpoint) (e : ClientError) : Failure :=
  (endpoint.sniff? e.text).getD
    ⟨.unknown, "connecting to " ++ endpoint.text ++ ": " ++ e.text⟩

def postgresConnect (endpoint : Endpoint) (e : ClientError) : Failure :=
  match e with
  | database _ state _ =>
    if state = some "28P01" ∨ state = some "28000" then endpoint.authFailed
    else if state = some "3D000" then endpoint.unknownDatabase
    else ⟨.queryError, e.withState⟩
  | socket error message => endpoint.ofSocket error message
  | e => sniffed endpoint e

def postgresQuery (endpoint : Endpoint) (e : ClientError) : Failure :=
  match e with
  | socket error message => endpoint.ofSocket error message
  | e => ⟨.queryError, e.withState⟩

/-- Connecting to MySQL failed; it numbers its errors. -/
def mysqlConnect (endpoint : Endpoint) (e : ClientError) : Failure :=
  match e with
  | database _ state number =>
    if number = some 1045 ∨ number = some 1044 then endpoint.authFailed
    else if number = some 1049 then endpoint.unknownDatabase
    else if state = some "28000" then endpoint.authFailed
    else ⟨.queryError, e.withNumber⟩
  | socket error message => endpoint.ofSocket error message
  | e => sniffed endpoint e

def toWarehouse (e : ClientError) : WarehouseError := .query e.withState

end ClientError

end TablePipeline
