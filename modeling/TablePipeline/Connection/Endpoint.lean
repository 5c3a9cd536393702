import TablePipeline.Connection.Descriptor
import TablePipeline.Failure
import TablePipeline.Text.Class

/-!
# Endpoints

Where a connection leads to, and what to tell an operator when it fails. Failures of the network are
told by their kind, or else by words in their text.
-/

set_option autoImplicit false

namespace TablePipeline

structure Endpoint where
  host : String
  port : Nat
  user : String
  database : String
  deriving DecidableEq, Repr

inductive SocketError
  | refused
  | timedOut
  | notFound
  | other
  deriving DecidableEq, Repr

namespace Endpoint

/-- The endpoint of a connection; a port that is not set is that of its kind. -/
def ofConnection (c : Connection) : Endpoint :=
  ⟨c.host, c.port.getD c.kind.defaultPort, c.user, c.database⟩

def text (e : Endpoint) : String := e.host ++ ":" ++ Digits.text e.port

def authFailed (e : Endpoint) : Failure :=
  ⟨.authFailed, "authentication failed for user '" ++ e.user ++ "' on " ++ e.text ++
    "; check the connection's username and password"⟩

def unreachable (e : Endpoint) : Failure :=
  ⟨.hostUnreachable, "host " ++ e.text ++
    " is unreachable; check the host name, firewall rules and VPN connection"⟩

def refused (e : Endpoint) : Failure :=
  ⟨.connectionRefused, "connection to " ++ e.text ++
    " was refused; check that the database server is running and accepts remote connections" ++
    " on port " ++ Digits.text e.port⟩

private def behindFirewall : String := "; the host may be behind a firewall or VPN"

/-- No answer within some time, told in whole seconds. -/
def timedOutAfter (e : Endpoint) (millis : Nat) : Failure :=
  ⟨.connectionTimeout, "connection to " ++ e.text ++ " timed out after " ++
    Digits.text (millis / 1000) ++ "s" ++ behindFirewall⟩

def timedOut (e : Endpoint) : Failure :=
  ⟨.connectionTimeout, "connection to " ++ e.text ++ " timed out" ++ behindFirewall⟩

def unknownDatabase (e : Endpoint) : Failure :=
  ⟨.queryError, "database '" ++ e.database ++ "' does not exist on " ++ e.text⟩

/-- Words that tell a failure of the network or of a login, in the order in which they count. -/
def signs : List (List String × (Endpoint → Failure)) := [
  (["econnrefused", "connection refused"], refused),
  (["enetunreach", "ehostunreach", "network is unreachable", "no route to host",
    "failed to lookup address", "name or service not known", "nodename nor servname"], unreachable),
  (["timed out", "etimedout"], timedOut),
  (["password authentication failed", "access denied", "login failed"], authFailed)]

/-- Recognises a failure by words in its text, in any case. -/
def sniff? (e : Endpoint) (message : String) : Option Failure :=
  let lower := Text.lowerAscii message
  (signs.find? fun s => s.1.any (Text.contains lower)).map fun s => s.2 e

def ofSocket (e : Endpoint) (error : SocketError) (message : String) : Failure :=
  match error with
  | .refused => e.refused
  | .timedOut => e.timedOut
  | .notFound => e.unreachable
  | .other =>
    (e.sniff? message).getD ⟨.unknown, "cannot reach " ++ e.text ++ ": " ++ message⟩

end Endpoint

end TablePipeline
