import TablePipeline.Execution.Sources

/-!
# A scripted server

A Firebird server that answers each statement by the first rule that fits and has let enough
statements pass, and keeps a log of what it saw. Servers of other kinds are out of reach.
-/

set_option autoImplicit false

namespace TablePipeline.Rehearsal

structure ServerRule where
  /-- What a statement has to begin with. -/
  start : String
  /-- How many statements pass before the rule answers. -/
  skip : Nat
  columns : Option (List String)
  rows : List (List FirebirdValue)
  error : Option FirebirdError

namespace ServerRule

def fits (r : ServerRule) (sql : String) : Bool := Text.startsWith sql r.start

/-- The columns of a statement: those of the first rule that fits and has some. -/
def columnsFor (rules : List ServerRule) (sql : String) : List String :=
  ((rules.filter (·.fits sql)).findSome? (·.columns)).getD []

/-- The rule that answers a statement, and the rules with what they still let pass. -/
def take (sql : String) : List ServerRule → Option ServerRule × List ServerRule
  | [] => (none, [])
  | r :: rs =>
    if !r.fits sql then
      let (found, rs) := take sql rs
      (found, r :: rs)
    else match r.skip with
      | 0 => (some r, r :: rs)
      | skip + 1 =>
        let (found, rs) := take sql rs
        (found, { r with skip } :: rs)

end ServerRule

inductive ServerEvent
  | connected (endpoint : Endpoint) (password : String)
  | asked (sql : String) (params : List FirebirdValue)

structure Server where
  rules : List ServerRule
  connectError : Option FirebirdError
  closeError : Option FirebirdError
  /-- Whether nothing listens. -/
  isDown : Bool
  log : List ServerEvent := []

namespace Server

/-- A server that answers every statement with nothing. -/
def plain : Server := ⟨[], none, none, false, []⟩

def note (s : Server) (e : ServerEvent) : Server := { s with log := s.log ++ [e] }

private def refused : FirebirdError := .socket "Connection refused (os error 111)"

def connect (e : Endpoint) (password : String) (s : Server) : Except FirebirdError Unit × Server :=
  if s.isDown then (.error refused, s)
  else
    let s := s.note (.connected e password)
    match s.connectError with
    | some fault => (.error fault, s)
    | none => (.ok (), s)

def ask (f : Sql.Fragment) (s : Server) : Except FirebirdError RowSet × Server :=
  let params := f.params.map FirebirdValue.ofScalar
  let (found, rules) := ServerRule.take f.sql s.rules
  let columns := ServerRule.columnsFor s.rules f.sql
  let s := { s with rules }.note (.asked f.sql params)
  match found with
  | none => (.ok .empty, s)
  | some r =>
    match r.error with
    | some fault => (.error fault, s)
    | none => (.ok (FirebirdValue.rowSet (r.rows.map columns.zip)), s)

def close (s : Server) : Except FirebirdError Unit × Server :=
  match s.closeError with
  | some fault => (.error fault, s)
  | none => (.ok (), s)

/-- The sources that a server and nothing else serves. -/
def sources : Sources Server where
  reaches _ := true
  connect c password s :=
    if c.kind = .firebird then
      let e := Endpoint.ofConnection c
      let (result, s) := s.connect e ((password.map (·.expose)).getD "")
      (result.mapError fun fault => .failed (fault.toFailure e), s)
    else (.error (.failed (Sources.noRouteFailure c)), s)
  query c f s :=
    let (result, s) := s.ask f
    (result.mapError (·.toFailure (Endpoint.ofConnection c)), s)
  disconnect c s :=
    let (result, s) := s.close
    (result.mapError (·.onClose (Endpoint.ofConnection c)), s)

end Server

end TablePipeline.Rehearsal
