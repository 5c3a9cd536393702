import TablePipeline.Connection.Client
import TablePipeline.Connection.Firebird
import TablePipeline.Execution.Services
import TablePipeline.Warehouse.Postgres

/-!
# Sources

Sources beside a warehouse: connections to spreadsheets are read from the warehouse, all others
from outside, over a state of their own. Any sources together with a Postgres server are services
over both states.
-/

set_option autoImplicit false

namespace TablePipeline

namespace Sources

/-- What the client of a kind tells of an attempt to connect that found no way. -/
def noRouteFailure (c : Connection) : Failure :=
  let endpoint := Endpoint.ofConnection c
  match c.kind with
  | .mysql => ClientError.noRoute.mysqlConnect endpoint
  | .firebird => (FirebirdError.socket ClientError.noRouteText).toFailure endpoint
  | _ => ClientError.noRoute.postgresConnect endpoint

/-- Sources without a network: no attempt to connect succeeds. -/
def offline : Sources Unit where
  reaches _ := true
  connect c _ s := (.error (.failed (noRouteFailure c)), s)
  query _ _ s := (.ok .empty, s)
  disconnect _ s := (.ok (), s)

/-- Applies an act on sources beside another state. -/
def beside {σ τ α : Type} (act : τ → α × τ) (s : σ × τ) : α × σ × τ :=
  let (a, t) := act s.2
  (a, s.1, t)

/-- Sources beside a warehouse that spreadsheets are read from. A session with a spreadsheet needs
nothing to be opened or closed. -/
def withSheets {σ τ : Type} (sources : Sources τ)
    (read : Sql.Fragment → σ → Except WarehouseError RowSet × σ) : Sources (σ × τ) where
  reaches := sources.reaches
  connect c password s :=
    if c.kind = .excel then (.ok (), s) else beside (sources.connect c password) s
  query c f s :=
    if c.kind = .excel then
      let (answer, state) := read f s.1
      (answer.mapError fun e => ⟨.queryError, e.message⟩, state, s.2)
    else beside (sources.query c f) s
  disconnect c s := if c.kind = .excel then (.ok (), s) else beside (sources.disconnect c) s

end Sources

end TablePipeline

namespace TablePipeline.PostgresServer

variable {σ τ : Type}

def services (server : PostgresServer σ) (singleWriter : Bool) (sources : Sources τ) :
    Services (σ × τ) PostgresWriter where
  toSources := sources.withSheets server.query
  openWriter target s :=
    let (answer, state) := server.openWriter singleWriter target s.1
    (answer, state, s.2)
  writeBatch writer rows s :=
    let (answer, state) := server.writeBatch writer rows s.1
    (answer, writer, state, s.2)
  finish writer s := (.ok (), (server.finish writer s.1).2, s.2)

end TablePipeline.PostgresServer
