import TablePipeline.Connection.Endpoint
import TablePipeline.Execution.Result
import TablePipeline.Sql.Piece

/-!
# What a run uses

Sources are connected to, asked and left again; the warehouse is read and written. All of it is
reached through a record of services over a state of their own, so a run can be followed on any of
them.
-/

set_option autoImplicit false

namespace TablePipeline

inductive ConnectFault
  | failed (f : Failure)
  /-- No answer within the time that is given. -/
  | unanswered
  deriving DecidableEq, Repr

/-- The sources of all kinds, over a state `σ`. -/
structure Sources (σ : Type) where
  /-- Whether sources of a kind can be reached at all. -/
  reaches : SourceKind → Bool
  connect : Connection → Option Secret → σ → Except ConnectFault Unit × σ
  query : Connection → Sql.Fragment → σ → Except Failure RowSet × σ
  disconnect : Connection → σ → Except Failure Unit × σ

/-- Sources and a warehouse to write to; an open writer is an `ω`. -/
structure Services (σ ω : Type) extends Sources σ where
  openWriter : TableSpec → σ → Except WarehouseError ω × σ
  writeBatch : ω → List Row → σ → Except WarehouseError Nat × ω × σ
  finish : ω → σ → Except WarehouseError Unit × σ

/-- Opens the sealed password of a connection, if it has one that is not blank. -/
def Connection.password (c : Connection) (vault : Vault) : Except Failure (Option Secret) :=
  match c.sealedPassword with
  | none => .ok none
  | some blob =>
    if Text.isBlankText blob then .ok none
    else (vault.openText blob).mapError (·.toFailure) |>.map some

namespace Services

variable {σ ω : Type}

def logIn (s : Services σ ω) (timeoutMillis : Nat) (c : Connection) (password : Option Secret)
    (state : σ) : Except Failure Unit × σ :=
  match s.connect c password state with
  | (.ok (), state) => (.ok (), state)
  | (.error (.failed f), state) => (.error f, state)
  | (.error .unanswered, state) =>
    (.error ((Endpoint.ofConnection c).timedOutAfter timeoutMillis), state)

def openSession (s : Services σ ω) (vault : Vault) (timeoutMillis : Nat) (c : Connection)
    (state : σ) : Except Failure Unit × σ :=
  if !s.reaches c.kind then
    (.error ⟨.unknownConnection,
      "no connector is registered for " ++ c.kind.name ++ " connections"⟩, state)
  else match c.password vault with
    | .error f => (.error f, state)
    | .ok password => s.logIn timeoutMillis c password state

/-- Closes sessions in turn; a failure to close is passed over. -/
def closeAll (s : Services σ ω) (sessions : List Connection) (state : σ) : σ :=
  sessions.foldl (fun state c => (s.disconnect c state).2) state

/-- Opens a session, sends the probe of its kind if it has one, and closes the session. -/
def testConnection (s : Services σ ω) (vault : Vault) (timeoutMillis : Nat) (c : Connection)
    (state : σ) : Except Failure Unit × σ :=
  match s.openSession vault timeoutMillis c state with
  | (.error f, state) => (.error f, state)
  | (.ok (), state) =>
    let (probed, state) : Except Failure Unit × σ := match c.kind.probe? with
      | some sql =>
        let (answer, state) := s.query c ⟨sql, []⟩ state
        (answer.map fun _ => (), state)
      | none => (.ok (), state)
    let (closed, state) := s.disconnect c state
    match probed with
    | .error f => (.error f, state)
    | .ok () => (closed, state)

end Services

end TablePipeline
