import TablePipeline.Execution.Services
import TablePipeline.Frame.Rule
import TablePipeline.Plan.Basic

/-!
# Gathering the rows of a plan

Queries are sent in the order of the plan, each over the one session of its connection, which is
opened at the first query. Afterwards all sessions are closed, whether the rows were gathered or
there was a failure. Only a crash leaves them open.
-/

set_option autoImplicit false

namespace TablePipeline

/-- The state of the services, the open sessions in the order in which they were opened, and the
warnings so far. -/
structure Gathering (σ : Type) where
  state : σ
  sessions : List Connection
  warnings : Warnings

/-- What is gathered, or how it ended early; what happened until then stays. -/
abbrev Gather (σ α : Type) := ExceptT Halt (StateM (Gathering σ)) α

/-- Connections, a vault for their passwords, and the time that connecting may take. -/
structure Access where
  connections : List Connection
  vault : Vault
  timeoutMillis : Nat

namespace Gather

variable {σ ω : Type}

/-- Runs something that leaves sessions and warnings alone. -/
def outside {α : Type} (act : σ → Except Failure α × σ) : Gather σ α :=
  ExceptT.mk fun g =>
    let (result, state) := act g.state
    (result.mapError .failure, { g with state })

def warned {α : Type} (rule : Warnings → Except Failure (α × Warnings)) : Gather σ α :=
  ExceptT.mk fun g =>
    match rule g.warnings with
    | .ok (a, warnings) => (.ok a, { g with warnings })
    | .error f => (.error (.failure f), g)

def ofExcept {α : Type} (result : Except Halt α) : Gather σ α := ExceptT.mk fun g => (result, g)

/-- The connection of an id, over an open session. -/
def session (s : Services σ ω) (a : Access) (id : String) : Gather σ Connection :=
  ExceptT.mk fun g =>
    match g.sessions.find? (·.id == id) with
    | some c => (.ok c, g)
    | none =>
      match Connection.find? a.connections id with
      | none =>
        (.error (.failure ⟨.unknownConnection, "connection '" ++ id ++ "' is not defined"⟩), g)
      | some c =>
        match s.openSession a.vault a.timeoutMillis c g.state with
        | (.ok (), state) => (.ok c, { g with state, sessions := g.sessions ++ [c] })
        | (.error f, state) => (.error (.failure f), { g with state })

def rows (s : Services σ ω) (a : Access) : PlanNode → Gather σ Frame
  | .query q => do
    let c ← session s a q.connection
    let result ← outside (s.query c q.fragment)
    ofExcept ((Frame.ofResult q.layout result).mapError (·.toHalt))
  | .join left right rule => do
    let l ← rows s a left
    let r ← rows s a right
    ofExcept ((l.join r rule).mapError .failure)
  | .filter input conditions => do
    let f ← rows s a input
    ofExcept ((f.filter conditions).mapError .failure)
  | .cast input rule => do
    let f ← rows s a input
    warned (f.cast rule)
  | .arithmetic input rule type? => do
    let f ← rows s a input
    warned (f.arithmetic rule type?)
  | .condition input rule => do
    let f ← rows s a input
    warned (f.condition rule)

end Gather

namespace Services

variable {σ ω : Type}

/-- What gathering gives and leaves. A crash passes over the closing of the sessions. -/
def leave (s : Services σ ω) : Except Halt Frame × Gathering σ →
    Except Halt (Frame × Warnings) × σ
  | (.ok f, g) => (.ok (f, g.warnings), s.closeAll g.sessions g.state)
  | (.error (.failure f), g) => (.error (.failure f), s.closeAll g.sessions g.state)
  | (.error .crash, g) => (.error .crash, g.state)

/-- The rows of a plan and the warnings on the way. -/
def gather (s : Services σ ω) (a : Access) (plan : Plan) (maxWarnings : Nat) (state : σ) :
    Except Halt (Frame × Warnings) × σ :=
  s.leave ((Gather.rows s a plan.root).run ⟨state, [], .empty maxWarnings⟩)

end Services

end TablePipeline
