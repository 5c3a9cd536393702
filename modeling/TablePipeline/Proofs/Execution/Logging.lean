import TablePipeline.Proofs.Execution.Views

/-!
# What an execution asks of its services

Services that keep a log of what they are asked do the same as without it. The log of an execution
tells its attempts to connect, its queries, the sessions it closes and what it writes.
-/

set_option autoImplicit false

namespace TablePipeline

variable {σ ω : Type}

inductive LogEntry
  /-- An attempt to connect, and whether it opened a session. -/
  | connect (c : Connection) (opened : Bool)
  | query (c : Connection) (fragment : Sql.Fragment)
  | disconnect (c : Connection)
  | openWriter (target : TableSpec)
  | writeBatch (rows : List Row)
  | finish
  deriving DecidableEq

namespace LogEntry

def isQuery : LogEntry → Bool
  | query _ _ => true
  | _ => false

def isGathering : LogEntry → Bool
  | connect _ _ | query _ _ => true
  | _ => false

def isWriting : LogEntry → Bool
  | openWriter _ | writeBatch _ | finish => true
  | _ => false

def attempted? : LogEntry → Option Connection
  | connect c _ => some c
  | _ => none

def opened? : LogEntry → Option Connection
  | connect c true => some c
  | _ => none

end LogEntry

def Services.logged (s : Services σ ω) : Services (σ × List LogEntry) ω where
  reaches := s.reaches
  connect c password x :=
    let (result, state) := s.connect c password x.1
    (result, state, x.2 ++ [.connect c result.isOk])
  query c fragment x :=
    let (result, state) := s.query c fragment x.1
    (result, state, x.2 ++ [.query c fragment])
  disconnect c x :=
    let (result, state) := s.disconnect c x.1
    (result, state, x.2 ++ [.disconnect c])
  openWriter target x :=
    let (result, state) := s.openWriter target x.1
    (result, state, x.2 ++ [.openWriter target])
  writeBatch w rows x :=
    let (result, w, state) := s.writeBatch w rows x.1
    (result, w, state, x.2 ++ [.writeBatch rows])
  finish w x :=
    let (result, state) := s.finish w x.1
    (result, state, x.2 ++ [.finish])

theorem Services.logged_shows (s : Services σ ω) : s.logged.Shows Prod.fst s where
  reaches := rfl
  connect _ _ _ := rfl
  query _ _ _ := rfl
  disconnect _ _ := rfl
  openWriter _ _ := rfl
  writeBatch _ _ _ := rfl
  finish _ _ := rfl

namespace Engine

def logged (e : Engine σ ω) : Engine (σ × List LogEntry) ω :=
  ⟨e.services.logged, e.vault, e.config⟩

theorem logged_shows (e : Engine σ ω) : e.logged.Shows Prod.fst e :=
  ⟨e.services.logged_shows, rfl, rfl⟩

end Engine

/-! ### What the log tells of sources -/

namespace Services

variable (s : Services σ ω)

theorem logged_logIn (timeoutMillis : Nat) (c : Connection) (password : Option Secret)
    (x : σ × List LogEntry) :
    (s.logged.logIn timeoutMillis c password x).2.2 =
      x.2 ++ [.connect c (s.logged.logIn timeoutMillis c password x).1.isOk] := by
  have hconnect : s.logged.connect c password x = ((s.connect c password x.1).1,
      (s.connect c password x.1).2,
      x.2 ++ [.connect c (s.connect c password x.1).1.isOk]) := rfl
  unfold logIn
  rw [hconnect]
  rcases s.connect c password x.1 with ⟨(_ | _) | _, state⟩ <;> rfl

/-- An attempt to open a session is logged, or fails before it reaches the source. -/
theorem logged_openSession (vault : Vault) (timeoutMillis : Nat) (c : Connection)
    (x : σ × List LogEntry) :
    match s.logged.openSession vault timeoutMillis c x with
    | (.ok (), y) => y.2 = x.2 ++ [.connect c true]
    | (.error _, y) => y.2 = x.2 ∨ y.2 = x.2 ++ [.connect c false] := by
  unfold openSession
  cases s.logged.reaches c.kind with
  | false => exact .inl rfl
  | true =>
    cases c.password vault with
    | error f => exact .inl rfl
    | ok password =>
      have hlog := s.logged_logIn timeoutMillis c password x
      revert hlog
      dsimp only [Bool.not_true, Bool.false_eq_true, if_false]
      generalize s.logged.logIn timeoutMillis c password x = r
      obtain ⟨f | _, y⟩ := r
      · exact .inr
      · exact id

/-- Each session is disconnected once, in order. -/
theorem logged_closeAll (sessions : List Connection) (x : σ × List LogEntry) :
    (s.logged.closeAll sessions x).2 = x.2 ++ sessions.map .disconnect := by
  induction sessions generalizing x with
  | nil => exact (List.append_nil x.2).symm
  | cons c cs ih =>
    refine (ih (s.logged.disconnect c x).2).trans ?_
    exact List.append_assoc x.2 [.disconnect c] (cs.map .disconnect)

end Services

end TablePipeline
