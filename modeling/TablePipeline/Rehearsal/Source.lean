import TablePipeline.Execution.Memory
import TablePipeline.Run.Store

/-!
# Scripted sources

Sources that follow a script and keep account of what was asked of them. Each session gives the
answers of its source in turn and repeats the last one.
-/

set_option autoImplicit false

namespace TablePipeline.Rehearsal

/-- An answer, and what happens to the store of runs while it is given. -/
structure ScriptedAnswer where
  result : Except Failure RowSet
  status : Option RunStatus
  closesStore : Bool

structure SourceScript where
  connectFault : Option ConnectFault
  closeFault : Option Failure
  answers : List ScriptedAnswer

def SourceScript.plain : SourceScript := ⟨none, none, []⟩

/-- Scripts by connection, and what was asked. -/
structure SourceRecord where
  scripts : List (String × SourceScript)
  connects : List (String × Option Secret) := []
  queries : List (String × Sql.Fragment) := []
  closes : List String := []
  /-- How many answers each session gave. -/
  given : List (String × Nat) := []
  /-- The answers whose effect on the store of runs is still to come. -/
  effects : List ScriptedAnswer := []

namespace SourceRecord

def script (r : SourceRecord) (id : String) : SourceScript := (r.scripts.lookup id).getD .plain

def setGiven (r : SourceRecord) (id : String) (n : Nat) : List (String × Nat) :=
  (id, n) :: r.given.filter (·.1 != id)

def answer (r : SourceRecord) (id : String) : ScriptedAnswer :=
  let answers := (r.script id).answers
  (answers[(r.given.lookup id).getD 0]? <|> answers.getLast?).getD ⟨.ok .empty, none, false⟩

end SourceRecord

/-- Sources by script; those of some kinds are out of reach. -/
def sources (unreachable : List SourceKind) : Sources SourceRecord where
  reaches kind := kind ∉ unreachable
  connect c password r :=
    let r := { r with connects := r.connects ++ [(c.id, password)], given := r.setGiven c.id 0 }
    match (r.script c.id).connectFault with
    | some fault => (.error fault, r)
    | none => (.ok (), r)
  query c f r :=
    let a := r.answer c.id
    (a.result, { r with
      queries := r.queries ++ [(c.id, f)]
      given := r.setGiven c.id ((r.given.lookup c.id).getD 0 + 1)
      effects := r.effects ++ [a] })
  disconnect c r :=
    let r := { r with closes := r.closes ++ [c.id] }
    match (r.script c.id).closeFault with
    | some f => (.error f, r)
    | none => (.ok (), r)

def ScriptedAnswer.affect (a : ScriptedAnswer) (store : RunStore) : RunStore :=
  let store := match a.status with
    | some status => { store with runs := store.runs.map fun r => { r with status } }
    | none => store
  if a.closesStore then store.close else store

end TablePipeline.Rehearsal
