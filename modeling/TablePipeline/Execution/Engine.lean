import TablePipeline.Execution.Gather
import TablePipeline.Execution.Target
import TablePipeline.Graph.Check
import TablePipeline.Plan.Compile
import TablePipeline.Run.Store
import TablePipeline.Warehouse.Batch

/-!
# Executing a run

A run is claimed, its rows are gathered and written in batches, and it is completed or failed. Each
step uses the store of runs at most once or writes at most one batch, so other users of the store
may come between any two steps. An execution that crashes while it gathers stops there: it returns
nothing, and its run is left as it was claimed.
-/

set_option autoImplicit false

namespace TablePipeline

structure EngineConfig where
  /-- How many rows are written at once; at least one is. -/
  batchSize : Nat
  maxWarnings : Nat
  connectTimeoutMillis : Nat
  deriving DecidableEq, Repr

def EngineConfig.standard : EngineConfig := ⟨500, 100, 8000⟩

structure Engine (σ ω : Type) where
  services : Services σ ω
  vault : Vault
  config : EngineConfig

structure Job where
  run : String
  pipeline : Pipeline
  connections : List Connection

structure Load where
  target : TableSpec
  rows : List Row
  warnings : Warnings

/-- Where an execution stands. The count of rows written so far goes along while a writer is
open. -/
inductive Execution (ω : Type)
  | claim
  /-- The run could not be claimed. -/
  | refused
  | gather
  | openWriter (load : Load)
  /-- The batches are left to write; `number` counts them from one. -/
  | write (load : Load) (writer : ω) (batches : List (List Row)) (number written : Nat)
  /-- A batch was written and is to be reported. -/
  | report (load : Load) (writer : ω) (batches : List (List Row)) (number written : Nat)
  | close (load : Load) (writer : ω) (result : Except Failure Unit) (written : Nat)
  | complete (load : Load) (written : Nat)
  | fail (failure : Failure) (written : Nat)
  | done (result : RunResult)
  | crashed

namespace Execution

/-- Steps left, and batches left while they are written. -/
def rank {ω : Type} : Execution ω → Nat × Nat
  | claim => (7, 0)
  | gather => (6, 0)
  | openWriter _ => (5, 0)
  | write _ _ batches _ _ => (4, 2 * batches.length)
  | report _ _ batches _ _ => (4, 2 * batches.length + 1)
  | close .. => (3, 0)
  | complete .. => (2, 0)
  | fail .. | refused => (1, 0)
  | done _ | crashed => (0, 0)

def end? {ω : Type} : Execution ω → Option RunEnd
  | done result => some (.returned result)
  | crashed => some .crashed
  | _ => none

end Execution

namespace Engine

variable {σ ω : Type}

/-- Connections by their ids; no id may be listed twice. -/
def checkConnections : List String → List Connection → Except Failure Unit
  | _, [] => .ok ()
  | seen, c :: cs =>
    if c.id ∈ seen then
      .error ⟨.invalidPipeline, "connection '" ++ c.id ++ "' is listed more than once"⟩
    else checkConnections (c.id :: seen) cs

def plan (job : Job) : Except Failure Plan := do
  checkConnections [] job.connections
  let graph ← (job.pipeline.toGraph job.connections).mapError (·.toFailure)
  graph.compile.mapError (·.toFailure)

def load (e : Engine σ ω) (job : Job) (state : σ) : Except Halt Load × σ :=
  match plan job with
  | .error f => (.error (.failure f), state)
  | .ok p =>
    match e.services.gather ⟨job.connections, e.vault, e.config.connectTimeoutMillis⟩ p
        e.config.maxWarnings state with
    | (.error halt, state) => (.error halt, state)
    | (.ok (frame, w), state) =>
      (((p.target frame w).map fun (target, rows, w) => ⟨target, rows, w⟩).mapError .failure,
        state)

def batchFailure (number written : Nat) (e : WarehouseError) : Failure :=
  ⟨.writeError, "batch " ++ Digits.text number ++ " failed after " ++ Digits.text written ++
    " rows were written: " ++ e.message⟩

def ofRun (id text : String) : Failure := ⟨.storageError, "run " ++ id ++ text⟩

/-- One step of an execution at a time. -/
def step (e : Engine σ ω) (job : Job) (now : Timestamp) (store : RunStore) (state : σ) :
    Execution ω → Execution ω × RunStore × σ
  | .claim =>
    match store.change job.run .begin now with
    | .ok (true, store) => (.gather, store, state)
    | .ok (false, store) => (.refused, store, state)
    | .error fault => (.done (.error fault.toFailure), store, state)
  | .refused =>
    let failure := match store.fetch job.run with
      | .ok (some r) => ofRun job.run (" is " ++ r.status.name ++ " and cannot be executed")
      | .ok none => ofRun job.run " does not exist"
      | .error fault => fault.toFailure
    (.done (.error failure), store, state)
  | .gather =>
    match e.load job state with
    | (.ok load, state) => (.openWriter load, store, state)
    | (.error (.failure f), state) => (.fail f 0, store, state)
    | (.error .crash, state) => (.crashed, store, state)
  | .openWriter load =>
    match e.services.openWriter load.target state with
    | (.ok writer, state) =>
      (.write load writer (batchesOf (e.config.batchSize - 1) load.rows) 1 0, store, state)
    | (.error fault, state) => (.fail fault.toFailure 0, store, state)
  | .write load writer [] _ written => (.close load writer (.ok ()) written, store, state)
  | .write load writer (batch :: batches) number written =>
    match e.services.writeBatch writer batch state with
    | (.ok n, writer, state) => (.report load writer batches number (written + n), store, state)
    | (.error fault, writer, state) =>
      (.close load writer (.error (batchFailure number written fault)) written, store, state)
  | .report load writer batches number written =>
    match store.progress job.run written now with
    | .ok (true, store) => (.write load writer batches (number + 1) written, store, state)
    | .ok (false, store) =>
      (.close load writer
        (.error (ofRun job.run " stopped processing while rows were being written")) written,
        store, state)
    | .error fault => (.close load writer (.error fault.toFailure) written, store, state)
  | .close load writer result written =>
    match result, e.services.finish writer state with
    | .ok (), (.ok (), state) => (.complete load written, store, state)
    | .ok (), (.error fault, state) => (.fail fault.toFailure written, store, state)
    | .error f, (_, state) => (.fail f written, store, state)
  | .complete load written =>
    match store.change job.run (.complete written) now with
    | .ok (true, store) =>
      (.done (.ok ⟨written, load.target.table, load.warnings.messages, load.warnings.total⟩),
        store, state)
    | .ok (false, store) =>
      (.fail (ofRun job.run " was no longer processing when it finished") written, store, state)
    | .error fault => (.fail fault.toFailure written, store, state)
  | .fail failure written =>
    let change := RunChange.fail .processing failure.toRunFailure (some written)
    let store := match store.change job.run change now with
      | .ok (_, store) => store
      | .error _ => store
    (.done (.error failure), store, state)
  | .done result => (.done result, store, state)
  | .crashed => (.crashed, store, state)

/-- Every step but the last comes nearer to the end. -/
theorem rank_step (e : Engine σ ω) (job : Job) (now : Timestamp) (store : RunStore) (state : σ)
    (x : Execution ω) (h : x.end? = none) :
    Prod.Lex (· < ·) (· < ·) (e.step job now store state x).1.rank x.rank := by
  cases x with
  | done r => simp [Execution.end?] at h
  | crashed => simp [Execution.end?] at h
  | claim => simp only [step]; split <;> simp [Execution.rank, Prod.lex_def]
  | refused => simp [step, Execution.rank, Prod.lex_def]
  | gather => simp only [step]; split <;> simp [Execution.rank, Prod.lex_def]
  | openWriter load => simp only [step]; split <;> simp [Execution.rank, Prod.lex_def]
  | write load writer batches number written =>
    cases batches with
    | nil => simp [step, Execution.rank, Prod.lex_def]
    | cons b bs =>
      simp only [step]
      split <;> simp [Execution.rank, Prod.lex_def]
      omega
  | report load writer batches number written =>
    simp only [step]; split <;> simp [Execution.rank, Prod.lex_def]
  | close load writer result written =>
    simp only [step]; split <;> simp [Execution.rank, Prod.lex_def]
  | complete load written => simp only [step]; split <;> simp [Execution.rank, Prod.lex_def]
  | fail failure written => simp [step, Execution.rank, Prod.lex_def]

/-- All steps from one on, with nothing else in between. -/
def finishFrom (e : Engine σ ω) (job : Job) (now : Timestamp) (x : Execution ω) (store : RunStore)
    (state : σ) : RunEnd × RunStore × σ :=
  match _h : x.end? with
  | some ending => (ending, store, state)
  | none =>
    let next := e.step job now store state x
    e.finishFrom job now next.1 next.2.1 next.2.2
termination_by x.rank
decreasing_by exact e.rank_step job now store state x _h

def execute (e : Engine σ ω) (job : Job) (now : Timestamp) (store : RunStore) (state : σ) :
    RunEnd × RunStore × σ :=
  e.finishFrom job now .claim store state

def testConnection (e : Engine σ ω) (c : Connection) (state : σ) : Except Failure Unit × σ :=
  e.services.testConnection e.vault e.config.connectTimeoutMillis c state

end Engine

end TablePipeline
