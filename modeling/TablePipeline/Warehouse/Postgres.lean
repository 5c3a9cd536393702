import TablePipeline.Connection.Column
import TablePipeline.Warehouse.Batch
import TablePipeline.Warehouse.Statement

/-!
# A warehouse on a Postgres server

A target table is prepared in one transaction. Rows are inserted by statements of their own, each
with as many rows as the limit on parameters allows. A writer may hold a lock on its table; a writer
that is dropped with its lock takes the session along.
-/

set_option autoImplicit false

namespace TablePipeline

structure StatementResult where
  affected : Nat
  rows : ServerRows PostgresType
  deriving DecidableEq, Repr

/-- A Postgres server over a state of its own. -/
structure PostgresServer (σ : Type) where
  connect : σ → Except ClientError Unit × σ
  execute : TableStatement → σ → Except ClientError StatementResult × σ
  /-- The session ends, and its locks with it. -/
  leave : σ → σ

structure PostgresWriter where
  table : String
  columns : List TableColumn
  names : List String
  holdsLock : Bool
  isOpen : Bool
  deriving DecidableEq, Repr

/-- The most parameters that a statement is given. -/
def maxParameters : Nat := 65000

def rowsPerStatement (columns : Nat) : Nat := max (maxParameters / columns) 1

/-- What prepares a table by a mode. -/
def preparation (table definitions : String) : WriteMode → List TableStatement
  | .replace => [.drop table, .create table definitions false]
  | .truncate => [.create table definitions true, .truncate table]
  | .append => [.create table definitions true]

/-- Whether a lock was taken, by the first cell of an answer. -/
def lockAnswer (rows : ServerRows PostgresType) : Except ClientError Bool :=
  match rows.rows with
  | (.boolean taken :: _) :: _ => .ok taken
  | [] => .error .noRow
  | _ => .error (.decodeColumn 0 "unexpected null; try decoding as an `Option`")

namespace PostgresServer

def offline : PostgresServer Unit where
  connect s := (.error .noRoute, s)
  execute _ s := (.error .noRoute, s)
  leave s := s

variable {σ : Type}

/-- Executes statements until one fails. -/
def executeAll (s : PostgresServer σ) : List TableStatement → σ → Except ClientError Unit × σ
  | [], state => (.ok (), state)
  | statement :: rest, state =>
    match s.execute statement state with
    | (.ok _, state) => s.executeAll rest state
    | (.error e, state) => (.error e, state)

/-- Executes statements as one transaction; what fails inside is rolled back. -/
def transact (s : PostgresServer σ) (statements : List TableStatement) (state : σ) :
    Except ClientError Unit × σ :=
  match s.execute .start state with
  | (.error e, state) => (.error e, state)
  | (.ok _, state) =>
    match s.executeAll (statements ++ [.commit]) state with
    | (.ok (), state) => (.ok (), state)
    | (.error e, state) => (.error e, (s.execute .rollback state).2)

def takeLock (s : PostgresServer σ) (table : String) (state : σ) : Except ClientError Bool × σ :=
  match s.execute (.tryLock table) state with
  | (.ok result, state) => (lockAnswer result.rows, state)
  | (.error e, state) => (.error e, state)

/-- Gives the lock of a table back; a failure to do so is passed over. -/
def releaseLock (s : PostgresServer σ) (table : String) (held : Bool) (state : σ) : σ :=
  if held then (s.execute (.unlock table) state).2 else state

/-- Prepares a table under a lock that is held or not. -/
def prepare (s : PostgresServer σ) (target : TableSpec) (table definitions : String)
    (names : List String) (held : Bool) (state : σ) :
    Except WarehouseError PostgresWriter × σ :=
  match s.transact (preparation table definitions target.mode) state with
  | (.ok (), state) => (.ok ⟨table, target.columns, names, held, true⟩, state)
  | (.error e, state) => (.error e.toWarehouse, s.releaseLock table held state)

/-- Prepares a target table and opens a writer of it. -/
def openWriter (s : PostgresServer σ) (singleWriter : Bool) (target : TableSpec) (state : σ) :
    Except WarehouseError PostgresWriter × σ :=
  let parts : Except Sql.Error (String × String × List String) := do
    return (← Sql.quotePath .postgres target.table, ← columnDefinitions target.columns,
      ← target.columns.mapM fun c => Sql.quoteName .postgres c.name)
  match parts with
  | .error e => (.error (.sql e), state)
  | .ok (table, definitions, names) =>
    if singleWriter then
      match s.takeLock table state with
      | (.error e, state) => (.error e.toWarehouse, state)
      | (.ok false, state) => (.error (.locked target.table), state)
      | (.ok true, state) => s.prepare target table definitions names true state
    else s.prepare target table definitions names false state

/-- Inserts pieces of a batch in turn and counts the rows that the server says it took. A piece that
fails ends the batch; the pieces before it stay. -/
def insertPieces (s : PostgresServer σ) (writer : PostgresWriter) :
    List (List Row) → (written : Nat) → σ → Except WarehouseError Nat × σ
  | [], written, state => (.ok written, state)
  | rows :: pieces, written, state =>
    let statement : TableStatement :=
      .insert writer.table writer.names (rows.map (BoundCell.ofRow writer.columns))
    match s.execute statement state with
    | (.ok result, state) => s.insertPieces writer pieces (written + result.affected) state
    | (.error e, state) => (.error (.write (.stated e.withState)), state)

def writeBatch (s : PostgresServer σ) (writer : PostgresWriter) (rows : List Row) (state : σ) :
    Except WarehouseError Nat × σ :=
  if rows.isEmpty then (.ok 0, state)
  else if writer.columns.isEmpty then (.error (.write .noColumns), state)
  else match checkRows writer.columns rows with
    | .error fault => (.error (.write fault), state)
    | .ok () =>
      if !writer.isOpen then (.error (.write .finished), state)
      else
        s.insertPieces writer (batchesOf (rowsPerStatement writer.columns.length - 1) rows) 0 state

/-- Closes a writer and gives back its lock. -/
def finish (s : PostgresServer σ) (writer : PostgresWriter) (state : σ) : PostgresWriter × σ :=
  if writer.isOpen then
    ({ writer with holdsLock := false, isOpen := false },
      s.releaseLock writer.table writer.holdsLock state)
  else (writer, state)

/-- Drops a writer. With its lock the session goes too. -/
def dropWriter (s : PostgresServer σ) (writer : PostgresWriter) (state : σ) : σ :=
  if writer.isOpen && writer.holdsLock then s.leave state else state

def query (s : PostgresServer σ) (f : Sql.Fragment) (state : σ) :
    Except WarehouseError RowSet × σ :=
  match s.execute (.select f) state with
  | (.ok result, state) => (result.rows.ofPostgres.mapError (·.toWarehouse), state)
  | (.error e, state) => (.error e.toWarehouse, state)

end PostgresServer

end TablePipeline
