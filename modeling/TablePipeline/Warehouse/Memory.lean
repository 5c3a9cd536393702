import TablePipeline.Warehouse.Table

/-!
# A warehouse in memory

Tables are told apart by their segments with points between. Reads give whole tables. A table can be
locked, and batches can be made to fail after the first few.
-/

set_option autoImplicit false

namespace TablePipeline

structure StoredTable where
  columns : List TableColumn
  rows : List Row
  deriving DecidableEq, Repr

namespace StoredTable

def column? (t : StoredTable) (name : String) : Option TableColumn :=
  t.columns.find? (·.name == name)

/-- The cells of a column; none if there is no such column. -/
def values (t : StoredTable) (name : String) : List Scalar :=
  match t.columns.findIdx? (·.name == name) with
  | some i => t.rows.map fun row => row.getD i .null
  | none => []

end StoredTable

structure MemoryWarehouse where
  tables : List (String × StoredTable)
  locked : List String
  /-- How many batches of a writer succeed; all if there is no limit. -/
  failAfter : Option Nat
  deriving DecidableEq, Repr

/-- A writer of a table; it counts its batches. -/
structure MemoryWriter where
  key : String
  columns : List TableColumn
  batches : Nat
  deriving DecidableEq, Repr

namespace MemoryWarehouse

def empty : MemoryWarehouse := ⟨[], [], none⟩

/-- What tells a table apart. -/
def tableKey (path : String) : Except Sql.Error String := do
  return String.intercalate "." (← Sql.splitPath path)

def get? (w : MemoryWarehouse) (key : String) : Option StoredTable := w.tables.lookup key

/-- Puts a table in, in place of one of the same key. -/
def put (w : MemoryWarehouse) (key : String) (t : StoredTable) : MemoryWarehouse :=
  { w with tables := (key, t) :: w.tables.filter (·.1 != key) }

def insertTable (w : MemoryWarehouse) (path : String) (t : StoredTable) :
    Except Sql.Error MemoryWarehouse := do
  return w.put (← tableKey path) t

def table? (w : MemoryWarehouse) (path : String) : Option StoredTable :=
  match tableKey path with
  | .ok key => w.get? key
  | .error _ => none

/-- Marks a table as held by another writer. -/
def lockTable (w : MemoryWarehouse) (path : String) : Except Sql.Error MemoryWarehouse := do
  return { w with locked := (← tableKey path) :: w.locked }

/-- What every query has to begin with. -/
def queryStart : String := "SELECT * FROM "

def query (w : MemoryWarehouse) (sql : String) : Except WarehouseError RowSet :=
  let sql := Text.trim sql
  if !Text.startsWith sql queryStart then
    .error (.query "memory warehouse only serves full-table reads")
  else
    let target := String.ofList (sql.toList.drop queryStart.length)
    match tableKey target with
    | .error e => .error (.sql e)
    | .ok key =>
      match w.get? key with
      | some t => .ok ⟨t.columns.map (·.name), t.rows⟩
      | none => .error (.query ("relation " ++ target ++ " does not exist"))

/-- The target table as it is before the first row. -/
def prepared (old : Option StoredTable) (target : TableSpec) : StoredTable :=
  let fresh : StoredTable := ⟨target.columns, []⟩
  match target.mode, old with
  | .replace, _ => fresh
  | .truncate, some t => { t with rows := [] }
  | .append, some t => t
  | _, none => fresh

/-- Prepares the target table by its mode. -/
def openWriter (w : MemoryWarehouse) (target : TableSpec) :
    Except WarehouseError (MemoryWriter × MemoryWarehouse) := do
  let _ ← (Sql.quotePath .postgres target.table).mapError .sql
  let _ ← (columnDefinitions target.columns).mapError .sql
  let key ← (tableKey target.table).mapError .sql
  if key ∈ w.locked then throw (.locked target.table)
  let t := prepared (w.get? key) target
  return (⟨key, t.columns, 0⟩, w.put key t)

/-- Adds rows to the table of a writer, all or none. -/
def writeBatch (w : MemoryWarehouse) (writer : MemoryWriter) (rows : List Row) :
    Except WarehouseError (MemoryWriter × MemoryWarehouse) := do
  match w.failAfter with
  | some limit => if limit ≤ writer.batches then throw (.write (.simulated limit))
  | none => pure ()
  (checkRows writer.columns rows).mapError .write
  match w.get? writer.key with
  | some t =>
    return ({ writer with batches := writer.batches + 1 },
      w.put writer.key { t with rows := t.rows ++ rows })
  | none => throw (.write (.vanished writer.key))

end MemoryWarehouse

end TablePipeline
