import TablePipeline.Run.Basic

/-!
# The store of runs

Times are kept as text with six digits of a second, so that equal times have equal texts and later
ones have greater texts. Counts are kept in signed 64 bits. Every use of a closed store fails.
-/

set_option autoImplicit false

namespace TablePipeline

/-- A moment as the store writes it: RFC 3339 with microseconds. -/
def Timestamp.stored (t : Timestamp) : String :=
  String.ofList (t.date.chars ++ 'T' :: Timestamp.clockChars t.second t.nano ++
    '.' :: Digits.pad 6 (t.nano % 1000000000 / 1000) ++ ['Z'])

structure StoredRun where
  id : String
  pipelineId : Option String
  table : Option String
  status : RunStatus
  rowsWritten : Int64
  errorKind : Option String
  errorMessage : Option String
  createdAt : String
  updatedAt : String
  deriving DecidableEq, Repr

namespace StoredRun

def readTime (text : String) : Except StoreFault Timestamp :=
  (Calendar.readRfc3339 text).mapError (.invalidTime text)

/-- The record of a run; a negative count reads as none. -/
def record (r : StoredRun) : Except StoreFault RunRecord := do
  let createdAt ← readTime r.createdAt
  let updatedAt ← readTime r.updatedAt
  return {
    id := r.id, pipelineId := r.pipelineId, table := r.table, status := r.status
    rowsWritten := r.rowsWritten.toInt.toNat
    errorKind := r.errorKind, errorMessage := r.errorMessage, createdAt, updatedAt }

def accepts (r : StoredRun) (change : RunChange) : Bool :=
  r.status == change.start && match change.observed with
    | some t => r.updatedAt == t.stored
    | none => true

/-- The run after a change. What the change does not tell stays. -/
def apply (r : StoredRun) (change : RunChange) (now : Timestamp) : StoredRun :=
  { r with
    status := change.target
    updatedAt := now.stored
    rowsWritten := match change.rowsWritten with
      | some n => Int64.ofNat n
      | none => r.rowsWritten
    errorKind := (change.failure.map (·.kind)) <|> r.errorKind
    errorMessage := (change.failure.map (·.message)) <|> r.errorMessage }

def progress (r : StoredRun) (rows : Nat) (now : Timestamp) : StoredRun :=
  { r with rowsWritten := Int64.ofNat rows, updatedAt := now.stored }

end StoredRun

/-- Runs in the order in which they were made. -/
structure RunStore where
  runs : List StoredRun
  isOpen : Bool
  deriving DecidableEq, Repr

namespace RunStore

def empty : RunStore := ⟨[], true⟩

def close (s : RunStore) : RunStore := { s with isOpen := false }

/-- Refuses the use of a closed store. -/
def use (s : RunStore) : Except StoreFault Unit :=
  if s.isOpen then .ok () else .error .closed

def find? (s : RunStore) (id : String) : Option StoredRun := s.runs.find? (·.id == id)

/-- The store with every run of an id that satisfies `p` changed by `f`. -/
def update (s : RunStore) (id : String) (p : StoredRun → Bool) (f : StoredRun → StoredRun) :
    RunStore :=
  { s with runs := s.runs.map fun r => if r.id == id && p r then f r else r }

def create (s : RunStore) (id : String) (pipelineId table : Option String) (now : Timestamp) :
    Except StoreFault (RunRecord × RunStore) := do
  s.use
  let run : StoredRun := {
    id, pipelineId, table, status := .pending, rowsWritten := 0, errorKind := none
    errorMessage := none, createdAt := now.stored, updatedAt := now.stored }
  return (← run.record, { s with runs := s.runs ++ [run] })

def fetch (s : RunStore) (id : String) : Except StoreFault (Option RunRecord) := do
  s.use
  (s.find? id).mapM (·.record)

/-- The runs that have not ended: by the text of their last update, of those with the same one the
pending runs first. -/
def activeRuns (s : RunStore) : List StoredRun :=
  (s.runs.filter (·.status == .pending) ++ s.runs.filter (·.status == .processing)).mergeSort
    fun a b => a.updatedAt ≤ b.updatedAt

def active (s : RunStore) : Except StoreFault (List RunRecord) := do
  s.use
  s.activeRuns.mapM (·.record)

/-- Changes the status of a run and tells whether that happened. -/
def change (s : RunStore) (id : String) (change : RunChange) (now : Timestamp) :
    Except StoreFault (Bool × RunStore) :=
  if !change.start.canBecome change.target then
    .error (.illegalChange change.start change.target)
  else do
    s.use
    match s.find? id with
    | some r =>
      if r.accepts change then
        return (true, s.update id (·.accepts change) (·.apply change now))
      else return (false, s)
    | none => return (false, s)

/-- Notes how many rows a processing run has written, and tells whether it was processing. -/
def progress (s : RunStore) (id : String) (rows : Nat) (now : Timestamp) :
    Except StoreFault (Bool × RunStore) := do
  s.use
  match s.find? id with
  | some r =>
    if r.status == .processing then
      return (true, s.update id (·.status == .processing) (·.progress rows now))
    else return (false, s)
  | none => return (false, s)

end RunStore

end TablePipeline
