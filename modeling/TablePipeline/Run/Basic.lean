import TablePipeline.Calendar.Reading

/-!
# Runs

A run is pending, then processing, and ends completed or failed. A pending run may fail at once; a
run that has ended stays as it is.
-/

set_option autoImplicit false

namespace TablePipeline

inductive RunStatus
  | pending
  | processing
  | completed
  | failed
  deriving DecidableEq, Repr, Inhabited

namespace RunStatus

def name : RunStatus → String
  | pending => "pending"
  | processing => "processing"
  | completed => "completed"
  | failed => "failed"

def all : List RunStatus := [pending, processing, completed, failed]

def read? (s : String) : Option RunStatus := all.find? (·.name == s)

def isTerminal : RunStatus → Bool
  | completed | failed => true
  | _ => false

def canBecome : RunStatus → RunStatus → Bool
  | pending, processing | pending, failed | processing, completed | processing, failed => true
  | _, _ => false

theorem canBecome_of_isTerminal {s : RunStatus} (h : s.isTerminal = true) (t : RunStatus) :
    s.canBecome t = false := by
  cases s <;> cases t <;> simp_all [isTerminal, canBecome]

theorem canBecome_irrefl (s : RunStatus) : s.canBecome s = false := by cases s <;> rfl

end RunStatus

structure RunRecord where
  id : String
  pipelineId : Option String
  table : Option String
  status : RunStatus
  rowsWritten : Nat
  errorKind : Option String
  errorMessage : Option String
  createdAt : Timestamp
  updatedAt : Timestamp
  deriving DecidableEq, Repr

structure RunFailure where
  kind : String
  message : String
  deriving DecidableEq, Repr

/-- A change of status. It happens only to a run that is still in `start` and, where a time was
observed, has not been touched since. -/
structure RunChange where
  start : RunStatus
  target : RunStatus
  observed : Option Timestamp
  rowsWritten : Option Nat
  failure : Option RunFailure
  deriving DecidableEq, Repr

namespace RunChange

def begin : RunChange := ⟨.pending, .processing, none, none, none⟩

def complete (rows : Nat) : RunChange := ⟨.processing, .completed, none, some rows, none⟩

def fail (start : RunStatus) (failure : RunFailure) (rows : Option Nat) : RunChange :=
  ⟨start, .failed, none, rows, some failure⟩

end RunChange

inductive StoreFault
  | unknownStatus (text : String)
  | illegalChange (start target : RunStatus)
  | invalidTime (text : String) (fault : Calendar.ReadError)
  | closed
  | missingAfterInsert (id : String)
  | stated (text : String)
  deriving DecidableEq, Repr

def StoreFault.message : StoreFault → String
  | unknownStatus text => "unknown run status: " ++ text
  | illegalChange start target =>
    "illegal run transition " ++ start.name ++ " -> " ++ target.name
  | invalidTime text fault => "invalid RFC3339 timestamp '" ++ text ++ "': " ++ fault.message
  | closed => "attempted to acquire a connection on a closed pool"
  | missingAfterInsert id => "run " ++ id ++ " inserted but missing when reloaded"
  | stated text => text

end TablePipeline
