import TablePipeline.Failure

/-!
# What happens to a row whose rule fails

The cell becomes null, the row is skipped, or the step is aborted. The first two leave a warning, of
which only the first few are kept while all are counted.
-/

set_option autoImplicit false

namespace TablePipeline

inductive RowPolicy
  | nullOut
  | skipRow
  | abort
  deriving DecidableEq, Repr, Inhabited

def RowPolicy.name : RowPolicy → String
  | nullOut => "null_out"
  | skipRow => "skip_row"
  | abort => "abort"

/-- What is left of a row after its rule has failed. -/
inductive RowAction
  | keep (value : Scalar)
  | skip
  deriving DecidableEq, Repr

/-- The first `cap` messages and the number of all. -/
structure Warnings where
  messages : List String
  total : Nat
  cap : Nat
  deriving DecidableEq, Repr

namespace Warnings

def empty (cap : Nat) : Warnings := ⟨[], 0, cap⟩

def push (w : Warnings) (message : String) : Warnings where
  messages := if w.messages.length < w.cap then w.messages ++ [message] else w.messages
  total := w.total + 1
  cap := w.cap

@[simp] theorem push_total (w : Warnings) (m : String) : (w.push m).total = w.total + 1 := rfl

end Warnings

def faultText (rule : String) (row : Nat) (fault : String) : String :=
  rule ++ ", row " ++ Digits.text row ++ ": " ++ fault

def RowPolicy.recover (policy : RowPolicy) (rule : String) (row : Nat) (fault : String)
    (w : Warnings) : Except Failure (RowAction × Warnings) :=
  match policy with
  | nullOut => .ok (.keep .null, w.push (faultText rule row fault ++ "; value set to NULL"))
  | skipRow => .ok (.skip, w.push (faultText rule row fault ++ "; row skipped"))
  | abort => .error ⟨.castError, faultText rule row fault⟩

end TablePipeline
