import TablePipeline.Json.Shape
import TablePipeline.Run.Basic
import TablePipeline.Rule.Policy
import TablePipeline.Secret.Vault
import TablePipeline.Warehouse.Table

/-!
# What a run gives

A run gives the number of rows it wrote and the warnings it kept, or the kind and text of a failure.
A text is never blank. A run that crashes gives nothing.
-/

set_option autoImplicit false

namespace TablePipeline

def FailureKind.ofJson : Json.Reader FailureKind :=
  Json.readVariant (FailureKind.all.map fun k => (k.name, k))

def StoreFault.toFailure (e : StoreFault) : Failure :=
  ⟨.storageError, "run store error: " ++ e.message⟩

def SecretError.toFailure (e : SecretError) : Failure :=
  match e with
  | keyMissing => ⟨.encryptionKeyMissing, e.message⟩
  | decryption _ | encryption _ => ⟨.decryptionError, e.message⟩

/-- The text of a failure, or its kind if the text is blank. -/
def Failure.report (f : Failure) : String :=
  if Text.isBlankText f.message then "run failed with " ++ f.kind.name else f.message

def Failure.toRunFailure (f : Failure) : RunFailure := ⟨f.kind.name, f.report⟩

structure RunSuccess where
  rowsWritten : Nat
  table : String
  warnings : List String
  warningCount : Nat
  deriving DecidableEq, Repr

abbrev RunResult := Except Failure RunSuccess

/-- The end of an execution. -/
inductive RunEnd
  | returned (result : RunResult)
  | crashed

def RunResult.toJson : RunResult → Json
  | .ok s => .ofMembers [("ok", .bool true), ("rowsWritten", .int s.rowsWritten),
      ("tableName", .text s.table), ("warnings", .list (s.warnings.map .text)),
      ("warningCount", .int s.warningCount)]
  | .error f => .ofMembers [("ok", .bool false), ("errorKind", .text f.kind.name),
      ("message", .text f.report)]

end TablePipeline
