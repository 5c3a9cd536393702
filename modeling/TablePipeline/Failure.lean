import TablePipeline.Sql.Error

/-!
# Failures

What a run or a check reports: one of twenty kinds and a text for the operator. The kinds that
validation and compilation give are told before any source is opened. A crash reports nothing.
-/

set_option autoImplicit false

namespace TablePipeline

inductive FailureKind
  | invalidIdentifier
  | unsupportedOperator
  | cyclicPipeline
  | unresolvedReference
  | castError
  | connectionTimeout
  | authFailed
  | hostUnreachable
  | connectionRefused
  | queryError
  | encryptionKeyMissing
  | decryptionError
  | staleTimeout
  | invalidPipeline
  | incompatibleTypes
  | unknownConnection
  | writeError
  | targetLocked
  | storageError
  | unknown
  deriving DecidableEq, Repr

namespace FailureKind

def all : List FailureKind :=
  [invalidIdentifier, unsupportedOperator, cyclicPipeline, unresolvedReference, castError,
    connectionTimeout, authFailed, hostUnreachable, connectionRefused, queryError,
    encryptionKeyMissing, decryptionError, staleTimeout, invalidPipeline, incompatibleTypes,
    unknownConnection, writeError, targetLocked, storageError, unknown]

def name : FailureKind → String
  | invalidIdentifier => "InvalidIdentifier"
  | unsupportedOperator => "UnsupportedOperator"
  | cyclicPipeline => "CyclicPipeline"
  | unresolvedReference => "UnresolvedReference"
  | castError => "CastError"
  | connectionTimeout => "ConnectionTimeout"
  | authFailed => "AuthFailed"
  | hostUnreachable => "HostUnreachable"
  | connectionRefused => "ConnectionRefused"
  | queryError => "QueryError"
  | encryptionKeyMissing => "EncryptionKeyMissing"
  | decryptionError => "DecryptionError"
  | staleTimeout => "StaleTimeout"
  | invalidPipeline => "InvalidPipeline"
  | incompatibleTypes => "IncompatibleTypes"
  | unknownConnection => "UnknownConnection"
  | writeError => "WriteError"
  | targetLocked => "TargetLocked"
  | storageError => "StorageError"
  | unknown => "Unknown"

/-- Whether the kind is told before any source is opened. -/
def isCompileTime : FailureKind → Bool
  | invalidIdentifier | unsupportedOperator | cyclicPipeline | unresolvedReference
  | invalidPipeline | incompatibleTypes | unknownConnection => true
  | _ => false

end FailureKind

structure Failure where
  kind : FailureKind
  message : String
  deriving DecidableEq, Repr

/-- How a computation ends early: by a failure that is told, or by a crash, which tells nothing and
leaves undone whatever was to follow. -/
inductive Halt
  | failure (f : Failure)
  | crash
  deriving DecidableEq, Repr

def Sql.Error.toFailure (e : Sql.Error) : Failure :=
  match e with
  | .invalidName .. => ⟨.invalidIdentifier, e.message⟩
  | .unsupportedOperator _ | .unsupportedCast .. => ⟨.unsupportedOperator, e.message⟩
  | .invalidOperand _ => ⟨.invalidPipeline, e.message⟩

end TablePipeline
