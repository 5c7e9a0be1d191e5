import Mathlib

/-! # Errors of the library

The error codes with their names on the wire, and the error value. Where the source appends the
text of a foreign error to a message, the message here ends before it. -/

namespace AiraGraphdb.Library

inductive ErrorCode where
  | protocolVersionMismatch
  | unsupportedFeature
  | retryableConflict
  | writeLockConflict
  | incompatibleFormat
  | authRequired
  | authFailed
  | referentialIntegrityViolation
  | invalidArgument
  | invalidTopK
  | invalidThreshold
  | invalidCorpusId
  | invalidNamespace
  deriving DecidableEq, Repr

def ErrorCode.asStr : ErrorCode → String
  | .protocolVersionMismatch => "PROTOCOL_VERSION_MISMATCH"
  | .unsupportedFeature => "UNSUPPORTED_FEATURE"
  | .retryableConflict => "RETRYABLE_CONFLICT"
  | .writeLockConflict => "WRITE_LOCK_CONFLICT"
  | .incompatibleFormat => "INCOMPATIBLE_FORMAT"
  | .authRequired => "AUTH_REQUIRED"
  | .authFailed => "AUTH_FAILED"
  | .referentialIntegrityViolation => "REFERENTIAL_INTEGRITY_VIOLATION"
  | .invalidArgument => "INVALID_ARGUMENT"
  | .invalidTopK => "INVALID_TOP_K"
  | .invalidThreshold => "INVALID_THRESHOLD"
  | .invalidCorpusId => "INVALID_CORPUS_ID"
  | .invalidNamespace => "INVALID_NAMESPACE"

structure GraphDbError where
  code : ErrorCode
  message : String
  deriving DecidableEq, Repr

/-- The error every failure of the storage layer is reported with. -/
def incompatible (message : String) : GraphDbError := ⟨.incompatibleFormat, message⟩

end AiraGraphdb.Library
