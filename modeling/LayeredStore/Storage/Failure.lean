/-! # Failures of storage

A backend map may fail in five ways.  Two of them, an unreachable backend and an input
or output error, say nothing about the data: only these are worth another attempt.
-/
namespace LayeredStore

/-- Why a backend call failed. -/
inductive StorageFailure
  /-- Reading or writing the medium failed. -/
  | io (reason : String)
  /-- A value could not be written or read in its stored form. -/
  | serialization (reason : String)
  /-- The stored data are damaged. -/
  | corrupted (reason : String)
  /-- The backend cannot be reached. -/
  | unavailable (reason : String)
  /-- The name cannot be that of a map. -/
  | invalidMapName (name reason : String)
  deriving DecidableEq

namespace StorageFailure

/-- The wording of a failure. -/
def message : StorageFailure → String
  | io reason => "I/O error: " ++ reason
  | serialization reason => "serialization error: " ++ reason
  | corrupted reason => "corrupted data: " ++ reason
  | unavailable reason => "backend unavailable: " ++ reason
  | invalidMapName name reason => "invalid map name '" ++ name ++ "': " ++ reason

/-- Whether the same call may succeed later. -/
def isRetryable : StorageFailure → Bool
  | unavailable _ | io _ => true
  | serialization _ | corrupted _ | invalidMapName _ _ => false

end StorageFailure

end LayeredStore
