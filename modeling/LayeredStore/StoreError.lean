import LayeredStore.QueryError
import LayeredStore.Storage.Failure

/-! # Errors of tables, stacks and catalogs

An error is refused input, a storage failure, a query error, settings that cannot work,
or a partial failure: an operation on several members of which some failed.  The causes
of a partial failure are errors themselves, so an error is a tree whose inner nodes are
partial failures.
-/
namespace LayeredStore

/-- A member that failed, with the error it ended in. -/
structure MemberFailure (ε : Type) where
  /-- The member's place, from zero. -/
  index : Nat
  /-- The member's name. -/
  name : String
  /-- What went wrong. -/
  cause : ε
  deriving DecidableEq

/-- Why an operation on a table, a stack or a catalog failed. -/
inductive StoreError
  /-- A field, a value or an identifier does not fit the schema. -/
  | schemaViolation (table field reason : String)
  /-- The name cannot be that of a table. -/
  | invalidTableName (name reason : String)
  /-- A backend failed. -/
  | storage (failure : StorageFailure)
  /-- A query was refused. -/
  | query (error : QueryError)
  /-- Some members of a group failed. -/
  | partialFailure (operation : String) (attempted : Nat)
      (failures : List (MemberFailure StoreError))
  /-- The settings or the members cannot work together. -/
  | invalidSettings (reason : String)

namespace StoreError

instance : Inhabited StoreError := ⟨invalidSettings ""⟩

mutual
/-- The wording of an error. -/
def message : StoreError → String
  | schemaViolation table field reason =>
    "schema violation in table '" ++ table ++ "', field '" ++ field ++ "': " ++ reason
  | invalidTableName name reason => "invalid table name '" ++ name ++ "': " ++ reason
  | storage failure => "storage error: " ++ failure.message
  | query error => "query error: " ++ error.message
  | partialFailure operation attempted failures =>
    operation ++ " failed on " ++ toString failures.length ++ " of " ++ toString attempted ++
      " layers: " ++ memberMessages failures
  | invalidSettings reason => "invalid configuration: " ++ reason

/-- The wordings of several members' failures. -/
def memberMessages : List (MemberFailure StoreError) → String
  | [] => ""
  | [f] => memberMessage f
  | f :: rest => memberMessage f ++ "; " ++ memberMessages rest

/-- The wording of one member's failure. -/
def memberMessage : MemberFailure StoreError → String
  | ⟨index, name, cause⟩ =>
    "layer " ++ toString index ++ " (" ++ name ++ "): " ++ cause.message
end

mutual
/-- Whether the same call may succeed later: every cause is a retryable storage
failure. -/
def isRetryable : StoreError → Bool
  | storage failure => failure.isRetryable
  | partialFailure _ _ failures => !failures.isEmpty && allRetryable failures
  | schemaViolation _ _ _ | invalidTableName _ _ | query _ | invalidSettings _ => false

/-- Whether every member's failure is retryable. -/
def allRetryable : List (MemberFailure StoreError) → Bool
  | [] => true
  | f :: rest => memberRetryable f && allRetryable rest

/-- Whether one member's failure is retryable. -/
def memberRetryable : MemberFailure StoreError → Bool
  | ⟨_, _, cause⟩ => cause.isRetryable
end

/-- The places of the members that failed. -/
def failedMembers : StoreError → List Nat
  | partialFailure _ _ failures => failures.map MemberFailure.index
  | _ => []

theorem allRetryable_eq_all (failures : List (MemberFailure StoreError)) :
    allRetryable failures = failures.all fun f => f.cause.isRetryable := by
  induction failures with
  | nil => rfl
  | cons f fs ih => rw [allRetryable, ih, List.all_cons, memberRetryable]

end StoreError

end LayeredStore
