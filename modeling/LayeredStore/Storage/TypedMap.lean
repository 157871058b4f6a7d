import LayeredStore.Storage.Backend
import LayeredStore.Stored

/-! # Typed maps

A typed map keeps data of one type in a backend, each in its stored form.  Bytes that
are no stored form fail the request that has to read them; a write or a deletion reads
the value it replaces after the backend has done its part.
-/
namespace LayeredStore

/-- A backend whose values are stored forms of one type. -/
structure TypedMap (σ α : Type) where
  /-- The map of bytes underneath. -/
  backend : Backend σ

namespace TypedMap

variable {σ α : Type} [Stored α] (m : TypedMap σ α) (now : Int64)

/-- The datum whose stored form the bytes are. -/
def decode (key : String) (bytes : Bytes) : Except StorageFailure α :=
  match (Stored.ofBytes? bytes : Option α) with
  | some a => .ok a
  | none => .error (.serialization
      ("failed to deserialize value for key '" ++ key ++ "' in '" ++ m.backend.name ++ "': <json>"))

/-- The datum of an answer, if there is one. -/
def decodeAnswer (key : String) : Option Bytes → Except StorageFailure (Option α)
  | none => .ok none
  | some bytes =>
    match m.decode key bytes with
    | .ok a => .ok (some a)
    | .error failure => .error failure

/-- The live datum of a key. -/
def get (key : String) : Action σ StorageFailure (Option α) := do
  .ofExcept (m.decodeAnswer key (← m.backend.get now key))

/-- Store a datum; the answer is the live one it replaces. -/
def put (key : String) (a : α) (expiry : Int64) : Action σ StorageFailure (Option α) := do
  .ofExcept (m.decodeAnswer key (← m.backend.put now key (Stored.bytes a) expiry))

/-- Delete a key; the answer is the live datum it had. -/
def remove (key : String) : Action σ StorageFailure (Option α) := do
  .ofExcept (m.decodeAnswer key (← m.backend.remove now key))

/-- The live keys, perhaps only those with a given datum. -/
def keys (a? : Option α) : Action σ StorageFailure KeySet :=
  m.backend.keys now (a?.map Stored.bytes)

end TypedMap

end LayeredStore
