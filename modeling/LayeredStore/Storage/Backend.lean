import LayeredStore.Dictionary
import LayeredStore.Storage.Action
import LayeredStore.Storage.Expiry
import LayeredStore.Storage.Failure
import LayeredStore.Value

/-! # Backend maps

A backend is a named map from texts to bytes whose entries expire.  All that can be
asked of it is a `Request`, and `Request.Answer` is the kind of answer each request has,
so whatever is said of every request is said of every operation, and a wrapper is one
function.  A backend works on a state that may hold much else besides; it is told the
time.

Absent and expired entries are one thing to a caller.
-/
namespace LayeredStore

/-- The verbs of upkeep that everything with storage underneath understands. -/
inductive Upkeep
  /-- Make the storage ready. -/
  | setup
  /-- Delete the storage and all that is in it. -/
  | teardown
  /-- Reclaim what has expired. -/
  | maintenance
  /-- Do a little upkeep between other requests. -/
  | incremental
  /-- Delete all data. -/
  | clear
  deriving DecidableEq

/-- The verb in messages. -/
def Upkeep.name : Upkeep → String
  | setup => "setup"
  | teardown => "teardown"
  | maintenance => "maintenance"
  | incremental => "incremental maintenance"
  | clear => "clear"

/-- What can be asked of a backend map. -/
inductive Request
  /-- The live value of a key. -/
  | get (key : String)
  /-- Store a value with an expiry; the answer is the live value it replaces. -/
  | put (key : String) (value : Bytes) (expiry : Int64)
  /-- Delete a key; the answer is the live value it had. -/
  | remove (key : String)
  /-- The live keys, perhaps only those with a given value. -/
  | keys (value? : Option Bytes)
  /-- The expiry of a live key. -/
  | expiry (key : String)
  /-- Change the expiry of a live key; the answer is whether it is there. -/
  | setExpiry (key : String) (expiry : Int64)
  /-- Upkeep. -/
  | upkeep (verb : Upkeep)
  deriving DecidableEq

/-- The kind of answer that a request has. -/
def Request.Answer : Request → Type
  | .get _ => Option Bytes
  | .put _ _ _ => Option Bytes
  | .remove _ => Option Bytes
  | .keys _ => KeySet
  | .expiry _ => Option Int64
  | .setExpiry _ _ => Bool
  | .upkeep _ => Unit

/-- A map behind a name, working on a state. -/
structure Backend (σ : Type) where
  /-- The name in messages. -/
  name : String
  /-- Answer a request at a time. -/
  perform : (r : Request) → (now : Int64) → Action σ StorageFailure r.Answer

namespace Backend

variable {σ τ : Type} (b : Backend σ) (now : Int64)

/-- The live value of a key. -/
def get (key : String) : Action σ StorageFailure (Option Bytes) := b.perform (.get key) now

/-- Store a value; the answer is the live value it replaces. -/
def put (key : String) (value : Bytes) (expiry : Int64) :
    Action σ StorageFailure (Option Bytes) :=
  b.perform (.put key value expiry) now

/-- Delete a key; the answer is the live value it had. -/
def remove (key : String) : Action σ StorageFailure (Option Bytes) :=
  b.perform (.remove key) now

/-- The live keys, perhaps only those with a given value. -/
def keys (value? : Option Bytes) : Action σ StorageFailure KeySet :=
  b.perform (.keys value?) now

/-- The expiry of a live key. -/
def expiry (key : String) : Action σ StorageFailure (Option Int64) :=
  b.perform (.expiry key) now

/-- Change the expiry of a live key. -/
def setExpiry (key : String) (time : Int64) : Action σ StorageFailure Bool :=
  b.perform (.setExpiry key time) now

/-- Upkeep. -/
def upkeep (verb : Upkeep) : Action σ StorageFailure Unit := b.perform (.upkeep verb) now

/-- The backend on a larger state that keeps the backend's own in a place. -/
def within (p : Place σ τ) (b : Backend τ) : Backend σ :=
  ⟨b.name, fun r now => (b.perform r now).within p⟩

/-- The backend behind a gate, which may refuse a request before it reaches the map. -/
def guarded (gate : Request → σ → Option StorageFailure × σ) (b : Backend σ) : Backend σ :=
  ⟨b.name, fun r now s =>
    match gate r s with
    | (some failure, s) => (.error failure, s)
    | (none, s) => b.perform r now s⟩

end Backend

/-- Opens backend maps by name. -/
structure Factory (σ : Type) where
  /-- The name in messages. -/
  name : String
  /-- Open a map; the same name opens the same data. -/
  openMap : String → Action σ StorageFailure (Backend σ)

end LayeredStore
