import LayeredStore.Storage.Backend

/-! # Maps in memory

A memory map holds values with their expiries.  No request fails.  An expired entry is
hidden from every answer; it is dropped for good by a read of its key and by
maintenance.
-/
namespace LayeredStore

/-- A value with its expiry. -/
structure Entry where
  /-- The stored bytes. -/
  value : Bytes
  /-- When they expire. -/
  expiry : Int64
  deriving DecidableEq

/-- Whether the entry has not expired. -/
def Entry.isLive (now : Int64) (e : Entry) : Bool := !isExpired e.expiry now

/-- The entries of a map in memory, expired ones included. -/
abbrev MemoryMap := Dictionary String Entry

namespace MemoryMap

/-- The live entry of a key. -/
def live? (m : MemoryMap) (now : Int64) (key : String) : Option Entry :=
  (m.get? key).filter (·.isLive now)

/-- The map without its expired entries. -/
def reclaimed (m : MemoryMap) (now : Int64) : MemoryMap := m.filter fun _ e => e.isLive now

/-- The live keys, perhaps only those with a given value. -/
def liveKeys (m : MemoryMap) (now : Int64) (value? : Option Bytes) : KeySet :=
  ((m.reclaimed now).filter fun _ e => value?.all (· == e.value)).map fun _ => ()

/-- The answer to a request, and the map afterwards. -/
def perform (m : MemoryMap) (now : Int64) : (r : Request) → r.Answer × MemoryMap
  | .get key =>
    match m.live? now key with
    | some e => (some e.value, m)
    | none => (none, m.erase key)
  | .put key value expiry => ((m.live? now key).map Entry.value, m.insert key ⟨value, expiry⟩)
  | .remove key => ((m.live? now key).map Entry.value, m.erase key)
  | .keys value? => (m.liveKeys now value?, m)
  | .expiry key => ((m.live? now key).map Entry.expiry, m)
  | .setExpiry key expiry =>
    match m.live? now key with
    | some e => (true, m.insert key ⟨e.value, expiry⟩)
    | none => (false, m)
  | .upkeep .setup => ((), m)
  | .upkeep .teardown => ((), .empty)
  | .upkeep .maintenance => ((), m.reclaimed now)
  | .upkeep .incremental => ((), m)
  | .upkeep .clear => ((), .empty)

/-- The map as a backend under a name. -/
def backend (name : String) : Backend MemoryMap :=
  ⟨name, fun r now m =>
    match perform m now r with
    | (answer, m) => (.ok answer, m)⟩

/-- Opens maps in memory, one for each name. -/
def factory {σ : Type} (maps : String → Place σ MemoryMap) : Factory σ :=
  ⟨"in-memory", fun name => pure ((backend ("in-memory:" ++ name)).within (maps name))⟩

end MemoryMap

end LayeredStore
