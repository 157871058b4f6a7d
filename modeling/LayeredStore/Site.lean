import LayeredStore.Catalog
import LayeredStore.Storage.DiskMap
import LayeredStore.Storage.Metered

/-! # Sites

A site is everything that storage consists of: numbered volumes of maps, in memory or on
disk, and the escalation policies of the stacks built on them, with what these draw.  The
maps of a volume may be guarded and metered: its fault names the calls that fail at
present, on all maps or on some, and what reaches the maps is counted.

Restarting a site loses what was in memory, all counts and all faults, and keeps what
was on disk.
-/
namespace LayeredStore

/-- What a volume keeps its maps on, and how it names them. -/
inductive Medium
  /-- In memory, the maps named after the medium. -/
  | memory
  /-- On disk. -/
  | disk
  /-- In memory, each map named as it was opened. -/
  | named
  deriving DecidableEq

/-- A call that can be made to fail. -/
inductive Call
  | get | put | remove | keys | expiry | setExpiry
  | upkeep (verb : Upkeep)
  /-- Opening a map. -/
  | openMap
  deriving DecidableEq

/-- The call that a request is. -/
def Request.call : Request → Call
  | .get _ => .get
  | .put _ _ _ => .put
  | .remove _ => .remove
  | .keys _ => .keys
  | .expiry _ => .expiry
  | .setExpiry _ _ => .setExpiry
  | .upkeep verb => .upkeep verb

/-- How a call fails. -/
inductive FaultKind
  | unavailable | io | serialization | corrupted | invalidMap
  deriving DecidableEq

/-- The failure of a map of some name. -/
def FaultKind.failure (map : String) : FaultKind → StorageFailure
  | unavailable => .unavailable (map ++ " is down")
  | io => .io (map ++ " broke")
  | serialization => .serialization (map ++ " is garbled")
  | corrupted => .corrupted (map ++ " is damaged")
  | invalidMap => .invalidMapName map "rejected"

/-- Which calls fail, and how. -/
structure Fault where
  /-- The calls that fail. -/
  calls : List Call
  /-- How they fail. -/
  kind : FaultKind
  /-- The maps they fail on; without a list, all. -/
  maps? : Option (List String)
  deriving DecidableEq

/-- The failure of a call on a map, if it fails. -/
def Fault.failure? (f : Fault) (call : Call) (map : String) : Option StorageFailure :=
  if f.calls.contains call && f.maps?.all (·.contains map) then some (f.kind.failure map)
  else none

/-- A numbered store of maps. -/
structure Volume where
  /-- What the maps are kept on. -/
  medium : Medium
  /-- Whether maps are guarded and metered. -/
  wrapped : Bool
  /-- The fault at present. -/
  fault? : Option Fault
  /-- The maps in memory. -/
  memory : Dictionary String MemoryMap
  /-- The maps on disk. -/
  disk : Dictionary String DiskMap
  /-- What has been counted for each map. -/
  stats : Dictionary String Stats

namespace Volume

/-- An empty volume. -/
def new (medium : Medium) (wrapped : Bool) : Volume :=
  ⟨medium, wrapped, none, .empty, .empty, .empty⟩

instance : Inhabited Volume := ⟨new .memory false⟩

/-- What a restart leaves of a volume. -/
def restarted (v : Volume) : Volume := { new v.medium v.wrapped with disk := v.disk }

/-- The failure that the fault at present makes of a call, on a guarded volume. -/
def failure? (v : Volume) (call : Call) (map : String) : Option StorageFailure :=
  if v.wrapped then v.fault?.bind fun f => f.failure? call map else none

/-- The place of a map in memory. -/
def memoryPlace (name : String) : Place Volume MemoryMap where
  read v := (v.memory.get? name).getD .empty
  write m v := { v with memory := v.memory.insert name m }
  read_write m v := by simp

/-- The place of a map on disk. -/
def diskPlace (name : String) : Place Volume DiskMap where
  read v := (v.disk.get? name).getD .empty
  write m v := { v with disk := v.disk.insert name m }
  read_write m v := by simp

/-- The place of a map's counts. -/
def statsPlace (name : String) : Place Volume Stats where
  read v := (v.stats.get? name).getD .none
  write m v := { v with stats := v.stats.insert name m }
  read_write m v := by simp

end Volume

/-- Volumes by number, and the policies of stacks by ticket. -/
structure Site where
  /-- The volumes. -/
  volumes : Dictionary Nat Volume
  /-- The policies. -/
  policies : Dictionary Nat EscalationPolicy
  /-- How many tickets have been issued. -/
  issued : Nat
  /-- What the policies draw. -/
  random : Randomness

namespace Site

/-- A site with volumes numbered from zero. -/
def ofVolumes (random : Randomness) (volumes : List Volume) : Site :=
  ⟨.ofList (volumes.zipIdx.map fun (v, i) => (i, v)), .empty, 0, random⟩

/-- The place of a volume. -/
def volume (number : Nat) : Place Site Volume where
  read s := (s.volumes.get? number).getD default
  write v s := { s with volumes := s.volumes.insert number v }
  read_write v s := by simp

/-- The place of the policy with a ticket. -/
def policy (ticket : Nat) : Place Site EscalationPolicy where
  read s := (s.policies.get? ticket).getD (.never s.random)
  write p s := { s with policies := s.policies.insert ticket p }
  read_write p s := by simp

instance : PolicyKeeper Site where
  random := random
  policy := policy
  issue s := (s.issued, { s with issued := s.issued + 1 })

/-- The factory of a medium on a volume, without guard and meter. -/
def bareFactory (medium : Medium) (number : Nat) : Factory Site :=
  match medium with
  | .memory => MemoryMap.factory fun name => (volume number).inside (Volume.memoryPlace name)
  | .disk => DiskMap.factory fun name => (volume number).inside (Volume.diskPlace name)
  | .named =>
    ⟨"named", fun name =>
      pure ((MemoryMap.backend (if name.isEmpty then "in-memory" else name)).within
        ((volume number).inside (Volume.memoryPlace name)))⟩

/-- The gate of a map: the volume's fault refuses the calls it names. -/
def gate (number : Nat) (name : String) (r : Request) (s : Site) : Option StorageFailure × Site :=
  (((volume number).read s).failure? r.call name, s)

/-- A map behind its gate, its calls counted. -/
def wrap (number : Nat) (name : String) (b : Backend Site) : Backend Site :=
  (b.guarded (gate number name)).metered ((volume number).inside (Volume.statsPlace name))

/-- Fail if the volume's fault makes the opening of a map fail. -/
def checkOpen (number : Nat) (name : String) : Action Site StorageFailure Unit := fun s =>
  match ((volume number).read s).failure? .openMap name with
  | some failure => (.error failure, s)
  | none => (.ok (), s)

/-- Open a map of a volume without its guard and its meter. -/
def openBare (number : Nat) (name : String) : Action Site StorageFailure (Backend Site) := do
  checkOpen number name
  let medium ← Action.inspect fun s => ((volume number).read s).medium
  (bareFactory medium number).openMap name

/-- Open a map of a volume. -/
def openMap (number : Nat) (name : String) : Action Site StorageFailure (Backend Site) := do
  let b ← openBare number name
  let wrapped ← Action.inspect fun s => ((volume number).read s).wrapped
  pure (if wrapped then wrap number name b else b)

/-- The factory of a volume. -/
def factory (s : Site) (number : Nat) : Factory Site :=
  ⟨(bareFactory ((volume number).read s).medium number).name, openMap number⟩

/-- The live entries of a map, past its guard and its meter: the keys, and then the
value and the expiry of each. -/
def dump (number : Nat) (name : String) (now : Int64) :
    Action Site StorageFailure (List (String × Bytes × Int64)) := do
  let b ← openBare number name
  let keys ← b.keys now none
  entries b keys.keys
where
  /-- The entries of some keys. -/
  entries (b : Backend Site) :
      List String → Action Site StorageFailure (List (String × Bytes × Int64))
    | [] => pure []
    | key :: rest => do
      let value? ← b.get now key
      let expiry? ← b.expiry now key
      let others ← entries b rest
      pure (match value?, expiry? with
        | some value, some expiry => (key, value, expiry) :: others
        | _, _ => others)

/-- How many entries a map in memory holds, expired ones included. -/
def entryCount (number : Nat) (name : String) (s : Site) : Nat :=
  (((volume number).inside (Volume.memoryPlace name)).read s).size

/-- What has been counted for a map. -/
def stats (number : Nat) (name : String) : Action Site StorageFailure Stats := do
  let _ ← openMap number name
  Action.inspect ((volume number).inside (Volume.statsPlace name)).read

/-- Start counting from nothing. -/
def resetStats (number : Nat) (name : String) : Action Site StorageFailure Unit := do
  let _ ← openMap number name
  Action.change (((volume number).inside (Volume.statsPlace name)).write .none)

/-- Replace the fault of a volume. -/
def setFault (number : Nat) (fault : Fault) (s : Site) : Site :=
  (volume number).write { (volume number).read s with fault? := some fault } s

/-- Lose what is in memory, and put raw entries into maps on disk. -/
def restart (raw : List (Nat × String × String × Bytes)) (s : Site) : Site :=
  raw.foldl
    (fun s (number, name, key, bytes) =>
      let place := (volume number).inside (Volume.diskPlace name)
      place.write ((place.read s).insert key bytes) s)
    { s with volumes := s.volumes.map Volume.restarted }

end Site

end LayeredStore
