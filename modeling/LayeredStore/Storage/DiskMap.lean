import LayeredStore.Storage.MemoryMap

/-! # Maps on disk

A disk map holds raw bytes under each key: an entry's expiry in eight bytes, the most
significant first, and then its value.  Raw bytes that are too short for the header are
damaged, and a request that meets them fails.

Every request is a transaction: one that fails leaves the raw map as it was
(`DiskMap.perform_error`).  Expired entries are hidden on reads and deleted by
maintenance; emptying a map looks at no entry.
-/
namespace LayeredStore

/-- The raw bytes of a map's entries. -/
abbrev DiskMap := Dictionary String Bytes

namespace DiskMap

/-- How many bytes the expiry takes. -/
def headerLength : Nat := 8

/-- The number that bytes spell, the most significant first. -/
def ofBigEndian (bytes : Bytes) : Nat := bytes.foldl (fun n b => 256 * n + b.toNat) 0

/-- The last `count` bytes of a number, the most significant first. -/
def toBigEndian (count n : Nat) : Bytes :=
  (List.range count).reverse.map fun i => UInt8.ofNat (n / Nat.pow 256 i)

/-- The raw bytes of an entry. -/
def encode (e : Entry) : Bytes := toBigEndian headerLength e.expiry.toBitVec.toNat ++ e.value

/-- The entry of raw bytes. -/
def decode (raw : Bytes) : Except StorageFailure Entry :=
  if raw.length < headerLength then
    .error (.corrupted ("stored value is " ++ toString raw.length ++
      " bytes, shorter than the expiry header"))
  else
    .ok ⟨raw.drop headerLength,
      Int64.ofBitVec (BitVec.ofNat 64 (ofBigEndian (raw.take headerLength)))⟩

/-- The entry of raw bytes, if it is live. -/
def decodeLive (now : Int64) (raw : Bytes) : Except StorageFailure (Option Entry) :=
  match decode raw with
  | .ok e => .ok (if e.isLive now then some e else none)
  | .error failure => .error failure

/-- The live entry of a key. -/
def live? (m : DiskMap) (now : Int64) (key : String) : Except StorageFailure (Option Entry) :=
  match m.get? key with
  | some raw => decodeLive now raw
  | none => .ok none

/-- Every entry, in key order. -/
def decodeAll : List (String × Bytes) → Except StorageFailure (List (String × Entry))
  | [] => .ok []
  | (key, raw) :: rest =>
    match decode raw with
    | .error failure => .error failure
    | .ok e =>
      match decodeAll rest with
      | .error failure => .error failure
      | .ok entries => .ok ((key, e) :: entries)

/-- What a transaction makes of the raw map: the answer and the map it commits. -/
def transact (m : DiskMap) (now : Int64) :
    (r : Request) → Except StorageFailure (r.Answer × DiskMap)
  | .get key => (m.live? now key).map fun e => (e.map Entry.value, m)
  | .put key value expiry =>
    (m.live? now key).map fun e => (e.map Entry.value, m.insert key (encode ⟨value, expiry⟩))
  | .remove key => (m.live? now key).map fun e => (e.map Entry.value, m.erase key)
  | .keys value? =>
    (decodeAll m.toList).map fun entries =>
      (KeySet.ofKeys ((entries.filter fun (_, e) =>
        e.isLive now && value?.all (· == e.value)).map Prod.fst), m)
  | .expiry key => (m.live? now key).map fun e => (e.map Entry.expiry, m)
  | .setExpiry key expiry =>
    (m.live? now key).map fun
      | some e => (true, m.insert key (encode ⟨e.value, expiry⟩))
      | none => (false, m)
  | .upkeep .setup => .ok ((), m)
  | .upkeep .teardown => .ok ((), .empty)
  | .upkeep .maintenance =>
    (decodeAll m.toList).map fun entries =>
      ((), (entries.filter fun (_, e) => !e.isLive now).foldl (fun m (key, _) => m.erase key) m)
  | .upkeep .incremental => .ok ((), m)
  | .upkeep .clear => .ok ((), .empty)

/-- Answer a request in a transaction: a failure commits nothing. -/
def perform (r : Request) (now : Int64) : Action DiskMap StorageFailure r.Answer := fun m =>
  match transact m now r with
  | .ok (answer, m) => (.ok answer, m)
  | .error failure => (.error failure, m)

/-- **A failed request leaves every raw entry as it was.** -/
theorem perform_error {r : Request} {now : Int64} {m m' : DiskMap} {failure : StorageFailure}
    (h : perform r now m = (.error failure, m')) : m' = m := by
  unfold perform at h
  split at h
  · cases h
  · cases h; rfl

/-- The map as a backend under a name. -/
def backend (name : String) : Backend DiskMap := ⟨name, perform⟩

/-- Opens maps in a file, one for each name but the empty one. -/
def factory {σ : Type} (maps : String → Place σ DiskMap) : Factory σ :=
  ⟨"redb", fun name =>
    if name.isEmpty then
      .fail (.invalidMapName name "redb table names cannot be empty")
    else pure ((backend ("redb:" ++ name)).within (maps name))⟩

end DiskMap

end LayeredStore
