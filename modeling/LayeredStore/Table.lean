import LayeredStore.Query
import LayeredStore.Stack
import LayeredStore.Storage.TypedMap
import LayeredStore.Table.Schema

/-! # Object tables

A table keeps each declared field in a backend map of its own, its column, and the known
identifiers in one more map, the index.  Map names are the table's name in small letters,
a `#`, and the field or `_oid`; neither a table's name nor the reserved field can contain
or be what would make two of them alike.

Columns are independent.  A write goes through the index and the columns one after
another and stops at the first failure; a removal attempts every map.  Queries scan all
known identifiers.

An operation has one time, `now`, for all that it does.  So no field expires between the
reads of its value and of its expiry, and the case that `readExpiringFields` has for it is
met only where a backend contradicts itself.
-/
namespace LayeredStore

/-- The bytes that mark a known identifier in the index. -/
def indexMarker : Bytes := Bytes.ofText "1"

/-- The name of a table's map for a field or for the index. -/
def mapName (table suffix : String) : String := Text.lower table ++ "#" ++ suffix

/-- Records over an index map and one map per field. -/
structure Table (σ : Type) where
  /-- The name in failure reports. -/
  label : String
  /-- The declared fields. -/
  schema : Schema
  /-- The map of known identifiers. -/
  index : Backend σ
  /-- The map of each declared field. -/
  columns : Dictionary String (Backend σ)
  /-- How long written values live, in seconds; zero is for ever. -/
  lifespan : UInt64

namespace Table

variable {σ : Type}

/-- Open one map for each name; the first that cannot be opened ends it. -/
def openMaps (factory : Factory σ) (table : String) :
    List String → Action σ StoreError (List (String × Backend σ))
  | [] => pure []
  | suffix :: rest => do
    let map ← (factory.openMap (mapName table suffix)).mapError .storage
    let maps ← openMaps factory table rest
    pure ((suffix, map) :: maps)

/-- Open the maps of a table. -/
def openOn (factory : Factory σ) (schema : Schema) (lifespan : UInt64) :
    Action σ StoreError (Table σ) := do
  let index ← (factory.openMap (mapName schema.table idField)).mapError .storage
  let columns ← openMaps factory schema.table schema.fields.keys
  pure ⟨factory.name ++ ":" ++ schema.table, schema, index, .ofList columns, lifespan⟩

variable (t : Table σ) (now : Int64)

/-- Every map, the index first. -/
def maps : List (Backend σ) := t.index :: t.columns.values

/-- A column as a map of values. -/
def column (b : Backend σ) : TypedMap σ Value := ⟨b⟩

/-- Check input without touching any backend. -/
def require (checked : Except StoreError Unit) : Action σ StoreError Unit := .ofExcept checked

/-! ## Writing -/

/-- Mark an identifier as known. -/
def mark (id : String) (expiry : Int64) : Action σ StoreError Unit := do
  let _ ← (t.index.put now id indexMarker expiry).mapError .storage

/-- Write fields into their columns, one after another. -/
def writeFields (id : String) (expiry : Int64) : List (String × Value) → Action σ StoreError Unit
  | [] => pure ()
  | (name, value) :: rest => do
    match t.columns.get? name with
    | some b => let _ ← ((column b).put now id value expiry).mapError .storage
    | none => pure ()
    writeFields id expiry rest

/-- Write or clear every column in turn, as a record has the field or not. -/
def replaceFields (record : Record) (expiry : Int64) :
    List (String × Backend σ) → Action σ StoreError Unit
  | [] => pure ()
  | (name, b) :: rest => do
    match record.fields.get? name with
    | some value => let _ ← ((column b).put now record.id value expiry).mapError .storage
    | none => let _ ← ((column b).remove now record.id).mapError .storage
    replaceFields record expiry rest

/-- Write some fields of a record, leaving its others alone.  Without an identifier the
fresh one is used.  The answer is the identifier with the fields written. -/
def appendExpiring (id? : Option String) (fresh : String) (fields : List (String × Value))
    (expiry : Int64) : Action σ StoreError Record := do
  let id ← match id? with
    | some id => do
      require (t.schema.checkId id)
      pure id
    | none => pure fresh
  let record := Record.ofFields id fields
  require (t.schema.checkAll record.fields.toList)
  t.mark now record.id expiry
  t.writeFields now record.id expiry record.fields.toList
  pure record

/-- Write some fields for the table's lifespan. -/
def append (id? : Option String) (fresh : String) (fields : List (String × Value)) :
    Action σ StoreError Record :=
  t.appendExpiring now id? fresh fields (expiryAfter now t.lifespan)

/-- Replace a record: declared fields that it does not have are deleted. -/
def put (record : Record) (expiry : Int64) : Action σ StoreError Unit := do
  require (t.schema.checkId record.id)
  require (t.schema.checkAll record.fields.toList)
  t.mark now record.id expiry
  replaceFields now record expiry t.columns.toList

/-- Delete an identifier from the index and every column; the answer is whether one of
them had it. -/
def remove (id : String) : Action σ StoreError Bool := do
  let removed ← fanOut "remove" Backend.name
    (fun b => (b.remove now id).mapError .storage) t.maps
  pure (removed.any Option.isSome)

/-! ## Reading -/

/-- The fields that columns hold for an identifier. -/
def readFields (id : String) : List (String × Backend σ) → Action σ StoreError (List (String × Value))
  | [] => pure []
  | (name, b) :: rest => do
    let value? ← ((column b).get now id).mapError .storage
    let fields ← readFields id rest
    pure (match value? with
      | some value => (name, value) :: fields
      | none => fields)

/-- The record of an identifier that is known or has a value in some column. -/
def get (id : String) : Action σ StoreError (Option Record) := do
  let marker? ← (t.index.get now id).mapError .storage
  let record : Record := ⟨id, .ofList (← readFields now id t.columns.toList)⟩
  pure (if marker?.isSome || !record.isBlank then some record else none)

/-- The fields that columns hold for an identifier, with the soonest of their expiries
and the given one.  A value whose expiry is not to be had is absent. -/
def readExpiringFields (id : String) (soonest : Int64) :
    List (String × Backend σ) → Action σ StoreError (List (String × Value) × Int64)
  | [] => pure ([], soonest)
  | (name, b) :: rest => do
    match ← ((column b).get now id).mapError .storage with
    | none => readExpiringFields id soonest rest
    | some value =>
      match ← (b.expiry now id).mapError .storage with
      | none => readExpiringFields id soonest rest
      | some expiry => do
        let (fields, soonest) ← readExpiringFields id (earliest soonest expiry) rest
        pure ((name, value) :: fields, soonest)

/-- The record of an identifier with the soonest expiry among its live entries. -/
def getWithExpiry (id : String) : Action σ StoreError (Option (Record × Int64)) := do
  let known? ← (t.index.expiry now id).mapError .storage
  let soonest := match known? with
    | some expiry => earliest neverExpires expiry
    | none => neverExpires
  let (fields, soonest) ← readExpiringFields now id soonest t.columns.toList
  let record : Record := ⟨id, .ofList fields⟩
  pure (if known?.isSome || !record.isBlank then some (record, soonest) else none)

/-- Whether there is a record of an identifier. -/
def contains (id : String) : Action σ StoreError Bool := do
  let record? ← t.get now id
  pure record?.isSome

/-- The live keys of several maps together. -/
def unionKeys (known : KeySet) : List (Backend σ) → Action σ StoreError KeySet
  | [] => pure known
  | b :: rest => do
    let keys ← (b.keys now none).mapError .storage
    unionKeys (known.union keys) rest

/-- Every identifier that is known or has a value in some column. -/
def keys : Action σ StoreError KeySet := do
  let known ← (t.index.keys now none).mapError .storage
  unionKeys now known t.columns.values

/-- The records of identifiers, in order; those that are gone are left out. -/
def materialize : List String → Action σ StoreError (List Record)
  | [] => pure []
  | id :: rest => do
    let record? ← t.get now id
    let records ← materialize rest
    pure (record?.toList ++ records)

/-- The records that have a value for a declared field. -/
def withField (name : String) : Action σ StoreError (List Record) := do
  let _ ← Action.ofExcept (t.schema.require name)
  let ids ← match t.columns.get? (normalizeName name) with
    | some b => (b.keys now none).mapError .storage
    | none => pure .empty
  t.materialize now ids.keys

/-- The records that pass a query's filter, in the order of their identifiers. -/
def scan (q : Query) : Action σ StoreError (List Record) := do
  let ids ← t.keys now
  let records ← t.materialize now ids.keys
  pure (records.filter q.accepts)

/-- The records that a query selects, ordered and cut. -/
def query (q : Query) : Action σ StoreError (List Record) := do
  let matched ← t.scan now q
  pure (q.finish matched)

/-- How many records pass a query's filter; its page does not matter. -/
def count (q : Query) : Action σ StoreError Nat := do
  let matched ← t.scan now q
  pure matched.length

/-- `query` with the clause and the order in text. -/
def queryText (clause? : Option String) (args : List Value) (order? : Option String)
    (offset limit : Nat) : Action σ StoreError (List Record) :=
  match Query.build clause? args order? offset limit with
  | .ok q => t.query now q
  | .error e => .fail (.query e)

/-! ## Upkeep and layers -/

/-- Carry out upkeep on every map. -/
def upkeep (verb : Upkeep) : Action σ StoreError Unit :=
  Member.upkeepAll (t.maps.map Member.ofBackend) verb now

/-- The table as a layer of records.  A record is stored under the identifier it is
stored for. -/
def layer : Layer σ Record where
  label := t.label
  fetch now id := t.getWithExpiry now id
  store now id record expiry := t.put now { record with id } expiry
  discard now id := t.remove now id
  upkeep verb now := t.upkeep now verb

end Table

end LayeredStore
