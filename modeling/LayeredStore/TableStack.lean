import LayeredStore.Table

/-! # Stacks of tables

A table stack is a layered stack whose layers are tables of one schema.  Records are
read and written through the layers; scans and queries are answered by one table, which
the settings choose.
-/
namespace LayeredStore

/-- Tables of one schema in layers. -/
structure TableStack (σ : Type) where
  /-- The schema that every table has. -/
  schema : Schema
  /-- The tables, the highest priority first. -/
  tables : List (Table σ)
  /-- The layers behind one name. -/
  stack : Stack σ Record
  /-- The table that answers scans and queries. -/
  queryTable : Table σ

namespace TableStack

variable {σ : Type}

/-- Put tables together.  There must be at least one, and all must have one schema. -/
def ofTables [PolicyKeeper σ] (tables : List (Table σ)) (settings : Settings) :
    Action σ StoreError (TableStack σ) :=
  match tables with
  | [] => .fail (.invalidSettings "an object stack needs at least one table")
  | first :: rest =>
    match rest.find? fun t => t.schema != first.schema with
    | some other =>
      .fail (.invalidSettings ("table '" ++ other.schema.table ++
        "' does not share the schema of '" ++ first.schema.table ++ "'"))
    | none => do
      let stack ← Stack.compose first.schema.table (tables.map Table.layer) settings
      let queryTable := tables.getD (settings.queryLayer.index tables.length) first
      pure ⟨first.schema, tables, stack, queryTable⟩

/-- Open a table on each factory. -/
def openTables (schema : Schema) (settings : Settings) :
    List (Factory σ) → Action σ StoreError (List (Table σ))
  | [] => pure []
  | factory :: rest => do
    let table ← Table.openOn factory schema settings.lifespan
    let tables ← openTables schema settings rest
    pure (table :: tables)

/-- Open a stack with one table on each factory. -/
def openOn [PolicyKeeper σ] (schema : Schema) (factories : List (Factory σ))
    (settings : Settings) : Action σ StoreError (TableStack σ) := do
  let tables ← openTables schema settings factories
  ofTables tables settings

variable (o : TableStack σ) (now : Int64)

/-- Write some fields of a record into every layer.  With an identifier the fields are
merged into the record that the stack holds; without one the fresh identifier is used.
The answer is the identifier with the fields given. -/
def append (id? : Option String) (fresh : String) (fields : List (String × Value)) :
    Action σ StoreError Record := do
  match id? with
  | some id => Table.require (o.schema.checkId id)
  | none => pure ()
  let patch := Record.ofFields (id?.getD fresh) fields
  Table.require (o.schema.checkAll patch.fields.toList)
  match id? with
  | none => o.stack.write now patch.id patch
  | some _ =>
    let _ ← o.stack.update now patch.id fun current? =>
      (current?.getD (Record.blank patch.id)).merge patch
  pure patch

/-- Replace a record in every layer. -/
def put (record : Record) : Action σ StoreError Unit := do
  Table.require (o.schema.checkAll record.fields.toList)
  o.stack.write now record.id record

/-- The record of an identifier, read through the layers. -/
def get (id : String) : Action σ StoreError (Option Record) := o.stack.read now id

/-- Delete a record from every layer; the answer is whether one of them had it. -/
def remove (id : String) : Action σ StoreError Bool := o.stack.remove now id

/-- The identifiers that the answering table knows. -/
def keys : Action σ StoreError KeySet := o.queryTable.keys now

/-- The answering table's records that have a value for a declared field. -/
def withField (name : String) : Action σ StoreError (List Record) :=
  o.queryTable.withField now name

/-- The answering table's records that a query selects. -/
def query (q : Query) : Action σ StoreError (List Record) := o.queryTable.query now q

/-- How many of the answering table's records pass a query's filter. -/
def count (q : Query) : Action σ StoreError Nat := o.queryTable.count now q

/-- `query` with the clause and the order in text. -/
def queryText (clause? : Option String) (args : List Value) (order? : Option String)
    (offset limit : Nat) : Action σ StoreError (List Record) :=
  o.queryTable.queryText now clause? args order? offset limit

end TableStack

end LayeredStore
