import LayeredStore.TableStack

/-! # Catalogs

A catalog builds table stacks and layered maps on one list of factories and finds them
again by name.  Names are checked before any backend is asked, and ASCII case does not
distinguish them.  A table that could not be set up is not registered; a table that is
dropped is forgotten even if tearing it down failed, and so is everything when the whole
catalog is torn down.

A catalog changes, so its operations work on the catalog together with the storage
below.
-/
namespace LayeredStore

/-- A layered stack of byte values. -/
abbrev MapStack (σ : Type) := Stack σ Bytes

/-- Stacks by name, on one list of factories. -/
structure Catalog (σ : Type) where
  /-- The factory of each layer, the highest priority first. -/
  factories : List (Factory σ)
  /-- The settings of every stack. -/
  settings : Settings
  /-- The registered tables, under their names in capitals. -/
  tables : Dictionary String (TableStack σ)
  /-- The maps that have been made, under their names in capitals. -/
  maps : Dictionary String (MapStack σ)

namespace Catalog

variable {σ : Type}

/-- What a catalog works on: itself and the storage below. -/
abbrev Act (σ α : Type) := Action (Catalog σ × σ) StoreError α

/-- A catalog in which nothing is registered. -/
def new (factories : List (Factory σ)) (settings : Settings) : Except StoreError (Catalog σ) :=
  match settings.validate with
  | .error fault => .error (.invalidSettings fault.message)
  | .ok () =>
    if factories.isEmpty then
      .error (.invalidSettings "a catalog needs at least one layer factory")
    else .ok ⟨factories, settings, .empty, .empty⟩

/-- The key of a name. -/
def key (name : String) : String := Text.upper name

/-- Change the catalog. -/
def change (f : Catalog σ → Catalog σ) : Act σ Unit :=
  Action.onFirst (Action.change f)

/-- Look at the catalog. -/
def inspect {α : Type} (f : Catalog σ → α) : Act σ α := Action.onFirst (Action.inspect f)

/-- Open a map of one name on each factory. -/
def openLayers (name : String) : List (Factory σ) → Action σ StoreError (List (Layer σ Bytes))
  | [] => pure []
  | factory :: rest => do
    let map ← (factory.openMap name).mapError .storage
    let layers ← openLayers name rest
    pure (Layer.ofBackend map :: layers)

variable [PolicyKeeper σ] (now : Int64)

/-- Register a table and set it up, or find the one that has its name already; that one
must have the same fields. -/
def register (schema : Schema) : Act σ (TableStack σ) := do
  let c ← inspect id
  match c.tables.get? (key schema.table) with
  | some existing =>
    if existing.schema.fields = schema.fields then pure existing
    else .fail (schema.violation "*" "table already registered with different fields")
  | none => do
    let table ← Action.onSecond (TableStack.openOn schema c.factories c.settings)
    Action.onSecond (table.stack.upkeep now .setup)
    change fun c => { c with tables := c.tables.insert (key schema.table) table }
    pure table

omit [PolicyKeeper σ] in
/-- The table of a name. -/
def table? (name : String) : Act σ (Option (TableStack σ)) := do
  Action.ofExcept (checkName name)
  inspect fun c => c.tables.get? (key name)

/-- Forget a table and tear it down; the answer is whether there was one. -/
def dropTable (name : String) : Act σ Bool := do
  Action.ofExcept (checkName name)
  match ← inspect fun c => c.tables.get? (key name) with
  | some table =>
    change fun c => { c with tables := c.tables.erase (key name) }
    Action.onSecond (table.stack.upkeep now .teardown)
    pure true
  | none => pure false

/-- The layered map of a name, made and set up if it is new. -/
def map (name : String) : Act σ (MapStack σ) := do
  Action.ofExcept (checkName name)
  let c ← inspect id
  match c.maps.get? (key name) with
  | some existing => pure existing
  | none => do
    let layers ← Action.onSecond (openLayers (Text.lower name) c.factories)
    let stack ← Action.onSecond (Stack.compose name layers c.settings)
    Action.onSecond (stack.upkeep now .setup)
    change fun c => { c with maps := c.maps.insert (key name) stack }
    pure stack

omit [PolicyKeeper σ] in
/-- The names of the registered tables, sorted. -/
def tableNames (c : Catalog σ) : List String :=
  (c.tables.values.map fun t => t.schema.table).mergeSort (· ≤ ·)

/-- Every table and then every map, each in the order of the names. -/
def members (c : Catalog σ) : List (Member σ) :=
  c.tables.values.map (fun t => t.stack.member) ++ c.maps.values.map (fun m => m.member)

/-- Carry out upkeep on every member.  A teardown forgets them all. -/
def upkeep (verb : Upkeep) : Act σ Unit := fun (c, s) =>
  match Member.upkeepAll c.members verb now s with
  | (outcome, s) =>
    (outcome, if verb = .teardown then { c with tables := .empty, maps := .empty } else c, s)

end Catalog

end LayeredStore
