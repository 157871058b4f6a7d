import LayeredStore.Record.Names
import LayeredStore.Storage.Action
import LayeredStore.StoreError
import LayeredStore.Text.Alphanumeric

/-! # Schemas

A schema names a table and declares its fields with their types, under normalised names.
Every write is checked against it before any backend is asked.  Neither the empty name
nor the reserved name of the identifier can be declared, and a field once declared keeps
its type.  What is known of the names of a schema is part of it, so that no schema has a
bad one.
-/
namespace LayeredStore

/-- What is wrong with the name of a table or a map, if anything. -/
def nameFault? (name : String) : Option String :=
  match name.toList with
  | [] => some "must not be empty"
  | first :: rest =>
    if first.isDigit then some "must not start with a digit"
    else if (first :: rest).all fun c => Text.isAlphanumeric c || c == '_' || c == '-' then none
    else some "may only contain letters, digits, '_' and '-'"

/-- Refuse a name that cannot be that of a table or a map. -/
def checkName (name : String) : Except StoreError Unit :=
  match nameFault? name with
  | some reason => .error (.invalidTableName name reason)
  | none => .ok ()

/-- The field type that a text names. -/
def FieldType.ofText (text : String) : Except QueryError FieldType :=
  match FieldType.ofName? text with
  | some type => .ok type
  | none => .error (.unknownType (Text.upper (Text.trim text)))

/-- A name under which a field can be entered. -/
structure FieldKey (name : String) : Prop where
  normal : normalizeName name = name
  nonempty : name ≠ ""
  unreserved : name ≠ idField

instance (name : String) : Decidable (FieldKey name) :=
  decidable_of_iff (normalizeName name = name ∧ name ≠ "" ∧ name ≠ idField)
    ⟨fun h => ⟨h.1, h.2.1, h.2.2⟩, fun h => ⟨h.normal, h.nonempty, h.unreserved⟩⟩

instance (names : List String) : Decidable (∀ name ∈ names, FieldKey name) :=
  decidable_of_iff (names.all fun name => decide (FieldKey name)) (by simp)

/-- The declared fields of a table. -/
@[ext] structure Schema where
  /-- The table's name. -/
  table : String
  /-- The type of each field, under its normalised name. -/
  fields : Dictionary String FieldType
  /-- A table can have the name. -/
  named : checkName table = .ok ()
  /-- A field can have the name it is entered under. -/
  keyed : ∀ name ∈ fields.keys, FieldKey name
  deriving DecidableEq

namespace Schema

/-- A schema without fields. -/
def new (table : String) : Except StoreError Schema :=
  match named : checkName table with
  | .ok () => .ok ⟨table, .empty, named, nofun⟩
  | .error e => .error e

/-- A schema with fields; that all of its names can be had is checked by evaluating it. -/
def ofFields (table : String) (fields : List (String × FieldType))
    (h : nameFault? table = none ∧ ∀ name ∈ (Dictionary.ofList fields).keys, FieldKey name) :
    Schema where
  table := table
  fields := .ofList fields
  named := by rw [checkName, h.1]
  keyed := h.2

variable (s : Schema)

/-- The schema with a field entered. -/
def enter (name : String) (type : FieldType) (hname : FieldKey name) : Schema where
  table := s.table
  fields := s.fields.insert name type
  named := s.named
  keyed other hother := by
    by_cases hsame : name = other
    · exact hsame ▸ hname
    · obtain ⟨found, hget⟩ := (Dictionary.mem_keys_iff _ other).1 hother
      rw [Dictionary.get?_insert_of_ne _ hsame] at hget
      exact s.keyed other ((Dictionary.mem_keys_iff s.fields other).2 ⟨found, hget⟩)

/-- The refusal of a field. -/
def violation (field reason : String) : StoreError := .schemaViolation s.table field reason

/-- Declare a field.  Declaring it again with the same type changes nothing. -/
def declare (name : String) (type : FieldType) : Except StoreError Schema :=
  let key := normalizeName name
  if unfit : key = "" ∨ key = idField then
    .error (s.violation name "field name is empty or reserved")
  else
    match s.fields.get? key with
    | some existing =>
      if existing = type then .ok s
      else .error (s.violation name ("already declared as " ++ existing.name))
    | none =>
      have fit := not_or.1 unfit
      .ok (s.enter key type ⟨normalizeName_normalizeName name, fit.1, fit.2⟩)

/-- Declare a field of a schema that is being put together, the state. -/
def declareInPlace (name : String) (type : FieldType) : Action Schema StoreError Unit := do
  let s ← Action.inspect id
  let declared ← Action.ofExcept (s.declare name type)
  Action.change fun _ => declared

/-- The type of a field. -/
def type? (name : String) : Option FieldType := s.fields.get? (normalizeName name)

/-- The type of a field, which must be declared. -/
def require (name : String) : Except StoreError FieldType :=
  match s.type? name with
  | some type => .ok type
  | none => .error (s.violation name "field is not declared")

/-- Check that a value may be written into a field. -/
def check (name : String) (value : Value) : Except StoreError Unit :=
  match s.require name with
  | .error e => .error e
  | .ok type =>
    if type.accepts value then .ok ()
    else .error (s.violation name ("expected " ++ type.name ++ ", got " ++ value.display))

/-- Check values one after another; the first that does not fit is reported. -/
def checkAll : List (String × Value) → Except StoreError Unit
  | [] => .ok ()
  | (name, value) :: rest =>
    match s.check name value with
    | .ok () => checkAll rest
    | .error e => .error e

/-- Check an identifier, which must not be empty. -/
def checkId (id : String) : Except StoreError Unit :=
  if id = "" then .error (s.violation idField "identifier must not be empty") else .ok ()

/-- The reserved name is never declared. -/
theorem reserved : idField ∉ s.fields.keys := fun hmem => (s.keyed idField hmem).unreserved rfl

theorem declareInPlace_apply (name : String) (type : FieldType) (s : Schema) :
    declareInPlace name type s = match s.declare name type with
      | .ok declared => (.ok (), declared)
      | .error e => (.error e, s) := by
  simp only [declareInPlace, Action.bind_apply, Action.inspect, id, Action.ofExcept, Action.change]
  cases s.declare name type <;> rfl

end Schema

end LayeredStore
