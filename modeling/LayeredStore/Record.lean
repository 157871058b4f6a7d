import LayeredStore.Dictionary
import LayeredStore.Value

/-! # Records

A record is an identifier with values under field names.  Names given by callers are
normalised, trimmed and made small, so `Num` and ` num ` are one field.  The reserved
name `_oid` shows the identifier to conditions and orderings as if it were a field.
-/
namespace LayeredStore

/-- The reserved field name under which a record's identifier is visible. -/
def idField : String := "_oid"

/-- The form in which a field name is stored and looked up. -/
def normalizeName (name : String) : String := Text.lower (Text.trim name)

/-- Values under field names. -/
abbrev Fields := Dictionary String Value

/-- An identifier with field values. -/
@[ext] structure Record where
  /-- The identifier. -/
  id : String
  /-- The field values. -/
  fields : Fields
  deriving DecidableEq

namespace Record

/-- The record without fields. -/
def blank (id : String) : Record := ⟨id, .empty⟩

/-- Write a field under its normalised name. -/
def set (r : Record) (name : String) (value : Value) : Record :=
  { r with fields := r.fields.insert (normalizeName name) value }

/-- Delete a field by its normalised name. -/
def unset (r : Record) (name : String) : Record :=
  { r with fields := r.fields.erase (normalizeName name) }

/-- The value under a name; the reserved name gives the identifier. -/
def field? (r : Record) (name : String) : Option Value :=
  if normalizeName name = idField then some (.text r.id)
  else r.fields.get? (normalizeName name)

/-- Whether there is no field value. -/
def isBlank (r : Record) : Bool := r.fields.isEmpty

/-- Take over every field of another record. -/
def merge (r other : Record) : Record :=
  { r with fields := r.fields.insertAll other.fields.toList }

/-- The record with fields set from left to right. -/
def ofFields (id : String) (fields : List (String × Value)) : Record :=
  fields.foldl (fun r f => r.set f.1 f.2) (blank id)

end Record

end LayeredStore
