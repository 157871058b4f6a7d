import LayeredStore.Decimal.Layout
import LayeredStore.Decimal.Numeral
import LayeredStore.Text.Blank

/-! # Values and field types

A `Value` is what a record holds under a field name and what a condition is given for a
parameter.  Integers have 64 bits, numbers with a fraction are binary64 data, blobs
are byte strings, and a list occurs only as the argument of a membership test: no
field type accepts one.

Two views serve comparisons: `Value.number?` reads a value as a number and
`Value.text?` as a text; `Value.display` is the form in which messages show it.
-/
namespace LayeredStore

/-- A byte string. -/
abbrev Bytes := List UInt8

/-- A datum of a record or an argument of a condition. -/
inductive Value
  /-- A 64-bit integer. -/
  | integer (n : Int64)
  /-- A floating-point number. -/
  | float (x : Binary64)
  /-- A text. -/
  | text (s : String)
  /-- A truth value. -/
  | boolean (b : Bool)
  /-- A byte string. -/
  | blob (bytes : Bytes)
  /-- Several values, for membership tests. -/
  | list (items : List Value)

instance : Inhabited Value := ⟨.list []⟩

mutual
/-- Equality of values is decidable. -/
def Value.decEq : (a b : Value) → Decidable (a = b)
  | .integer a, .integer b => decidable_of_iff (a = b) (by simp)
  | .float a, .float b => decidable_of_iff (a = b) (by simp)
  | .text a, .text b => decidable_of_iff (a = b) (by simp)
  | .boolean a, .boolean b => decidable_of_iff (a = b) (by simp)
  | .blob a, .blob b => decidable_of_iff (a = b) (by simp)
  | .list a, .list b =>
    match Value.decEqList a b with
    | .isTrue h => .isTrue (congrArg _ h)
    | .isFalse h => .isFalse (by simpa using h)
  | .integer _, .float _ | .integer _, .text _ | .integer _, .boolean _
  | .integer _, .blob _ | .integer _, .list _
  | .float _, .integer _ | .float _, .text _ | .float _, .boolean _
  | .float _, .blob _ | .float _, .list _
  | .text _, .integer _ | .text _, .float _ | .text _, .boolean _
  | .text _, .blob _ | .text _, .list _
  | .boolean _, .integer _ | .boolean _, .float _ | .boolean _, .text _
  | .boolean _, .blob _ | .boolean _, .list _
  | .blob _, .integer _ | .blob _, .float _ | .blob _, .text _
  | .blob _, .boolean _ | .blob _, .list _
  | .list _, .integer _ | .list _, .float _ | .list _, .text _
  | .list _, .boolean _ | .list _, .blob _ => .isFalse (by simp)

/-- Equality of lists of values is decidable. -/
def Value.decEqList : (a b : List Value) → Decidable (a = b)
  | [], [] => .isTrue rfl
  | [], _ :: _ => .isFalse (by simp)
  | _ :: _, [] => .isFalse (by simp)
  | a :: as, b :: bs =>
    match Value.decEq a b, Value.decEqList as bs with
    | .isTrue h, .isTrue h' => .isTrue (by rw [h, h'])
    | .isFalse h, _ => .isFalse (by simp [h])
    | _, .isFalse h => .isFalse (by simp [h])
end

instance : DecidableEq Value := Value.decEq

/-- The declared type of a field. -/
inductive FieldType
  /-- 64-bit integers. -/
  | integer
  /-- Floating-point numbers; integers are accepted too. -/
  | float
  /-- Texts. -/
  | text
  /-- Truth values. -/
  | boolean
  /-- Byte strings. -/
  | blob
  deriving DecidableEq

namespace FieldType

/-- The name of the type in messages and stored documents. -/
def name : FieldType → String
  | .integer => "INTEGER"
  | .float => "FLOAT"
  | .text => "STRING"
  | .boolean => "BOOLEAN"
  | .blob => "BLOB"

/-- Every type, in the order of their declaration. -/
def all : List FieldType := [.integer, .float, .text, .boolean, .blob]

/-- The type a name stands for: blanks around it and its case do not matter. -/
def ofName? (text : String) : Option FieldType :=
  match Text.upper (Text.trim text) with
  | "INTEGER" | "INT" | "LONG" => some .integer
  | "FLOAT" | "DOUBLE" | "DECIMAL" => some .float
  | "STRING" | "TEXT" | "VARCHAR" => some .text
  | "BOOLEAN" | "BOOL" => some .boolean
  | "BLOB" | "BINARY" => some .blob
  | _ => none

end FieldType

namespace Value

/-- The type a value belongs to; a list has none. -/
def type? : Value → Option FieldType
  | .integer _ => some .integer
  | .float _ => some .float
  | .text _ => some .text
  | .boolean _ => some .boolean
  | .blob _ => some .blob
  | .list _ => none

/-- The number a value stands for: numbers themselves, and texts that spell one. -/
def number? : Value → Option Binary64
  | .integer n => some (.ofInt n.toInt)
  | .float x => some x
  | .text s => (Binary64.ofText? (Text.trimmed s.toList)).filter fun x => !x.isNaN
  | _ => none

/-- The text a value stands for; blobs and lists have none. -/
def text? : Value → Option String
  | .text s => some s
  | .integer n => some (toString n.toInt)
  | .float x => some x.display
  | .boolean b => some (if b then "true" else "false")
  | .blob _ => none
  | .list _ => none

mutual
/-- The form of a value in messages. -/
def display : Value → String
  | .integer n => toString n.toInt
  | .float x => x.display
  | .text s => "\"" ++ s ++ "\""
  | .boolean b => if b then "true" else "false"
  | .blob bytes => "blob[" ++ toString bytes.length ++ "]"
  | .list items => "[" ++ displayItems items ++ "]"

/-- The items of a list in messages. -/
def displayItems : List Value → String
  | [] => ""
  | [item] => item.display
  | item :: rest => item.display ++ ", " ++ displayItems rest
end

end Value

/-- Whether a value may be written into a field of this type: its own type, or an
integer into a float field. -/
def FieldType.accepts (t : FieldType) (v : Value) : Bool :=
  match t, v with
  | .float, .integer _ => true
  | t, v => v.type? == some t

end LayeredStore
