import LayeredStore.Decimal.Approximation
import LayeredStore.Json.Reading
import LayeredStore.SortOrder
import LayeredStore.Condition

/-! # Stored forms

Every kind of data has one stored form, a document.  `Stored α` gives the document of a
datum and reads it back; the reader refuses whatever it does not expect, but it skips
unknown members of a structure, takes a structure also as an array of its parts in their
order, and takes a bare choice also as an object with one null member.

Readers are given the `room` that is left: how many arrays and objects may be nested
inside each other.  A whole text starts with `Stored.nesting`.
-/
namespace LayeredStore

/-- The bytes of a text. -/
def Bytes.ofText (text : String) : Bytes := text.toUTF8.data.toList

/-- The text that bytes encode. -/
def Bytes.text? (bytes : Bytes) : Option String := String.fromUTF8? ⟨bytes.toArray⟩

/-- What stands for a byte that is no part of a character: a sign that no escape may name,
and half of a pair.  Like the byte, it makes the string around it illegible and may stand
nowhere else. -/
def Bytes.stray : List Char := ['?', '\\', 'u', 'd', 'c', '0', '0']

/-- The characters that bytes encode, with `stray` for every byte that encodes none.  The
first of one to four bytes that are a text are a character. -/
def Bytes.characters : Bytes → List Char
  | [] => []
  | b :: rest =>
    match [0, 1, 2, 3].findSome? fun n => (Bytes.text? (b :: rest.take n)).map (n, ·) with
    | some (n, text) => text.toList ++ Bytes.characters (rest.drop n)
    | none => Bytes.stray ++ Bytes.characters rest
termination_by bytes => bytes.length
decreasing_by
  · exact Nat.lt_succ_of_le (List.length_drop ▸ Nat.sub_le ..)
  · exact Nat.lt_succ_self rest.length

/-- Data with a stored form. -/
class Stored (α : Type) where
  /-- The document of a datum. -/
  toJson : α → Json
  /-- The datum of a document, given how deep it may nest. -/
  ofJson? : Nat → Json → Option α

namespace Stored

variable {α : Type}

/-- How many arrays and objects of a text may be nested inside each other. -/
def nesting : Nat := 127

/-- The stored text of a datum. -/
def text [Stored α] (a : α) : String := String.ofList (toJson a).text

/-- Read the characters of a stored text. -/
def ofCharacters? [Stored α] (text : List Char) : Option α :=
  (Json.ofText? text).bind (ofJson? nesting)

/-- Read a stored text. -/
def ofText? [Stored α] (text : String) : Option α := ofCharacters? text.toList

/-- The stored bytes of a datum. -/
def bytes [Stored α] (a : α) : Bytes := Bytes.ofText (text a)

/-- Read stored bytes. -/
def ofBytes? [Stored α] (bytes : Bytes) : Option α :=
  match bytes.text? with
  | some text => ofText? text
  | none => ofCharacters? bytes.characters

/-! ## Parts of documents -/

/-- The integer of a number document: a whole numeral, and not a negative zero. -/
def int? : Json → Option Int
  | .number n =>
    if n.isWhole ∧ ¬(n.negative ∧ n.toInt = 0) then some n.toInt else none
  | _ => none

/-- An integer between two bounds, both included. -/
def intWithin? (low high : Int) (j : Json) : Option Int :=
  (int? j).filter fun n => low ≤ n ∧ n ≤ high

/-- An unsigned 64-bit integer. -/
def unsigned? (j : Json) : Option Nat := (intWithin? 0 (UInt64.size - 1) j).map Int.toNat

/-- A finite number, with the roundings of `Numeral.approximation`. -/
def binary64? : Json → Option Binary64
  | .number n => some n.approximation |>.filter Binary64.isFinite
  | _ => none

/-- A text. -/
def string? : Json → Option String
  | .string s => some s
  | _ => none

/-- A truth value. -/
def boolean? : Json → Option Bool
  | .boolean b => some b
  | _ => none

/-- One of several names: as a string, or as an object with one null member. -/
def choice? : Nat → Json → Option String
  | _, .string s => some s
  | _ + 1, .object [(s, .null)] => some s
  | _, _ => none

/-- The parts of a structure under the given names; a part may be missing, but none may
occur twice.  An array gives the parts in their order. -/
def parts? (names : List String) : Nat → Json → Option (List (Option Json))
  | _ + 1, .object members =>
    names.mapM fun name =>
      match members.filter (·.1 == name) with
      | [] => some none
      | [(_, value)] => some (some value)
      | _ => none
  | _ + 1, .array items =>
    if items.length ≤ names.length then
      some (items.map some ++ List.replicate (names.length - items.length) none)
    else none
  | _, _ => none

/-- The items of an array, each read with the room inside it. -/
def items? (read? : Nat → Json → Option α) : Nat → Json → Option (List α)
  | room + 1, .array items => items.mapM (read? room)
  | _, _ => none

/-- The members of an object, each read with the room inside it; of repeated names the
last counts. -/
def dictionary? (read? : Nat → Json → Option α) : Nat → Json → Option (Dictionary String α)
  | room + 1, .object members =>
    (members.mapM fun (m : String × Json) => (read? room m.2).map (m.1, ·)).map Dictionary.ofList
  | _, _ => none

/-! ## Values -/

/-- The document of a byte string. -/
def blobJson (bytes : Bytes) : Json := .array (bytes.map fun b => Json.ofInt b.toNat)

/-- A byte. -/
def byte? (j : Json) : Option UInt8 := (intWithin? 0 255 j).map fun n => UInt8.ofNat n.toNat

mutual
/-- The document of a value: an object with one member named for the kind. -/
def valueJson : Value → Json
  | .integer n => .object [("integer", Json.ofInt n.toInt)]
  | .float x => .object [("float", Json.ofBinary64 x)]
  | .text s => .object [("string", .string s)]
  | .boolean b => .object [("boolean", .boolean b)]
  | .blob bytes => .object [("blob", blobJson bytes)]
  | .list items => .object [("list", .array (valuesJson items))]

/-- The documents of several values. -/
def valuesJson : List Value → List Json
  | [] => []
  | v :: rest => valueJson v :: valuesJson rest
end

/-- The integer of a document, in 64 bits. -/
def int64? (j : Json) : Option Int64 :=
  (intWithin? Int64.minValue.toInt Int64.maxValue.toInt j).map Int64.ofInt

/-- The value of a document. -/
def value? : Nat → Json → Option Value
  | room + 1, .object [(kind, payload)] =>
    match kind with
    | "integer" => (int64? payload).map .integer
    | "float" => (binary64? payload).map .float
    | "string" => (string? payload).map .text
    | "boolean" => (boolean? payload).map .boolean
    | "blob" => (items? (fun _ => byte?) room payload).map .blob
    | "list" =>
      match room, payload with
      | room + 1, .array items => (items.mapM (value? room)).map .list
      | _, _ => none
    | _ => none
  | _, _ => none

instance : Stored Value := ⟨valueJson, value?⟩

instance : Stored Int64 := ⟨fun n => Json.ofInt n.toInt, fun _ => int64?⟩

instance : Stored String := ⟨.string, fun _ => string?⟩

/-- The document of a dictionary of values. -/
def dictionaryJson (d : Dictionary String Value) : Json :=
  .object (d.toList.map fun (name, v) => (name, valueJson v))

instance : Stored (Dictionary String Value) := ⟨dictionaryJson, dictionary? value?⟩

/-! ## Records, conditions, orders and field types -/

instance : Stored Record where
  toJson r := .object [("id", .string r.id), ("fields", dictionaryJson r.fields)]
  ofJson?
    | room + 1, j =>
      match parts? ["id", "fields"] (room + 1) j with
      | some [some id, some fields] => do
        let id ← string? id
        let fields ← dictionary? value? room fields
        some ⟨id, fields⟩
      | _ => none
    | 0, _ => none

/-- The stored name of an operator. -/
def operatorName : Operator → String
  | .eq => "eq"
  | .ne => "ne"
  | .lt => "lt"
  | .le => "le"
  | .gt => "gt"
  | .ge => "ge"
  | .like => "like"
  | .isIn => "in"

/-- The operator of a stored name. -/
def operator? (room : Nat) (j : Json) : Option Operator :=
  (choice? room j).bind fun name => Operator.all.find? fun op => operatorName op == name

mutual
/-- The document of a condition. -/
def conditionJson : Condition → Json
  | .compare field op arg =>
    .object [("compare", .object
      [("field", .string field), ("op", .string (operatorName op)), ("arg", .string arg)])]
  | .and parts => .object [("and", .array (conditionsJson parts))]
  | .or parts => .object [("or", .array (conditionsJson parts))]
  | .not part => .object [("not", conditionJson part)]

/-- The documents of several conditions. -/
def conditionsJson : List Condition → List Json
  | [] => []
  | c :: rest => conditionJson c :: conditionsJson rest
end

/-- A comparison of a condition document. -/
def comparison? : Nat → Json → Option Condition
  | room + 1, j =>
    match parts? ["field", "op", "arg"] (room + 1) j with
    | some [some field, some op, some arg] => do
      let field ← string? field
      let op ← operator? room op
      let arg ← string? arg
      some (.compare field op arg)
    | _ => none
  | 0, _ => none

/-- The condition of a document. -/
def condition? : Nat → Json → Option Condition
  | room + 1, .object [(kind, payload)] =>
    match kind with
    | "compare" => comparison? room payload
    | "not" => (condition? room payload).map .not
    | "and" =>
      match room, payload with
      | room + 1, .array items => (items.mapM (condition? room)).map .and
      | _, _ => none
    | "or" =>
      match room, payload with
      | room + 1, .array items => (items.mapM (condition? room)).map .or
      | _, _ => none
    | _ => none
  | _, _ => none

instance : Stored Condition := ⟨conditionJson, condition?⟩

/-- The document of a sort term. -/
def termJson (t : SortTerm) : Json :=
  .object [("field", .string t.field), ("descending", .boolean t.descending)]

/-- The sort term of a document. -/
def term? (room : Nat) (j : Json) : Option SortTerm :=
  match parts? ["field", "descending"] room j with
  | some [some field, some descending] => do
    let field ← string? field
    let descending ← boolean? descending
    some ⟨field, descending⟩
  | _ => none

instance : Stored SortOrder where
  toJson o := .object [("keys", .array (o.terms.map termJson))]
  ofJson?
    | room + 1, j =>
      match parts? ["keys"] (room + 1) j with
      | some [some keys] => (items? term? room keys).map SortOrder.mk
      | _ => none
    | 0, _ => none

instance : Stored FieldType where
  toJson t := .string t.name
  ofJson? room j := (choice? room j).bind fun name => FieldType.all.find? (·.name == name)

end Stored

end LayeredStore
