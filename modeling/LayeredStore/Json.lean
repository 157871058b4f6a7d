import LayeredStore.Decimal.Layout

/-! # Documents

Stored values, and settings, are JSON documents.  A number is kept as the numeral that
was written, so a reader decides whether it is an integer; the members of an object are
kept in their order, repeated names included.

`Json.text` writes a document without blanks.  In strings only quotes, backslashes and
controls below U+0020 are escaped.

An escape may name half of a surrogate pair without the other half.  Such a string has no
text, but it may stand in a part that is skipped, so it has a place among the documents.
-/
namespace LayeredStore

/-- A document. -/
inductive Json
  | null
  | boolean (b : Bool)
  | number (n : Numeral)
  | string (s : String)
  | array (items : List Json)
  | object (members : List (String × Json))
  /-- A string that has no text, or an object with such a name.  No reader takes it. -/
  | illegible

namespace Json

instance : Inhabited Json := ⟨null⟩

/-- The number document of an integer. -/
def ofInt (n : Int) : Json := .number (.ofInt n)

/-- The number document of a datum; infinities and NaNs have none and become null. -/
def ofBinary64 (x : Binary64) : Json :=
  if x.isFinite then .number (Decimal.Layout.stored.numeral x) else .null

/-- A hexadecimal digit, small. -/
def hexDigit (n : Nat) : Char := "0123456789abcdef".toList.getD n '0'

/-- A character inside a string. -/
def escape (c : Char) : List Char :=
  if c = '"' then ['\\', '"']
  else if c = '\\' then ['\\', '\\']
  else if c = '\x08' then ['\\', 'b']
  else if c = '\t' then ['\\', 't']
  else if c = '\n' then ['\\', 'n']
  else if c = '\x0c' then ['\\', 'f']
  else if c = '\r' then ['\\', 'r']
  else if c.toNat < 0x20 then
    ['\\', 'u', '0', '0', hexDigit (c.toNat / 16), hexDigit (c.toNat % 16)]
  else [c]

/-- A string with its quotes. -/
def quoted (s : String) : List Char := '"' :: (s.toList.flatMap escape ++ ['"'])

mutual
/-- The document as text. -/
def text : Json → List Char
  | null => ['n', 'u', 'l', 'l']
  | boolean b => if b then ['t', 'r', 'u', 'e'] else ['f', 'a', 'l', 's', 'e']
  | number n => n.text
  | string s => quoted s
  | array items => '[' :: (itemsText items ++ [']'])
  | object members => '{' :: (membersText members ++ ['}'])
  | illegible => ['"', '\\', 'u', 'd', 'c', '0', '0', '"']

/-- The items of an array with commas between them. -/
def itemsText : List Json → List Char
  | [] => []
  | [item] => item.text
  | item :: rest => item.text ++ ',' :: itemsText rest

/-- The members of an object with commas between them. -/
def membersText : List (String × Json) → List Char
  | [] => []
  | [(name, value)] => quoted name ++ ':' :: value.text
  | (name, value) :: rest => quoted name ++ ':' :: (value.text ++ ',' :: membersText rest)
end

end Json

end LayeredStore
