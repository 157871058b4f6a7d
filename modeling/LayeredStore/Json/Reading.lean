import LayeredStore.Json

/-! # Reading documents

Reading is strict.  A text is first cut into lexemes (`Json.lexemes?`), with spaces,
tabs and line ends between them; then the lexemes are taken one at a time.  A
`Json.Progress` holds the arrays and objects that are open and says what may follow, so
a text is a document exactly when its last lexeme completes one value.

Strings hold no raw controls.  Their escapes name characters, a surrogate only together
with its other half: a string with a lone half has no text and makes an illegible
document.
-/
namespace LayeredStore.Json

/-- A sign, a word, a number or a string of a document. -/
inductive Lexeme
  | beginArray
  | endArray
  | beginObject
  | endObject
  | comma
  | colon
  | null
  | boolean (b : Bool)
  | number (n : Numeral)
  /-- A string, with its text if it has one. -/
  | string (text? : Option String)
  deriving DecidableEq

/-- The value of a hexadecimal digit in either case. -/
def hexValue? (c : Char) : Option Nat :=
  if '0' ≤ c ∧ c ≤ '9' then some (c.toNat - '0'.toNat)
  else if 'a' ≤ c ∧ c ≤ 'f' then some (c.toNat - 'a'.toNat + 10)
  else if 'A' ≤ c ∧ c ≤ 'F' then some (c.toNat - 'A'.toNat + 10)
  else none

/-- The unit that four hexadecimal digits spell. -/
def unit? (a b c d : Char) : Option Nat := do
  let a ← hexValue? a
  let b ← hexValue? b
  let c ← hexValue? c
  let d ← hexValue? d
  some (((a * 16 + b) * 16 + c) * 16 + d)

/-- The character that a letter after a backslash stands for. -/
def simpleEscape? : Char → Option Char
  | '"' => some '"'
  | '\\' => some '\\'
  | '/' => some '/'
  | 'b' => some '\x08'
  | 'f' => some '\x0c'
  | 'n' => some '\n'
  | 'r' => some '\r'
  | 't' => some '\t'
  | _ => none

/-- Whether a unit is the first half of a pair. -/
def isHighSurrogate (n : Nat) : Bool := 0xD800 ≤ n && n < 0xDC00

/-- Whether a unit is the second half of a pair. -/
def isLowSurrogate (n : Nat) : Bool := 0xDC00 ≤ n && n < 0xE000

/-- The character of a first half and the unit after it, if that is a second half. -/
def pairChar? (high low : Nat) : Option Char :=
  if isLowSurrogate low then
    some (Char.ofNat (0x10000 + (high - 0xD800) * 0x400 + (low - 0xDC00)))
  else none

/-- Put a character, or half of one, in front of what a string goes on with. -/
def prepend (c? : Option Char) :
    Option (Option (List Char) × List Char) → Option (Option (List Char) × List Char)
  | some (inside?, rest) => some (c?.bind fun c => inside?.map (c :: ·), rest)
  | none => none

/-- The characters of a string whose opening quote has been read, unless it holds a lone
half of a pair, and what follows its closing quote. -/
def stringBody? : List Char → Option (Option (List Char) × List Char)
  | [] => none
  | '"' :: rest => some (some [], rest)
  | '\\' :: 'u' :: a :: b :: c :: d :: rest =>
    match unit? a b c d with
    | none => none
    | some high =>
      if isHighSurrogate high then
        match rest with
        | '\\' :: 'u' :: e :: f :: g :: h :: after =>
          match unit? e f g h with
          | none => none
          | some low => prepend (pairChar? high low) (stringBody? after)
        | after => prepend none (stringBody? after)
      else if isLowSurrogate high then prepend none (stringBody? rest)
      else prepend (some (Char.ofNat high)) (stringBody? rest)
  | '\\' :: e :: rest =>
    match simpleEscape? e with
    | none => none
    | some c => prepend (some c) (stringBody? rest)
  | c :: rest =>
    if c = '\\' ∨ c.toNat < 0x20 then none else prepend (some c) (stringBody? rest)

/-- Whether a scanned numeral is one of a document: no needless zero in front, and digits
after a point. -/
def isStrict (n : Numeral) : Bool :=
  (match n.whole with
    | [] => false
    | ['0'] => true
    | d :: _ => d != '0') &&
  n.fraction? != some []

/-- A number off the front of a text, whose sign has been read. -/
def unsigned? (negative : Bool) (text : List Char) : Option (Lexeme × List Char) :=
  match Numeral.scan? negative text with
  | some (n, rest) => if isStrict n then some (.number n, rest) else none
  | none => none

/-- A number off the front of a text. -/
def number? : List Char → Option (Lexeme × List Char)
  | '-' :: rest => unsigned? true rest
  | text => unsigned? false text

/-- A lexeme off the front of a text that does not start with a blank. -/
def lexeme? : List Char → Option (Lexeme × List Char)
  | '[' :: rest => some (.beginArray, rest)
  | ']' :: rest => some (.endArray, rest)
  | '{' :: rest => some (.beginObject, rest)
  | '}' :: rest => some (.endObject, rest)
  | ',' :: rest => some (.comma, rest)
  | ':' :: rest => some (.colon, rest)
  | 'n' :: 'u' :: 'l' :: 'l' :: rest => some (.null, rest)
  | 't' :: 'r' :: 'u' :: 'e' :: rest => some (.boolean true, rest)
  | 'f' :: 'a' :: 'l' :: 's' :: 'e' :: rest => some (.boolean false, rest)
  | '"' :: rest =>
    (stringBody? rest).map fun (inside?, rest) => (.string (inside?.map String.ofList), rest)
  | text => number? text

theorem prepend_eq_some {c? : Option Char} {inside? : Option (List Char)}
    {r : Option (Option (List Char) × List Char)} {rest : List Char}
    (h : prepend c? r = some (inside?, rest)) : ∃ i?, r = some (i?, rest) := by
  cases r with
  | none => cases h
  | some p => cases h; exact ⟨_, rfl⟩

theorem stringBody?_length {text rest : List Char} {inside? : Option (List Char)}
    (h : stringBody? text = some (inside?, rest)) : rest.length < text.length := by
  fun_induction stringBody? text generalizing inside? with
  | case2 => cases h; exact Nat.lt_succ_self _
  | case1 | case3 | case4 | case9 | case11 => cases h
  | case5 | case6 | case7 | case8 | case10 | case12 =>
    rename_i ih
    obtain ⟨_, h⟩ := prepend_eq_some h
    have := ih h
    simp only [List.length_cons] at this ⊢
    omega

theorem unsigned?_length {negative : Bool} {text rest : List Char} {l : Lexeme}
    (h : unsigned? negative text = some (l, rest)) : rest.length < text.length := by
  unfold unsigned? at h
  split at h
  · next n after hn =>
    split at h
    · next hs =>
      cases h
      have hlen := Numeral.scan?_length hn
      have : 0 < n.whole.length := by
        rcases hw : n.whole with - | ⟨d, ds⟩
        · simp [isStrict, hw] at hs
        · exact Nat.succ_pos _
      omega
    · cases h
  · cases h

theorem number?_length {text rest : List Char} {l : Lexeme}
    (h : number? text = some (l, rest)) : rest.length < text.length := by
  unfold number? at h
  split at h
  · exact Nat.lt_succ_of_lt (unsigned?_length h)
  · exact unsigned?_length h

/-- **Every lexeme takes something.** -/
theorem lexeme?_length {text rest : List Char} {l : Lexeme}
    (h : lexeme? text = some (l, rest)) : rest.length < text.length := by
  unfold lexeme? at h
  split at h
  case h_10 =>
    obtain ⟨⟨i, r⟩, hb, hr⟩ := Option.map_eq_some_iff.1 h
    cases hr
    exact Nat.lt_succ_of_lt (stringBody?_length hb)
  case h_11 => exact number?_length h
  all_goals
    cases h
    simp only [List.length_cons]
    omega

/-- Whether `c` may stand between lexemes. -/
def isGap (c : Char) : Bool := c == ' ' || c == '\t' || c == '\n' || c == '\r'

/-- Every lexeme of a text. -/
def lexemes? (text : List Char) : Option (List Lexeme) :=
  match text with
  | [] => some []
  | c :: cs =>
    if isGap c then lexemes? cs
    else
      match h : lexeme? (c :: cs) with
      | none => none
      | some (l, rest) =>
        have : rest.length < (c :: cs).length := lexeme?_length h
        (lexemes? rest).map (l :: ·)
termination_by text.length
decreasing_by
  · exact Nat.lt_succ_self cs.length
  · exact this

/-- The document of a string. -/
def ofString (text? : Option String) : Json := text?.elim illegible string

/-- The document of an object. -/
def ofMembers (members : List (Option String × Json)) : Json :=
  match members.mapM fun (name?, value) => name?.map (·, value) with
  | some members => object members
  | none => illegible

/-- What waits for a value that is being read. -/
inductive Frame
  /-- An array with the items before the value, the latest first. -/
  | item (before : List Json)
  /-- An object with the members before the value, the latest first, and its name. -/
  | member (before : List (Option String × Json)) (name? : Option String)

/-- How far a document has been read. -/
inductive Progress
  /-- A value must follow. -/
  | value (outer : List Frame)
  /-- The first item of an array, or its end. -/
  | firstItem (outer : List Frame)
  /-- A comma or the end of an array with these items, the latest first. -/
  | afterItem (outer : List Frame) (items : List Json)
  /-- The first name of an object, or its end. -/
  | firstName (outer : List Frame)
  /-- A further name of an object with these members, the latest first. -/
  | nextName (outer : List Frame) (members : List (Option String × Json))
  /-- The colon after a name. -/
  | colon (outer : List Frame) (members : List (Option String × Json)) (name? : Option String)
  /-- A comma or the end of an object. -/
  | afterMember (outer : List Frame) (members : List (Option String × Json))
  /-- The whole document has been read. -/
  | done (document : Json)

namespace Progress

/-- A value is complete. -/
def deliver : List Frame → Json → Progress
  | [], j => done j
  | .item before :: outer, j => afterItem outer (j :: before)
  | .member before name? :: outer, j => afterMember outer ((name?, j) :: before)

/-- A lexeme where a value must follow. -/
def stepValue (outer : List Frame) : Lexeme → Option Progress
  | .null => some (deliver outer .null)
  | .boolean b => some (deliver outer (.boolean b))
  | .number n => some (deliver outer (.number n))
  | .string text? => some (deliver outer (ofString text?))
  | .beginArray => some (firstItem outer)
  | .beginObject => some (firstName outer)
  | _ => none

/-- Read one more lexeme. -/
def step : Progress → Lexeme → Option Progress
  | value outer, l => stepValue outer l
  | firstItem outer, .endArray => some (deliver outer (.array []))
  | firstItem outer, l => stepValue (.item [] :: outer) l
  | afterItem outer items, .comma => some (value (.item items :: outer))
  | afterItem outer items, .endArray => some (deliver outer (.array items.reverse))
  | firstName outer, .endObject => some (deliver outer (.object []))
  | firstName outer, .string name? => some (colon outer [] name?)
  | nextName outer members, .string name? => some (colon outer members name?)
  | colon outer members name?, .colon => some (value (.member members name? :: outer))
  | afterMember outer members, .comma => some (nextName outer members)
  | afterMember outer members, .endObject => some (deliver outer (ofMembers members.reverse))
  | _, _ => none

/-- Read lexemes one after another. -/
def run (p : Progress) : List Lexeme → Option Progress
  | [] => some p
  | l :: rest =>
    match p.step l with
    | some p => p.run rest
    | none => none

/-- The document, if it is complete. -/
def document? : Progress → Option Json
  | done j => some j
  | _ => none

end Progress

/-- Read a document. -/
def ofText? (text : List Char) : Option Json :=
  match lexemes? text with
  | some ls =>
    match (Progress.value []).run ls with
    | some p => p.document?
    | none => none
  | none => none

end LayeredStore.Json
