/-! # White space and case of names

Names are trimmed of Unicode white space and compared without regard to ASCII case;
other letters keep their case.  The same white space separates the words of an
ordering and the tokens of a clause.
-/
namespace LayeredStore.Text

/-- Whether `c` has the Unicode property `White_Space`. -/
def isBlank (c : Char) : Bool :=
  let n := c.toNat
  (0x9 ≤ n && n ≤ 0xD) || n == 0x20 || n == 0x85 || n == 0xA0 || n == 0x1680 ||
    (0x2000 ≤ n && n ≤ 0x200A) || n == 0x2028 || n == 0x2029 || n == 0x202F || n == 0x205F ||
    n == 0x3000

/-- What is left of a text when the blanks at both ends are taken off. -/
def trimmed (text : List Char) : List Char :=
  ((text.dropWhile isBlank).reverse.dropWhile isBlank).reverse

/-- `trimmed` on strings. -/
def trim (text : String) : String := String.ofList (trimmed text.toList)

/-- The text with ASCII capitals made small. -/
def lower (text : String) : String := String.ofList (text.toList.map Char.toLower)

/-- The text with ASCII small letters made capitals. -/
def upper (text : String) : String := String.ofList (text.toList.map Char.toUpper)

/-- Cut a text at every character that satisfies `p`; `n` cuts give `n + 1` pieces. -/
def splitAt (p : Char → Bool) : List Char → List (List Char)
  | [] => [[]]
  | c :: rest =>
    if p c then [] :: splitAt p rest
    else
      match splitAt p rest with
      | [] => [[c]]
      | piece :: pieces => (c :: piece) :: pieces

/-- The words of a text: its longest pieces without blanks. -/
def words (text : List Char) : List (List Char) :=
  (splitAt isBlank text).filter fun piece => !piece.isEmpty

theorem splitAt_ne_nil (p : Char → Bool) (text : List Char) : splitAt p text ≠ [] := by
  cases text with
  | nil => simp [splitAt]
  | cons c rest =>
    rw [splitAt]
    split
    · simp
    · split <;> simp

end LayeredStore.Text
