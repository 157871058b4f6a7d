import LayeredStore.Decimal.Shortest

/-! # Numerals

A numeral is the written form of a number: a sign, digits before and after a point,
and an exponent.  `Numeral.scan?` takes the longest unsigned numeral off the front of
a text; who reads it decides which parts must be there.  Stored documents are strict,
while a text that stands for a number (`Binary64.ofText?`) may leave out the digits on
one side of the point, may carry a plus sign and may name an infinity.
-/
namespace LayeredStore

/-- The written form of a number. -/
structure Numeral where
  /-- Whether a minus sign stands in front. -/
  negative : Bool
  /-- The digits before the point. -/
  whole : List Char
  /-- The digits after the point, if there is a point. -/
  fraction? : Option (List Char)
  /-- The exponent, if there is one. -/
  exponent? : Option Int
  deriving DecidableEq

namespace Numeral

/-- Append a digit to a number. -/
def appendDigit (n : Nat) (digit : Char) : Nat := 10 * n + (digit.toNat - '0'.toNat)

/-- The number that a run of decimal digits spells. -/
def digitsValue (digits : List Char) : Nat := digits.foldl appendDigit 0

/-- The digits after the point. -/
def fraction (n : Numeral) : List Char := n.fraction?.getD []

/-- The number without its sign. -/
def decimal (n : Numeral) : Decimal :=
  ⟨digitsValue (n.whole ++ n.fraction), n.exponent?.getD 0 - n.fraction.length⟩

/-- The nearest binary64 datum. -/
def toBinary64 (n : Numeral) : Binary64 := n.decimal.nearest n.negative

/-- Whether the numeral has neither point nor exponent. -/
def isWhole (n : Numeral) : Bool := n.fraction?.isNone && n.exponent?.isNone

/-- The integer spelt by a whole numeral, its sign included. -/
def toInt (n : Numeral) : Int :=
  if n.negative then -(digitsValue n.whole : Int) else digitsValue n.whole

/-- The numeral in text; an exponent always shows its sign. -/
def text (n : Numeral) : List Char :=
  (if n.negative then ['-'] else []) ++ n.whole ++
    (match n.fraction? with
      | some digits => '.' :: digits
      | none => []) ++
    match n.exponent? with
      | some e => 'e' :: (if e < 0 then '-' else '+') :: Nat.toDigits 10 e.natAbs
      | none => []

/-- The numeral of an integer. -/
def ofInt (n : Int) : Numeral := ⟨n < 0, Nat.toDigits 10 n.natAbs, none, none⟩

/-- Take a point and the digits after it off the front. -/
def scanFraction : List Char → Option (List Char) × List Char
  | '.' :: rest => (some (rest.takeWhile Char.isDigit), rest.dropWhile Char.isDigit)
  | text => (none, text)

/-- Take a sign off the front; none counts as plus. -/
def scanSign : List Char → Bool × List Char
  | '-' :: rest => (true, rest)
  | '+' :: rest => (false, rest)
  | text => (false, text)

/-- Take an exponent off the front.  The mark must be followed by digits, perhaps
after a sign. -/
def scanExponent? (text : List Char) : Option (Option Int × List Char) :=
  match text with
  | [] => some (none, [])
  | c :: rest =>
    if c = 'e' ∨ c = 'E' then
      let (negative, rest) := scanSign rest
      let digits := rest.takeWhile Char.isDigit
      if digits.isEmpty then none
      else
        let size : Int := digitsValue digits
        some (some (if negative then -size else size), rest.dropWhile Char.isDigit)
    else some (none, text)

/-- Take the longest unsigned numeral off the front. -/
def scan? (negative : Bool) (text : List Char) : Option (Numeral × List Char) :=
  let whole := text.takeWhile Char.isDigit
  let (fraction?, rest) := scanFraction (text.dropWhile Char.isDigit)
  (scanExponent? rest).map fun (exponent?, rest) => (⟨negative, whole, fraction?, exponent?⟩, rest)

/-! ### What scanning leaves -/

theorem scanSign_length (text : List Char) :
    (scanSign text).2.length ≤ text.length := by
  unfold scanSign
  split <;> simp

theorem scanFraction_length (text : List Char) :
    (scanFraction text).2.length ≤ text.length := by
  unfold scanFraction
  split
  · exact Nat.le_succ_of_le (List.dropWhile_sublist _).length_le
  · exact Nat.le_refl _

theorem scanExponent?_length {text rest : List Char} {e : Option Int}
    (h : scanExponent? text = some (e, rest)) : rest.length ≤ text.length := by
  unfold scanExponent? at h
  split at h
  · cases h; exact Nat.le_refl _
  · next c tail =>
    split at h
    · dsimp only at h
      split at h
      · cases h
      · cases h
        exact Nat.le_trans (List.dropWhile_sublist _).length_le
          (Nat.le_succ_of_le (scanSign_length tail))
    · cases h; exact Nat.le_refl _

/-- **Scanning moves on.** The digits of the whole part and what is left are no longer than
the text. -/
theorem scan?_length {negative : Bool} {text rest : List Char} {n : Numeral}
    (h : scan? negative text = some (n, rest)) : n.whole.length + rest.length ≤ text.length := by
  obtain ⟨⟨e, r⟩, he, hn⟩ := Option.map_eq_some_iff.1 h
  cases hn
  have hr : rest.length ≤ (scanFraction (text.dropWhile Char.isDigit)).2.length :=
    scanExponent?_length he
  have hf := scanFraction_length (text.dropWhile Char.isDigit)
  have := congrArg List.length (List.takeWhile_append_dropWhile (p := Char.isDigit) (l := text))
  simp only [List.length_append] at this
  show (text.takeWhile Char.isDigit).length + rest.length ≤ text.length
  omega

end Numeral

/-- The datum that a whole text names: a numeral with digits on at least one side of
its point, or an infinity or a NaN spelt out in any case, each perhaps signed. -/
def Binary64.ofText? (text : List Char) : Option Binary64 :=
  let (negative, rest) := Numeral.scanSign text
  let word := String.ofList (rest.map Char.toLower)
  if word = "inf" ∨ word = "infinity" then some (infinity negative)
  else if word = "nan" then some nan
  else
    match Numeral.scan? negative rest with
    | some (n, []) => if (n.whole ++ n.fraction).isEmpty then none else some n.toBinary64
    | _ => none

end LayeredStore
