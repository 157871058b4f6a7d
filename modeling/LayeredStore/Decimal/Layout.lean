import LayeredStore.Decimal.Numeral

/-! # Layouts of decimal numbers

The digits of a number are one thing and their layout another.  A `Layout` records
the decisions of one output format: how a tie between two shortest candidates is
broken, for which places of the first digit the number is written positionally, and
whether a whole number shows a decimal.  The library writes numbers in two formats,
`Layout.display` and `Layout.stored`.
-/
namespace LayeredStore

namespace Decimal

/-- The decisions of a number format. -/
structure Layout where
  /-- Which of two equally near candidates is written. -/
  tie : Tie
  /-- The least place of the first digit that is written positionally, if any is too small. -/
  least? : Option Int
  /-- The greatest such place, if any is too great. -/
  most? : Option Int
  /-- Whether a whole number ends in `.0`. -/
  wholePoint : Bool

namespace Layout

/-- Numbers in messages and comparisons are always positional, whole ones without a
point, and a tie goes up. -/
def display : Layout := ⟨.up, none, none, false⟩

/-- Stored numbers are positional when the first digit stands between the fifth
decimal and ten to the fifteenth, always with a point; others have an exponent with
its sign.  A tie goes to the even digit. -/
def stored : Layout := ⟨.even, some (-5), some 15, true⟩

/-- Whether a number whose first digit stands at `place` is written positionally. -/
def isPositional (l : Layout) (place : Int) : Bool :=
  l.least?.all (· ≤ place) && l.most?.all (place ≤ ·)

/-- Digits without an exponent; `place` is that of the first digit. -/
def positional (wholePoint negative : Bool) (digits : List Char) (place : Int) : Numeral :=
  if place < 0 then
    ⟨negative, ['0'], some (List.replicate ((-place).toNat - 1) '0' ++ digits), none⟩
  else
    let width := place.toNat + 1
    let whole := digits.take width ++ List.replicate (width - digits.length) '0'
    let fraction := digits.drop width
    ⟨negative, whole,
      if fraction.isEmpty then (if wholePoint then some ['0'] else none) else some fraction, none⟩

/-- One digit before the point, then the exponent. -/
def scientific (negative : Bool) (digits : List Char) (place : Int) : Numeral :=
  ⟨negative, digits.take 1,
    if (digits.drop 1).isEmpty then none else some (digits.drop 1), some place⟩

/-- The numeral of a decimal number in this layout. -/
def layOut (l : Layout) (negative : Bool) (d : Decimal) : Numeral :=
  let digits := Nat.toDigits 10 d.digits
  let place := d.top - 1
  if l.isPositional place then positional l.wholePoint negative digits place
  else scientific negative digits place

/-- The numeral of a finite datum in this layout. -/
def numeral (l : Layout) (x : Binary64) : Numeral :=
  l.layOut x.negative (shortest l.tie x.magnitude)

end Layout

end Decimal

/-- The text of a datum in messages and comparisons. -/
def Binary64.display (x : Binary64) : String :=
  if x.isNaN then "NaN"
  else if x.isFinite then String.ofList (Decimal.Layout.display.numeral x).text
  else if x.negative then "-inf" else "inf"

end LayeredStore
