import LayeredStore.Binary64

/-! # The fewest digits that read back

A finite binary64 datum is written with the fewest decimal digits from which it can
be read again.  For each digit count the two neighbours of the value on that decimal
grid are tried; the first count with a neighbour that reads back wins, and of two such
neighbours the nearer one.  Where both are equally near a `Tie` rule of the format
decides.  Reading back is tested literally, by rounding the candidate.
-/
namespace LayeredStore

/-- The number `digits * 10 ^ exponent`. -/
structure Decimal where
  /-- The digits, as a whole number. -/
  digits : Nat
  /-- The power of ten. -/
  exponent : Int
  deriving DecidableEq

/-- How many decimal digits `n` has. -/
def decimalLength (n : Nat) : Nat := (Nat.toDigits 10 n).length

namespace Decimal

/-- The numerator over a denominator that is a power of ten. -/
def numerator (d : Decimal) : Nat := d.digits * Nat.pow 10 d.exponent.toNat

/-- The denominator, a power of ten. -/
def denominator (d : Decimal) : Nat := Nat.pow 10 (-d.exponent).toNat

/-- The exponent just above the first digit: the number is below ten to this power. -/
def top (d : Decimal) : Int := decimalLength d.digits + d.exponent

/-- The binary64 magnitude nearest to the number.  Numbers far outside the range are
told by their first digit's place. -/
def nearestMagnitude (d : Decimal) : Nat :=
  if d.digits = 0 ∨ d.top < -330 then 0
  else if 310 < d.top then Binary64.infinityMagnitude
  else Binary64.nearestMagnitude d.numerator d.denominator

theorem nearestMagnitude_lt (d : Decimal) : d.nearestMagnitude < 0x8000000000000000 := by
  unfold nearestMagnitude
  split
  · decide
  · split
    · decide
    · exact Nat.lt_of_le_of_lt (Nat.min_le_right ..) (by decide)

/-- The binary64 datum nearest to the number, with a sign. -/
def nearest (negative : Bool) (d : Decimal) : Binary64 :=
  ⟨negative, d.nearestMagnitude, d.nearestMagnitude_lt⟩

/-- Which of two equally near candidates is written. -/
inductive Tie
  /-- The larger one. -/
  | up
  /-- The one whose last digit is even. -/
  | even
  deriving DecidableEq

/-- Move trailing zeros of the digits into the exponent. -/
def stripZeros (d : Decimal) : Decimal :=
  go (decimalLength d.digits) d
where
  /-- Strip at most the given number of zeros. -/
  go : Nat → Decimal → Decimal
    | 0, d => d
    | n + 1, d =>
      if d.digits % 10 = 0 ∧ d.digits ≠ 0 then go n ⟨d.digits / 10, d.exponent + 1⟩ else d

/-- The value of a finite magnitude is `scaled` over this. -/
def unit : Nat := 1 <<< 1074

/-- The exponent just above the first digit of `num / den`, for a positive ratio. -/
def topOf (num den : Nat) : Int :=
  if den ≤ num then decimalLength (num / den)
  else 1 - (decimalLength ((den - 1) / num) : Int)

/-- The candidate written with `count` digits, where one of the value's two
neighbours on that grid reads back. -/
def candidate? (tie : Tie) (magnitude count : Nat) : Option Decimal :=
  let num := Binary64.scaled magnitude
  let exponent := topOf num unit - count
  -- The value counted in steps of the grid is `above / below`.
  let above := num * Nat.pow 10 (-exponent).toNat
  let below := unit * Nat.pow 10 exponent.toNat
  let lower : Decimal := ⟨above / below, exponent⟩
  let upper : Decimal := ⟨above / below + 1, exponent⟩
  let rest := 2 * (above % below)
  let upperFirst := below < rest ||
    (below == rest && (tie == .up || lower.digits % 2 == 1))
  let order := if upperFirst then [upper, lower] else [lower, upper]
  order.find? fun d => d.nearestMagnitude == magnitude

/-- All the digits of the value; used where no seventeen digits read back. -/
def exact (magnitude : Nat) : Decimal :=
  ⟨Binary64.scaled magnitude * Nat.pow 5 1074, -1074⟩

/-- The fewest digits from which a finite magnitude is read back. -/
def shortest (tie : Tie) (magnitude : Nat) : Decimal :=
  if magnitude = 0 then ⟨0, 0⟩
  else
    stripZeros <|
      ((List.range' 1 17).findSome? (candidate? tie magnitude)).getD (exact magnitude)

end Decimal

end LayeredStore
