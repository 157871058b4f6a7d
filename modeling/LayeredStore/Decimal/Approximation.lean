import LayeredStore.Decimal.Numeral

/-! # Approximate reading of numerals

Numbers of documents are read with few steps instead of exactly.  The leading digits of a
numeral that fit into 64 bits give one datum, the power of ten that they are counted in
gives another, and the number read is their product or quotient.  Each of these steps
rounds on its own, so what is read may be a neighbour of the nearest datum; in particular
the fewest digits that name a datum need not be read as that datum.

`Numeral.approximation` is the number read.
-/
namespace LayeredStore

namespace Binary64

/-- The magnitude nearest to the product of two finite magnitudes. -/
def productMagnitude (a b : Nat) : Nat :=
  nearestMagnitude (scaled a * scaled b) (1 <<< 2148)

/-- The magnitude nearest to the quotient of two finite magnitudes. -/
def quotientMagnitude (a b : Nat) : Nat := nearestMagnitude (scaled a) (scaled b)

/-- The magnitude nearest to a power of ten. -/
def powerMagnitude (exponent : Nat) : Nat := nearestMagnitude (Nat.pow 10 exponent) 1

/-- The greatest exponent of ten whose power is finite. -/
def mostExponent : Nat := 308

/-- A finite magnitude times a power of ten.  A negative exponent divides, by the greatest
power as long as the exponent is too small for one division. -/
def scaleMagnitude (magnitude : Nat) (exponent : Int) : Nat :=
  if magnitude = 0 then 0
  else if exponent < -mostExponent then
    scaleMagnitude (quotientMagnitude magnitude (powerMagnitude mostExponent))
      (exponent + mostExponent)
  else if exponent < 0 then quotientMagnitude magnitude (powerMagnitude (-exponent).toNat)
  else if exponent ≤ mostExponent then
    productMagnitude magnitude (powerMagnitude exponent.toNat)
  else infinityMagnitude
termination_by (-exponent).toNat
decreasing_by simp only [mostExponent] at *; omega

theorem nearestMagnitude_le (num den : Nat) : nearestMagnitude num den ≤ infinityMagnitude :=
  Nat.min_le_right ..

theorem scaleMagnitude_le (magnitude : Nat) (exponent : Int) :
    scaleMagnitude magnitude exponent ≤ infinityMagnitude := by
  fun_induction scaleMagnitude magnitude exponent with
  | case1 => exact Nat.zero_le _
  | case2 _ _ _ _ ih => exact ih
  | case3 => exact nearestMagnitude_le ..
  | case4 => exact nearestMagnitude_le ..
  | case5 => exact Nat.le_refl _

end Binary64

namespace Numeral

/-- Append digits to a number as long as it fits into 64 bits.  Gives the number, and the
digits from the first that does not fit. -/
def gather : Nat → List Char → Nat × List Char
  | n, [] => (n, [])
  | n, c :: rest =>
    if appendDigit n c < UInt64.size then gather (appendDigit n c) rest else (n, c :: rest)

/-- The leading digits that fit into 64 bits.  Those left over before the point still count
as places, those behind it are dropped. -/
def leading (n : Numeral) : Decimal :=
  let (digits, left) := gather 0 n.whole
  let (digits, dropped) := gather digits n.fraction
  ⟨digits, n.exponent?.getD 0 + left.length - (n.fraction.length - dropped.length)⟩

/-- The number that documents take a numeral for. -/
def approximation (n : Numeral) : Binary64 :=
  let d := n.leading
  ⟨n.negative, Binary64.scaleMagnitude (Binary64.nearestMagnitude d.digits 1) d.exponent,
    Nat.lt_of_le_of_lt (Binary64.scaleMagnitude_le ..) (by decide)⟩

end Numeral

end LayeredStore
