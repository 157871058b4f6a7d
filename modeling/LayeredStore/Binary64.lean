/-! # Binary64 numbers

A `Binary64` is a 64-bit floating-point datum, held as a sign and the natural number
that the other 63 bits spell, its `magnitude`.  Among numbers of one sign the
magnitude orders them, so both orders of the library are integer comparisons:
`compare?` is the numeric order, in which a NaN compares with nothing and the two
zeros are equal, and `totalCompare` is the total order in which negative NaNs come
first, `-0` comes before `+0` and positive NaNs come last.

A finite datum is a whole multiple of `2 ^ -1074`; `scaled` is that multiple.
`nearestMagnitude num den` rounds the ratio `num / den` to the nearest datum, a tie
going to the even neighbour.  All arithmetic is exact, on natural numbers.
-/
namespace LayeredStore

/-- A 64-bit floating-point datum. -/
structure Binary64 where
  /-- The sign bit. -/
  negative : Bool
  /-- The number spelt by the exponent and fraction bits. -/
  magnitude : Nat
  /-- There are 63 such bits. -/
  magnitude_lt : magnitude < 0x8000000000000000
  deriving DecidableEq

namespace Binary64

/-- The magnitude of an infinity; larger ones are NaNs. -/
def infinityMagnitude : Nat := 0x7FF0000000000000

/-- The datum with a given bit pattern. -/
def ofBits (bits : UInt64) : Binary64 :=
  ⟨0x8000000000000000 ≤ bits.toNat, bits.toNat % 0x8000000000000000, Nat.mod_lt _ (by decide)⟩

/-- The bit pattern. -/
def toBits (x : Binary64) : UInt64 :=
  UInt64.ofNat (x.magnitude + if x.negative then 0x8000000000000000 else 0)

/-- Positive zero. -/
def zero : Binary64 := ⟨false, 0, by decide⟩

instance : Inhabited Binary64 := ⟨zero⟩

/-- The number one. -/
def one : Binary64 := ⟨false, 0x3FF0000000000000, by decide⟩

/-- The positive quiet NaN. -/
def nan : Binary64 := ⟨false, 0x7FF8000000000000, by decide⟩

/-- An infinity. -/
def infinity (negative : Bool) : Binary64 := ⟨negative, infinityMagnitude, by decide⟩

/-- Whether `x` is no number. -/
def isNaN (x : Binary64) : Bool := infinityMagnitude < x.magnitude

/-- Whether `x` is neither infinite nor a NaN. -/
def isFinite (x : Binary64) : Bool := x.magnitude < infinityMagnitude

/-! ## Orders -/

/-- The magnitude with the sign of `x`; both zeros give zero. -/
def signed (x : Binary64) : Int :=
  if x.negative then -(x.magnitude : Int) else x.magnitude

/-- The numeric order; a NaN compares with nothing. -/
def compare? (x y : Binary64) : Option Ordering :=
  if x.isNaN || y.isNaN then none else some (compare x.signed y.signed)

/-- The place of `x` in the total order: `-0` is just below `+0`. -/
def place (x : Binary64) : Int :=
  if x.negative then -1 - (x.magnitude : Int) else x.magnitude

/-- The total order of all data. -/
def totalCompare (x y : Binary64) : Ordering := compare x.place y.place

/-! ## Exact values -/

/-- The number that the lowest exponent bit adds to a magnitude. -/
def binade : Nat := 0x10000000000000

/-- The binary exponent above that of the subnormals: the datum is `significand`
times `2 ^ step`, counted in units of `2 ^ -1074`. -/
def step (magnitude : Nat) : Nat := magnitude / binade - 1

/-- The significand, with its hidden bit where there is one. -/
def significand (magnitude : Nat) : Nat := magnitude - step magnitude * binade

/-- The multiple of `2 ^ -1074` that a finite magnitude stands for. -/
def scaled (magnitude : Nat) : Nat := significand magnitude <<< step magnitude

/-! ## Rounding -/

/-- The whole number nearest to `num / den`, a half going to the even neighbour. -/
def roundHalfEven (num den : Nat) : Nat :=
  let whole := num / den
  let rest := 2 * (num % den)
  if rest < den then whole
  else if den < rest then whole + 1
  else whole + whole % 2

/-- The magnitude nearest to `num / den`.  The ratio is counted in units of
`2 ^ -1074`; a count of 53 bits or fewer is its own magnitude, and a longer one is
rounded to 53 bits.  What overflows is infinite. -/
def nearestMagnitude (num den : Nat) : Nat :=
  let units := num <<< 1074
  let shift := (units / den).log2 - 52
  min (shift * binade + roundHalfEven units (den <<< shift)) infinityMagnitude

/-- The datum nearest to `num / den`, with a sign. -/
def nearest (negative : Bool) (num den : Nat) : Binary64 :=
  ⟨negative, nearestMagnitude num den,
    Nat.lt_of_le_of_lt (Nat.min_le_right ..) (by decide)⟩

/-- The datum nearest to a whole number; zero is positive. -/
def ofInt (n : Int) : Binary64 := nearest (n < 0) n.natAbs 1

end Binary64

end LayeredStore
