/-! # Expiry times

Every entry of a map carries the second at which it expires, `0` meaning never and so
do negative times.  An expired entry counts as absent from its second on.  Times are
64-bit; a lifespan too long for them ends at the last second.
-/
namespace LayeredStore

/-- The expiry of entries that live until they are removed. -/
def neverExpires : Int64 := 0

/-- Whether an entry with this expiry is dead at a time. -/
def isExpired (expiry now : Int64) : Bool := neverExpires < expiry && expiry ≤ now

/-- When an entry written now expires that is to live for a number of seconds; a
lifespan of zero is for ever. -/
def expiryAfter (now : Int64) (lifespan : UInt64) : Int64 :=
  if lifespan = 0 then neverExpires
  else
    let last : Int := Int64.maxValue.toInt
    Int64.ofInt (min (now.toInt + min (lifespan.toNat : Int) last) last)

/-- The sooner of two expiries; one that never comes is the later. -/
def earliest (a b : Int64) : Int64 :=
  if a = neverExpires then b
  else if b = neverExpires then a
  else if a ≤ b then a else b

end LayeredStore
