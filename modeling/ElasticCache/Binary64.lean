/-!
# Exact values of binary64 numbers

A binary64 value is a NaN, an infinity, or a sign with a natural significand and a power of two.
What must be exact about such a value, its decimal text and its rounding to nanoseconds, is computed
from this form.
-/

namespace ElasticCache

/-- The binary64 value nearest to a 64-bit amount. -/
def toFloat (n : Nat) : Float := n.toUInt64.toFloat

/-- What a binary64 value stands for. -/
inductive Binary64 where
  | nan
  | infinite (negative : Bool)
  /-- The value `significand * 2 ^ exponent` with a sign. -/
  | finite (negative : Bool) (significand : Nat) (exponent : Int)
  deriving DecidableEq, Repr

namespace Binary64

/-- The value that 64 bits encode: a sign bit, eleven bits of exponent and a fraction. -/
def ofBits (bits : UInt64) : Binary64 :=
  let word := bits.toNat
  let negative := word >>> 63 = 1
  let field : Nat := (word >>> 52) % (1 <<< 11)
  let fraction := word % (1 <<< 52)
  if field = 2047 then if fraction = 0 then .infinite negative else .nan
  else if field = 0 then .finite negative fraction (-1074)
  else .finite negative ((1 <<< 52) + fraction) (field - 1075)

/-- The value of a float. -/
def ofFloat (x : Float) : Binary64 := ofBits x.toBits

end Binary64

end ElasticCache
