import ElasticCache.Binary64
import ElasticCache.Fault

/-!
# Lengths of time

Lengths of time in whole nanoseconds. A number of seconds becomes the nearest length, and of two
equally near ones the even one.
-/

namespace ElasticCache

/-- Nanoseconds per second. -/
def nanosPerSecond : Nat := 1000000000

/-- A length of time. -/
structure Duration where
  seconds : Nat
  /-- Nanoseconds beyond the whole seconds. -/
  nanos : Nat
  deriving DecidableEq, Repr

/-- The integer nearest to a quotient, the even one when two are equally near. -/
def nearestQuotient (num den : Nat) : Nat :=
  let quotient := num / den
  let rest := num % den
  if 2 * rest < den then quotient
  else if den < 2 * rest then quotient + 1
  else quotient + quotient % 2

namespace Duration

/-- No time at all. -/
def zero : Duration := ⟨0, 0⟩

/-- A number of nanoseconds. -/
def ofNanos (n : Nat) : Duration := ⟨n / nanosPerSecond, n % nanosPerSecond⟩

/-- A number of microseconds. -/
def ofMicros (n : Nat) : Duration := ofNanos (n * 1000)

/-- Whole milliseconds. -/
def toMillis (d : Duration) : Nat := d.seconds * 1000 + d.nanos / 1000000

/-- The length as a number of seconds. -/
def toSeconds (d : Duration) : Float := toFloat d.seconds + toFloat d.nanos / 1e9

/-- The length nearest to a number of seconds, which must not be negative and must leave the whole
seconds within 64 bits. -/
def ofSeconds (seconds : Float) : Except Fault Duration :=
  match Binary64.ofFloat seconds with
  | .nan => .error .overflow
  | .infinite negative => .error (if negative then .underflow else .overflow)
  | .finite negative significand exponent =>
    if negative ∧ significand ≠ 0 then .error .underflow
    else
      let scaled := significand * nanosPerSecond * (1 <<< exponent.toNat)
      let duration := ofNanos (nearestQuotient scaled (1 <<< (-exponent).toNat))
      if duration.seconds < longLimit then .ok duration else .error .overflow

end Duration

end ElasticCache
