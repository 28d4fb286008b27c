import ElasticCache.Binary64

/-!
# Decimal texts of binary64 numbers

The text of a number has the fewest digits that read back as the same number, and of those the
digits nearest to it. It is positional at every size, and has no point when the number is whole.

The search for the digits is exact. The reals that read back as `m * 2 ^ q` form an interval around
it. Powers of ten are tried as a grid from coarse to fine; on the first grid that has a point in the
interval, a neighbour of the number itself is such a point.
-/

namespace ElasticCache

/-- The number `digits * 10 ^ scale`. -/
structure Decimal where
  digits : Nat
  scale : Int
  deriving DecidableEq, Repr

namespace Decimal

/-! ## Positional text -/

/-- Digits behind the point, without zeros at their end. -/
def fractionDigits (rest places : Nat) : List Char :=
  let digits := Nat.toDigits 10 rest
  let padded := List.replicate (places - digits.length) '0' ++ digits
  (padded.reverse.dropWhile (· == '0')).reverse

/-- The positional text of a decimal number. -/
def text (d : Decimal) : String :=
  if 0 ≤ d.scale then toString (d.digits * Nat.pow 10 d.scale.toNat)
  else
    let places := (-d.scale).toNat
    let whole := toString (d.digits / Nat.pow 10 places)
    let fraction := fractionDigits (d.digits % Nat.pow 10 places) places
    if fraction.isEmpty then whole else whole ++ "." ++ String.ofList fraction

/-! ## Fewest digits -/

/-- Lower end, in quarters of the unit `2 ^ q`, of the reals that read back as `m * 2 ^ q`. Below a
power of two the neighbour is nearer. -/
def lowerEnd (m : Nat) : Nat := 4 * m - if m = 1 <<< 52 then 1 else 2

/-- Upper end, in quarters of the unit, of the reals that read back as `m * 2 ^ q`. -/
def upperEnd (m : Nat) : Nat := 4 * m + 2

/-- Whether a real reads back as `m * 2 ^ q`, where a quarter of the unit has length `quarter`. The
ends count when the significand is even. -/
def readsBack (m quarter x : Nat) : Bool :=
  let low := lowerEnd m * quarter
  let high := upperEnd m * quarter
  if m % 2 = 0 then low ≤ x && x ≤ high else low < x && x < high

/-- The multiple of `10 ^ k` nearest to `m * 2 ^ q` among its two neighbours that read back as it.
The greater one is taken when they are equally near. -/
def nearestOn (m : Nat) (q k : Int) : Option Nat :=
  let quarter := (1 <<< (q - 2).toNat) * Nat.pow 10 (-k).toNat
  let step := (1 <<< (2 - q).toNat) * Nat.pow 10 k.toNat
  let value := 4 * m * quarter
  let below := value / step
  let above := below + 1
  match readsBack m quarter (below * step), readsBack m quarter (above * step) with
  | true, true =>
    if above * step - value ≤ value - below * step then some above else some below
  | true, false => some below
  | false, true => some above
  | false, false => none

/-- The first hit on the grids `10 ^ k`, `10 ^ (k - 1)` and so on, `steps` grids further at most. -/
def search (m : Nat) (q : Int) : (steps : Nat) → (k : Int) → Decimal
  | 0, k => ⟨(nearestOn m q k).getD 0, k⟩
  | steps + 1, k =>
    match nearestOn m q k with
    | some digits => ⟨digits, k⟩
    | none => search m q steps (k - 1)

/-- The decimal number of fewest digits that reads back as `m * 2 ^ q`, which is positive. The grids
start above the number and end where it is a point itself. -/
def shortest (m : Nat) (q : Int) : Decimal :=
  let width := m.log2 + 1 + q
  let top := max (width / 3) (width / 4) + 1
  search m q (top - min q 0).toNat top

/-- The text of a float. -/
def ofFloat (x : Float) : String :=
  match Binary64.ofFloat x with
  | .nan => "NaN"
  | .infinite negative => if negative then "-inf" else "inf"
  | .finite negative significand exponent =>
    (if negative then "-" else "") ++
      if significand = 0 then "0" else (shortest significand exponent).text

end Decimal

end ElasticCache
