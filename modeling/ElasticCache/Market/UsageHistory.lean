import ElasticCache.Binary64
import ElasticCache.Fault

/-!
# Usage histories

The last usage samples of an instance, oldest first, and the direction in which they move: the slope
of the least-squares line through them, compared with a threshold.
-/

namespace ElasticCache

/-- Direction of a usage curve. -/
inductive Trend where
  | increasing
  | decreasing
  | steady
  deriving DecidableEq, Repr

/-- The word for a trend. -/
def Trend.name : Trend → String
  | .increasing => "increasing"
  | .decreasing => "decreasing"
  | .steady => "steady"

/-- A bounded sequence of samples, oldest first. -/
structure UsageHistory where
  samples : List Nat
  capacity : Nat
  deriving DecidableEq, Repr

namespace UsageHistory

/-- Samples kept unless told otherwise. -/
def defaultCapacity : Nat := 10

/-- Bytes of a sample. -/
def sampleBytes : Nat := 8

/-- An empty history for at least one sample. One object must be able to hold all its samples. -/
def new (capacity : Nat) : Except Fault UsageHistory := do
  let capacity := max capacity 1
  fitObject capacity sampleBytes
  return ⟨[], capacity⟩

/-- Appends a sample. The oldest one leaves a full history. -/
def add (history : UsageHistory) (sample : Nat) : UsageHistory :=
  let kept :=
    if history.samples.length = history.capacity then history.samples.drop 1 else history.samples
  { history with samples := kept ++ [sample] }

/-- The latest sample, zero when there is none. -/
def current (history : UsageHistory) : Nat := history.samples.getLast?.getD 0

/-- The sample before the latest, zero when there is none. -/
def previous (history : UsageHistory) : Nat := history.samples.dropLast.getLast?.getD 0

/-- Running sums of a least-squares fit. -/
structure Sums where
  x : Float := 0
  y : Float := 0
  xy : Float := 0
  xx : Float := 0

/-- The sums over samples with their positions. -/
def sums (samples : List Nat) : Sums :=
  samples.zipIdx.foldl
    (fun s (sample, i) =>
      let x := toFloat i
      let y := toFloat sample
      { x := s.x + x, y := s.y + y, xy := s.xy + x * y, xx := s.xx + x * x })
    {}

/-- Slope of the least-squares line, in bytes per sample. There is none through fewer than two
samples. -/
def slope (history : UsageHistory) : Option Float :=
  let n := toFloat history.samples.length
  let s := sums history.samples
  let denominator := n * s.xx - s.x * s.x
  if denominator == 0 then none else some ((n * s.xy - s.x * s.y) / denominator)

/-- The direction of the samples. A slope counts from `minSlope` on. -/
def trend (history : UsageHistory) (minSlope : Float) : Trend :=
  match history.slope with
  | none => .steady
  | some slope =>
    if slope ≥ minSlope then .increasing
    else if slope ≤ -minSlope then .decreasing
    else .steady

end UsageHistory

end ElasticCache
