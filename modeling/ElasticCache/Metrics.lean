import ElasticCache.Instance
import ElasticCache.SeriesMap
import ElasticCache.Text.Decimal

/-!
# Metrics

Counters, gauges and a histogram of a fleet and its instances, and their text. The text lists the
families in ascending order of their names and the series of a family in ascending order of the
labels they bear. A family without series is left out.
-/

namespace ElasticCache

/-- Counts of observations by upper bound. -/
structure Histogram where
  /-- The bounds in ascending order, each with the observations that it is the first bound of. -/
  buckets : List (Float × Nat)
  sum : Float := 0
  count : Nat := 0

namespace Histogram

/-- A histogram without observations. -/
def new (bounds : List Float) : Histogram := { buckets := bounds.map fun bound => (bound, 0) }

/-- Counts an observation in the first bucket that holds it. -/
def countIn (x : Float) : List (Float × Nat) → List (Float × Nat)
  | [] => []
  | (bound, n) :: rest => if x ≤ bound then (bound, n + 1) :: rest else (bound, n) :: countIn x rest

/-- Adds an observation. -/
def observe (h : Histogram) (x : Float) : Histogram :=
  { buckets := countIn x h.buckets, sum := h.sum + x, count := h.count + 1 }

/-- The bounds, each with the observations up to it, after `n` observations below them. -/
def cumulative (n : Nat) : List (Float × Nat) → List (Float × Nat)
  | [] => []
  | (bound, count) :: rest => (bound, n + count) :: cumulative (n + count) rest

end Histogram

/-- The series of an instance. -/
structure InstanceSeries where
  hits : Nat := 0
  misses : Nat := 0
  sets : Nat := 0
  evictedSlabs : Nat := 0
  promotions : Nat := 0
  demotions : Nat := 0
  usage : Nat := 0
  workingSet : Nat := 0
  deriving DecidableEq, Repr

/-- The metrics of a fleet. -/
structure Metrics where
  /-- Series of the instances by name. -/
  byInstance : SeriesMap InstanceSeries := {}
  poolSize : Nat := 0
  /-- Number of registered instances. -/
  instances : Nat := 0
  /-- Allocations of the last round, by uid. -/
  allocations : SeriesMap Nat := {}
  rounds : Nat := 0
  /-- Instances dropped after a failed request. -/
  removedInstances : Nat := 0
  /-- Seconds that the rounds took. -/
  roundDuration : Histogram := .new [0.001, 0.005, 0.01, 0.05, 0.1, 0.5, 1, 5]

namespace Metrics

/-- A counter is a 64-bit word and starts over beyond it. -/
def advance (counter amount : Nat) : Nat := (counter + amount) % longLimit

/-- A gauge is a signed 64-bit word and stays at its largest value beyond it. -/
def gauge (amount : Nat) : Nat := min amount (longLimit / 2 - 1)

/-- Adds a tick window to the series of an instance. -/
def InstanceSeries.addTick (s : InstanceSeries) (report : TickReport) (traffic : TierTraffic) :
    InstanceSeries where
  hits := advance s.hits report.hits
  misses := advance s.misses report.misses
  sets := advance s.sets report.sets
  evictedSlabs := advance s.evictedSlabs traffic.evictedSlabs
  promotions := advance s.promotions traffic.promotions
  demotions := advance s.demotions traffic.demotions
  usage := gauge report.usage
  workingSet := gauge report.workingSet

/-- Records the tick of an instance. -/
def observeTick (m : Metrics) (name : String) (report : TickReport) (traffic : TierTraffic) :
    Metrics :=
  let series := (m.byInstance.find? name).getD {}
  { m with byInstance := m.byInstance.insert name (InstanceSeries.addTick series report traffic) }

/-- Records a finished round: the allocations by uid, and how long it took. -/
def observeRound (m : Metrics) (allocations : List (Nat × Nat)) (seconds : Float) : Metrics :=
  { m with
    rounds := advance m.rounds 1
    roundDuration := m.roundDuration.observe seconds
    instances := allocations.length
    allocations := allocations.foldl
      (fun series (uid, size) => series.insert (toString uid) (gauge size)) m.allocations }

/-- Drops the series of a removed instance. -/
def forget (m : Metrics) (uid : Nat) : Metrics :=
  { m with allocations := m.allocations.erase (toString uid) }

/-- The most telling numbers in one line. -/
def summary (m : Metrics) : String :=
  s!"FleetMetrics \x7b rounds: {m.rounds}, instances: {m.instances} \x7d"

/-! ## Text -/

/-- The value of a label between its quotes. -/
def escapeLabel (s : String) : String :=
  s.foldl
    (fun text c =>
      text ++ if c = '\\' then "\\\\" else if c = '\n' then "\\n"
        else if c = '"' then "\\\"" else c.toString)
    ""

/-- A sample without labels. -/
def sample (name : String) (value : Float) : String := s!"{name} {Decimal.ofFloat value}"

/-- A sample with one label. -/
def labelled (name label text : String) (value : Float) : String :=
  s!"{name}\x7b{label}=\"{escapeLabel text}\"\x7d {Decimal.ofFloat value}"

/-- Metrics of one name. -/
structure Family where
  name : String
  help : String
  /-- Counter, gauge or histogram. -/
  kind : String
  samples : List String

/-- The first part of all names. -/
def nameStart : String := "cachefleet_"

/-- A family of one number. -/
def Family.single (name help kind : String) (value : Nat) : Family :=
  let name := nameStart ++ name
  ⟨name, help, kind, [sample name (toFloat value)]⟩

/-- A family with a number per label. -/
def Family.series {α : Type} (name help kind label : String) (map : SeriesMap α)
    (value : α → Nat) : Family :=
  let name := nameStart ++ name
  ⟨name, help, kind,
    map.toList.map fun (text, entry) => labelled name label text (toFloat (value entry))⟩

/-- The family of a histogram. -/
def Family.histogram (name help : String) (h : Histogram) : Family :=
  let name := nameStart ++ name
  let bucket (bound : String) (count : Nat) : String :=
    labelled (name ++ "_bucket") "le" bound (toFloat count)
  ⟨name, help, "histogram",
    (Histogram.cumulative 0 h.buckets).map (fun (bound, n) => bucket (Decimal.ofFloat bound) n) ++
      [bucket "+Inf" h.count, sample (name ++ "_sum") h.sum,
        sample (name ++ "_count") (toFloat h.count)]⟩

/-- The lines of a family. -/
def Family.lines (family : Family) : List String :=
  s!"# HELP {family.name} {family.help}" :: s!"# TYPE {family.name} {family.kind}" ::
    family.samples

/-- All families. -/
def families (m : Metrics) : List Family :=
  let perInstance (name help kind : String) (value : InstanceSeries → Nat) : Family :=
    .series name help kind "instance" m.byInstance value
  [perInstance "cache_hits_total" "Lookups answered" "counter" (·.hits),
    perInstance "cache_misses_total" "Lookups for absent keys" "counter" (·.misses),
    perInstance "cache_sets_total" "Values stored" "counter" (·.sets),
    perInstance "cache_evicted_slabs_total" "Slabs moved from RAM to disk" "counter"
      (·.evictedSlabs),
    perInstance "cache_promotions_total" "Values moved from disk back to RAM" "counter"
      (·.promotions),
    perInstance "cache_demotions_total" "Values written to disk by slab eviction" "counter"
      (·.demotions),
    perInstance "cache_usage_bytes" "Bytes used in live slabs" "gauge" (·.usage),
    perInstance "cache_working_set_bytes" "Estimated working set size" "gauge" (·.workingSet),
    .single "pool_size_bytes" "Memory pool shared by the fleet" "gauge" m.poolSize,
    .single "instances" "Registered cache instances" "gauge" m.instances,
    .series "allocation_bytes" "Memory allocated to each instance by the last round" "gauge" "uid"
      m.allocations id,
    .single "market_rounds_total" "Completed market rounds" "counter" m.rounds,
    .single "removed_instances_total" "Instances dropped after a failed request" "counter"
      m.removedInstances,
    .histogram "round_duration_seconds" "Market round duration" m.roundDuration]

/-- The lines of the text. -/
def lines (m : Metrics) : List String :=
  ((m.families.filter fun family => !family.samples.isEmpty).mergeSort
    fun a b => a.name ≤ b.name).flatMap Family.lines

end Metrics

namespace CacheInstance

/-- Ends the tick window of an instance and records it. -/
def tickInto (m : Metrics) (cache : CacheInstance) :
    Except Fault (TickReport × CacheInstance × Metrics) := do
  let (report, traffic, cache) ← cache.tick
  return (report, cache, m.observeTick cache.name report traffic)

/-- A number of ticks, and then a stop. -/
def run (m : Metrics) (cache : CacheInstance) :
    (ticks : Nat) → Except Fault (CacheInstance × Metrics)
  | 0 => return (cache.stop, m)
  | ticks + 1 => do
    let (_, cache, m) ← cache.tickInto m
    run m cache ticks

end CacheInstance

end ElasticCache
