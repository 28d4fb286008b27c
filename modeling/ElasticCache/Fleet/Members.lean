import ElasticCache.Error
import ElasticCache.Fleet.Journal
import ElasticCache.Metrics
import ElasticCache.Text.Decimal

/-!
# Fleets

A fleet is a market with the peers that its instances are reached through, a journal and metrics. An
instance joins without an allocation and receives one at the next round.
-/

namespace ElasticCache

/-- Configuration of a fleet. -/
structure FleetConfig where
  market : MarketConfig := {}
  /-- Rounds per second. -/
  frequency : Float := 1
  /-- Milliseconds that a request to an instance may take. -/
  requestTimeout : Nat := 5000
  /-- The pool is a multiple of this many bytes. -/
  slabSize : Nat := 4 * 1024 * 1024

namespace FleetConfig

/-- Time between the starts of two rounds. -/
def roundInterval (config : FleetConfig) : Except Fault Duration :=
  Duration.ofSeconds (1 / config.frequency)

/-- The pool in whole slabs. -/
def wholeSlabs (config : FleetConfig) : Except Fault Nat :=
  fitLong ((config.market.poolSize + (config.slabSize - 1)) / config.slabSize * config.slabSize)

/-- The configuration with its pool rounded up to whole slabs, and no wallet greater than
the pool. -/
def normalize (config : FleetConfig) : ExceptT Error (Except Fault) FleetConfig := do
  if config.slabSize = 0 then throw (.config "slab size must be positive")
  if !(config.frequency.isFinite && config.frequency > 0) then
    throw (.config s!"round frequency must be positive, got {Decimal.ofFloat config.frequency}")
  let poolSize ← config.wholeSlabs
  let maxWallet := min config.market.maxWallet poolSize
  return { config with market := { config.market with poolSize, maxWallet } }

end FleetConfig

/-- What an instance is told when it joins. -/
structure Registration where
  uid : Nat
  /-- Largest allocation that it can have. -/
  maxSize : Nat
  deriving DecidableEq, Repr

/-- A fleet whose instances are reached through peers of type `η`. -/
structure Fleet (η : Type) where
  config : FleetConfig
  market : Market
  /-- The peers of the instances by uid. -/
  members : Std.TreeMap Nat η := ∅
  /-- Uid of the instance that joins next. -/
  nextUid : Nat := 1
  journal : Journal := {}
  metrics : Metrics := {}

namespace Fleet

variable {η : Type}

/-- A fleet without instances. -/
def new (config : FleetConfig) : ExceptT Error (Except Fault) (Fleet η) := do
  let config ← config.normalize
  return {
    config
    market := .new config.market
    metrics := { poolSize := Metrics.gauge config.market.poolSize } }

/-- Bytes shared between all instances. -/
def poolSize (fleet : Fleet η) : Nat := fleet.config.market.poolSize

/-- Publishes a change. -/
def publish (fleet : Fleet η) (change : Change) : Fleet η :=
  { fleet with journal := fleet.journal.publish change }

/-- The allocation of an instance. -/
def allocation? (fleet : Fleet η) (uid : Nat) : Option Nat :=
  (fleet.market.account? uid).map (·.size)

/-- Updates the number of instances in the metrics. -/
def countMembers (fleet : Fleet η) : Fleet η :=
  { fleet with metrics := { fleet.metrics with instances := fleet.members.size } }

/-- Adds an instance that asks for `requested` bytes. -/
def register (fleet : Fleet η) (requested : Nat) (peer : η) :
    ExceptT Error (Except Fault) (Registration × Fleet η) := do
  if requested = 0 then throw (.config "requested cache size must be positive")
  let uid := fleet.nextUid
  let maxSize := min requested fleet.poolSize
  let market ← fleet.market.register uid maxSize 0
  let fleet := { fleet with
    nextUid := (uid + 1) % longLimit
    market
    members := fleet.members.insert uid peer }
  return (⟨uid, maxSize⟩, fleet.countMembers.publish (.registered uid requested maxSize))

/-- Takes an instance out of the market and out of the members. -/
def erase (fleet : Fleet η) (uid : Nat) : Fleet η :=
  { fleet with
    market := fleet.market.remove uid
    members := fleet.members.erase uid
    metrics := fleet.metrics.forget uid }

/-- Removes an instance. Answers whether it was a member. -/
def remove (fleet : Fleet η) (uid : Nat) : Bool × Fleet η :=
  let after := (fleet.erase uid).countMembers
  if uid ∈ fleet.members then (true, after.publish (.removed uid)) else (false, after)

end Fleet

end ElasticCache
