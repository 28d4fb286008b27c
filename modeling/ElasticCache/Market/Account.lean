import ElasticCache.Fault
import ElasticCache.Market.UsageHistory

/-!
# Accounts of the memory market

Each instance has an account: what it asked for, what it was given, how its usage moved, and the
credit it saved. From these follows its target, the allocation it should have next.
-/

namespace ElasticCache

/-- Size of the pool unless told otherwise. -/
def defaultPoolSize : Nat := 1024 * 1024 * 1024

/-- Smallest base allocation unless told otherwise. -/
def defaultMinSlabSize : Nat := 32 * 1024 * 1024

/-- Configuration of a market. -/
structure MarketConfig where
  /-- Bytes shared between all instances. -/
  poolSize : Nat := defaultPoolSize
  /-- Usage ratio above which a moving instance grows. -/
  triggerIncrement : Float := 0.8
  /-- Usage ratio below which a moving instance shrinks. -/
  triggerDecrement : Float := 0.5
  /-- Share by which an instance grows. -/
  increasingSpeed : Float := 0.1
  /-- Share by which an instance shrinks. -/
  decreasingSpeed : Float := 0.1
  /-- Lower bound of a base allocation. -/
  minSlabSize : Nat := defaultMinSlabSize
  /-- Slope, in bytes per sample, from which on usage moves. -/
  minSlope : Float := 1024.0 * 0.1
  /-- Bytes that a buyer may take per turn. Without it the pool is divided evenly. -/
  windowSize : Option Nat := none
  /-- Ceiling of a wallet. -/
  maxWallet : Nat := defaultPoolSize
  /-- Samples kept per instance. -/
  historySize : Nat := UsageHistory.defaultCapacity

/-- The default configuration over a pool of the given size. -/
def MarketConfig.withPoolSize (poolSize : Nat) : MarketConfig := { poolSize, maxWallet := poolSize }

/-- What the market knows of an instance. -/
structure Account where
  /-- Ceiling that the instance declared. -/
  requested : Nat
  /-- Current allocation. -/
  size : Nat
  /-- Allocation before the last round. -/
  last : Nat
  /-- Allocation without the share of the equal split. -/
  buyingSize : Nat
  usages : UsageHistory
  /-- Credit saved from unused guarantees. -/
  wallet : Nat
  deriving DecidableEq, Repr

namespace Account

/-- The account of an instance that runs with `usage` bytes. -/
def new (historySize requested usage : Nat) : Except Fault Account := do
  let history ← UsageHistory.new historySize
  return {
    requested
    size := usage
    last := usage
    buyingSize := usage
    usages := history.add usage
    wallet := 0 }

/-- Bytes in use at the last report. -/
def usage (account : Account) : Nat := account.usages.current

/-- An amount times a factor, cut down to a whole 64-bit amount. -/
def scale (amount : Nat) (factor : Float) : Nat := (toFloat amount * factor).toUInt64.toNat

/-- Share of the bought allocation in use, zero when nothing was bought. -/
def usageRatio (account : Account) : Float :=
  if account.buyingSize = 0 then 0 else toFloat account.usage / toFloat account.buyingSize

/-- The allocation that an instance should have next. A moving instance grows or shrinks by a share
of what it bought; any other gets its usage and a hundredth of the pool. -/
def target (config : MarketConfig) (account : Account) : Nat :=
  let ratio := account.usageRatio
  let moves := account.usages.trend config.minSlope ≠ .steady
  if ratio > config.triggerIncrement ∧ moves then
    scale account.buyingSize (1 + config.increasingSpeed)
  else if ratio < config.triggerDecrement ∧ moves then
    scale account.buyingSize (1 - config.decreasingSpeed)
  else min config.poolSize (saturatingSum account.usage (scale config.poolSize 0.01))

/-- Least base allocation of an instance. -/
def floor (config : MarketConfig) (account : Account) : Nat :=
  min config.minSlabSize account.requested

end Account

end ElasticCache
