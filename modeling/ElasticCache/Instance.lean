import ElasticCache.Storage.TieredStore

/-!
# Cache instances

An instance is a store with counters of the current tick window. A tick ends the window: it advances
the slab clock, reports the counters and starts them again at zero.
-/

namespace ElasticCache

/-- Configuration of an instance. -/
structure InstanceConfig where
  /-- Name in logs and metrics. -/
  name : String := "cache"
  /-- Bytes of RAM that it asks for. -/
  requested : Nat := 64 * 1024 * 1024
  /-- Milliseconds between two ticks. -/
  tickInterval : Nat := 1000
  store : StoreConfig := {}
  deriving DecidableEq, Repr

/-- What an instance reports to its fleet. -/
structure UsageReport where
  /-- Bytes in use in the slabs that are not stale. -/
  usage : Nat := 0
  /-- Bytes of RAM it may use. -/
  size : Nat := 0
  /-- Bytes of the values that were read at least once. -/
  workingSet : Nat := 0
  loadedSlabs : Nat := 0
  ramKeys : Nat := 0
  diskKeys : Nat := 0
  deriving DecidableEq, Repr

/-- Share of the allocation in use, zero without an allocation. -/
def UsageReport.utilization (report : UsageReport) : Float :=
  if report.size = 0 then 0 else toFloat report.usage / toFloat report.size

/-- What happened in a tick window, and the state of RAM at its end. -/
structure TickReport where
  hits : Nat := 0
  misses : Nat := 0
  sets : Nat := 0
  usage : Nat := 0
  size : Nat := 0
  workingSet : Nat := 0
  /-- Slabs that became stale at this tick. -/
  staleSlabs : Nat := 0
  deriving DecidableEq, Repr

/-- Movements between the tiers in a tick window. -/
structure TierTraffic where
  evictedSlabs : Nat := 0
  promotions : Nat := 0
  demotions : Nat := 0
  deriving DecidableEq, Repr

/-- The movements from one state of the counters to a later one. -/
def TierTraffic.between (earlier later : StoreStats) : Except Fault TierTraffic := do
  return {
    evictedSlabs := ← minus later.evictedSlabs earlier.evictedSlabs
    promotions := ← minus later.promotions earlier.promotions
    demotions := ← minus later.demotions earlier.demotions }

/-- A cache instance. -/
structure CacheInstance where
  config : InstanceConfig
  store : TieredStore
  /-- Counters of the store at the last tick. -/
  reported : StoreStats := {}
  /-- Reads of this window that found a value. -/
  hits : Nat := 0
  /-- Reads of this window that found none. -/
  misses : Nat := 0
  /-- Values stored in this window. -/
  sets : Nat := 0
  lastTick : TickReport := {}
  stopped : Bool := false

/-- Operations on an instance, which keep what they did when they fail. -/
abbrev InstanceM := ExceptT Error (StateM CacheInstance)

namespace CacheInstance

/-- Opens an instance on a directory. -/
def openIn (config : InstanceConfig) (dir : Directory) :
    ExceptT Error (Except Fault) CacheInstance := do
  return { config, store := ← TieredStore.openIn config.store dir }

/-- The name of an instance. -/
def name (cache : CacheInstance) : String := cache.config.name

/-! ## Requests of clients -/

/-- An operation of the store. -/
def onStore {α : Type} (operation : StoreM α) : InstanceM α :=
  ExceptT.mk <| modifyGet fun cache =>
    let (outcome, store) := Id.run (operation.run.run cache.store)
    (outcome, { cache with store })

/-- The first step of a read: the store looks for the key. -/
def lookUp (key : ByteArray) : InstanceM (Option ByteArray) := do
  return (← onStore (TieredStore.find key)).map (·.value)

/-- The second step of a read: it is counted. -/
def countRead (found : Bool) : InstanceM Unit :=
  modify fun cache =>
    if found then { cache with hits := cache.hits + 1 }
    else { cache with misses := cache.misses + 1 }

/-- Reads a value. A read that fails is not counted. -/
def get (key : ByteArray) : InstanceM (Option ByteArray) := do
  let value? ← lookUp key
  countRead value?.isSome
  return value?

/-- Drops a key. Answers whether it was held. -/
def remove (key : ByteArray) : InstanceM Bool := onStore (TieredStore.remove key)

/-- Stores a value. When that fails, no earlier value of the key is kept. -/
def set (key value : ByteArray) : InstanceM Tier :=
  tryCatch
    (do
      let tier ← onStore (TieredStore.insert key value)
      modify fun cache => { cache with sets := cache.sets + 1 }
      return tier)
    fun e => do
      tryCatch (discard (remove key)) fun _ => return
      throw e

/-! ## Requests of the fleet -/

/-- Sets the RAM ceiling in bytes, rounded down to whole slabs. -/
def resize (bytes : Nat) : InstanceM Unit := discard (onStore (TieredStore.resizeBytes bytes))

/-- The state of an instance as it is reported to the fleet. -/
def usageReport (cache : CacheInstance) : Except Fault UsageReport := do
  let store := cache.store
  return {
    usage := store.ram.memoryUsage
    size := ← store.ram.memorySize
    workingSet := store.workingSet.workingSetSize
    loadedSlabs := store.ram.loadedSlabs
    ramKeys := store.ram.count
    diskKeys := store.disk.count }

/-- Ends the tick window. Answers its report and the movements between the tiers. -/
def tick (cache : CacheInstance) : Except Fault (TickReport × TierTraffic × CacheInstance) := do
  let (staleSlabs, ram) := cache.store.ram.tick
  let store := { cache.store with ram }
  let traffic ← TierTraffic.between cache.reported store.stats
  let report : TickReport :=
    { hits := cache.hits
      misses := cache.misses
      sets := cache.sets
      usage := ram.memoryUsage
      size := ← ram.memorySize
      workingSet := store.workingSet.workingSetSize
      staleSlabs }
  return (report, traffic, { cache with
    store
    reported := store.stats
    hits := 0
    misses := 0
    sets := 0
    lastTick := report })

/-- Stops an instance. It still holds its store. -/
def stop (cache : CacheInstance) : CacheInstance := { cache with stopped := true }

end CacheInstance

end ElasticCache
