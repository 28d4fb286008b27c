import ElasticCache.Binary64
import ElasticCache.Storage.DiskTier
import ElasticCache.Storage.RamTier
import ElasticCache.WorkingSet.Estimate

/-!
# The tiered store

A key lives in one tier at a time. Values are written to RAM; a slab that has to leave RAM moves its
records to disk, and a value read from disk moves back to RAM when room can be made without losing
another record. Records are dropped only when the RAM ceiling shrinks and the disk budget is
exhausted. An operation that fails leaves the store as far as it had come.
-/

namespace ElasticCache

/-- Configuration of a store. -/
structure StoreConfig where
  /-- Slab size in bytes. -/
  slabSize : Nat := 4 * 1024 * 1024
  /-- RAM ceiling in slabs at the start. -/
  maxSlabs : Nat := 16
  /-- Ticks without a touch after which a slab is stale, zero for never. -/
  staleAfter : Nat := 0
  maxKeySize : Nat := 512
  maxValueSize : Nat := 1024 * 1024
  /-- Number of keys that the working-set estimate is sized for. -/
  trackedKeys : Nat := 65536
  disk : DiskConfig := {}
  /-- Seed of the draws inside the working-set estimate. -/
  seed : UInt64 := 0
  deriving DecidableEq, Repr

/-- The tier that holds a key. -/
inductive Tier where
  | ram
  | disk
  deriving DecidableEq, Repr

/-- The name of a tier. -/
def Tier.name : Tier → String
  | .ram => "RAM"
  | .disk => "Disk"

/-- Counters of a store. -/
structure StoreStats where
  ramHits : Nat := 0
  diskHits : Nat := 0
  misses : Nat := 0
  inserts : Nat := 0
  promotions : Nat := 0
  demotions : Nat := 0
  evictedSlabs : Nat := 0
  /-- Records that the disk refused when their slab left RAM. -/
  dropped : Nat := 0
  deriving DecidableEq, Repr

/-- Share of the lookups that found a value, zero when there were none. -/
def StoreStats.hitRatio (stats : StoreStats) : Except Fault Float := do
  let hits ← fitLong (stats.ramHits + stats.diskHits)
  let total ← fitLong (hits + stats.misses)
  return if total = 0 then 0 else toFloat hits / toFloat total

/-- A value with the tier it was read from. -/
structure Found where
  value : ByteArray
  tier : Tier

/-- An open store. -/
structure TieredStore where
  config : StoreConfig
  ram : RamTier
  disk : DiskTier
  workingSet : WorkingSet
  stats : StoreStats

/-- Operations on a store, which keep what they did when they fail. -/
abbrev StoreM := ExceptT Error (StateM TieredStore)

namespace TieredStore

/-- Smallest slab size that a store accepts. -/
def minSlabSize : Nat := 64

/-- Opens a store on a directory. RAM is empty, and the disk tier is what the log says. -/
def openIn (config : StoreConfig) (dir : Directory) : ExceptT Error (Except Fault) TieredStore := do
  if config.slabSize < minSlabSize then
    throw (.config s!"slab size {config.slabSize} is too small")
  let disk ← MonadExcept.ofExcept (DiskTier.openLog config.disk dir)
  let workingSet ← WorkingSet.new config.trackedKeys config.seed
  return {
    config
    ram := .new config.slabSize config.maxSlabs config.staleAfter
    disk
    workingSet
    stats := {} }

/-- The tier that holds a key. Does not count as an access. -/
def tierOf (store : TieredStore) (key : ByteArray) : Option Tier :=
  if store.ram.contains key then some .ram
  else if store.disk.contains key then some .disk
  else none

/-- Whether the disk can take every live record of the slab that is to leave next. -/
def canDemote (store : TieredStore) : Bool :=
  store.disk.hasRoom (sumSizes (store.ram.victimRecords.map Record.size))

/-- Refuses keys and values above the limits. -/
def checkSizes (config : StoreConfig) (key value : ByteArray) : Except Error Unit :=
  if config.maxKeySize < key.size then .error (.keyTooLarge key.size config.maxKeySize)
  else if config.maxValueSize < value.size then
    .error (.valueTooLarge value.size config.maxValueSize)
  else .ok ()

/-! ## Steps on the parts of a store -/

/-- A step of the RAM tier. -/
def onRam {α : Type} (f : RamTier → α × RamTier) : StoreM α :=
  modifyGet fun store =>
    let (result, ram) := f store.ram
    (result, { store with ram })

/-- A step of the disk tier, which may fail. -/
def onDisk {α : Type} (f : DiskTier → Except Error α × DiskTier) : StoreM α :=
  ExceptT.mk <| modifyGet fun store =>
    let (outcome, disk) := f store.disk
    (outcome, { store with disk })

/-- A change of the counters. -/
def count (f : StoreStats → StoreStats) : StoreM Unit :=
  modify fun store => { store with stats := f store.stats }

/-- Starts to follow a key, unless the estimate is full. -/
def track (key : ByteArray) (size : Nat) : StoreM Unit :=
  modify fun store =>
    match store.workingSet.insert key size with
    | some (_, workingSet) => { store with workingSet }
    | none => store

/-- Counts a read of a key. -/
def trackRead (key : ByteArray) : StoreM Unit :=
  modify fun store =>
    match store.workingSet.find key with
    | some (_, workingSet) => { store with workingSet }
    | none => store

/-- Stops to follow a key. -/
def untrack (key : ByteArray) : StoreM Unit :=
  modify fun store =>
    match store.workingSet.remove key with
    | some (_, workingSet) => { store with workingSet }
    | none => store

/-! ## Operations -/

/-- Moves a record of a slab that left RAM to disk, or drops it when the budget refuses it. -/
def demote (record : Record) : StoreM Unit :=
  tryCatch
    (do
      onDisk (·.insert record.key record.value)
      count fun s => { s with demotions := s.demotions + 1 })
    fun
      | .capacity _ => do
        untrack record.key
        count fun s => { s with dropped := s.dropped + 1 }
      | e => throw e

/-- Makes the least used slab leave RAM. Answers whether there was one. -/
def evictOne : StoreM Bool := do
  let records? ← onRam fun ram =>
    match ram.evictOne with
    | some (records, ram) => (some records, ram)
    | none => (none, ram)
  match records? with
  | none => return false
  | some records =>
    count fun s => { s with evictedSlabs := s.evictedSlabs + 1 }
    records.forM demote
    return true

/-- Stores a record in RAM, if need be in place of one slab that the disk can take. -/
def insertRam (key value : ByteArray) : StoreM Bool := do
  if ← onRam (·.insert key value) then return true
  let store ← get
  if !store.ram.fits key value || !store.canDemote then return false
  if ← evictOne then onRam (·.insert key value) else return false

/-- Drops a key from both tiers. Answers whether it was held. -/
def remove (key : ByteArray) : StoreM Bool := do
  let inRam ← onRam (·.remove key)
  let onDisk ← onDisk (·.remove key)
  if inRam || onDisk then untrack key
  return inRam || onDisk

/-- Stores a value and answers the tier it landed in: RAM when it can, otherwise disk. -/
def insert (key value : ByteArray) : StoreM Tier := do
  checkSizes (← get).config key value
  let _ ← remove key
  let tier ←
    if ← insertRam key value then pure Tier.ram
    else do
      onDisk (·.insert key value)
      pure Tier.disk
  track key (value.size % wordLimit)
  count fun s => { s with inserts := s.inserts + 1 }
  return tier

/-- Moves a value just read from disk to RAM when room can be made. -/
def promote (key value : ByteArray) : StoreM Unit := do
  let moved ← tryCatch (insertRam key value) fun _ => return false
  if moved then
    let _ ← onDisk (·.remove key)
    count fun s => { s with promotions := s.promotions + 1 }

/-- Reads a value. A value found on disk moves to RAM when room can be made. -/
def find (key : ByteArray) : StoreM (Option Found) := do
  let inRam? ← onRam fun ram =>
    match ram.find key with
    | some (value, ram) => (some value, ram)
    | none => (none, ram)
  match inRam? with
  | some value =>
    trackRead key
    count fun s => { s with ramHits := s.ramHits + 1 }
    return some ⟨value, .ram⟩
  | none =>
    match ← onDisk fun disk => (disk.find key, disk) with
    | none =>
      count fun s => { s with misses := s.misses + 1 }
      return none
    | some value =>
      trackRead key
      count fun s => { s with diskHits := s.diskHits + 1 }
      promote key value
      return some ⟨value, .disk⟩

/-- Makes slabs leave until at most `slabs` are loaded, at most `rounds` of them. Answers how many
left. -/
def shrink (slabs : Nat) : (rounds : Nat) → StoreM Nat
  | 0 => return 0
  | rounds + 1 => do
    if (← get).ram.loadedSlabs ≤ slabs then return 0
    if ← evictOne then return (← shrink slabs rounds) + 1
    return 0

/-- Sets the RAM ceiling in slabs and makes slabs leave until it is met. -/
def resize (slabs : Nat) : StoreM Nat := do
  modify fun store => { store with ram := { store.ram with maxSlabs := slabs } }
  shrink slabs (← get).ram.loadedSlabs

/-- Sets the RAM ceiling in bytes, rounded down to whole slabs. -/
def resizeBytes (bytes : Nat) : StoreM Nat := do
  resize (bytes / (← get).config.slabSize)

/-- Advances the slab clock and answers how many slabs became stale. -/
def tick : StoreM Nat := onRam RamTier.tick

end TieredStore

end ElasticCache
