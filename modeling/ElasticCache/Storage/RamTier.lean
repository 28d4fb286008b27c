import ElasticCache.KeyHash
import ElasticCache.Arena.Slab
import Std.Data.TreeMap
import Std.Data.HashMap

/-!
# The RAM tier

Records live in slabs under a ceiling on their number. An index leads from the hash of a key to the
places that may hold it, so keys of one hash are told apart by the stored key. Whole slabs leave
the tier: one marked as stale first, otherwise the one with the fewest hits, the oldest touch
deciding between equals.
-/

namespace ElasticCache

/-- How a slab has been used. -/
structure SlabUsage where
  /-- Values read from the slab. -/
  hits : Nat
  /-- Time of the last insert into the slab or read from it. -/
  lastTouch : Nat
  /-- Set when the slab was idle for too long. -/
  stale : Bool
  deriving DecidableEq, Repr

/-- A collection of slabs with its index. -/
structure RamTier where
  slabSize : Nat
  /-- Ceiling on the number of slabs. -/
  maxSlabs : Nat
  /-- Ticks without a touch after which a slab is stale, zero for never. -/
  staleAfter : Nat
  clock : Nat
  /-- Number of the next slab, a word that wraps around. -/
  nextId : Nat
  slabs : Std.TreeMap Nat Slab
  /-- From key hash to slab number to the offsets of the records. -/
  index : Std.HashMap UInt64 (Std.TreeMap Nat (List Nat))
  usage : Std.TreeMap Nat SlabUsage

namespace RamTier

/-- A tier without slabs. -/
def new (slabSize maxSlabs staleAfter : Nat) : RamTier where
  slabSize
  maxSlabs
  staleAfter
  clock := 0
  nextId := 0
  slabs := ∅
  index := ∅
  usage := ∅

/-- Number of slabs held. -/
def loadedSlabs (tier : RamTier) : Nat := tier.slabs.size

/-- Number of keys held. -/
def count (tier : RamTier) : Nat := sumSizes (tier.slabs.values.map Slab.count)

/-- Whether a slab is marked as stale. -/
def isStale (tier : RamTier) (id : Nat) : Bool := (tier.usage[id]?.map (·.stale)).getD false

/-- Bytes used by records in slabs that are not stale. -/
def memoryUsage (tier : RamTier) : Nat :=
  sumSizes (tier.slabs.toList.map fun (id, slab) => if tier.isStale id then 0 else slab.used)

/-- Bytes that the slab ceiling stands for, when they fit a 64-bit amount. -/
def memorySize (tier : RamTier) : Except Fault Nat := fitLong (tier.maxSlabs * tier.slabSize)

/-- Whether an empty slab could take the record. -/
def fits (tier : RamTier) (key value : ByteArray) : Bool :=
  match Slab.recordSize? key value with
  | some size => size ≤ Slab.maxRecordSize tier.slabSize
  | none => false

/-- The number and new content of the first slab with room for the record, with its offset. -/
def placeLoaded (tier : RamTier) (key value : ByteArray) (needed : Nat) :
    Option (Nat × Nat × Slab) :=
  tier.slabs.toList.findSome? fun (id, slab) =>
    if needed ≤ slab.maxAllocSize then
      (slab.insert key value).map fun (offset, slab) => (id, offset, slab)
    else none

/-- Enters a record in the index. -/
def indexRecord (tier : RamTier) (hash : UInt64) (id offset : Nat) : RamTier :=
  let places := tier.index.getD hash ∅
  let offsets := places.getD id [] ++ [offset]
  { tier with index := tier.index.insert hash (places.insert id offsets) }

/-- Takes a record out of the index, leaving no empty entry. -/
def unindexRecord (tier : RamTier) (hash : UInt64) (id offset : Nat) : RamTier :=
  match tier.index[hash]? with
  | none => tier
  | some places =>
    let offsets := (places.getD id []).filter (· ≠ offset)
    let places := if offsets.isEmpty then places.erase id else places.insert id offsets
    { tier with
      index := if places.isEmpty then tier.index.erase hash else tier.index.insert hash places }

/-- Marks a slab as touched now. -/
def touch (tier : RamTier) (id hits : Nat) : RamTier :=
  { tier with
    usage := tier.usage.modify id fun u =>
      { u with hits := u.hits + hits, lastTouch := tier.clock, stale := false } }

/-- Opens an empty slab with the record in it, when the ceiling allows one more. -/
def openSlab (tier : RamTier) (key value : ByteArray) : Option (Nat × Nat × RamTier) := do
  if tier.maxSlabs ≤ tier.loadedSlabs ∨ ¬ tier.fits key value then none
  else
    let id := tier.nextId
    let (offset, slab) ← (Slab.new id tier.slabSize).insert key value
    return (id, offset,
      { tier with
        nextId := (id + 1) % wordLimit
        slabs := tier.slabs.insert id slab
        usage := tier.usage.insert id ⟨0, tier.clock, false⟩ })

/-- Stores a record in the first slab with room, or in a new slab. Answers whether it was stored. -/
def insert (tier : RamTier) (key value : ByteArray) : Bool × RamTier :=
  match Slab.recordSize? key value with
  | none => (false, tier)
  | some needed =>
    let placed :=
      match tier.placeLoaded key value needed with
      | some (id, offset, slab) =>
        some (id, offset, { tier with slabs := tier.slabs.insert id slab })
      | none => tier.openSlab key value
    match placed with
    | none => (false, tier)
    | some (id, offset, tier) =>
      (true, (tier.indexRecord (KeyHash.ofKey key) id offset).touch id 0)

/-- Slab and offset of the record with the given key. -/
def locate? (tier : RamTier) (key : ByteArray) : Option (Nat × Nat) := do
  let places ← tier.index[KeyHash.ofKey key]?
  places.toList.findSome? fun (id, offsets) => do
    let slab ← tier.slabs[id]?
    let offset ← offsets.find? (slab.holds · key)
    return (id, offset)

/-- Whether a key is held. -/
def contains (tier : RamTier) (key : ByteArray) : Bool := (tier.locate? key).isSome

/-- Reads a value and counts a hit on its slab. -/
def find (tier : RamTier) (key : ByteArray) : Option (ByteArray × RamTier) := do
  let (id, offset) ← tier.locate? key
  let slab ← tier.slabs[id]?
  let value ← slab.valueAt? offset
  return (value, tier.touch id 1)

/-- Drops a key. Answers whether it was held. -/
def remove (tier : RamTier) (key : ByteArray) : Bool × RamTier :=
  match tier.locate? key with
  | none => (false, tier)
  | some (id, offset) =>
    let tier := { tier with slabs := tier.slabs.modify id fun slab => (slab.remove offset).2 }
    (true, tier.unindexRecord (KeyHash.ofKey key) id offset)

/-- Whether a slab last used as told becomes stale at a time. -/
def becomesStale (staleAfter clock : Nat) (u : SlabUsage) : Bool :=
  !u.stale && decide (staleAfter < clock - u.lastTouch)

/-- Advances the clock, marks the slabs that have been idle for too long and answers how many were
marked now. -/
def tick (tier : RamTier) : Nat × RamTier :=
  let tier := { tier with clock := tier.clock + 1 }
  if tier.staleAfter = 0 then (0, tier)
  else
    let becomes := becomesStale tier.staleAfter tier.clock
    ((tier.usage.values.filter becomes).length,
      { tier with
        usage := tier.usage.map fun _ u => if becomes u then { u with stale := true } else u })

/-- Whether a slab is to leave before another: fewer hits, then the older touch. -/
def leavesBefore (a b : SlabUsage) : Bool :=
  a.hits < b.hits || (a.hits == b.hits && a.lastTouch < b.lastTouch)

/-- The least used of some slabs, the first among equals. -/
def leastUsed : List (Nat × SlabUsage) → Option (Nat × SlabUsage)
  | [] => none
  | slab :: rest =>
    match leastUsed rest with
    | none => some slab
    | some other => if leavesBefore other.2 slab.2 then some other else some slab

/-- The slab that is to leave next. -/
def nextVictim? (tier : RamTier) : Option Nat :=
  match tier.usage.toList.find? (·.2.stale) with
  | some (id, _) => some id
  | none => (leastUsed tier.usage.toList).map (·.1)

/-- The live records of the slab that is to leave next. -/
def victimRecords (tier : RamTier) : List Record :=
  match tier.nextVictim? with
  | none => []
  | some id => (tier.slabs[id]?.map Slab.records).getD []

/-- Takes the entries of one slab under one hash out of the index. -/
def unindexSlab (index : Std.HashMap UInt64 (Std.TreeMap Nat (List Nat))) (id : Nat)
    (hash : UInt64) : Std.HashMap UInt64 (Std.TreeMap Nat (List Nat)) :=
  match index[hash]? with
  | none => index
  | some places =>
    let places := places.erase id
    if places.isEmpty then index.erase hash else index.insert hash places

/-- Removes a slab and answers its live records. -/
def evictSlab (tier : RamTier) (id : Nat) : Option (List Record × RamTier) := do
  let slab ← tier.slabs[id]?
  let records := slab.records
  let index := records.foldl
    (fun index record => unindexSlab index id (KeyHash.ofKey record.key)) tier.index
  return (records,
    { tier with slabs := tier.slabs.erase id, usage := tier.usage.erase id, index })

/-- Removes the slab that is to leave next and answers its live records. -/
def evictOne (tier : RamTier) : Option (List Record × RamTier) := do
  let id ← tier.nextVictim?
  tier.evictSlab id

end RamTier

end ElasticCache
