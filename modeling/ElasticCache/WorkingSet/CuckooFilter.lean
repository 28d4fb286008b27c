import ElasticCache.KeyHash
import ElasticCache.Binary64
import ElasticCache.WorkingSet.FingerprintTable

/-!
# A cuckoo filter with sizes and access counts

A key is known by a 16-bit tag and two candidate buckets, each computed from the other. An item that
finds its bucket full moves on to its other bucket and may displace items there, up to a bound; the
item left over then is kept aside as the victim, and while there is one the filter refuses new keys.
Keys with one tag and the same two buckets cannot be told apart.
-/

namespace ElasticCache

/-- An item without a slot, at one of its buckets. -/
structure Victim where
  bucket : Nat
  item : Item
  deriving DecidableEq, Repr

/-- A fingerprint table with at most one victim. -/
structure CuckooFilter where
  table : FingerprintTable
  victim : Option Victim
  /-- Number of items in the table. -/
  placed : Nat
  draws : Draws

namespace CuckooFilter

/-- Buckets that one insertion may visit. -/
def maxKicks : Nat := 500

/-- Bits of a tag. -/
def tagBits : Nat := 16

/-- Number of buckets for this many keys: a power of two that is filled to at most 24/25. -/
def bucketsFor (maxKeys : Nat) : Nat :=
  let buckets := (max (maxKeys / FingerprintTable.slotsPerBucket) 1).nextPowerOfTwo
  if 24 * (buckets * FingerprintTable.slotsPerBucket) < 25 * maxKeys then 2 * buckets else buckets

/-- An empty filter for about this many keys. -/
def new (maxKeys : Nat) (seed : UInt64) : Except Fault CuckooFilter := do
  let table ← FingerprintTable.new (bucketsFor maxKeys) tagBits
  return { table, victim := none, placed := 0, draws := ⟨seed⟩ }

/-- Number of items, victim included. -/
def count (filter : CuckooFilter) : Nat := filter.placed + if filter.victim.isSome then 1 else 0

/-- Number of slots. -/
def capacity (filter : CuckooFilter) : Nat := filter.table.slots

/-- Share of the slots that items would take. -/
def loadFactor (filter : CuckooFilter) : Float :=
  toFloat filter.count / toFloat filter.capacity

/-- The tag of a hash, which is never zero. -/
def tagOf (filter : CuckooFilter) (hash : UInt64) : Nat :=
  let tag := (hash.toNat >>> 32) % (filter.table.tagMask + 1)
  if tag = 0 then 1 else tag

/-- The first bucket of a hash. -/
def bucketOf (filter : CuckooFilter) (hash : UInt64) : Nat :=
  hash.toNat % wordLimit % filter.table.size

/-- The other bucket of a tag. -/
def otherBucket (filter : CuckooFilter) (i tag : Nat) : Nat :=
  (i ^^^ (tag * 0x5bd1e995 % wordLimit)) % filter.table.size

/-- Finds a place for an item, visiting at most `kicks` buckets. -/
def place (filter : CuckooFilter) (i : Nat) (item : Item) (mayDisplace : Bool) :
    (kicks : Nat) → CuckooFilter
  | 0 => { filter with victim := some ⟨i, item⟩ }
  | kicks + 1 =>
    let (placement, table, draws) := filter.table.put i item mayDisplace filter.draws
    let filter := { filter with table, draws }
    match placement with
    | .placed => { filter with placed := filter.placed + 1 }
    | .displaced other => filter.place (filter.otherBucket i other.tag) other true kicks
    | .full => filter.place (filter.otherBucket i item.tag) item true kicks

/-- Adds a key whose value has `size` bytes. Refused while there is a victim. -/
def insert (filter : CuckooFilter) (key : ByteArray) (size : Nat) : Option (Item × CuckooFilter) :=
  if filter.victim.isSome then none
  else
    let hash := KeyHash.ofKey key
    let item : Item := ⟨filter.tagOf hash, size, 0⟩
    some (item, filter.place (filter.bucketOf hash) item false maxKicks)

/-- The victim, when it may be the item of a tag with these two buckets. -/
def victimAt (filter : CuckooFilter) (i j tag : Nat) : Option Victim :=
  filter.victim.filter fun v => v.item.tag == tag && (v.bucket == i || v.bucket == j)

/-- Looks a key up and counts the access. -/
def find (filter : CuckooFilter) (key : ByteArray) : Option (Item × CuckooFilter) :=
  let hash := KeyHash.ofKey key
  let tag := filter.tagOf hash
  let i := filter.bucketOf hash
  let j := filter.otherBucket i tag
  match filter.victimAt i j tag with
  | some v =>
    let item := v.item.access
    some (item, { filter with victim := some { v with item } })
  | none =>
    ((filter.table.access i tag).or (filter.table.access j tag)).map fun (item, table) =>
      (item, { filter with table })

/-- Whether a key may be in the filter. -/
def contains (filter : CuckooFilter) (key : ByteArray) : Bool :=
  let hash := KeyHash.ofKey key
  let tag := filter.tagOf hash
  let i := filter.bucketOf hash
  let j := filter.otherBucket i tag
  (filter.victimAt i j tag).isSome || filter.table.holds i tag || filter.table.holds j tag

/-- Takes an item with a tag out of one of two buckets. The slot it leaves gives the victim another
chance. -/
def deleteAt (filter : CuckooFilter) (i j tag : Nat) : Option (Item × CuckooFilter) :=
  match (filter.table.take i tag).or (filter.table.take j tag) with
  | some (item, table) =>
    let filter := { filter with table, placed := filter.placed - 1 }
    match filter.victim with
    | none => some (item, filter)
    | some v => some (item, { filter with victim := none }.place v.bucket v.item false maxKicks)
  | none =>
    (filter.victimAt i j tag).map fun v => (v.item, { filter with victim := none })

/-- Takes an item of a key out. -/
def delete (filter : CuckooFilter) (key : ByteArray) : Option (Item × CuckooFilter) :=
  let hash := KeyHash.ofKey key
  let tag := filter.tagOf hash
  let i := filter.bucketOf hash
  filter.deleteAt i (filter.otherBucket i tag) tag

end CuckooFilter

end ElasticCache
