import ElasticCache.Fault

/-!
# Buckets of fingerprints

A table of buckets with four slots each. A slot holds a fingerprint with the size and the number of
accesses of the key behind it, and is empty when its tag is zero. An item that finds its bucket full
may displace another one, chosen by a pseudorandom draw.
-/

namespace ElasticCache

/-- A fingerprint with what is known of its key. -/
structure Item where
  tag : Nat
  /-- Bytes of the value. -/
  size : Nat
  accesses : Nat
  deriving DecidableEq, Repr, Inhabited

namespace Item

/-- The content of an empty slot. -/
def blank : Item := ⟨0, 0, 0⟩

/-- Whether a slot with this content is free. -/
def isBlank (item : Item) : Bool := item.tag == 0

/-- Largest number of accesses that is told apart. -/
def maxAccesses : Nat := 65535

/-- The item after one more access. -/
def access (item : Item) : Item := { item with accesses := min (item.accesses + 1) maxAccesses }

end Item

/-- The state of a pseudorandom generator: a counter whose values are scrambled by a wide
multiplication. -/
structure Draws where
  state : UInt64

namespace Draws

/-- The scrambled value of a counter: both halves of a 128-bit product, combined. -/
def scramble (s : UInt64) : UInt64 :=
  let product := s.toNat * (s ^^^ 0x8bb84b93962eacc9).toNat
  UInt64.ofNat product ^^^ UInt64.ofNat (product >>> 64)

/-- A slot number below four, with the generator after the draw. -/
def slot (draws : Draws) : Nat × Draws :=
  let state := draws.state + 0x2d358dccaa6c78a5
  ((scramble state).toNat >>> 62, ⟨state⟩)

end Draws

/-- What became of an item that was put into a bucket. -/
inductive Placement where
  /-- It took a free slot. -/
  | placed
  /-- It took the slot of another item. -/
  | displaced (other : Item)
  /-- The bucket is full. -/
  | full
  deriving DecidableEq, Repr

/-- Replaces the first item that satisfies a condition and answers what it was. -/
def replaceFirst (p : Item → Bool) (f : Item → Item) : List Item → Option (Item × List Item)
  | [] => none
  | item :: rest =>
    if p item then some (item, f item :: rest)
    else (replaceFirst p f rest).map fun (old, rest) => (old, item :: rest)

/-- Buckets of four slots, with the mask that fingerprints are cut down by. -/
structure FingerprintTable where
  buckets : Array (List Item)
  tagMask : Nat

namespace FingerprintTable

/-- Slots of a bucket. -/
def slotsPerBucket : Nat := 4

/-- Bytes of a bucket. -/
def bucketBytes : Nat := 48

/-- A table of empty buckets for tags of `bits` bits. The number of buckets is a power of two, and
one object must be able to hold them all. -/
def new (buckets bits : Nat) : Except Fault FingerprintTable := do
  if 1 <<< buckets.log2 ≠ buckets then throw .malformed
  fitObject buckets bucketBytes
  return ⟨Array.replicate buckets (List.replicate slotsPerBucket .blank), (1 <<< min bits 32) - 1⟩

/-- Number of buckets. -/
def size (table : FingerprintTable) : Nat := table.buckets.size

/-- Number of slots. -/
def slots (table : FingerprintTable) : Nat := table.size * slotsPerBucket

/-- Bytes of all buckets. -/
def sizeInBytes (table : FingerprintTable) : Nat := table.size * bucketBytes

/-- The slots of a bucket, none outside the table. -/
def bucket (table : FingerprintTable) (i : Nat) : List Item := table.buckets.getD i []

/-- Replaces the slots of a bucket. -/
def setBucket (table : FingerprintTable) (i : Nat) (items : List Item) : FingerprintTable :=
  { table with buckets := table.buckets.setIfInBounds i items }

/-- All items of the table. -/
def items (table : FingerprintTable) : List Item :=
  table.buckets.toList.flatten.filter fun item => !item.isBlank

/-- Number of taken slots of a bucket. -/
def occupied (table : FingerprintTable) (i : Nat) : Nat :=
  ((table.bucket i).filter fun item => !item.isBlank).length

/-- Whether a bucket holds a tag. -/
def holds (table : FingerprintTable) (i tag : Nat) : Bool := (table.bucket i).any (·.tag == tag)

/-- Counts an access to the first item with a tag in a bucket and answers the item after it. -/
def access (table : FingerprintTable) (i tag : Nat) : Option (Item × FingerprintTable) :=
  (replaceFirst (·.tag == tag) .access (table.bucket i)).map fun (old, items) =>
    (old.access, table.setBucket i items)

/-- Takes the first item with a tag out of a bucket. -/
def take (table : FingerprintTable) (i tag : Nat) : Option (Item × FingerprintTable) :=
  (replaceFirst (·.tag == tag) (fun _ => .blank) (table.bucket i)).map fun (old, items) =>
    (old, table.setBucket i items)

/-- Puts an item into a bucket: into its first free slot, or else, when it may displace another
item, into a slot that is drawn. -/
def put (table : FingerprintTable) (i : Nat) (item : Item) (mayDisplace : Bool) (draws : Draws) :
    Placement × FingerprintTable × Draws :=
  match replaceFirst Item.isBlank (fun _ => item) (table.bucket i) with
  | some (_, items) => (.placed, table.setBucket i items, draws)
  | none =>
    if mayDisplace then
      let (slot, draws) := draws.slot
      let items := table.bucket i
      (.displaced (items.getD slot .blank), table.setBucket i (items.set slot item), draws)
    else (.full, table, draws)

/-! ## Buckets that may not exist -/

/-- Requires that a bucket exists. -/
def require (table : FingerprintTable) (i : Nat) : Except Fault Unit :=
  if i < table.size then .ok () else .error .outOfBounds

/-- The item in a slot. -/
def read (table : FingerprintTable) (i slot : Nat) : Except Fault Item :=
  match (table.bucket i)[slot]? with
  | some item => .ok item
  | none => .error .outOfBounds

/-- Whether one of two buckets holds a tag. The second is looked at only if it has to be. -/
def holdsEither (table : FingerprintTable) (i j tag : Nat) : Except Fault Bool := do
  table.require i
  if table.holds i tag then return true
  table.require j
  return table.holds j tag

/-- Counts an access to the first item with a tag in two buckets. The second is looked at only if
it has to be. -/
def accessEither (table : FingerprintTable) (i j tag : Nat) :
    Except Fault (Option (Item × FingerprintTable)) := do
  table.require i
  match table.access i tag with
  | some found => return some found
  | none =>
    if i = j then return none
    table.require j
    return table.access j tag

end FingerprintTable

end ElasticCache
