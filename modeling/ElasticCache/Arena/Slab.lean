import ElasticCache.Record
import ElasticCache.Arena.FreeList
import Std.Data.TreeSet

/-!
# Slabs

A slab keeps records in an arena of fixed size. A record is named by the offset its payload got from
the allocator, and the slab knows which offsets hold live records.
-/

namespace ElasticCache

/-- An arena of records. -/
structure Slab where
  id : Nat
  arena : FreeList
  /-- Offsets of the live records. -/
  live : Std.TreeSet Nat

namespace Slab

/-- An empty slab of `size` bytes. -/
def new (id size : Nat) : Slab := ⟨id, .new size, ∅⟩

/-- Arena size in bytes. -/
def size (slab : Slab) : Nat := slab.arena.capacity

/-- Bytes taken by records and their tags. -/
def used (slab : Slab) : Nat :=
  slab.size - FreeList.headerSize - slab.arena.remainingSize

/-- Largest record that the slab can take now. -/
def maxAllocSize (slab : Slab) : Nat := slab.arena.maxAllocSize

/-- Largest record that an empty slab of `size` bytes can take. -/
def maxRecordSize (size : Nat) : Nat := size - (FreeList.headerSize + FreeList.tagSize)

/-- Size of the record in a slab, when it fits a word. -/
def recordSize? (key value : ByteArray) : Option Nat :=
  let size := Record.sizeOf key.size value.size
  if size < wordLimit then some size else none

/-- Number of live records. -/
def count (slab : Slab) : Nat := slab.live.size

/-- Stores a record where the allocator finds room and answers its offset. -/
def insert (slab : Slab) (key value : ByteArray) : Option (Nat × Slab) := do
  let size ← recordSize? key value
  match slab.arena.alloc size with
  | .ok (some offset, arena) =>
    let record : Record := ⟨key, value⟩
    let arena ← arena.write? offset record.encode
    return (offset, { slab with arena, live := slab.live.insert offset })
  | _ => none

/-- Key and value length of the live record at an offset. -/
def lengths? (slab : Slab) (offset : Nat) : Option (Nat × Nat) := do
  if offset ∈ slab.live then
    let keyLength ← Bytes.word? slab.arena.arena offset
    let valueLength ← Bytes.word? slab.arena.arena (offset + 4)
    return (keyLength, valueLength)
  else none

/-- The key of the live record at an offset. -/
def keyAt? (slab : Slab) (offset : Nat) : Option ByteArray := do
  let (keyLength, _) ← slab.lengths? offset
  slab.arena.bytes? (offset + Record.headerSize) keyLength

/-- The value of the live record at an offset. -/
def valueAt? (slab : Slab) (offset : Nat) : Option ByteArray := do
  let (keyLength, valueLength) ← slab.lengths? offset
  slab.arena.bytes? (offset + Record.headerSize + keyLength) valueLength

/-- Whether the live record at an offset has the given key. -/
def holds (slab : Slab) (offset : Nat) (key : ByteArray) : Bool := slab.keyAt? offset == some key

/-- Frees the live record at an offset. Answers whether there was one. -/
def remove (slab : Slab) (offset : Nat) : Bool × Slab :=
  if offset ∈ slab.live then
    let slab := { slab with live := slab.live.erase offset }
    match slab.arena.free offset with
    | .ok (freed, arena) => (freed, { slab with arena })
    | .error _ => (false, slab)
  else (false, slab)

/-- The live records in ascending offset order. -/
def records (slab : Slab) : List Record :=
  slab.live.toList.filterMap fun offset => do
    let key ← slab.keyAt? offset
    let value ← slab.valueAt? offset
    return ⟨key, value⟩

end Slab

end ElasticCache
