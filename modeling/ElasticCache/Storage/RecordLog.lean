import ElasticCache.Fault
import ElasticCache.Record
import Std.Data.HashMap

/-!
# The record log

The disk tier appends a record for every value stored and a tombstone for every key removed. What
the log means is the fold of its entries: the places of the last values, with the bytes that live
records and garbage take. Reading a log from its start gives that fold for the longest run of whole
entries, so an entry that was cut short is as if it had never been written.
-/

namespace ElasticCache

/-- Value length that marks a tombstone. -/
def tombstoneMark : Nat := wordLimit - 1

/-- An entry of the log. -/
inductive LogEntry where
  /-- A value of the given length was stored. -/
  | stored (key : ByteArray) (valueLength : Nat)
  /-- A key was removed. -/
  | removed (key : ByteArray)

namespace LogEntry

/-- Bytes of an entry. -/
def size : LogEntry → Nat
  | .stored key valueLength => Record.sizeOf key.size valueLength
  | .removed key => Record.sizeOf key.size 0

/-- The stored form of a tombstone. -/
def encodeRemoved (key : ByteArray) : ByteArray :=
  Bytes.ofWord key.size ++ Bytes.ofWord tombstoneMark ++ key

/-- The entry that a value length and a key stand for. -/
def ofHeader (valueLength : Nat) (key : ByteArray) : LogEntry :=
  if valueLength = tombstoneMark then .removed key else .stored key valueLength

/-- The entry at an offset of a log, when all its bytes are there. -/
def at? (log : ByteArray) (offset : Nat) : Option LogEntry := do
  let keyLength ← Bytes.word? log offset
  let valueLength ← Bytes.word? log (offset + 4)
  let key ← Bytes.slice? log (offset + Record.headerSize) keyLength
  let entry := ofHeader valueLength key
  if offset + entry.size ≤ log.size then some entry else none

/-- An entry takes at least a header. -/
theorem headerSize_le_size (entry : LogEntry) : Record.headerSize ≤ entry.size := by
  cases entry <;> simp only [size, Record.sizeOf] <;> omega

/-- An entry that is read lies inside the log. -/
theorem size_le_of_at? {log : ByteArray} {offset : Nat} {entry : LogEntry}
    (h : at? log offset = some entry) : offset + entry.size ≤ log.size := by
  simp only [at?, Option.bind_eq_bind, Option.bind_eq_some_iff] at h
  obtain ⟨_, _, _, _, _, _, h⟩ := h
  split at h
  next hle => rwa [← Option.some.inj h]
  next => exact absurd h nofun

end LogEntry

/-- Where the last value of a key stands. -/
structure Place where
  offset : Nat
  valueLength : Nat
  deriving DecidableEq, Repr

/-- What a log means. -/
structure LogIndex where
  places : Std.HashMap ByteArray Place
  /-- Bytes of the records in `places`. -/
  liveBytes : Nat
  /-- Bytes of superseded records and of tombstones. -/
  garbageBytes : Nat
  /-- Bytes of all entries. -/
  length : Nat

namespace LogIndex

/-- The meaning of a log without entries. -/
def empty : LogIndex := ⟨∅, 0, 0, 0⟩

/-- Bytes of the live record of a key, zero when there is none. -/
def liveSize (index : LogIndex) (key : ByteArray) : Nat :=
  match index.places[key]? with
  | some place => Record.sizeOf key.size place.valueLength
  | none => 0

/-- One more entry at the end of the log. -/
def append (index : LogIndex) : LogEntry → LogIndex
  | .stored key valueLength =>
    let previous := index.liveSize key
    let size := Record.sizeOf key.size valueLength
    ⟨index.places.insert key ⟨index.length, valueLength⟩, index.liveBytes - previous + size,
      index.garbageBytes + previous, index.length + size⟩
  | .removed key =>
    let previous := index.liveSize key
    let size := Record.sizeOf key.size 0
    ⟨index.places.erase key, index.liveBytes - previous, index.garbageBytes + previous + size,
      index.length + size⟩

/-- The meaning of a log from an offset on, after the given meaning of what stands before it. -/
def replayFrom (log : ByteArray) (offset : Nat) (index : LogIndex) : LogIndex :=
  match _h : LogEntry.at? log offset with
  | none => index
  | some entry => replayFrom log (offset + entry.size) (index.append entry)
termination_by log.size - offset
decreasing_by
  have := LogEntry.size_le_of_at? _h
  have := entry.headerSize_le_size
  simp only [Record.headerSize] at this
  omega

/-- The meaning of a log. -/
def replay (log : ByteArray) : LogIndex := replayFrom log 0 empty

/-- The keys with their places, in the order of the records. -/
def inOrder (index : LogIndex) : List (ByteArray × Place) :=
  index.places.toList.mergeSort fun a b => a.2.offset ≤ b.2.offset

end LogIndex

end ElasticCache
