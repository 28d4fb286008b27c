import ElasticCache.WorkingSet.CuckooFilter

/-!
# The working set

Keys are told apart by how often they were read since they were written: never, a few times, or
often. For each of these stages the number of keys and the sum of their sizes is kept, so that the
bytes actually read again can be reported at any time.
-/

namespace ElasticCache

/-- How often a key was read. -/
inductive Stage where
  /-- Never. -/
  | unread
  /-- At least once. -/
  | warm
  /-- At least ten times. -/
  | hot
  deriving DecidableEq, Repr

namespace Stage

/-- Accesses from which on a key is in a stage. -/
def threshold : Stage → Nat
  | .unread => 0
  | .warm => 1
  | .hot => 10

/-- The stage of a number of accesses. -/
def ofAccesses (accesses : Nat) : Stage :=
  if Stage.hot.threshold ≤ accesses then .hot
  else if Stage.warm.threshold ≤ accesses then .warm
  else .unread

/-- The stages in ascending order. -/
def all : List Stage := [.unread, .warm, .hot]

/-- Position of a stage in ascending order. -/
def number : Stage → Nat
  | .unread => 0
  | .warm => 1
  | .hot => 2

end Stage

/-- Number and total size of the keys in one stage. -/
structure Tally where
  count : Nat
  totalSize : Nat
  deriving DecidableEq, Repr

namespace Tally

/-- One more key. -/
def add (tally : Tally) (size : Nat) : Tally := ⟨tally.count + 1, tally.totalSize + size⟩

/-- One key less, never below nothing. -/
def sub (tally : Tally) (size : Nat) : Tally := ⟨tally.count - 1, tally.totalSize - size⟩

end Tally

/-- A tally for each stage. -/
structure Tallies where
  unread : Tally
  warm : Tally
  hot : Tally
  deriving DecidableEq, Repr

namespace Tallies

/-- Nothing in any stage. -/
def zero : Tallies := ⟨⟨0, 0⟩, ⟨0, 0⟩, ⟨0, 0⟩⟩

/-- The tally of a stage. -/
def get (tallies : Tallies) : Stage → Tally
  | .unread => tallies.unread
  | .warm => tallies.warm
  | .hot => tallies.hot

/-- Changes the tally of one stage. -/
def modify (tallies : Tallies) (stage : Stage) (f : Tally → Tally) : Tallies :=
  match stage with
  | .unread => { tallies with unread := f tallies.unread }
  | .warm => { tallies with warm := f tallies.warm }
  | .hot => { tallies with hot := f tallies.hot }

end Tallies

/-- A filter of keys with a tally per stage. -/
structure WorkingSet where
  filter : CuckooFilter
  tallies : Tallies

namespace WorkingSet

/-- An estimate for about this many keys. -/
def new (maxKeys : Nat) (seed : UInt64) : Except Fault WorkingSet := do
  return ⟨← CuckooFilter.new maxKeys seed, .zero⟩

/-- Starts to follow a key that was just written, unless the filter is full. -/
def insert (set : WorkingSet) (key : ByteArray) (size : Nat) : Option (Item × WorkingSet) := do
  let (item, filter) ← set.filter.insert key size
  return (item, { filter, tallies := set.tallies.modify .unread (·.add item.size) })

/-- Moves an item between two stages when its last access took it there. -/
def promote (tallies : Tallies) (item : Item) : Tallies :=
  if item.accesses = Stage.hot.threshold then
    (tallies.modify .warm (·.sub item.size)).modify .hot (·.add item.size)
  else if item.accesses = Stage.warm.threshold then
    (tallies.modify .unread (·.sub item.size)).modify .warm (·.add item.size)
  else tallies

/-- Counts a read of a key. -/
def find (set : WorkingSet) (key : ByteArray) : Option (Item × WorkingSet) := do
  let (item, filter) ← set.filter.find key
  return (item, { filter, tallies := promote set.tallies item })

/-- Stops to follow a key. -/
def remove (set : WorkingSet) (key : ByteArray) : Option (Item × WorkingSet) := do
  let (item, filter) ← set.filter.delete key
  let tallies := set.tallies.modify (.ofAccesses item.accesses) (·.sub item.size)
  return (item, { filter, tallies })

/-- Bytes of the keys read at least once. -/
def workingSetSize (set : WorkingSet) : Nat :=
  set.tallies.warm.totalSize + set.tallies.hot.totalSize

/-- Bytes of all keys followed. -/
def trackedSize (set : WorkingSet) : Nat :=
  sumSizes (Stage.all.map fun stage => (set.tallies.get stage).totalSize)

/-- Number of keys followed. -/
def count (set : WorkingSet) : Nat := set.filter.count

end WorkingSet

end ElasticCache
