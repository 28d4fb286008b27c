import ElasticCache.Error
import ElasticCache.Storage.Directory
import ElasticCache.Storage.RecordLog

/-!
# The disk tier

Records pushed out of RAM live in an append-only log with an index in memory. The log is
replaced by its live records alone once garbage outweighs them. An operation that fails answers why
and leaves the tier as far as it had come.
-/

namespace ElasticCache

/-- Configuration of a disk tier. -/
structure DiskConfig where
  /-- Budget for live bytes, zero for unlimited. -/
  maxBytes : Nat := 0
  /-- Whether every write is forced to the device. -/
  syncWrites : Bool := false
  /-- Garbage up to this size never causes a compaction. -/
  compactionThreshold : Nat := 16 * 1024 * 1024
  deriving DecidableEq, Repr

/-- An open disk tier. -/
structure DiskTier where
  config : DiskConfig
  dir : Directory
  /-- What the entries appended so far mean. -/
  index : LogIndex

namespace DiskTier

/-- Opens the log in a directory, creating both when absent, and cuts off an incomplete tail. -/
def openLog (config : DiskConfig) (dir : Directory) : Except Error DiskTier :=
  if dir.isDirectory Directory.logName then .error (.io .isADirectory)
  else
    let index := LogIndex.replay dir.log
    .ok ⟨config, dir.ensure.putLog (dir.log.extract 0 index.length), index⟩

/-- Number of keys held. -/
def count (tier : DiskTier) : Nat := tier.index.places.size

/-- Bytes of live records. -/
def liveBytes (tier : DiskTier) : Nat := tier.index.liveBytes

/-- Bytes of superseded records and tombstones. -/
def garbageBytes (tier : DiskTier) : Nat := tier.index.garbageBytes

/-- Bytes of the log as far as the tier wrote it. -/
def fileBytes (tier : DiskTier) : Nat := tier.index.length

/-- Whether a key is held. -/
def contains (tier : DiskTier) (key : ByteArray) : Bool := key ∈ tier.index.places

/-- Whether this many more live bytes stay within the budget. -/
def hasRoom (tier : DiskTier) (bytes : Nat) : Bool :=
  tier.config.maxBytes = 0 || saturatingSum tier.liveBytes bytes ≤ tier.config.maxBytes

/-- The bytes of the log file at an offset. Nothing is always there to be read. -/
def readLog (tier : DiskTier) (offset length : Nat) : Except Error ByteArray :=
  if length = 0 then .ok .empty
  else
    match Bytes.slice? tier.dir.log offset length with
    | some bytes => .ok bytes
    | none => .error (.io .unexpectedEof)

/-- Appends an entry with its stored form. -/
def appendEntry (tier : DiskTier) (entry : LogEntry) (bytes : ByteArray) : DiskTier :=
  { tier with dir := tier.dir.putLog (tier.dir.log ++ bytes), index := tier.index.append entry }

/-- The live records of the log one after the other, as far as they can be read. -/
def gatherLive (tier : DiskTier) (gathered : ByteArray) :
    List (ByteArray × Place) → Except Error ByteArray
  | [] => .ok gathered
  | (key, place) :: rest => do
    let record ← tier.readLog place.offset (Record.sizeOf key.size place.valueLength)
    tier.gatherLive (gathered ++ record) rest

/-- The records in front of the first one that cannot be read, one after the other. -/
def gatherReadable (tier : DiskTier) (gathered : ByteArray) :
    List (ByteArray × Place) → ByteArray
  | [] => gathered
  | (key, place) :: rest =>
    match tier.readLog place.offset (Record.sizeOf key.size place.valueLength) with
    | .ok record => tier.gatherReadable (gathered ++ record) rest
    | .error _ => gathered

/-- The meaning of a log that holds the given records alone, at their new places. -/
def compactedIndex (records : List (ByteArray × Place)) : LogIndex :=
  records.foldl (fun index (key, place) => index.append (.stored key place.valueLength)) .empty

/-- Replaces the log by its live records alone. What was written of them before a failure stays in
the draft. -/
def compact (tier : DiskTier) : Except Error Unit × DiskTier :=
  if tier.dir.isDirectory Directory.draftName then (.error (.io .isADirectory), tier)
  else
    let records := tier.index.inOrder
    match tier.gatherLive .empty records with
    | .error e =>
      let draft := tier.gatherReadable .empty records
      (.error e, { tier with dir := tier.dir.put Directory.draftName draft })
    | .ok log =>
      let index := { compactedIndex records with liveBytes := tier.liveBytes }
      (.ok (), { tier with dir := (tier.dir.erase Directory.draftName).putLog log, index })

/-- Compacts once garbage is above the threshold and outweighs the live records. -/
def settle (tier : DiskTier) : Except Error Unit × DiskTier :=
  if tier.config.compactionThreshold < tier.garbageBytes ∧ tier.liveBytes < tier.garbageBytes then
    tier.compact
  else (.ok (), tier)

/-- Stores a value in place of any earlier one of the key. -/
def insert (tier : DiskTier) (key value : ByteArray) : Except Error Unit × DiskTier :=
  if wordLimit ≤ key.size then (.error (.capacity key.size), tier)
  else if tombstoneMark ≤ value.size then (.error (.capacity value.size), tier)
  else
    let record : Record := ⟨key, value⟩
    let live := tier.liveBytes - tier.index.liveSize key + record.size
    if 0 < tier.config.maxBytes ∧ tier.config.maxBytes < live then
      (.error (.capacity record.size), tier)
    else (tier.appendEntry (.stored key value.size) record.encode).settle

/-- Reads the value of a key. -/
def find (tier : DiskTier) (key : ByteArray) : Except Error (Option ByteArray) :=
  match tier.index.places[key]? with
  | none => .ok none
  | some place =>
    (tier.readLog (place.offset + Record.headerSize + key.size) place.valueLength).map some

/-- Drops a key. Answers whether it was held. -/
def remove (tier : DiskTier) (key : ByteArray) : Except Error Bool × DiskTier :=
  if tier.contains key then
    let (outcome, tier) := (tier.appendEntry (.removed key) (LogEntry.encodeRemoved key)).settle
    (outcome.map fun _ => true, tier)
  else (.ok false, tier)

end DiskTier

end ElasticCache
