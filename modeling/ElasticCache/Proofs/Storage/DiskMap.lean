import ElasticCache.Storage.DiskTier
import ElasticCache.Proofs.Storage.LogReplay

/-!
# The disk tier is a map

An open disk tier holds a map when its index is what its log replays to and the records hold the
values of the map. Appending, compacting, closing and opening again keep this, so a key is found
with its last value after any of them.
-/

namespace ElasticCache

namespace Directory

variable {dir : Directory} {content : ByteArray}

/-- The log that is put into a directory is its log. -/
theorem log_putLog : (dir.putLog content).log = content := by
  rw [log, content?, putLog, put, Std.TreeMap.getElem?_insert_self, Option.getD_some]

/-- The log of an empty directory is empty. -/
theorem log_empty : empty.log = .empty := by
  rw [log, content?, empty, Std.TreeMap.getElem?_emptyc, Option.getD_none]

/-- A file that is put has its new content, and the others have theirs. -/
theorem content?_put (name other : String) :
    (dir.put name content).content? other = if name = other then some content
      else dir.content? other := by
  simp only [content?, put, Std.TreeMap.getElem?_insert, Std.LawfulEqCmp.compare_eq_iff_eq]

/-- The log that is put is the content of the file with its name, and no other file changes. -/
theorem content?_putLog (name : String) :
    (dir.putLog content).content? name = if logName = name then some content
      else dir.content? name := content?_put logName name

/-- Making sure of a directory changes no file. -/
theorem content?_ensure (name : String) : dir.ensure.content? name = dir.content? name := by
  rw [ensure]
  split <;> rfl

/-- The whole directory is no directory inside itself. -/
theorem isDirectory_ensure (name : String) :
    dir.ensure.isDirectory name = dir.isDirectory name := by
  rw [ensure]
  split
  next => rfl
  next =>
    simp only [isDirectory, List.contains_cons]
    rfl

/-- Putting the log neither makes nor removes a directory. -/
theorem isDirectory_putLog (content : ByteArray) (name : String) :
    (dir.putLog content).isDirectory name = dir.isDirectory name := by
  rw [putLog, put, isDirectory, isDirectory]

/-- A directory that was made sure of exists. -/
theorem contains_ensure : dir.ensure.directories.contains [] = true := by
  rw [ensure]
  split
  next h => exact h
  next => exact List.contains_iff_mem.2 List.mem_cons_self

/-- A directory that is there needs not be brought back. -/
theorem ensure_of_contains (h : dir.directories.contains [] = true) : dir.ensure = dir := if_pos h

end Directory

/-- The log of an empty directory holds nothing. -/
theorem LogIndex.describes_log_empty : empty.Describes Directory.empty.log fun _ => none := by
  rw [Directory.log_empty]
  exact describes_empty

/-! ## Changes to a map -/

/-- A change to what a map holds. -/
inductive MapChange where
  | put (key value : ByteArray)
  | drop (key : ByteArray)

/-- The value of the last change to a key, given all changes with the newest first. -/
def lastValue : List MapChange → ByteArray → Option ByteArray
  | [], _ => none
  | .put key value :: older, k => if k = key then some value else lastValue older k
  | .drop key :: older, k => if k = key then none else lastValue older k

/-- A value that is put is the last one of its key. -/
theorem lastValue_put (changes : List MapChange) (key value : ByteArray) :
    lastValue (.put key value :: changes) =
      Function.update (lastValue changes) key (some value) := by
  funext k
  rw [lastValue, Function.update_apply]

/-- A key that is dropped has no last value. -/
theorem lastValue_drop (changes : List MapChange) (key : ByteArray) :
    lastValue (.drop key :: changes) = Function.update (lastValue changes) key none := by
  funext k
  rw [lastValue, Function.update_apply]

namespace DiskTier

/-- The log of a tier holds a map. -/
def Records (tier : DiskTier) (held : ByteArray → Option ByteArray) : Prop :=
  tier.index.Describes tier.dir.log held

/-- A tier in a directory without other directories, whose log holds a map. -/
structure Holds (tier : DiskTier) (held : ByteArray → Option ByteArray) : Prop where
  directories : tier.dir.directories = [[]]
  describes : tier.index.Describes tier.dir.log held

/-! ## Compactions that cannot be done -/

/-- A directory stands where a compaction would write the new log. -/
def Blocked (tier : DiskTier) : Prop := tier.dir.isDirectory Directory.draftName = true

instance (tier : DiskTier) : Decidable tier.Blocked :=
  inferInstanceAs (Decidable (tier.dir.isDirectory Directory.draftName = true))

/-- A compaction cannot be done, and is due even with this many more live bytes. -/
def StuckAfter (tier : DiskTier) (added : Nat) : Prop :=
  tier.Blocked ∧ tier.config.compactionThreshold < tier.garbageBytes ∧
    tier.liveBytes + added < tier.garbageBytes

instance (tier : DiskTier) (added : Nat) : Decidable (tier.StuckAfter added) := by
  unfold StuckAfter
  infer_instance

/-- A compaction is due and cannot be done. -/
abbrev Stuck (tier : DiskTier) : Prop := tier.StuckAfter 0

/-- What is stuck with more live bytes is stuck without them. -/
theorem StuckAfter.stuck {tier : DiskTier} {added : Nat} (h : tier.StuckAfter added) :
    tier.Stuck :=
  ⟨h.1, h.2.1, Nat.lt_of_le_of_lt (Nat.le_add_right ..) h.2.2⟩

/-- How an operation ends that leaves it to a tier to be compacted. -/
def settled (tier : DiskTier) : Except Error Unit :=
  if tier.Stuck then .error (.io .isADirectory) else .ok ()

/-- Two tiers of one configuration in directories with the same directories inside. -/
structure SameSetting (tier tier' : DiskTier) : Prop where
  config_eq : tier'.config = tier.config
  directories_eq : tier'.dir.directories = tier.dir.directories

section Setting

variable {tier tier' : DiskTier}

/-- A tier is in its own setting. -/
theorem SameSetting.refl (tier : DiskTier) : tier.SameSetting tier := ⟨rfl, rfl⟩

/-- Whether a tier is blocked depends on its setting alone. -/
theorem SameSetting.blocked_iff (h : tier.SameSetting tier') : tier'.Blocked ↔ tier.Blocked := by
  rw [Blocked, Blocked, Directory.isDirectory, Directory.isDirectory, h.directories_eq]

end Setting

section Records

variable {tier : DiskTier} {config : DiskConfig} {held held' : ByteArray → Option ByteArray}
  {key value : ByteArray}

/-! ## Reading -/

/-- A slice of the log can be read. -/
theorem readLog_eq_ok {offset length : Nat} {bytes : ByteArray}
    (h : Bytes.slice? tier.dir.log offset length = some bytes) :
    tier.readLog offset length = .ok bytes := by
  unfold readLog
  split
  next hzero =>
    subst hzero
    have hsize := Bytes.size_of_slice? h
    rw [ByteArray.size_eq_zero_iff.1 hsize]
  next => rw [h]

/-- A key is found with its value. -/
theorem Records.find_eq (h : tier.Records held) (key : ByteArray) :
    tier.find key = .ok (held key) := by
  unfold find
  cases hplace : tier.index.places[key]? with
  | none => rw [h.absent key hplace]
  | some place =>
    obtain ⟨value, hheld, hlength, _, _, hat⟩ := h.present key place hplace
    have hread : tier.readLog (place.offset + Record.headerSize + key.size) place.valueLength =
        .ok value := by
      rw [← hlength]
      exact readLog_eq_ok hat.slice?_value
    simp only [hread, Except.map, hheld]

/-- The tier contains the keys that are held. -/
theorem Records.contains_eq (h : tier.Records held) (key : ByteArray) :
    tier.contains key = (held key).isSome :=
  Bool.eq_iff_iff.2 (decide_eq_true_iff.trans h.mem_places_iff)

/-- The record of a key that is not held takes no bytes. -/
theorem Records.liveSize_eq_zero (h : tier.Records held) (hkey : held key = none) :
    tier.index.liveSize key = 0 := by
  rw [LogIndex.liveSize]
  cases hplace : tier.index.places[key]? with
  | none => rfl
  | some place =>
    obtain ⟨value, hheld, _⟩ := h.present key place hplace
    rw [hkey] at hheld
    cases hheld

/-! ## Compaction -/

/-- An index with some records appended one after the other. -/
def appendAll (index : LogIndex) (records : List (ByteArray × Place)) : LogIndex :=
  records.foldl (fun index entry => index.append (.stored entry.1 entry.2.valueLength)) index

/-- A compaction enters its records one after the other. -/
theorem compactedIndex_eq (records : List (ByteArray × Place)) :
    compactedIndex records = appendAll .empty records := rfl

/-- Gathering records appends them, in order, to a log of whole entries. -/
theorem Records.exists_gatherLive (h : tier.Records held) {records : List (ByteArray × Place)}
    {gathered : ByteArray} {index : LogIndex}
    (hrecords : ∀ entry ∈ records, tier.index.places[entry.1]? = some entry.2)
    (hgathered : index.Describes gathered held') :
    ∃ log, tier.gatherLive gathered records = .ok log ∧
      (appendAll index records).Describes log
        fun key => if key ∈ records.map (·.1) then held key else held' key := by
  induction records generalizing gathered index held' with
  | nil => exact ⟨gathered, rfl, by simpa [appendAll] using hgathered⟩
  | cons entry rest ih =>
    obtain ⟨key, place⟩ := entry
    obtain ⟨value, hheld, hlength, hkey, hvalue, hat⟩ :=
      h.present key place (hrecords _ List.mem_cons_self)
    have hread : tier.readLog place.offset (Record.sizeOf key.size place.valueLength) =
        .ok (Record.encode ⟨key, value⟩) := by
      rw [← hlength]
      exact readLog_eq_ok hat
    obtain ⟨log, hgather, hdescribes⟩ :=
      ih (fun entry hentry => hrecords entry (List.mem_cons_of_mem _ hentry))
        (hgathered.append_stored hkey hvalue)
    refine ⟨log, ?_, ?_⟩
    · rw [gatherLive, hread, ok_bind, hgather]
    · have hmap : (fun other => if other ∈ rest.map (·.1) then held other
          else Function.update held' key (some value) other) =
          fun other => if other ∈ key :: rest.map (·.1) then held other else held' other := by
        funext other
        by_cases heq : other = key
        · subst heq
          simp only [Function.update_self, ← hheld, ite_self, List.mem_cons_self, if_pos]
        · simp only [Function.update_of_ne heq, List.mem_cons, heq, false_or]
      rw [hmap, hlength] at hdescribes
      exact hdescribes

/-- A compaction takes each key with its place. -/
theorem mem_inOrder_iff {index : LogIndex} {key : ByteArray} {place : Place} :
    (key, place) ∈ index.inOrder ↔ index.places[key]? = some place := by
  rw [LogIndex.inOrder, List.mem_mergeSort, Std.HashMap.mem_toList_iff_getElem?_eq_some]

/-- A compaction replaces the log by what it gathered. -/
theorem compact_eq_ok {log : ByteArray} (hfree : ¬tier.Blocked)
    (hgather : tier.gatherLive .empty tier.index.inOrder = .ok log) :
    tier.compact = (.ok (), { tier with
      dir := (tier.dir.erase Directory.draftName).putLog log,
      index := { compactedIndex tier.index.inOrder with liveBytes := tier.liveBytes } }) := by
  have hfree : ¬tier.dir.isDirectory Directory.draftName = true := hfree
  rw [compact, if_neg hfree]
  simp only [hgather]

/-- A compaction that can be done keeps what is held. -/
theorem Records.exists_compact (h : tier.Records held) (hfree : ¬tier.Blocked) :
    ∃ tier', tier.compact = (.ok (), tier') ∧ tier.SameSetting tier' ∧
      tier'.liveBytes = tier.liveBytes ∧ tier'.Records held := by
  obtain ⟨log, hgather, hdescribes⟩ := h.exists_gatherLive
    (fun entry (hentry : entry ∈ tier.index.inOrder) => mem_inOrder_iff.1 hentry)
    LogIndex.describes_empty
  have hmap :
      (fun key => if key ∈ tier.index.inOrder.map (·.1) then held key else none) = held := by
    funext key
    split
    next => rfl
    next hnot =>
      cases hplace : tier.index.places[key]? with
      | none => exact (h.absent key hplace).symm
      | some place => exact absurd (List.mem_map.2 ⟨_, mem_inOrder_iff.2 hplace, rfl⟩) hnot
  rw [hmap, ← compactedIndex_eq] at hdescribes
  have hlive : tier.liveBytes = (compactedIndex tier.index.inOrder).liveBytes := by
    rw [liveBytes, LogIndex.Describes.liveBytes_eq h, hdescribes.liveBytes_eq,
      LogIndex.Describes.placedBytes_eq h hdescribes]
  have hcompact : tier.compact = (.ok (), { tier with
      dir := (tier.dir.erase Directory.draftName).putLog log,
      index := compactedIndex tier.index.inOrder }) := by
    rw [compact_eq_ok hfree hgather, hlive]
  refine ⟨_, hcompact, ⟨rfl, rfl⟩, hlive.symm, ?_⟩
  rwa [Records, Directory.log_putLog]

/-- A compaction that is due and cannot be done changes nothing. -/
theorem settle_eq_stuck (hstuck : tier.Stuck) :
    tier.settle = (.error (.io .isADirectory), tier) := by
  have hblocked : tier.dir.isDirectory Directory.draftName = true := hstuck.1
  have hdue : tier.config.compactionThreshold < tier.garbageBytes ∧
      tier.liveBytes < tier.garbageBytes := hstuck.2
  rw [settle, if_pos hdue, compact, if_pos hblocked]

/-- Settling keeps what is held. It fails when a compaction is due that cannot be done, and leaves
none that is due otherwise. -/
theorem Records.exists_settle (h : tier.Records held) :
    ∃ tier', tier.settle = (tier.settled, tier') ∧ tier.SameSetting tier' ∧
      tier'.liveBytes = tier.liveBytes ∧ tier'.Records held ∧ (tier'.Stuck → tier.Stuck) := by
  rw [settled]
  by_cases hstuck : tier.Stuck
  · rw [if_pos hstuck]
    exact ⟨tier, settle_eq_stuck hstuck, .refl _, rfl, h, id⟩
  · rw [if_neg hstuck, settle]
    split
    next hdue =>
      have hfree : ¬tier.Blocked := fun hblocked => hstuck ⟨hblocked, hdue⟩
      obtain ⟨tier', hcompact, hsetting, hlive, hrecords⟩ := h.exists_compact hfree
      exact ⟨tier', hcompact, hsetting, hlive, hrecords, fun hstuck' =>
        absurd (hsetting.blocked_iff.1 hstuck'.1) hfree⟩
    next => exact ⟨tier, rfl, .refl _, rfl, h, id⟩

/-! ## Storing and dropping -/

/-- A record is refused when a length does not fit its word or the live records would exceed the
budget. -/
def Refuses (tier : DiskTier) (key value : ByteArray) : Prop :=
  wordLimit ≤ key.size ∨ tombstoneMark ≤ value.size ∨
    (0 < tier.config.maxBytes ∧ tier.config.maxBytes <
      tier.liveBytes - tier.index.liveSize key + Record.sizeOf key.size value.size)

instance (tier : DiskTier) (key value : ByteArray) : Decidable (tier.Refuses key value) := by
  unfold Refuses
  infer_instance

/-- A refused insertion changes nothing. -/
theorem insert_eq_refused (hrefuses : tier.Refuses key value) :
    ∃ size, tier.insert key value = (.error (.capacity size), tier) := by
  unfold insert
  by_cases hkey : wordLimit ≤ key.size
  · exact ⟨_, if_pos hkey⟩
  by_cases hvalue : tombstoneMark ≤ value.size
  · rw [if_neg hkey]
    exact ⟨_, if_pos hvalue⟩
  · rw [if_neg hkey, if_neg hvalue]
    exact ⟨_, if_pos ((hrefuses.resolve_left hkey).resolve_left hvalue)⟩

/-- The lengths of a record that is not refused fit its words. -/
theorem lengths_of_accepts (haccepts : ¬tier.Refuses key value) :
    key.size < wordLimit ∧ value.size < tombstoneMark := by
  rw [Refuses, not_or, not_or] at haccepts
  exact ⟨Nat.not_le.1 haccepts.1, Nat.not_le.1 haccepts.2.1⟩

/-- Any other insertion appends its record and settles. -/
theorem insert_eq_settle (haccepts : ¬tier.Refuses key value) :
    tier.insert key value =
      (tier.appendEntry (.stored key value.size) (Record.encode ⟨key, value⟩)).settle := by
  rw [Refuses, not_or, not_or] at haccepts
  obtain ⟨hkey, hvalue, hroom⟩ := haccepts
  rw [insert, if_neg hkey, if_neg hvalue]
  exact if_neg hroom

/-- Any other insertion stores the value, even when the tier cannot be compacted then. -/
theorem Records.exists_insert (h : tier.Records held) (haccepts : ¬tier.Refuses key value) :
    ∃ tier', tier.insert key value =
        ((tier.appendEntry (.stored key value.size) (Record.encode ⟨key, value⟩)).settled, tier') ∧
      tier.SameSetting tier' ∧
      tier'.liveBytes =
        tier.liveBytes - tier.index.liveSize key + Record.sizeOf key.size value.size ∧
      tier'.Records (Function.update held key (some value)) ∧
      (tier'.Stuck →
        (tier.appendEntry (.stored key value.size) (Record.encode ⟨key, value⟩)).Stuck) := by
  obtain ⟨hkey, hvalue⟩ := lengths_of_accepts haccepts
  have happend : (tier.appendEntry (.stored key value.size) (Record.encode ⟨key, value⟩)).Records
      (Function.update held key (some value)) := by
    rw [Records, appendEntry, Directory.log_putLog]
    exact LogIndex.Describes.append_stored h hkey hvalue
  obtain ⟨tier', hsettle, hsetting, hlive, hrecords, hstuck⟩ := happend.exists_settle
  exact ⟨tier', (insert_eq_settle haccepts).trans hsettle,
    ⟨hsetting.config_eq, hsetting.directories_eq⟩, hlive, hrecords, hstuck⟩

/-- A record of a key that is not held makes no garbage. -/
theorem Records.stuck_append_iff (h : tier.Records held) (hkey : held key = none)
    (value : ByteArray) :
    (tier.appendEntry (.stored key value.size) (Record.encode ⟨key, value⟩)).Stuck ↔
      tier.StuckAfter (Record.sizeOf key.size value.size) := by
  have hlive : (tier.appendEntry (.stored key value.size) (Record.encode ⟨key, value⟩)).liveBytes =
      tier.liveBytes - tier.index.liveSize key + Record.sizeOf key.size value.size := rfl
  have hgarbage :
      (tier.appendEntry (.stored key value.size) (Record.encode ⟨key, value⟩)).garbageBytes =
        tier.garbageBytes + tier.index.liveSize key := rfl
  rw [h.liveSize_eq_zero hkey] at hlive hgarbage
  rw [Stuck, StuckAfter, StuckAfter, hlive, hgarbage]
  exact Iff.rfl

/-- This many more live bytes stay within the budget. -/
def Fits (tier : DiskTier) (bytes : Nat) : Prop :=
  tier.config.maxBytes = 0 ∨ tier.liveBytes + bytes ≤ tier.config.maxBytes

/-- The budget is not the largest there is, or the live bytes could be the length of a file. -/
def Counts (tier : DiskTier) : Prop :=
  tier.config.maxBytes < longMax ∨ tier.liveBytes < objectLimit

/-- The check for room goes by the budget, since its sum of words does not reach their end. -/
theorem fits_of_hasRoom {bytes : Nat} (hcounts : tier.Counts) (hbytes : bytes < wordLimit)
    (hroom : tier.hasRoom bytes = true) : tier.Fits bytes := by
  rw [hasRoom, Bool.or_eq_true, decide_eq_true_iff, decide_eq_true_iff] at hroom
  refine hroom.imp_right fun hle => ?_
  simp only [Counts, saturatingSum, longMax, longLimit, objectLimit, wordLimit] at *
  omega

/-- The budget alone decides about a record of a key that is not held. -/
theorem Records.refuses_iff (h : tier.Records held) (hkey : held key = none)
    (hsmall : Record.sizeOf key.size value.size < wordLimit) :
    tier.Refuses key value ↔ ¬tier.Fits (Record.sizeOf key.size value.size) := by
  rw [Refuses, Fits, h.liveSize_eq_zero hkey, tombstoneMark]
  simp only [Record.sizeOf, Record.headerSize] at hsmall ⊢
  omega

/-- A value is stored under a key that is not held. The tier cannot be compacted then when this is
due in spite of the record. -/
theorem Records.exists_insert_new (h : tier.Records held) (hkey : held key = none)
    (haccepts : ¬tier.Refuses key value) :
    ∃ tier', tier.SameSetting tier' ∧
      tier'.liveBytes = tier.liveBytes + Record.sizeOf key.size value.size ∧
      tier'.Records (Function.update held key (some value)) ∧
      ((¬tier.StuckAfter (Record.sizeOf key.size value.size) ∧ ¬tier'.Stuck ∧
          tier.insert key value = (.ok (), tier')) ∨
        (tier.StuckAfter (Record.sizeOf key.size value.size) ∧
          tier.insert key value = (.error (.io .isADirectory), tier'))) := by
  obtain ⟨tier', hinsert, hsetting, hlive, hrecords, hstuck⟩ := h.exists_insert haccepts
  have hiff := h.stuck_append_iff hkey value
  rw [h.liveSize_eq_zero hkey] at hlive
  refine ⟨tier', hsetting, hlive, hrecords, ?_⟩
  rw [settled] at hinsert
  by_cases happended :
      (tier.appendEntry (.stored key value.size) (Record.encode ⟨key, value⟩)).Stuck
  · rw [if_pos happended] at hinsert
    exact .inr ⟨hiff.1 happended, hinsert⟩
  · rw [if_neg happended] at hinsert
    exact .inl ⟨fun hafter => happended (hiff.2 hafter), fun h' => happended (hstuck h'), hinsert⟩

/-- A removal of a key that is held appends its tombstone and settles. -/
theorem remove_eq_settle (hcontains : tier.contains key = true) :
    tier.remove key =
      ((tier.appendEntry (.removed key) (LogEntry.encodeRemoved key)).settle.1.map fun _ => true,
        (tier.appendEntry (.removed key) (LogEntry.encodeRemoved key)).settle.2) :=
  if_pos hcontains

/-- A key that is not contained is not dropped. -/
theorem remove_eq_missed (hmissed : ¬tier.contains key = true) :
    tier.remove key = (.ok false, tier) := if_neg hmissed

/-- A key that is not held is not dropped. -/
theorem Records.remove_eq_false (h : tier.Records held) (hkey : held key = none) :
    tier.remove key = (.ok false, tier) := by
  refine remove_eq_missed ?_
  rw [h.contains_eq, hkey]
  exact Bool.false_ne_true

/-- The length of a key that is held fits its word. -/
theorem Records.key_small (h : tier.Records held) (hheld : (held key).isSome) :
    key.size < wordLimit := by
  cases hplace : tier.index.places[key]? with
  | none =>
    rw [h.absent key hplace] at hheld
    cases hheld
  | some place =>
    obtain ⟨_, _, _, hkey, _⟩ := h.present key place hplace
    exact hkey

/-- A tombstone drops its key. -/
theorem Records.records_append_removed (h : tier.Records held) (hheld : (held key).isSome) :
    (tier.appendEntry (.removed key) (LogEntry.encodeRemoved key)).Records
      (Function.update held key none) := by
  rw [Records, appendEntry, Directory.log_putLog]
  exact LogIndex.Describes.append_removed h (h.key_small hheld)

/-- A tombstone is written even when a compaction is due then that cannot be done. -/
theorem Records.remove_eq_stuck (h : tier.Records held) (hkey : (held key).isSome)
    (hstuck : (tier.appendEntry (.removed key) (LogEntry.encodeRemoved key)).Stuck) :
    tier.remove key = (.error (.io .isADirectory),
      tier.appendEntry (.removed key) (LogEntry.encodeRemoved key)) := by
  rw [remove_eq_settle ((h.contains_eq key).trans hkey), settle_eq_stuck hstuck]
  rfl

/-- A removal drops the key, even when the tier cannot be compacted then, and answers whether it was
held. -/
theorem Records.exists_remove (h : tier.Records held) (key : ByteArray) :
    ∃ outcome tier', tier.remove key = (outcome, tier') ∧ tier.SameSetting tier' ∧
      tier'.liveBytes ≤ tier.liveBytes ∧ tier'.Records (Function.update held key none) ∧
      ((outcome = .ok (held key).isSome ∧ (tier'.Stuck → tier.Stuck)) ∨
        (outcome = .error (.io .isADirectory) ∧ tier.Blocked)) := by
  cases hheld : held key with
  | none =>
    have hupdate : Function.update held key none = held := by
      rw [← hheld, Function.update_eq_self]
    exact ⟨_, tier, h.remove_eq_false hheld, .refl _, Nat.le_refl _, by rwa [hupdate],
      .inl ⟨rfl, id⟩⟩
  | some value =>
    have happend := h.records_append_removed (by rw [hheld, Option.isSome_some])
    obtain ⟨tier', hsettle, hsetting, hlive, hrecords, hstuck⟩ := happend.exists_settle
    have hremove : tier.remove key = ((tier.appendEntry (.removed key)
        (LogEntry.encodeRemoved key)).settled.map fun _ => true, tier') := by
      have hcontains : tier.contains key = true := by
        rw [h.contains_eq, hheld, Option.isSome_some]
      rw [remove_eq_settle hcontains, hsettle]
    refine ⟨_, tier', hremove, ⟨hsetting.config_eq, hsetting.directories_eq⟩, ?_, hrecords, ?_⟩
    · rw [hlive]
      exact Nat.sub_le _ _
    · rw [settled]
      by_cases happended : (tier.appendEntry (.removed key) (LogEntry.encodeRemoved key)).Stuck
      · rw [if_pos happended]
        exact .inr ⟨rfl, happended.1⟩
      · rw [if_neg happended]
        exact .inl ⟨rfl, fun hstuck' => absurd (hstuck hstuck') happended⟩

/-- When nothing is held, no bytes are live. -/
theorem Records.liveBytes_eq_zero (h : tier.Records fun _ => none) : tier.liveBytes = 0 := by
  have hempty : LogIndex.empty.placedBytes = 0 := by
    rw [LogIndex.placedBytes, LogIndex.empty, Std.HashMap.toList_empty]
    rfl
  rw [liveBytes, LogIndex.Describes.liveBytes_eq h, ← hempty]
  exact LogIndex.describes_empty.placedBytes_eq h

/-- Dropping the only key leaves nothing but garbage. Without a threshold a compaction is due then,
also with as many live bytes as the record took. -/
theorem Records.exists_remove_stuck
    (h : tier.Records (Function.update (fun _ => none) key (some value)))
    (hblocked : tier.Blocked) (hthreshold : tier.config.compactionThreshold = 0) :
    ∃ tier', tier.remove key = (.error (.io .isADirectory), tier') ∧ tier.SameSetting tier' ∧
      tier'.Records (fun _ => none) ∧ ∀ added ≤ tier.liveBytes, tier'.StuckAfter added := by
  let tier' := tier.appendEntry (.removed key) (LogEntry.encodeRemoved key)
  have hkey : (Function.update (fun _ => none) key (some value) key).isSome := by
    rw [Function.update_self, Option.isSome_some]
  have happend : tier'.Records fun _ => none := by
    have happend := h.records_append_removed hkey
    rwa [Function.update_idem, Function.update_eq_self_iff.2 rfl] at happend
  have hstuck (added : Nat) (hadded : added ≤ tier.liveBytes) : tier'.StuckAfter added := by
    have hgarbage : tier'.garbageBytes =
      tier.garbageBytes + tier.index.liveSize key + Record.sizeOf key.size 0 := rfl
    have hlive : tier'.liveBytes = tier.liveBytes - tier.index.liveSize key := rfl
    have hnone := happend.liveBytes_eq_zero
    rw [Record.sizeOf, Record.headerSize] at hgarbage
    refine ⟨hblocked, ?_, ?_⟩
    · show tier.config.compactionThreshold < _
      omega
    · omega
  exact ⟨tier', h.remove_eq_stuck hkey (hstuck 0 (Nat.zero_le _)), ⟨rfl, rfl⟩, happend, hstuck⟩

end Records

section Holds

variable {tier tier' : DiskTier} {config : DiskConfig} {held held' : ByteArray → Option ByteArray}
  {key value : ByteArray}

/-- Nothing inside the directory is a directory. -/
theorem Holds.isDirectory_eq_false (h : tier.Holds held) (name : String) :
    tier.dir.isDirectory name = false := by
  rw [Directory.isDirectory, h.directories]
  rfl

/-- Nothing stands where a compaction would write. -/
theorem Holds.not_blocked (h : tier.Holds held) : ¬tier.Blocked := by
  rw [Blocked, h.isDirectory_eq_false]
  exact Bool.false_ne_true

/-! ## Opening -/

/-- What is opened on a log holds what the log does. -/
theorem records_of_openLog {dir : Directory} {index : LogIndex}
    (hopen : openLog config dir = .ok tier) (h : index.Describes dir.log held) :
    tier.config = config ∧ tier.index = index ∧ tier.dir.directories = dir.ensure.directories ∧
      tier.dir.log = dir.log ∧ tier.Records held := by
  rw [openLog] at hopen
  split at hopen
  next => cases hopen
  next =>
    have hcontent : dir.log.extract 0 index.length = dir.log := by
      rw [h.whole, ByteArray.extract_zero_size]
    rw [h.replay_eq] at hopen
    dsimp only at hopen
    rw [hcontent] at hopen
    obtain rfl := Except.ok.inj hopen
    refine ⟨rfl, rfl, rfl, Directory.log_putLog, ?_⟩
    rwa [Records, Directory.log_putLog]

/-- A log in a directory without other directories is opened as far as it replays. -/
theorem openLog_eq_ok (config : DiskConfig) {dir : Directory}
    (hdirectories : dir.directories = [[]]) :
    openLog config dir = .ok ⟨config,
        dir.ensure.putLog (dir.log.extract 0 (LogIndex.replay dir.log).length),
        LogIndex.replay dir.log⟩ ∧ dir.ensure.directories = [[]] := by
  have hfile : ¬dir.isDirectory Directory.logName = true := by
    rw [Directory.isDirectory, hdirectories]
    decide
  have hensure : dir.ensure.directories = [[]] := by
    rw [Directory.ensure, hdirectories]
    exact hdirectories
  exact ⟨if_neg hfile, hensure⟩

/-- A directory whose log an index describes opens with that index. -/
theorem exists_openLog (config : DiskConfig) {dir : Directory} {index : LogIndex}
    (hdirectories : dir.directories = [[]]) (h : index.Describes dir.log held) :
    ∃ tier, openLog config dir = .ok tier ∧ tier.config = config ∧ tier.index = index ∧
      tier.dir.log = dir.log ∧ tier.Holds held := by
  obtain ⟨hopen, hensure⟩ := openLog_eq_ok config hdirectories
  obtain ⟨hconfig, hindex, hsame, hlog, hrecords⟩ := records_of_openLog hopen h
  exact ⟨_, hopen, hconfig, hindex, hlog, hsame.trans hensure, hrecords⟩

/-- An empty directory opens and holds nothing. -/
theorem exists_openLog_empty (config : DiskConfig) :
    ∃ tier, openLog config .empty = .ok tier ∧ tier.config = config ∧
      tier.Holds fun _ => none := by
  obtain ⟨tier, hopen, hconfig, _, _, hholds⟩ :=
    exists_openLog config rfl LogIndex.describes_log_empty
  exact ⟨tier, hopen, hconfig, hholds⟩

/-- Closing a tier and opening it again, with any configuration, brings back its index. -/
theorem Holds.exists_reopen (h : tier.Holds held) (config : DiskConfig) :
    ∃ tier', openLog config tier.dir = .ok tier' ∧ tier'.config = config ∧
      tier'.index = tier.index ∧ tier'.dir.log = tier.dir.log ∧ tier'.Holds held :=
  exists_openLog config h.directories h.describes

/-! ## A directory for the log alone -/

/-- A key is found with its value. -/
theorem Holds.find_eq (h : tier.Holds held) (key : ByteArray) : tier.find key = .ok (held key) :=
  Records.find_eq h.describes key

/-- A compaction keeps what is held. -/
theorem Holds.exists_compact (h : tier.Holds held) :
    ∃ tier', tier.compact = (.ok (), tier') ∧ tier'.config = tier.config ∧ tier'.Holds held := by
  obtain ⟨tier', hcompact, hsetting, _, hrecords⟩ :=
    Records.exists_compact h.describes h.not_blocked
  exact ⟨tier', hcompact, hsetting.config_eq, hsetting.directories_eq.trans h.directories, hrecords⟩

/-- A value that is not refused is stored. -/
theorem Holds.exists_insert (h : tier.Holds held) (haccepts : ¬tier.Refuses key value) :
    ∃ tier', tier.insert key value = (.ok (), tier') ∧ tier'.config = tier.config ∧
      tier'.Holds (Function.update held key (some value)) := by
  obtain ⟨tier', hinsert, hsetting, _, hrecords, _⟩ := Records.exists_insert h.describes haccepts
  have hfree : ¬(tier.appendEntry (.stored key value.size) (Record.encode ⟨key, value⟩)).Stuck :=
    fun hstuck => h.not_blocked hstuck.1
  rw [settled, if_neg hfree] at hinsert
  exact ⟨tier', hinsert, hsetting.config_eq, hsetting.directories_eq.trans h.directories, hrecords⟩

/-- An insertion that fails changes nothing. -/
theorem Holds.eq_of_refused {e : Error} (h : tier.Holds held)
    (hinsert : tier.insert key value = (.error e, tier')) : tier' = tier := by
  by_cases hrefuses : tier.Refuses key value
  · obtain ⟨size, hrefused⟩ := insert_eq_refused hrefuses
    exact (Prod.mk.inj (hrefused.symm.trans hinsert)).2.symm
  · obtain ⟨tier₁, hinsert₁, _⟩ := h.exists_insert hrefuses
    rw [hinsert₁] at hinsert
    cases hinsert

/-- A removal drops the key and answers whether it was held. -/
theorem Holds.exists_remove (h : tier.Holds held) (key : ByteArray) :
    ∃ tier', tier.remove key = (.ok (held key).isSome, tier') ∧ tier'.config = tier.config ∧
      tier'.Holds (Function.update held key none) := by
  obtain ⟨outcome, tier', hremove, hsetting, _, hrecords, houtcome⟩ :=
    Records.exists_remove h.describes key
  obtain ⟨rfl, _⟩ := houtcome.resolve_right fun hfails => h.not_blocked hfails.2
  exact ⟨tier', hremove, hsetting.config_eq, hsetting.directories_eq.trans h.directories, hrecords⟩

end Holds

/-! ## Steps -/

/-- An operation leads from a tier to another one and makes some changes. A lookup leaves the tier
as it is. -/
inductive Acts (tier : DiskTier) : List MapChange → DiskTier → Prop
  | inserted {tier' : DiskTier} {key value : ByteArray}
      (h : tier.insert key value = (.ok (), tier')) : Acts tier [.put key value] tier'
  | refused {tier' : DiskTier} {key value : ByteArray} {e : Error}
      (h : tier.insert key value = (.error e, tier')) : Acts tier [] tier'
  | removed {tier' : DiskTier} {key : ByteArray} {found : Bool}
      (h : tier.remove key = (.ok found, tier')) : Acts tier [.drop key] tier'
  | compacted {tier' : DiskTier} (h : tier.compact = (.ok (), tier')) : Acts tier [] tier'
  | reopened {tier' : DiskTier} {config : DiskConfig} (h : openLog config tier.dir = .ok tier') :
      Acts tier [] tier'

/-- The tiers that a sequence of operations leads to, with the changes made, the newest first. -/
inductive Steps (first : DiskTier) : List MapChange → DiskTier → Prop
  | start : Steps first [] first
  | step {changes new : List MapChange} {tier tier' : DiskTier} (steps : Steps first changes tier)
      (h : tier.Acts new tier') : Steps first (new ++ changes) tier'

/-- A tier answers every operation as a map does. A compaction succeeds, and so does an insertion
that no limit refuses. Opening the tier again brings back its index over its log. -/
structure ActsAs (tier : DiskTier) (held : ByteArray → Option ByteArray) : Prop where
  found : ∀ key, tier.find key = .ok (held key)
  removed : ∀ key, ∃ tier', tier.remove key = (.ok (held key).isSome, tier')
  compacted : ∃ tier', tier.compact = (.ok (), tier')
  refused : ∀ key value, tier.Refuses key value →
    ∃ size, tier.insert key value = (.error (.capacity size), tier)
  inserted : ∀ key value, ¬tier.Refuses key value →
    ∃ tier', tier.insert key value = (.ok (), tier')
  reopened : ∀ config, ∃ tier', openLog config tier.dir = .ok tier' ∧ tier'.config = config ∧
    tier'.index = tier.index ∧ tier'.dir.log = tier.dir.log

section Steps

variable {tier tier' first : DiskTier} {held : ByteArray → Option ByteArray}
  {changes new : List MapChange}

/-- A tier that holds a map acts as that map. -/
theorem Holds.actsAs (h : tier.Holds held) : tier.ActsAs held := by
  constructor
  · exact h.find_eq
  · intro key
    obtain ⟨tier', hremove, _⟩ := h.exists_remove key
    exact ⟨tier', hremove⟩
  · obtain ⟨tier', hcompact, _⟩ := h.exists_compact
    exact ⟨tier', hcompact⟩
  · exact fun key value => insert_eq_refused
  · intro key value haccepts
    obtain ⟨tier', hinsert, _⟩ := h.exists_insert haccepts
    exact ⟨tier', hinsert⟩
  · intro config
    obtain ⟨tier', hopen, hconfig, hindex, hlog, _⟩ := h.exists_reopen config
    exact ⟨tier', hopen, hconfig, hindex, hlog⟩

/-- An operation leaves the last values held. -/
theorem Holds.of_acts (h : tier.Holds (lastValue changes)) (hacts : tier.Acts new tier') :
    tier'.Holds (lastValue (new ++ changes)) := by
  cases hacts with
  | @inserted _ key value hinsert =>
    by_cases hrefuses : tier.Refuses key value
    · obtain ⟨size, hrefused⟩ := insert_eq_refused hrefuses
      rw [hrefused] at hinsert
      cases hinsert
    · obtain ⟨tier₁, hinsert₁, _, hholds⟩ := h.exists_insert hrefuses
      obtain rfl := (Prod.mk.inj (hinsert₁.symm.trans hinsert)).2
      rwa [List.singleton_append, lastValue_put]
  | refused hinsert =>
    obtain rfl := h.eq_of_refused hinsert
    exact h
  | @removed _ key found hremove =>
    obtain ⟨tier₁, hremove₁, _, hholds⟩ := h.exists_remove key
    obtain rfl := (Prod.mk.inj (hremove₁.symm.trans hremove)).2
    rwa [List.singleton_append, lastValue_drop]
  | compacted hcompact =>
    obtain ⟨tier₁, hcompact₁, _, hholds⟩ := h.exists_compact
    obtain rfl := (Prod.mk.inj (hcompact₁.symm.trans hcompact)).2
    exact hholds
  | @reopened _ config hopen =>
    obtain ⟨tier₁, hopen₁, _, _, _, hholds⟩ := h.exists_reopen config
    obtain rfl := Except.ok.inj (hopen₁.symm.trans hopen)
    exact hholds

/-- After any operations, a tier holds the last value of each key. -/
theorem Holds.of_steps (h : first.Holds (lastValue changes)) (steps : Steps first new tier) :
    tier.Holds (lastValue (new ++ changes)) := by
  induction steps with
  | start => exact h
  | step _ hacts ih =>
    rw [List.append_assoc]
    exact ih.of_acts hacts

end Steps

/-! ## Runs -/

/-- The tiers that a sequence of operations leads to from an empty directory, with the changes made
by the operations that succeeded. A lookup leaves the tier as it is. -/
inductive Run : List MapChange → DiskTier → Prop
  | opened {config : DiskConfig} {tier : DiskTier} (h : openLog config .empty = .ok tier) :
      Run [] tier
  | inserted {changes : List MapChange} {tier tier' : DiskTier} {key value : ByteArray}
      (run : Run changes tier) (h : tier.insert key value = (.ok (), tier')) :
      Run (.put key value :: changes) tier'
  | refused {changes : List MapChange} {tier tier' : DiskTier} {key value : ByteArray} {e : Error}
      (run : Run changes tier) (h : tier.insert key value = (.error e, tier')) :
      Run changes tier'
  | removed {changes : List MapChange} {tier tier' : DiskTier} {key : ByteArray} {found : Bool}
      (run : Run changes tier) (h : tier.remove key = (.ok found, tier')) :
      Run (.drop key :: changes) tier'
  | compacted {changes : List MapChange} {tier tier' : DiskTier}
      (run : Run changes tier) (h : tier.compact = (.ok (), tier')) : Run changes tier'
  | reopened {changes : List MapChange} {tier tier' : DiskTier} {config : DiskConfig}
      (run : Run changes tier) (h : openLog config tier.dir = .ok tier') : Run changes tier'

section Run

variable {changes : List MapChange} {tier : DiskTier}

/-- Whatever was done, the tier holds the last values. -/
theorem Run.holds (run : Run changes tier) : tier.Holds (lastValue changes) := by
  induction run with
  | @opened config tier h =>
    obtain ⟨tier', hopen, _, hholds⟩ := exists_openLog_empty config
    obtain rfl := Except.ok.inj (hopen.symm.trans h)
    exact hholds
  | inserted run h ih => exact ih.of_acts (.inserted h)
  | refused run h ih => exact ih.of_acts (.refused h)
  | removed run h ih => exact ih.of_acts (.removed h)
  | compacted run h ih => exact ih.of_acts (.compacted h)
  | reopened run h ih => exact ih.of_acts (.reopened h)

/-- The disk tier is a map across compactions and restarts. After any run a lookup answers the last
value of its key, a removal whether there is one, and a compaction succeeds; an insertion succeeds
unless a limit refuses it, and then it changes nothing. The index is what the log replays to, over
all its bytes, so that closing and opening again brings back the same index over the same log. -/
theorem Run.refines_map (run : Run changes tier) :
    (∀ key, tier.find key = .ok (lastValue changes key)) ∧
    (∀ key, ∃ tier', tier.remove key = (.ok (lastValue changes key).isSome, tier')) ∧
    (∃ tier', tier.compact = (.ok (), tier')) ∧
    (∀ key value, (tier.Refuses key value →
        ∃ size, tier.insert key value = (.error (.capacity size), tier)) ∧
      (¬tier.Refuses key value → ∃ tier', tier.insert key value = (.ok (), tier'))) ∧
    tier.index = LogIndex.replay tier.dir.log ∧ tier.fileBytes = tier.dir.log.size ∧
    ∀ config, ∃ tier', openLog config tier.dir = .ok tier' ∧ tier'.config = config ∧
      tier'.index = tier.index ∧ tier'.dir.log = tier.dir.log := by
  have hholds := run.holds
  have h := hholds.actsAs
  exact ⟨h.found, h.removed, h.compacted,
    fun key value => ⟨h.refused key value, h.inserted key value⟩,
    hholds.describes.replay_eq.symm, hholds.describes.whole, h.reopened⟩

/-- A value that was stored and compacted is found. -/
theorem Run.refines_map_of_compacted :
    ∃ tier, Run [.put ⟨#[1]⟩ ⟨#[2]⟩] tier ∧ tier.find ⟨#[1]⟩ = .ok (some ⟨#[2]⟩) := by
  obtain ⟨tier, hopen, hconfig, hholds⟩ := exists_openLog_empty {}
  have haccepts : ¬tier.Refuses ⟨#[1]⟩ ⟨#[2]⟩ := by
    rw [Refuses, hconfig, not_or, not_or]
    exact ⟨by decide, by decide, fun hbudget => absurd hbudget.1 (by decide)⟩
  obtain ⟨tier₁, hinsert, _, hholds₁⟩ := hholds.exists_insert haccepts
  obtain ⟨tier₂, hcompact, _⟩ := hholds₁.exists_compact
  have run : Run [.put ⟨#[1]⟩ ⟨#[2]⟩] tier₂ :=
    .compacted (.inserted (.opened hopen) hinsert) hcompact
  refine ⟨tier₂, run, (run.refines_map.1 _).trans ?_⟩
  rw [lastValue, if_pos rfl]

end Run

end DiskTier

end ElasticCache
