import ElasticCache.Proofs.Storage.GarbageBound

/-!
# Compactions that fail

A compaction writes the live records under another name and puts them in the place of the log at the
very end. When a directory stands there, or the log was cut behind the tier's back and ends before a
record, the log and the index stay as they are, and the next compaction writes over what this one
left. When nothing stands in the way, every record is copied byte for byte, whatever the log holds.
-/

namespace ElasticCache

namespace Directory

variable {dir : Directory} {content : ByteArray}

/-- A file that is erased has no content, and the others have theirs. -/
theorem content?_erase (name other : String) :
    (dir.erase name).content? other = if name = other then none else dir.content? other := by
  simp only [content?, erase, Std.TreeMap.getElem?_erase, Std.LawfulEqCmp.compare_eq_iff_eq]

/-- The draft is not the log. -/
theorem log_put_draft : (dir.put draftName content).log = dir.log := by
  rw [log, content?_put, if_neg (by decide), log]

end Directory

/-- A record that ends before a cut is still there after it. -/
theorem Record.At.extract {log : ByteArray} {offset cut : Nat} {record : Record}
    (h : Record.At log offset record) (hcut : offset + record.size ≤ cut) :
    Record.At (log.extract 0 cut) offset record := by
  obtain hall | hle := Nat.le_total log.size cut
  · rwa [extract_of_size_le hall]
  · have hjoin : log.extract 0 cut ++ log.extract cut log.size = log := by
      rw [← ByteArray.extract_eq_extract_append_extract cut (Nat.zero_le _) hle,
        ByteArray.extract_zero_size]
    have hsize : (log.extract 0 cut).size = cut := by
      rw [ByteArray.size_extract]
      omega
    rw [Record.At, ← hjoin, Bytes.slice?_append_left (by omega)] at h
    exact h

namespace DiskTier

/-- The tier with another directory in the place of its own. -/
def inside (tier : DiskTier) (dir : Directory) : DiskTier := { tier with dir }

/-- A tier is inside its own directory. -/
theorem inside_self (tier : DiskTier) : tier.inside tier.dir = tier := rfl

/-- Of two directories, the last one counts. -/
theorem inside_inside (tier : DiskTier) (dir dir' : Directory) :
    (tier.inside dir).inside dir' = tier.inside dir' := rfl

/-- The record of a key with its place lies inside the log. -/
def Readable (tier : DiskTier) (entry : ByteArray × Place) : Prop :=
  entry.2.offset + LogIndex.recordBytes entry ≤ tier.dir.log.size

instance (tier : DiskTier) (entry : ByteArray × Place) : Decidable (tier.Readable entry) :=
  inferInstanceAs (Decidable (_ ≤ _))

/-- The log ends before a record that the index has a place for. -/
def Short (tier : DiskTier) : Prop := ∃ entry ∈ tier.index.inOrder, ¬tier.Readable entry

instance (tier : DiskTier) : Decidable tier.Short := by
  unfold Short
  infer_instance

/-- An index of another log that has copies of records of a tier. -/
structure Copies (tier : DiskTier) (log : ByteArray) (index : LogIndex) : Prop where
  whole : index.length = log.size
  copied : ∀ key place', index.places[key]? = some place' → ∃ place record,
    tier.index.places[key]? = some place ∧ place'.valueLength = place.valueLength ∧
    Bytes.slice? tier.dir.log place.offset (LogIndex.recordBytes (key, place)) = some record ∧
    Bytes.slice? log place'.offset (LogIndex.recordBytes (key, place)) = some record

/-! ## Copying records -/

section Copying

variable {tier : DiskTier} {entry : ByteArray × Place} {records : List (ByteArray × Place)}
  {gathered log record : ByteArray} {index : LogIndex} {key : ByteArray} {place : Place}

/-- A record inside the log is a slice of it. -/
theorem Readable.exists_slice (h : tier.Readable entry) : ∃ record,
    Bytes.slice? tier.dir.log entry.2.offset (LogIndex.recordBytes entry) = some record :=
  ⟨_, if_pos h⟩

/-- Every record has a header, so none that reaches past the end of the log is read. -/
theorem readLog_eq_error (h : ¬tier.Readable entry) :
    tier.readLog entry.2.offset (LogIndex.recordBytes entry) = .error (.io .unexpectedEof) := by
  have hsome : ¬LogIndex.recordBytes entry = 0 := by
    rw [LogIndex.recordBytes, Record.sizeOf, Record.headerSize]
    omega
  have hnone : Bytes.slice? tier.dir.log entry.2.offset (LogIndex.recordBytes entry) = none :=
    if_neg h
  rw [readLog, if_neg hsome, hnone]

/-- An empty log has copies of no records. -/
theorem copies_empty (tier : DiskTier) : tier.Copies .empty .empty where
  whole := rfl
  copied key place' h := by
    rw [LogIndex.empty, Std.HashMap.getElem?_empty] at h
    cases h

/-- A record that is appended is one more copy. -/
theorem Copies.append (h : tier.Copies gathered index)
    (hplace : tier.index.places[key]? = some place)
    (hrecord : Bytes.slice? tier.dir.log place.offset (LogIndex.recordBytes (key, place)) =
      some record) :
    tier.Copies (gathered ++ record) (index.append (.stored key place.valueLength)) := by
  have hsize := Bytes.size_of_slice? hrecord
  constructor
  · rw [LogIndex.length_append, h.whole, ByteArray.size_append, hsize]
    rfl
  · intro other place' hother
    rw [LogIndex.places_append_stored] at hother
    split at hother
    next heq =>
      subst heq
      obtain rfl := Option.some.inj hother
      refine ⟨place, record, hplace, rfl, hrecord, ?_⟩
      rw [h.whole, Bytes.slice?_append_right (Nat.le_refl _), Nat.sub_self, ← hsize,
        Bytes.slice?_self]
    next =>
      obtain ⟨place₀, record₀, hplace₀, hlength, hslice, hcopy⟩ := h.copied other place' hother
      refine ⟨place₀, record₀, hplace₀, hlength, hslice, ?_⟩
      rw [Bytes.slice?_append_left (Bytes.slice?_eq_some_iff.1 hcopy).1, hcopy]

/-- Records that can all be read are gathered as copies. -/
theorem Copies.exists_gatherLive (h : tier.Copies gathered index)
    (hplaces : ∀ entry ∈ records, tier.index.places[entry.1]? = some entry.2)
    (hreadable : ∀ entry ∈ records, tier.Readable entry) :
    ∃ log, tier.gatherLive gathered records = .ok log ∧
      tier.Copies log (appendAll index records) := by
  induction records generalizing gathered index with
  | nil => exact ⟨gathered, rfl, h⟩
  | cons entry rest ih =>
    obtain ⟨record, hrecord⟩ := (hreadable entry List.mem_cons_self).exists_slice
    obtain ⟨log, hgather, hcopies⟩ := ih (h.append (hplaces entry List.mem_cons_self) hrecord)
      (fun other hother => hplaces other (List.mem_cons_of_mem _ hother))
      fun other hother => hreadable other (List.mem_cons_of_mem _ hother)
    refine ⟨log, ?_, hcopies⟩
    have hread : tier.readLog entry.2.offset (Record.sizeOf entry.1.size entry.2.valueLength) =
        .ok record := readLog_eq_ok hrecord
    rw [gatherLive, hread, ok_bind, hgather]

/-- Gathering stops at the first record that reaches past the end of the log, with those before it
in hand. -/
theorem exists_gatherLive_short (gathered : ByteArray)
    (hshort : ∃ entry ∈ records, ¬tier.Readable entry) :
    tier.gatherLive gathered records = .error (.io .unexpectedEof) ∧
      ∃ read entry rest, records = read ++ entry :: rest ∧ ¬tier.Readable entry ∧
        tier.gatherLive gathered read = .ok (tier.gatherReadable gathered records) := by
  induction records generalizing gathered with
  | nil =>
    obtain ⟨_, hmem, _⟩ := hshort
    cases hmem
  | cons entry rest ih =>
    by_cases hreadable : tier.Readable entry
    · obtain ⟨record, hrecord⟩ := hreadable.exists_slice
      have hread : tier.readLog entry.2.offset (Record.sizeOf entry.1.size entry.2.valueLength) =
          .ok record := readLog_eq_ok hrecord
      have hlater : ∃ entry ∈ rest, ¬tier.Readable entry := by
        obtain ⟨other, hmem, hother⟩ := hshort
        obtain rfl | hrest := List.mem_cons.1 hmem
        · exact absurd hreadable hother
        · exact ⟨other, hrest, hother⟩
      obtain ⟨hgather, read, first, behind, hrest, hfirst, hprefix⟩ :=
        ih (gathered ++ record) hlater
      refine ⟨?_, entry :: read, first, behind, ?_, hfirst, ?_⟩
      · rw [gatherLive, hread, ok_bind, hgather]
      · rw [hrest, List.cons_append]
      · rw [gatherLive, hread, ok_bind, hprefix, gatherReadable, hread]
    · have hread : tier.readLog entry.2.offset (Record.sizeOf entry.1.size entry.2.valueLength) =
          .error (.io .unexpectedEof) := readLog_eq_error hreadable
      refine ⟨?_, [], entry, rest, rfl, hreadable, ?_⟩
      · rw [gatherLive, hread]
        rfl
      · rw [gatherLive, gatherReadable, hread]

/-- An index with some more records has their keys besides its own. -/
theorem mem_places_appendAll_iff :
    key ∈ (appendAll index records).places ↔ key ∈ index.places ∨ key ∈ records.map (·.1) := by
  induction records generalizing index with
  | nil => simp [appendAll]
  | cons entry rest ih =>
    refine (@ih (index.append (.stored entry.1 entry.2.valueLength))).trans ?_
    simp only [LogIndex.append, Std.HashMap.mem_insert, beq_iff_eq, List.map_cons, List.mem_cons,
      eq_comm (a := entry.1), or_assoc, or_left_comm]

/-- The compacted index has the keys of the index. -/
theorem mem_places_compactedIndex_iff (key : ByteArray) :
    key ∈ (compactedIndex tier.index.inOrder).places ↔ key ∈ tier.index.places := by
  rw [compactedIndex_eq, mem_places_appendAll_iff, List.mem_map]
  constructor
  · rintro (hnone | ⟨entry, hentry, rfl⟩)
    · exact absurd hnone Std.HashMap.not_mem_empty
    · exact Std.HashMap.mem_iff_isSome_getElem?.2
        (Option.isSome_of_eq_some (mem_inOrder_iff.1 hentry))
  · intro hkey
    obtain ⟨place, hplace⟩ :=
      Option.isSome_iff_exists.1 (Std.HashMap.mem_iff_isSome_getElem?.1 hkey)
    exact .inr ⟨(key, place), mem_inOrder_iff.2 hplace, rfl⟩

/-- When the keys are the same, a key is in neither index, or its record in one log is a copy of
that in the other. -/
theorem Copies.getElem?_cases (h : tier.Copies log index)
    (hkey : key ∈ index.places ↔ key ∈ tier.index.places) :
    (index.places[key]? = none ∧ tier.index.places[key]? = none) ∨
      ∃ place' place record, index.places[key]? = some place' ∧
        tier.index.places[key]? = some place ∧ place'.valueLength = place.valueLength ∧
        Bytes.slice? tier.dir.log place.offset (LogIndex.recordBytes (key, place)) = some record ∧
        Bytes.slice? log place'.offset (LogIndex.recordBytes (key, place)) = some record := by
  cases hplace' : index.places[key]? with
  | none =>
    rw [Std.HashMap.mem_iff_isSome_getElem?, Std.HashMap.mem_iff_isSome_getElem?, hplace'] at hkey
    exact .inl ⟨rfl, Option.not_isSome_iff_eq_none.1 fun hsome =>
      Bool.false_ne_true (hkey.2 hsome)⟩
  | some place' =>
    obtain ⟨place, record, hcopied⟩ := h.copied key place' hplace'
    exact .inr ⟨place', place, record, rfl, hcopied⟩

/-- A copy has the length that its original has. -/
theorem Copies.map_valueLength_eq (h : tier.Copies log index)
    (hkey : key ∈ index.places ↔ key ∈ tier.index.places) :
    index.places[key]?.map (·.valueLength) = tier.index.places[key]?.map (·.valueLength) := by
  obtain ⟨hplace', hplace⟩ | ⟨_, _, _, hplace', hplace, hlength, _⟩ := h.getElem?_cases hkey
  · rw [hplace', hplace]
  · rw [hplace', hplace, Option.map_some, Option.map_some, hlength]

/-- A value is found where its record was copied to. -/
theorem Copies.find_eq (h : tier.Copies log index) (dir : Directory) {live : Nat}
    (hkey : key ∈ index.places ↔ key ∈ tier.index.places) :
    find ⟨tier.config, dir.putLog log, { index with liveBytes := live }⟩ key = tier.find key := by
  obtain ⟨hplace', hplace⟩ | ⟨place', place, record, hplace', hplace, hlength, hslice, hcopy⟩ :=
    h.getElem?_cases hkey
  · simp only [find, hplace', hplace]
  · have hwithin : Record.headerSize + key.size + place.valueLength ≤
        LogIndex.recordBytes (key, place) := Nat.le_refl _
    have hvalue := Bytes.slice?_of_slice? hslice hwithin
    have hvalue' := Bytes.slice?_of_slice? hcopy hwithin
    simp only [find, hplace', hplace, readLog, Directory.log_putLog, hlength, Nat.add_assoc, hvalue,
      hvalue']

end Copying

/-! ## How a compaction ends -/

/-- The length of the value that the index has for a key. -/
def lengthOf? (tier : DiskTier) (key : ByteArray) : Option Nat :=
  tier.index.places[key]?.map (·.valueLength)

/-- What a compaction leaves that fails: everything but the draft is as it was, and once nothing
stands in the way it does what it would have done before. -/
structure Spares (tier failed : DiskTier) : Prop where
  config_eq : failed.config = tier.config
  index_eq : failed.index = tier.index
  log_eq : failed.dir.log = tier.dir.log
  directories_eq : failed.dir.directories = tier.dir.directories
  content_eq : ∀ name, name ≠ Directory.draftName →
    failed.dir.content? name = tier.dir.content? name
  /-- The draft has the records in front of the first one that could not be read. -/
  drafted : tier.Blocked ∨ ∃ read entry rest draft,
    tier.index.inOrder = read ++ entry :: rest ∧ ¬tier.Readable entry ∧
    tier.gatherLive .empty read = .ok draft ∧
    failed.dir.content? Directory.draftName = some draft
  find_eq : ∀ key, failed.find key = tier.find key
  retry : ∀ dir, ¬(tier.inside dir).Blocked → ¬(tier.inside dir).Short →
    ∃ after, (tier.inside dir).compact = (.ok (), after) ∧
      (failed.inside dir).compact = (.ok (), after)

/-- What a compaction leaves that succeeds: the same values in a log without garbage, under the name
of the log alone. -/
structure Rewrites (tier after : DiskTier) : Prop where
  config_eq : after.config = tier.config
  liveBytes_eq : after.liveBytes = tier.liveBytes
  garbageBytes_eq : after.garbageBytes = 0
  fileBytes_eq : after.fileBytes = after.dir.log.size
  lengthOf?_eq : ∀ key, after.lengthOf? key = tier.lengthOf? key
  find_eq : ∀ key, after.find key = tier.find key
  directories_eq : after.dir.directories = tier.dir.directories
  draft_eq : after.dir.content? Directory.draftName = none
  content_eq : ∀ name, name ≠ Directory.logName → name ≠ Directory.draftName →
    after.dir.content? name = tier.dir.content? name

section Outcome

variable {tier failed after : DiskTier} {e : Error} {key : ByteArray}

/-- A compaction that is not blocked, of a log that is long enough, succeeds. -/
theorem exists_compact_rewrites (hfree : ¬tier.Blocked) (hlong : ¬tier.Short) :
    ∃ after, tier.compact = (.ok (), after) ∧ tier.Rewrites after := by
  have hreadable : ∀ entry ∈ tier.index.inOrder, tier.Readable entry :=
    fun entry hentry => Decidable.not_not.1 fun hnot => hlong ⟨entry, hentry, hnot⟩
  obtain ⟨log, hgather, hcopies⟩ := tier.copies_empty.exists_gatherLive
    (fun entry (hentry : entry ∈ tier.index.inOrder) => mem_inOrder_iff.1 hentry) hreadable
  refine ⟨_, compact_eq_ok hfree hgather, ?_⟩
  constructor
  · rfl
  · rfl
  · exact garbageBytes_appendAll (pairwise_inOrder _) fun _ _ => Std.HashMap.getElem?_empty
  · exact hcopies.whole.trans (congrArg ByteArray.size Directory.log_putLog.symm)
  · exact fun key => hcopies.map_valueLength_eq (mem_places_compactedIndex_iff key)
  · exact fun key => hcopies.find_eq _ (mem_places_compactedIndex_iff key)
  · rfl
  · rw [Directory.content?_putLog, if_neg (by decide), Directory.content?_erase, if_pos rfl]
  · intro name hlog hdraft
    rw [Directory.content?_putLog, if_neg hlog.symm, Directory.content?_erase, if_neg hdraft.symm]

/-- A failed compaction leaves the records in front of the first one that could not be read. -/
theorem exists_compact_spares (hfree : ¬tier.Blocked) (hshort : tier.Short) :
    ∃ failed, tier.compact = (.error (.io .unexpectedEof), failed) ∧ tier.Spares failed := by
  obtain ⟨hgather, read, entry, rest, horder, hentry, hread⟩ :=
    exists_gatherLive_short .empty hshort
  have hcompact : tier.compact = (.error (.io .unexpectedEof), tier.inside
      (tier.dir.put Directory.draftName (tier.gatherReadable .empty tier.index.inOrder))) := by
    have hfree : ¬tier.dir.isDirectory Directory.draftName = true := hfree
    rw [compact, if_neg hfree]
    simp only [hgather]
    rfl
  have hlog : (tier.dir.put Directory.draftName
      (tier.gatherReadable .empty tier.index.inOrder)).log = tier.dir.log := Directory.log_put_draft
  refine ⟨_, hcompact, ?_⟩
  constructor
  · rfl
  · rfl
  · exact hlog
  · rfl
  · intro name hname
    exact (Directory.content?_put _ _).trans (if_neg hname.symm)
  · exact .inr ⟨read, entry, rest, _, horder, hentry, hread,
      (Directory.content?_put _ _).trans (if_pos rfl)⟩
  · intro key
    simp only [find, readLog, inside, hlog]
  · intro dir hfree' hlong
    obtain ⟨after, hafter, _⟩ := exists_compact_rewrites hfree' hlong
    exact ⟨after, hafter, hafter⟩

/-- A compaction that is blocked changes nothing. -/
theorem spares_self (hblocked : tier.Blocked) : tier.Spares tier := by
  constructor
  · rfl
  · rfl
  · rfl
  · rfl
  · exact fun _ _ => rfl
  · exact .inl hblocked
  · exact fun _ => rfl
  · intro dir hfree hlong
    obtain ⟨after, hafter, _⟩ := exists_compact_rewrites hfree hlong
    exact ⟨after, hafter, hafter⟩

/-- A compaction fails when a directory stands in its way or the log is too short, and succeeds
otherwise. -/
theorem compact_cases (tier : DiskTier) :
    (tier.Blocked ∧ tier.compact = (.error (.io .isADirectory), tier)) ∨
      (¬tier.Blocked ∧ tier.Short ∧ ∃ failed,
        tier.compact = (.error (.io .unexpectedEof), failed) ∧ tier.Spares failed) ∨
      (¬tier.Blocked ∧ ¬tier.Short ∧ ∃ after,
        tier.compact = (.ok (), after) ∧ tier.Rewrites after) := by
  by_cases hblocked : tier.Blocked
  · exact .inl ⟨hblocked, if_pos hblocked⟩
  by_cases hshort : tier.Short
  · exact .inr (.inl ⟨hblocked, hshort, exists_compact_spares hblocked hshort⟩)
  · exact .inr (.inr ⟨hblocked, hshort, exists_compact_rewrites hblocked hshort⟩)

/-- A compaction fails exactly when it is blocked or the log is too short. -/
theorem compact_fst (tier : DiskTier) :
    tier.compact.1 = (if tier.Blocked then .error (.io .isADirectory)
      else if tier.Short then .error (.io .unexpectedEof) else .ok ()) := by
  obtain ⟨hblocked, hcompact⟩ | ⟨hfree, hshort, _, hcompact, _⟩ | ⟨hfree, hlong, _, hcompact, _⟩ :=
    tier.compact_cases
  · rw [hcompact, if_pos hblocked]
  · rw [hcompact, if_neg hfree, if_pos hshort]
  · rw [hcompact, if_neg hfree, if_neg hlong]

/-- A compaction that fails spares the tier. -/
theorem spares_of_compact (hfailed : tier.compact = (.error e, failed)) : tier.Spares failed := by
  obtain ⟨hblocked, hcompact⟩ | ⟨_, _, _, hcompact, hspares⟩ | ⟨_, _, _, hcompact, _⟩ :=
    tier.compact_cases
  · rw [← (Prod.mk.inj (hcompact.symm.trans hfailed)).2]
    exact spares_self hblocked
  · rwa [← (Prod.mk.inj (hcompact.symm.trans hfailed)).2]
  · cases hcompact.symm.trans hfailed

/-- A compaction that succeeds rewrites the log. -/
theorem rewrites_of_compact (hafter : tier.compact = (.ok (), after)) : tier.Rewrites after := by
  obtain ⟨_, hcompact⟩ | ⟨_, _, _, hcompact, _⟩ | ⟨_, _, _, hcompact, hrewrites⟩ :=
    tier.compact_cases
  · cases hcompact.symm.trans hafter
  · cases hcompact.symm.trans hafter
  · rwa [← (Prod.mk.inj (hcompact.symm.trans hafter)).2]

/-- However a compaction ends, every key is found as before. -/
theorem find_compact (tier : DiskTier) (key : ByteArray) :
    tier.compact.2.find key = tier.find key := by
  obtain ⟨_, hcompact⟩ | ⟨_, _, _, hcompact, hspares⟩ | ⟨_, _, _, hcompact, hrewrites⟩ :=
    tier.compact_cases
  · rw [hcompact]
  · rw [hcompact, hspares.find_eq]
  · rw [hcompact, hrewrites.find_eq]

/-- No compaction changes the length of a value, whether it succeeds or not. -/
theorem lengthOf?_compact (tier : DiskTier) : tier.compact.2.lengthOf? = tier.lengthOf? := by
  obtain ⟨_, hcompact⟩ | ⟨_, _, _, hcompact, hspares⟩ | ⟨_, _, _, hcompact, hrewrites⟩ :=
    tier.compact_cases
  · rw [hcompact]
  · funext key
    rw [hcompact, lengthOf?, hspares.index_eq, lengthOf?]
  · rw [hcompact]
    exact funext hrewrites.lengthOf?_eq

end Outcome

/-! ## Tiers in a directory that is changed from outside -/

/-- The tiers that a log leads to, in a directory that is changed from outside in some ways, with
the changes made to what they hold, the newest first. Operations may fail. -/
inductive ExposedRun (outside : Directory → Directory → Prop) : List MapChange → DiskTier → Prop
  | opened {config : DiskConfig} {dir : Directory} {changes : List MapChange} {tier : DiskTier}
      (hwhole : WholeRecords dir.log changes) (h : openLog config dir = .ok tier) :
      ExposedRun outside changes tier
  | performed {changes : List MapChange} {tier : DiskTier} (run : ExposedRun outside changes tier)
      (command : Command) :
      ExposedRun outside ((command.change? tier).toList ++ changes) (tier.perform command)
  | disturbed {changes : List MapChange} {tier : DiskTier} {dir : Directory}
      (run : ExposedRun outside changes tier) (h : outside tier.dir dir) :
      ExposedRun outside changes (tier.inside dir)

/-- What is changed from outside leaves the log as it is. -/
def LeavesLog (outside : Directory → Directory → Prop) : Prop :=
  ∀ dir dir', outside dir dir' → dir'.log = dir.log

/-- The index has the keys that some changes leave, with the lengths of their values. -/
def Indexes (tier : DiskTier) (changes : List MapChange) : Prop :=
  ∀ key, tier.lengthOf? key = (lastValue changes key).map ByteArray.size

section Exposed

variable {outside : Directory → Directory → Prop} {changes : List MapChange} {tier : DiskTier}
  {config : DiskConfig} {dir : Directory} {change : MapChange}

/-- Settling changes the length of no value. -/
theorem lengthOf?_settle (tier : DiskTier) : tier.settle.2.lengthOf? = tier.lengthOf? := by
  by_cases hdue : tier.Due
  · rw [settle_eq_compact hdue, lengthOf?_compact]
  · rw [settle_eq_self hdue]

/-- A command changes the lengths that it writes, whatever becomes of its compaction. -/
theorem lengthOf?_perform (tier : DiskTier) (command : Command) :
    (tier.perform command).lengthOf? = (command.written tier).lengthOf? := by
  cases command with
  | insert key value =>
    by_cases hrefuses : tier.Refuses key value
    · obtain ⟨size, hrefused⟩ := insert_eq_refused hrefuses
      rw [perform, hrefused, Command.written, Command.change?, if_pos hrefuses]
    · rw [perform, insert_eq_settle hrefuses, lengthOf?_settle, Command.written, Command.change?,
        if_neg hrefuses]
      rfl
  | remove key =>
    by_cases hcontains : tier.contains key = true
    · rw [perform, remove_eq_settle hcontains, lengthOf?_settle, Command.written, Command.change?,
        if_pos hcontains]
      rfl
    · rw [perform, remove_eq_missed hcontains, Command.written, Command.change?,
        if_neg hcontains]
  | compact => exact lengthOf?_compact tier

/-- A change that is written is in the index. -/
theorem Indexes.write (h : tier.Indexes changes) (change : MapChange) :
    (tier.write change).Indexes (change :: changes) := by
  intro other
  have hother := h other
  cases change with
  | put key value =>
    show (tier.index.append (.stored key value.size)).places[other]?.map _ = _
    rw [LogIndex.places_append_stored, lastValue]
    by_cases heq : other = key
    · rw [if_pos heq, if_pos heq.symm, Option.map_some, Option.map_some]
    · rw [if_neg heq, if_neg (Ne.symm heq), ← hother, lengthOf?]
  | drop key =>
    show (tier.index.append (.removed key)).places[other]?.map _ = _
    rw [LogIndex.places_append_removed, lastValue]
    by_cases heq : other = key
    · rw [if_pos heq, if_pos heq.symm, Option.map_none, Option.map_none]
    · rw [if_neg heq, if_neg (Ne.symm heq), ← hother, lengthOf?]

/-- A command enters its change in the index, whether it fails or not. -/
theorem Indexes.perform (h : tier.Indexes changes) (command : Command) :
    (tier.perform command).Indexes ((command.change? tier).toList ++ changes) := by
  have hwritten : (command.written tier).Indexes ((command.change? tier).toList ++ changes) := by
    rw [Command.written]
    cases command.change? tier with
    | none => exact h
    | some change => exact h.write change
  intro key
  rw [lengthOf?_perform]
  exact hwritten key

/-- A log that holds the last values has them in its index. -/
theorem Records.indexes (h : tier.Records (lastValue changes)) : tier.Indexes changes := by
  intro key
  rw [lengthOf?]
  cases hplace : tier.index.places[key]? with
  | none =>
    rw [h.absent key hplace]
    rfl
  | some place =>
    obtain ⟨value, hheld, hlength, _⟩ := h.present key place hplace
    rw [hheld, Option.map_some, Option.map_some, hlength]

/-- An operation that cannot compact the log changes what is held all the same. -/
theorem Records.perform (h : tier.Records (lastValue changes)) (command : Command) :
    (tier.perform command).Records (lastValue ((command.change? tier).toList ++ changes)) := by
  cases command with
  | insert key value =>
    by_cases hrefuses : tier.Refuses key value
    · obtain ⟨size, hrefused⟩ := insert_eq_refused hrefuses
      rw [DiskTier.perform, hrefused, Command.change?, if_pos hrefuses]
      exact h
    · obtain ⟨tier', hinsert, _, _, hrecords, _⟩ := h.exists_insert hrefuses
      rw [DiskTier.perform, hinsert, Command.change?, if_neg hrefuses]
      rw [← lastValue_put] at hrecords
      exact hrecords
  | remove key =>
    obtain ⟨outcome, tier', hremove, _, _, hrecords, _⟩ := h.exists_remove key
    by_cases hcontains : tier.contains key = true
    · rw [DiskTier.perform, hremove, Command.change?, if_pos hcontains]
      rw [← lastValue_drop] at hrecords
      exact hrecords
    · rw [DiskTier.perform, remove_eq_missed hcontains, Command.change?, if_neg hcontains]
      exact h
  | compact =>
    by_cases hblocked : tier.Blocked
    · rw [DiskTier.perform, show tier.compact = _ from if_pos hblocked]
      exact h
    · obtain ⟨tier', hcompact, _, _, hrecords⟩ := h.exists_compact hblocked
      rw [DiskTier.perform, hcompact]
      exact hrecords

/-- What is opened holds what the whole records of the log say. -/
theorem records_of_wholeRecords (hwhole : WholeRecords dir.log changes)
    (hopen : openLog config dir = .ok tier) : tier.Records (lastValue changes) := by
  have hfile : dir.isDirectory Directory.logName = false := by
    rw [openLog] at hopen
    split at hopen
    next => cases hopen
    next hfree => exact Bool.not_eq_true _ ▸ hfree
  obtain ⟨changes', torn, hfits, hlog, htorn⟩ := exists_logOf_append_torn dir.log
  obtain rfl := hwhole.unique (hlog ▸ wholeRecords_of_torn hfits htorn)
  obtain rfl := Except.ok.inj ((openLog_eq_of_torn config hfile hfits hlog htorn).symm.trans hopen)
  rw [Records, Directory.log_putLog]
  exact describes_logOf hfits

/-- The index keeps up with the changes whatever is done to the directory. -/
theorem ExposedRun.indexes (run : ExposedRun outside changes tier) : tier.Indexes changes := by
  induction run with
  | opened hwhole h => exact (records_of_wholeRecords hwhole h).indexes
  | performed run command ih => exact ih.perform command
  | disturbed run h ih => exact ih

/-- As long as the log is left alone, it holds what the changes leave. -/
theorem ExposedRun.records (run : ExposedRun outside changes tier) (hleaves : LeavesLog outside) :
    tier.Records (lastValue changes) := by
  induction run with
  | opened hwhole h => exact records_of_wholeRecords hwhole h
  | performed run command ih => exact ih.perform command
  | disturbed run h ih =>
    rw [Records, inside, hleaves _ _ h]
    exact ih

/-! ## All or nothing -/

/-- A last value has a place of its length. -/
theorem Indexes.exists_place (h : tier.Indexes changes) {key value : ByteArray}
    (hvalue : lastValue changes key = some value) :
    ∃ place, tier.index.places[key]? = some place ∧ place.valueLength = value.size := by
  have hlength := h key
  rwa [hvalue, Option.map_some, lengthOf?, Option.map_eq_some_iff] at hlength

/-- A key is found with the value of the record that stands at its place. -/
theorem find_eq_of_at {key value : ByteArray} {place : Place}
    (hplace : tier.index.places[key]? = some place) (hlength : place.valueLength = value.size)
    (hat : Record.At tier.dir.log place.offset ⟨key, value⟩) :
    tier.find key = .ok (some value) := by
  have hread : tier.readLog (place.offset + Record.headerSize + key.size) place.valueLength =
      .ok value := by
    rw [hlength]
    exact readLog_eq_ok hat.slice?_value
  simp only [find, hplace, hread, Except.map]

/-- Every record of a log that holds a map lies inside it. -/
theorem Records.not_short {held : ByteArray → Option ByteArray} (h : tier.Records held) :
    ¬tier.Short := by
  rintro ⟨⟨key, place⟩, hentry, hnot⟩
  obtain ⟨value, _, hlength, _, _, hat⟩ := h.present key place (mem_inOrder_iff.1 hentry)
  refine hnot ?_
  rw [Readable, LogIndex.recordBytes, ← hlength]
  exact (Bytes.slice?_eq_some_iff.1 hat).1

/-- A compaction is done as a whole or not at all, whatever was done to the tier and whatever
directory it finds itself in. It fails when a directory stands in the way of the draft or the log
ends before a record, and leaves everything but the draft as it was then; it succeeds otherwise and
keeps every value and the live bytes. Either way a key whose record stands is found with the last
value that it was given. A log that nobody else wrote to is never too short, any cut of it keeps the
records that end before the cut, and what replaces it is its live records. -/
theorem ExposedRun.compact_all_or_nothing (run : ExposedRun outside changes tier)
    (dir : Directory) :
    (tier.inside dir).compact.1 =
        (if (tier.inside dir).Blocked then .error (.io .isADirectory)
          else if (tier.inside dir).Short then .error (.io .unexpectedEof) else .ok ()) ∧
      (∀ e failed, (tier.inside dir).compact = (.error e, failed) →
        (tier.inside dir).Spares failed) ∧
      (∀ after, (tier.inside dir).compact = (.ok (), after) → (tier.inside dir).Rewrites after) ∧
      (∀ key value, lastValue changes key = some value → ∃ place,
        tier.index.places[key]? = some place ∧ place.valueLength = value.size ∧
          (Record.At dir.log place.offset ⟨key, value⟩ →
            (tier.inside dir).compact.2.find key = .ok (some value)) ∧
          ∀ cut, LeavesLog outside → dir.log = tier.dir.log.extract 0 cut →
            place.offset + Record.sizeOf key.size value.size ≤ cut →
              Record.At dir.log place.offset ⟨key, value⟩) ∧
      (LeavesLog outside → dir.log = tier.dir.log → ¬(tier.inside dir).Short ∧
        ∃ records, (∀ change ∈ records, change.Fits) ∧ dir.log = logOf records ∧
          lastValue records = lastValue changes ∧
          ∀ after, (tier.inside dir).compact = (.ok (), after) →
            after.dir.log = logOf (liveRecords records) ∧ after.Records (lastValue changes)) := by
  refine ⟨compact_fst _, fun _ _ => spares_of_compact, fun _ => rewrites_of_compact,
    fun key value hvalue => ?_, fun hleaves hlog => ?_⟩
  · obtain ⟨place, hplace, hlength⟩ := run.indexes.exists_place hvalue
    refine ⟨place, hplace, hlength, fun hat => ?_, fun cut hleaves hcut hends => ?_⟩
    · exact (find_compact _ key).trans (find_eq_of_at hplace hlength hat)
    · obtain ⟨value', hheld, _, _, _, hat⟩ := (run.records hleaves).present key place hplace
      obtain rfl := Option.some.inj (hheld.symm.trans hvalue)
      rw [hcut]
      exact hat.extract hends
  · have hrecords : (tier.inside dir).Records (lastValue changes) := by
      rw [Records, inside, hlog]
      exact run.records hleaves
    obtain ⟨records, hfits, hsame, hheld⟩ := hrecords.exists_logOf
    refine ⟨hrecords.not_short, records, hfits, hsame, hheld, fun after hafter => ?_⟩
    have hfree : ¬(tier.inside dir).Blocked := by
      intro hblocked
      have hcompact : (tier.inside dir).compact = _ := if_pos hblocked
      cases hcompact.symm.trans hafter
    obtain ⟨after', hcompact, _, _, hrecords', hlog', _⟩ :=
      hrecords.exists_compact_logOf hfree hfits hsame
    obtain rfl := (Prod.mk.inj (hcompact.symm.trans hafter)).2
    exact ⟨hlog', hrecords'⟩

/-- A log of two records that is cut inside the second one: a compaction fails, the first key is
found, and with the whole log back both are there and a compaction succeeds. The second record
starts at ten and is eleven bytes long. -/
theorem ExposedRun.compact_all_or_nothing_of_cut :
    ∃ (tier : DiskTier) (dir : Directory),
      ExposedRun (fun dir dir' => dir'.log = dir.log)
        [.put ⟨#[2]⟩ ⟨#[8, 9]⟩, .put ⟨#[1]⟩ ⟨#[7]⟩] tier ∧
      dir.log = tier.dir.log.extract 0 12 ∧
      ∃ failed, (tier.inside dir).compact = (.error (.io .unexpectedEof), failed) ∧
        failed.find ⟨#[1]⟩ = .ok (some ⟨#[7]⟩) ∧
        ∃ after, (failed.inside tier.dir).compact = (.ok (), after) ∧
          after.find ⟨#[2]⟩ = .ok (some ⟨#[8, 9]⟩) := by
  let changes : List MapChange := [.put ⟨#[2]⟩ ⟨#[8, 9]⟩, .put ⟨#[1]⟩ ⟨#[7]⟩]
  have hfits : ∀ change ∈ changes, change.Fits := by
    simp only [changes, List.forall_mem_cons, MapChange.Fits]
    exact ⟨⟨by decide, by decide⟩, ⟨by decide, by decide⟩, List.forall_mem_nil _⟩
  have hlog : (Directory.empty.putLog (logOf changes)).log = logOf changes ++ .empty :=
    Directory.log_putLog.trans ByteArray.append_empty.symm
  have hopen := openLog_eq_of_torn {} (by decide) hfits hlog LogEntry.at?_size
  generalize htier : DiskTier.mk _ _ _ = tier at hopen
  have hindex : tier.index = LogIndex.replay (logOf changes) := by rw [← htier]
  have hsame : tier.dir.log = logOf changes := by rw [← htier, Directory.log_putLog]
  have hfree : ¬tier.Blocked := by
    rw [← htier]
    decide
  have run : ExposedRun (fun dir dir' => dir'.log = dir.log) changes tier :=
    .opened (hlog ▸ wholeRecords_of_torn hfits LogEntry.at?_size) hopen
  have hleaves : LeavesLog fun dir dir' => dir'.log = dir.log := fun _ _ h => h
  let dir := tier.dir.putLog (tier.dir.log.extract 0 12)
  have hcut : dir.log = tier.dir.log.extract 0 12 := Directory.log_putLog
  have hshort : (tier.inside dir).Short := by
    refine ⟨(⟨#[2]⟩, ⟨10, 2⟩), mem_inOrder_iff.2 ?_, ?_⟩
    · rw [inside, hindex, places_replay_logOf hfits]
      decide
    · rw [Readable, inside, hcut, hsame]
      decide
  obtain ⟨houtcome, hspares, _, hfound, _⟩ := run.compact_all_or_nothing dir
  obtain ⟨_, _, _, _, hwhole⟩ := run.compact_all_or_nothing tier.dir
  rw [inside_self] at hwhole
  obtain ⟨hlong, _, _, _, _, hafter⟩ := hwhole hleaves rfl
  have hfree' : ¬(tier.inside dir).Blocked := by
    rw [Blocked, inside, Directory.isDirectory_putLog]
    exact hfree
  rw [if_neg hfree', if_pos hshort] at houtcome
  have hcompact : (tier.inside dir).compact = (_, (tier.inside dir).compact.2) :=
    Prod.ext houtcome rfl
  obtain ⟨place, hplace, _, hread, hstands⟩ := hfound ⟨#[1]⟩ ⟨#[7]⟩ rfl
  have hfirst : place = ⟨0, 1⟩ := by
    rw [hindex, places_replay_logOf hfits] at hplace
    exact Option.some.inj (hplace.symm.trans (by decide))
  have hends : place.offset + Record.sizeOf 1 1 ≤ 12 := by
    rw [hfirst]
    decide
  have hretry := (hspares _ _ hcompact).retry tier.dir
  rw [inside_inside, inside_self] at hretry
  obtain ⟨after, hdone, hretried⟩ := hretry hfree hlong
  exact ⟨tier, dir, run, hcut, _, hcompact, hread (hstands 12 hleaves hcut hends), after, hretried,
    (hafter after hdone).2.find_eq _⟩

end Exposed

end DiskTier

end ElasticCache
