import ElasticCache.Proofs.Storage.DiskMap

/-!
# Logs that are cut short

A log written by changes to a map is their records one after the other. Cut anywhere, it is the
records that end before the cut and a torn one, of which nothing is read. Opening such a log drops
the torn record from the file and holds what the whole records say.
-/

namespace ElasticCache

namespace MapChange

/-- The lengths of a change fit the words of its record. -/
def Fits : MapChange → Prop
  | .put key value => key.size < wordLimit ∧ value.size < tombstoneMark
  | .drop key => key.size < wordLimit

/-- What a change adds to the meaning of a log. -/
def entry : MapChange → LogEntry
  | .put key value => .stored key value.size
  | .drop key => .removed key

/-- The record of a change. -/
def encode : MapChange → ByteArray
  | .put key value => Record.encode ⟨key, value⟩
  | .drop key => LogEntry.encodeRemoved key

/-- The record of a change that fits reads as its entry. -/
theorem encodes_of_fits {change : MapChange} (h : change.Fits) :
    LogEntry.Encodes change.encode change.entry := by
  cases change with
  | put key value => exact LogEntry.encodes_record h.1 h.2
  | drop key => exact LogEntry.encodes_removed h

end MapChange

/-- The log that changes write, given with the newest first. -/
def logOf : List MapChange → ByteArray
  | [] => .empty
  | change :: older => logOf older ++ change.encode

/-- The changes whose records end before a cut, when the records of all start at an offset. -/
def wholeWithin (start cut : Nat) : List MapChange → List MapChange
  | [] => []
  | change :: older =>
    if start + (logOf (change :: older)).size ≤ cut then change :: older
    else wholeWithin start cut older

section Cut

variable {start cut : Nat} {change : MapChange} {changes older : List MapChange}

/-- Newer changes stand behind the older ones. -/
theorem logOf_append (newer older : List MapChange) :
    logOf (newer ++ older) = logOf older ++ logOf newer := by
  induction newer with
  | nil => rw [List.nil_append, logOf, ByteArray.append_empty]
  | cons change newer ih => rw [List.cons_append, logOf, logOf, ih, ByteArray.append_assoc]

/-- A further change makes the log longer by its record. -/
theorem size_logOf_cons (change : MapChange) (older : List MapChange) :
    (logOf (change :: older)).size = (logOf older).size + change.encode.size := by
  rw [logOf, ByteArray.size_append]

/-- A cut behind all records leaves them whole. -/
theorem wholeWithin_of_le (h : start + (logOf changes).size ≤ cut) :
    wholeWithin start cut changes = changes := by
  cases changes with
  | nil => rfl
  | cons change older => exact if_pos h

/-- A cut inside the last record loses the last change and no other. -/
theorem wholeWithin_of_torn (hstart : start + (logOf older).size ≤ cut)
    (hcut : cut < start + (logOf (change :: older)).size) :
    wholeWithin start cut (change :: older) = older := by
  rw [wholeWithin, if_neg (Nat.not_le.2 hcut), wholeWithin_of_le hstart]

/-- A cut behind the older records leaves them all. -/
theorem wholeWithin_append (newer : List MapChange) (h : (logOf older).size ≤ cut) :
    wholeWithin 0 cut (newer ++ older) = wholeWithin (logOf older).size cut newer ++ older := by
  induction newer with
  | nil => exact wholeWithin_of_le (by rwa [Nat.zero_add])
  | cons change newer ih =>
    have hsize : 0 + (logOf (change :: (newer ++ older))).size =
        (logOf older).size + (logOf (change :: newer)).size := by
      rw [Nat.zero_add, ← List.cons_append, logOf_append, ByteArray.size_append]
    rw [List.cons_append, wholeWithin, wholeWithin, hsize, ih]
    split <;> rfl

/-- A record that is whole before a cut is one of the log. -/
theorem mem_of_mem_wholeWithin (h : change ∈ wholeWithin start cut changes) :
    change ∈ changes := by
  induction changes with
  | nil => exact h
  | cons newest older ih =>
    rw [wholeWithin] at h
    split at h
    next => exact h
    next => exact List.mem_cons_of_mem _ (ih h)

/-- Nothing is read from a part of the stored form of an entry. -/
theorem LogEntry.Encodes.at?_extract {bytes : ByteArray} {entry : LogEntry}
    (h : LogEntry.Encodes bytes entry) (hcut : cut < bytes.size) :
    LogEntry.at? (bytes.extract 0 cut) 0 = none := by
  cases hpart : LogEntry.at? (bytes.extract 0 cut) 0 with
  | none => rfl
  | some entry' =>
    have hjoin : bytes.extract 0 cut ++ bytes.extract cut bytes.size = bytes := by
      rw [← ByteArray.extract_eq_extract_append_extract cut (Nat.zero_le _) (Nat.le_of_lt hcut),
        ByteArray.extract_zero_size]
    have hwhole : LogEntry.at? (bytes.extract 0 cut ++ bytes.extract cut bytes.size) 0 =
        some entry' := LogEntry.at?_append_left hpart
    rw [hjoin, h.at_zero] at hwhole
    obtain rfl := Option.some.inj hwhole
    have hsize := LogEntry.size_le_of_at? hpart
    rw [ByteArray.size_extract, ← h.size_eq] at hsize
    omega

/-- A cut behind the end leaves the bytes as they are. -/
theorem extract_of_size_le {bytes : ByteArray} (h : bytes.size ≤ cut) :
    bytes.extract 0 cut = bytes := by
  refine ByteArray.ext ?_
  rw [ByteArray.data_extract, Array.extract_eq_self_of_le h]

/-- What is left of a log after a cut: the records that end before it, and a part of the next one
that reads as nothing. -/
theorem exists_torn (hfits : ∀ change ∈ changes, change.Fits) (cut : Nat) :
    ∃ torn, (logOf changes).extract 0 cut = logOf (wholeWithin 0 cut changes) ++ torn ∧
      LogEntry.at? torn 0 = none := by
  induction changes with
  | nil =>
    refine ⟨.empty, ?_, LogEntry.at?_size⟩
    rw [wholeWithin, logOf, ByteArray.append_empty, extract_of_size_le (Nat.zero_le cut)]
  | cons change older ih =>
    have hextract : (logOf (change :: older)).extract 0 cut = (logOf older).extract 0 cut ++
        change.encode.extract 0 (cut - (logOf older).size) := by
      rw [logOf, ByteArray.extract_append, Nat.zero_sub]
    have hsize := size_logOf_cons change older
    obtain hbefore | hcut : cut < (logOf older).size ∨ (logOf older).size ≤ cut :=
      Nat.lt_or_ge ..
    · obtain ⟨torn, htorn, hnone⟩ := ih fun c hc => hfits c (List.mem_cons_of_mem _ hc)
      refine ⟨torn, ?_, hnone⟩
      rw [hextract, Nat.sub_eq_zero_of_le (Nat.le_of_lt hbefore), wholeWithin,
        if_neg (by omega), htorn, ByteArray.extract_same, ByteArray.append_empty]
    have hold : (logOf older).extract 0 cut = logOf older := extract_of_size_le hcut
    obtain hinside | hbehind := Nat.lt_or_ge cut (logOf (change :: older)).size
    · have hentry := MapChange.encodes_of_fits (hfits change List.mem_cons_self)
      have hpart : cut - (logOf older).size < change.encode.size := by omega
      refine ⟨_, ?_, hentry.at?_extract hpart⟩
      rw [hextract, hold, wholeWithin_of_torn (by omega) (by omega)]
    · refine ⟨.empty, ?_, LogEntry.at?_size⟩
      rw [extract_of_size_le hbehind, wholeWithin_of_le (by omega), ByteArray.append_empty]

/-! ## Opening a cut log -/

/-- The record of a change, appended to a log, changes what the log holds. -/
theorem LogIndex.Describes.append_change {index : LogIndex} {log : ByteArray}
    (h : index.Describes log (lastValue older)) (hfits : change.Fits) :
    (index.append change.entry).Describes (log ++ change.encode) (lastValue (change :: older)) := by
  cases change with
  | put key value =>
    rw [lastValue_put]
    exact h.append_stored hfits.1 hfits.2
  | drop key =>
    rw [lastValue_drop]
    exact h.append_removed hfits

/-- The log of some changes holds the last value of every key. -/
theorem describes_logOf (hfits : ∀ change ∈ changes, change.Fits) :
    (LogIndex.replay (logOf changes)).Describes (logOf changes) (lastValue changes) := by
  induction changes with
  | nil =>
    have hempty := LogIndex.describes_empty
    rwa [← hempty.replay_eq] at hempty
  | cons change older ih =>
    have hfit := hfits change List.mem_cons_self
    have hold := ih fun c hc => hfits c (List.mem_cons_of_mem _ hc)
    rw [logOf, hold.replay_append (MapChange.encodes_of_fits hfit)]
    exact hold.append_change hfit

/-- Bytes that read as nothing mean nothing at the end of a whole log. -/
theorem LogIndex.replay_append_torn {log torn : ByteArray}
    (hwhole : (LogIndex.replay log).length = log.size) (htorn : LogEntry.at? torn 0 = none) :
    LogIndex.replay (log ++ torn) = LogIndex.replay log := by
  have hend : LogEntry.at? (log ++ torn) log.size = none := by
    rw [← Nat.add_zero log.size, LogEntry.at?_append_right, htorn]
  rw [LogIndex.replay, LogIndex.replayFrom_append .empty 0 rfl hwhole,
    LogIndex.replayFrom_of_none hend]
  rfl

namespace DiskTier

/-- A log of some records, with bytes behind them that read as nothing, is opened as these records
alone. -/
theorem openLog_eq_of_torn (config : DiskConfig) {dir : Directory} {torn : ByteArray}
    (hfile : dir.isDirectory Directory.logName = false) (hfits : ∀ change ∈ changes, change.Fits)
    (hlog : dir.log = logOf changes ++ torn) (htorn : LogEntry.at? torn 0 = none) :
    openLog config dir = .ok ⟨config, dir.ensure.putLog (logOf changes),
      LogIndex.replay (logOf changes)⟩ := by
  have hwhole := (describes_logOf hfits).whole
  have hcut : dir.log.extract 0 (LogIndex.replay (logOf changes)).length = logOf changes := by
    rw [hwhole, hlog, ByteArray.extract_append_eq_left rfl]
  have hreplay : LogIndex.replay dir.log = LogIndex.replay (logOf changes) := by
    rw [hlog, LogIndex.replay_append_torn hwhole htorn]
  rw [openLog, hfile, if_neg Bool.false_ne_true, hreplay]
  dsimp only
  rw [hcut]

/-- Opening a log that was cut short cuts it back to its whole records and holds what they say,
whatever other files stand beside it. -/
theorem exists_openLog_cut (config : DiskConfig) {dir : Directory}
    (hfits : ∀ change ∈ changes, change.Fits) (hdirectories : dir.directories = [[]])
    (hlog : dir.log = (logOf changes).extract 0 cut) :
    ∃ tier, openLog config dir = .ok tier ∧ tier.config = config ∧
      tier.dir.log = logOf (wholeWithin 0 cut changes) ∧
      tier.Holds (lastValue (wholeWithin 0 cut changes)) := by
  obtain ⟨torn, htorn, hnone⟩ := exists_torn hfits cut
  have hwhole : ∀ change ∈ wholeWithin 0 cut changes, change.Fits :=
    fun change hchange => hfits change (mem_of_mem_wholeWithin hchange)
  have hfile : dir.isDirectory Directory.logName = false := by
    rw [Directory.isDirectory, hdirectories]
    decide
  have hensure := (openLog_eq_ok config hdirectories).2
  have hopen := openLog_eq_of_torn config hfile hwhole (hlog.trans htorn) hnone
  refine ⟨_, hopen, rfl, Directory.log_putLog, hensure, ?_⟩
  rw [Directory.log_putLog]
  exact describes_logOf hwhole

end DiskTier

end Cut

end ElasticCache
