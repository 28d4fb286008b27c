import ElasticCache.Proofs.Storage.LogCut
import Mathlib.Data.List.Infix

/-!
# Opening whatever is found

Any bytes start with the records of some changes, one after the other, and read as nothing behind
them. These changes are the only ones that can be read from the start on, so whatever a log file
holds, opening it cuts it back to their records, holds what they say, and finds nothing more to do
when it is done again.
-/

namespace ElasticCache

/-! ## The records that bytes start with -/

/-- The records of some changes stand one after the other at the start of some bytes, and no others
do. -/
structure WholeRecords (bytes : ByteArray) (changes : List MapChange) : Prop where
  fits : ∀ change ∈ changes, change.Fits
  starts : ∃ torn, bytes = logOf changes ++ torn
  /-- Records that stand there are the first of these. -/
  longest : ∀ changes' torn, (∀ change ∈ changes', change.Fits) → bytes = logOf changes' ++ torn →
    changes' <:+ changes

/-- Where the last value of a key stands in the log of some changes, given with the newest first. -/
def lastPlace : List MapChange → ByteArray → Option Place
  | [], _ => none
  | .put key value :: older, k =>
    if k = key then some ⟨(logOf older).size, value.size⟩ else lastPlace older k
  | .drop key :: older, k => if k = key then none else lastPlace older k

section Reading

variable {log rest rest' torn : ByteArray} {entry : LogEntry} {change change' : MapChange}
  {changes changes' : List MapChange} {key : ByteArray}

/-- The oldest change stands first in the log. -/
theorem logOf_concat (newer : List MapChange) (first : MapChange) :
    logOf (newer ++ [first]) = first.encode ++ logOf newer := by
  rw [logOf_append, logOf, logOf, ByteArray.empty_append]

/-- An entry that is read is that of a change whose record stands there. Its bytes stand in front of
the others. -/
theorem exists_change_of_at? (h : LogEntry.at? log 0 = some entry) :
    ∃ change : MapChange, change.Fits ∧ ∃ rest, log = change.encode ++ rest := by
  simp only [LogEntry.at?, Nat.zero_add, Option.bind_eq_bind, Option.bind_eq_some_iff,
    Option.ite_none_right_eq_some] at h
  obtain ⟨keyLength, hkeyLength, valueLength, hvalueLength, key, hkey, hle, _⟩ := h
  obtain rfl := Bytes.size_of_slice? hkey
  have hkeySmall := Bytes.lt_of_word?_eq_some hkeyLength
  have hvalueSmall := Bytes.lt_of_word?_eq_some hvalueLength
  have hlengths := Bytes.slice?_add (Bytes.slice?_of_word? hkeyLength)
    (Bytes.slice?_of_word? hvalueLength)
  have hfront := Bytes.slice?_add hlengths hkey
  have hrest {part : ByteArray} {n : Nat} (hpart : Bytes.slice? log 0 n = some part) :
      ∃ rest, log = part ++ rest := by
    obtain ⟨hle, rfl⟩ := Bytes.slice?_eq_some_iff.1 hpart
    refine ⟨log.extract (0 + n) log.size, ?_⟩
    rw [← ByteArray.extract_eq_extract_append_extract (0 + n) (Nat.zero_le _) hle,
      ByteArray.extract_zero_size]
  by_cases hmark : valueLength = tombstoneMark
  · subst hmark
    exact ⟨.drop key, hkeySmall, hrest hfront⟩
  · rw [LogEntry.ofHeader, if_neg hmark, LogEntry.size, Record.sizeOf, Record.headerSize] at hle
    obtain ⟨value, hvalue⟩ : ∃ value,
        Bytes.slice? log (0 + (4 + 4 + key.size)) valueLength = some value :=
      ⟨_, if_pos (by omega)⟩
    obtain rfl := Bytes.size_of_slice? hvalue
    have hvalueFits : value.size < tombstoneMark := by
      simp only [tombstoneMark] at hmark ⊢
      omega
    exact ⟨.put key value, ⟨hkeySmall, hvalueFits⟩, hrest (Bytes.slice?_add hfront hvalue)⟩

/-- The record that stands in front of other bytes is read. -/
theorem MapChange.Fits.at?_encode_append (h : change.Fits) (rest : ByteArray) :
    LogEntry.at? (change.encode ++ rest) 0 = some change.entry :=
  LogEntry.at?_append_left (MapChange.encodes_of_fits h).at_zero

/-- The record that stands in front of other bytes tells its change. -/
theorem MapChange.Fits.eq_of_append_eq (h : change.Fits) (h' : change'.Fits)
    (heq : change.encode ++ rest = change'.encode ++ rest') : change = change' ∧ rest = rest' := by
  have hentry : change.entry = change'.entry := by
    have hread := h.at?_encode_append rest
    rw [heq, h'.at?_encode_append rest'] at hread
    exact (Option.some.inj hread).symm
  have hsize : change.encode.size = change'.encode.size := by
    rw [(MapChange.encodes_of_fits h).size_eq, (MapChange.encodes_of_fits h').size_eq, hentry]
  obtain ⟨hencode, hrest⟩ := Bytes.append_inj heq hsize
  refine ⟨?_, hrest⟩
  cases change with
  | put key value =>
    cases change' with
    | put key' value' =>
      obtain ⟨rfl, hlength⟩ := LogEntry.stored.inj hentry
      simp only [MapChange.encode, Record.encode, hlength] at hencode
      rw [(ByteArray.append_right_inj _).1 hencode]
    | drop key' => cases hentry
  | drop key =>
    cases change' with
    | put key' value' => cases hentry
    | drop key' => rw [LogEntry.removed.inj hentry]

/-- Records that stand in front of some bytes are read from the start on, until nothing is read. -/
theorem suffix_of_append_eq (hfits : ∀ change ∈ changes, change.Fits)
    (hfits' : ∀ change ∈ changes', change.Fits) (htorn : LogEntry.at? torn 0 = none)
    (heq : logOf changes ++ torn = logOf changes' ++ rest) : changes' <:+ changes := by
  induction changes' using List.reverseRecOn generalizing changes with
  | nil => exact List.nil_suffix
  | append_singleton newer' first' ih =>
    have hfirst' := hfits' first' (List.mem_append_right _ List.mem_cons_self)
    rw [logOf_concat, ByteArray.append_assoc] at heq
    obtain rfl | ⟨newer, first, rfl⟩ := List.eq_nil_or_concat changes
    · rw [logOf, ByteArray.empty_append] at heq
      rw [heq, hfirst'.at?_encode_append] at htorn
      cases htorn
    · rw [List.concat_eq_append] at hfits heq ⊢
      have hfirst := hfits first (List.mem_append_right _ List.mem_cons_self)
      rw [logOf_concat, ByteArray.append_assoc] at heq
      obtain ⟨rfl, hnewer⟩ := hfirst.eq_of_append_eq hfirst' heq
      rw [List.suffix_concat_iff]
      exact .inr ⟨newer', rfl, ih (fun c hc => hfits c (List.mem_append_left _ hc))
        (fun c hc => hfits' c (List.mem_append_left _ hc)) hnewer⟩

/-- Any bytes are the records of some changes and bytes that read as nothing. -/
theorem exists_logOf_append_torn (log : ByteArray) :
    ∃ changes torn, (∀ change ∈ changes, change.Fits) ∧ log = logOf changes ++ torn ∧
      LogEntry.at? torn 0 = none := by
  induction hsize : log.size using Nat.strong_induction_on generalizing log with
  | _ size ih =>
    cases hfirst : LogEntry.at? log 0 with
    | none => exact ⟨[], log, List.forall_mem_nil _, ByteArray.empty_append.symm, hfirst⟩
    | some entry =>
      obtain ⟨first, hfits, rest, rfl⟩ := exists_change_of_at? hfirst
      have hless : rest.size < size := by
        have hheader := first.entry.headerSize_le_size
        rw [← (MapChange.encodes_of_fits hfits).size_eq, Record.headerSize] at hheader
        rw [← hsize, ByteArray.size_append]
        omega
      obtain ⟨newer, torn, hnewer, rfl, htorn⟩ := ih rest.size hless rest rfl
      refine ⟨newer ++ [first], torn, ?_, ?_, htorn⟩
      · exact List.forall_mem_append.2 ⟨hnewer, List.forall_mem_singleton.2 hfits⟩
      · rw [logOf_concat, ByteArray.append_assoc]

/-- Records with bytes behind them that read as nothing. -/
theorem wholeRecords_of_torn (hfits : ∀ change ∈ changes, change.Fits)
    (htorn : LogEntry.at? torn 0 = none) : WholeRecords (logOf changes ++ torn) changes where
  fits := hfits
  starts := ⟨torn, rfl⟩
  longest _ _ hfits' heq := suffix_of_append_eq hfits hfits' htorn heq

/-- Bytes start with the records of one sequence of changes. -/
theorem WholeRecords.unique (h : WholeRecords log changes) (h' : WholeRecords log changes') :
    changes = changes' := by
  obtain ⟨torn, hstarts⟩ := h.starts
  obtain ⟨torn', hstarts'⟩ := h'.starts
  have hsuffix := h'.longest changes torn h.fits hstarts
  have hsuffix' := h.longest changes' torn' h'.fits hstarts'
  exact hsuffix.eq_of_length_le hsuffix'.length_le

/-- The log of some changes has every key where its last value stands. -/
theorem places_replay_logOf (hfits : ∀ change ∈ changes, change.Fits) (key : ByteArray) :
    (LogIndex.replay (logOf changes)).places[key]? = lastPlace changes key := by
  induction changes with
  | nil =>
    rw [logOf, LogIndex.describes_empty.replay_eq]
    exact Std.HashMap.getElem?_empty
  | cons change older ih =>
    have holder := ih fun c hc => hfits c (List.mem_cons_of_mem _ hc)
    have hdescribes := describes_logOf fun c hc => hfits c (List.mem_cons_of_mem change hc)
    rw [logOf,
      hdescribes.replay_append (MapChange.encodes_of_fits (hfits change List.mem_cons_self))]
    cases change with
    | put k value =>
      rw [MapChange.entry, LogIndex.places_append_stored, hdescribes.whole, lastPlace, holder]
      simp only [eq_comm]
    | drop k =>
      rw [MapChange.entry, LogIndex.places_append_removed, lastPlace, holder]
      simp only [eq_comm]

end Reading

/-! ## Opening -/

namespace DiskTier

/-- What a tier is that was opened on a log with the records of some changes: the log holds these
records alone, and every byte of it is counted once. -/
structure Recovers (tier : DiskTier) (changes : List MapChange) : Prop where
  content_eq : tier.dir.content? Directory.logName = some (logOf changes)
  size_eq : tier.fileBytes = (logOf changes).size
  places_eq : ∀ key, tier.index.places[key]? = lastPlace changes key
  live_eq : tier.liveBytes = tier.index.placedBytes
  total_eq : tier.liveBytes + tier.garbageBytes = (logOf changes).size
  found : ∀ key, tier.find key = .ok (lastValue changes key)

/-- Two tiers that are alike in all that they hold. -/
structure Alike (tier tier' : DiskTier) : Prop where
  config_eq : tier'.config = tier.config
  index_eq : tier'.index = tier.index
  directories_eq : tier'.dir.directories = tier.dir.directories
  content_eq : ∀ name, tier'.dir.content? name = tier.dir.content? name

section Opening

variable {tier : DiskTier} {held held' : ByteArray → Option ByteArray} {config : DiskConfig}
  {dir : Directory} {changes : List MapChange}

/-- A tier holds one map. -/
theorem Records.held_eq (h : tier.Records held) (h' : tier.Records held') : held = held' := by
  funext key
  exact Except.ok.inj ((h.find_eq key).symm.trans (h'.find_eq key))

/-- When the log is the records of some changes, the tier holds what they say. -/
theorem Records.lastValue_eq (h : tier.Records held) (hfits : ∀ change ∈ changes, change.Fits)
    (hlog : tier.dir.log = logOf changes) : lastValue changes = held := by
  refine Records.held_eq ?_ h
  rw [Records, ← h.replay_eq, hlog]
  exact describes_logOf hfits

/-- A log that holds a map is the records of some changes that make it up. The index covers the
whole log, so that no byte is left for a torn record. -/
theorem Records.exists_logOf (h : tier.Records held) :
    ∃ changes, (∀ change ∈ changes, change.Fits) ∧ tier.dir.log = logOf changes ∧
      lastValue changes = held := by
  obtain ⟨changes, torn, hfits, hlog, htorn⟩ := exists_logOf_append_torn tier.dir.log
  have hwhole := (describes_logOf hfits).whole
  have hnone : torn.size = 0 := by
    have hall := h.whole
    rw [← h.replay_eq, hlog, LogIndex.replay_append_torn hwhole htorn, hwhole,
      ByteArray.size_append] at hall
    omega
  have hsame : tier.dir.log = logOf changes := by
    rw [hlog, ByteArray.size_eq_zero_iff.1 hnone, ByteArray.append_empty]
  exact ⟨changes, hfits, hsame, h.lastValue_eq hfits hsame⟩

/-- A tier whose log holds the records of some changes and whose index is their meaning. -/
theorem recovers_logOf (hfits : ∀ change ∈ changes, change.Fits) :
    Recovers ⟨config, dir.putLog (logOf changes), LogIndex.replay (logOf changes)⟩ changes := by
  have hdescribes := describes_logOf hfits
  constructor
  · exact (Directory.content?_putLog _).trans (if_pos rfl)
  · exact hdescribes.whole
  · exact places_replay_logOf hfits
  · exact hdescribes.liveBytes_eq
  · exact hdescribes.balanced.total_eq.trans hdescribes.whole
  · intro key
    refine Records.find_eq ?_ key
    rwa [Records, Directory.log_putLog]

/-- Whatever the log file holds, even nothing, it is opened. It is cut back to the records that it
starts with, other files stay as they are, the index has every key where its last value stands, and
no difference taken on the way is negative. Opening it once more changes nothing, as the log that is
left has no torn tail. -/
theorem exists_openLog_recovers (config : DiskConfig) (dir : Directory)
    (hfile : dir.isDirectory Directory.logName = false) :
    ∃ tier changes, openLog config dir = .ok tier ∧ tier.config = config ∧
      WholeRecords dir.log changes ∧ tier.Recovers changes ∧
      LogIndex.replayIn dir.log = .ok tier.index ∧
      (∀ name, name ≠ Directory.logName → tier.dir.content? name = dir.content? name) ∧
      ∃ again, openLog config tier.dir = .ok again ∧ tier.Alike again := by
  obtain ⟨changes, torn, hfits, hlog, htorn⟩ := exists_logOf_append_torn dir.log
  have hopen := openLog_eq_of_torn config hfile hfits hlog htorn
  have hreplay : LogIndex.replayIn dir.log = .ok (LogIndex.replay (logOf changes)) := by
    rw [← LogIndex.replay_append_torn (describes_logOf hfits).whole htorn, ← hlog]
    exact (LogIndex.balanced_empty.replayFrom dir.log 0).2
  let left := dir.ensure.putLog (logOf changes)
  have hothers (name : String) (hname : name ≠ Directory.logName) :
      left.content? name = dir.content? name := by
    rw [Directory.content?_putLog, if_neg hname.symm, Directory.content?_ensure]
  have hfile' : left.isDirectory Directory.logName = false :=
    (Directory.isDirectory_ensure _).trans hfile
  have hlog' : left.log = logOf changes ++ .empty :=
    Directory.log_putLog.trans ByteArray.append_empty.symm
  have hagain := openLog_eq_of_torn config hfile' hfits hlog' LogEntry.at?_size
  have hensure : left.ensure = left := Directory.ensure_of_contains Directory.contains_ensure
  refine ⟨_, changes, hopen, rfl, hlog ▸ wholeRecords_of_torn hfits htorn, recovers_logOf hfits,
    hreplay, hothers, _, hagain, ?_⟩
  constructor
  · rfl
  · rfl
  · rw [hensure]
    rfl
  · intro name
    rw [hensure, Directory.content?_putLog, Directory.content?_putLog]
    split <;> rfl

/-- A key that was stored twice, a tombstone of a key that is not there, and three bytes of a record
that was cut short. -/
theorem exists_openLog_recovers_of_tail :
    ∃ changes dir, dir.log = logOf changes ++ ⟨#[7, 0, 0]⟩ ∧
      dir.isDirectory Directory.logName = false ∧
      changes = [.drop ⟨#[5]⟩, .put ⟨#[1]⟩ ⟨#[3, 4]⟩, .put ⟨#[1]⟩ ⟨#[2]⟩] ∧
      ∃ tier, openLog {} dir = .ok tier ∧ tier.Recovers changes ∧
        tier.find ⟨#[1]⟩ = .ok (some ⟨#[3, 4]⟩) := by
  let changes : List MapChange := [.drop ⟨#[5]⟩, .put ⟨#[1]⟩ ⟨#[3, 4]⟩, .put ⟨#[1]⟩ ⟨#[2]⟩]
  let dir := Directory.empty.putLog (logOf changes ++ ⟨#[7, 0, 0]⟩)
  have hlog : dir.log = logOf changes ++ ⟨#[7, 0, 0]⟩ := Directory.log_putLog
  have hfits : ∀ change ∈ changes, change.Fits := by
    simp only [changes, List.forall_mem_cons, MapChange.Fits]
    exact ⟨by decide, ⟨by decide, by decide⟩, ⟨by decide, by decide⟩, List.forall_mem_nil _⟩
  obtain ⟨tier, changes', hopen, _, hwhole, hrecovers, _⟩ :=
    exists_openLog_recovers {} dir (by decide)
  rw [hlog] at hwhole
  obtain rfl := hwhole.unique (wholeRecords_of_torn hfits rfl)
  exact ⟨changes, dir, hlog, by decide, rfl, tier, hopen, hrecovers, hrecovers.found ⟨#[1]⟩⟩

end Opening

end DiskTier

end ElasticCache
