import ElasticCache.Storage.RecordLog
import ElasticCache.Proofs.Record
import Mathlib

/-!
# Replaying a record log

A log of whole entries to which one more is appended replays to the meaning before and that entry.
What a log holds is stated as a map from keys to values, read through the places of its index.
-/

namespace ElasticCache

namespace LogEntry

/-- Bytes that read as one entry and hold nothing else. -/
structure Encodes (bytes : ByteArray) (entry : LogEntry) : Prop where
  size_eq : bytes.size = entry.size
  at_zero : at? bytes 0 = some entry

section Reading

variable {a b log more : ByteArray} {offset : Nat} {entry : LogEntry} {key : ByteArray}

/-- What stands behind some bytes is read there as by itself. -/
theorem at?_append_right : at? (a ++ b) (a.size + offset) = at? b offset := by
  have hword (i : Nat) : Bytes.word? (a ++ b) (a.size + i) = Bytes.word? b i := by
    rw [Bytes.word?_append_right (Nat.le_add_right ..), Nat.add_sub_cancel_left]
  have hslice (i len : Nat) : Bytes.slice? (a ++ b) (a.size + i) len = Bytes.slice? b i len := by
    rw [Bytes.slice?_append_right (Nat.le_add_right ..), Nat.add_sub_cancel_left]
  simp only [at?, Nat.add_assoc, hword, hslice, ByteArray.size_append, Nat.add_le_add_iff_left]

/-- An entry stays what it is when bytes are appended behind it. -/
theorem at?_append_left (h : at? log offset = some entry) :
    at? (log ++ more) offset = some entry := by
  simp only [at?, Option.bind_eq_bind, Option.bind_eq_some_iff] at h ⊢
  obtain ⟨keyLength, hkeyLength, valueLength, hvalueLength, key, hkey, h⟩ := h
  split at h
  next hle =>
    have hfirst := Bytes.word?_isSome_iff.1 (Option.isSome_of_eq_some hkeyLength)
    have hsecond := Bytes.word?_isSome_iff.1 (Option.isSome_of_eq_some hvalueLength)
    have hthird := (Bytes.slice?_eq_some_iff.1 hkey).1
    refine ⟨keyLength, ?_, valueLength, ?_, key, ?_, ?_⟩
    · rw [Bytes.word?_append_left hfirst, hkeyLength]
    · rw [Bytes.word?_append_left hsecond, hvalueLength]
    · rw [Bytes.slice?_append_left hthird, hkey]
    · rw [if_pos (by rw [ByteArray.size_append]; omega), h]
  next => cases h

/-- There is no entry at the end of a log. -/
theorem at?_size : at? log log.size = none := by
  have hnone : Bytes.word? log log.size = none := by
    rw [← Option.not_isSome_iff_eq_none, Bytes.word?_isSome_iff]
    omega
  rw [at?, hnone]
  rfl

/-- A stored form with the two lengths in front reads as the entry they stand for. -/
theorem at?_stored {valueLength : Nat} {value : ByteArray} (hkey : key.size < wordLimit)
    (hvalue : valueLength < wordLimit)
    (hsize : (ofHeader valueLength key).size = Record.sizeOf key.size value.size) :
    at? (Record.stored key.size valueLength key value) 0 = some (ofHeader valueLength key) := by
  simp only [at?, Nat.zero_add, Record.word?_stored_zero hkey, Record.word?_stored_four hvalue,
    Record.slice?_stored_key, Option.bind_eq_bind, Option.bind_some, Record.size_stored, hsize,
    Nat.le_refl, if_pos]

/-- The stored form of a record reads as an entry of its key and length. -/
theorem encodes_record {value : ByteArray} (hkey : key.size < wordLimit)
    (hvalue : value.size < tombstoneMark) :
    Encodes (Record.encode ⟨key, value⟩) (.stored key value.size) := by
  have hentry : ofHeader value.size key = .stored key value.size := if_neg (Nat.ne_of_lt hvalue)
  refine ⟨Record.size_encode _, ?_⟩
  rw [Record.encode_eq, at?_stored hkey, hentry]
  · exact Nat.lt_of_lt_of_le hvalue (Nat.sub_le _ _)
  · rw [hentry, size]

/-- The stored form of a removal reads as an entry of its key. -/
theorem encodes_removed (hkey : key.size < wordLimit) :
    Encodes (encodeRemoved key) (.removed key) := by
  have hentry : ofHeader tombstoneMark key = .removed key := if_pos rfl
  have hstored : encodeRemoved key = Record.stored key.size tombstoneMark key .empty := by
    rw [encodeRemoved, Record.stored, ByteArray.append_empty]
  refine ⟨?_, ?_⟩
  · rw [hstored, Record.size_stored, size, ByteArray.size_empty]
  · rw [hstored, at?_stored hkey (by decide), hentry]
    rw [hentry, size, ByteArray.size_empty]

end Reading

end LogEntry

namespace LogIndex

section Replay

variable {log bytes : ByteArray} {entry : LogEntry} {index : LogIndex} {offset : Nat}

/-- A further entry makes the log longer by its size. -/
theorem length_append (index : LogIndex) (entry : LogEntry) :
    (index.append entry).length = index.length + entry.size := by
  cases entry <;> rfl

/-- Where an entry reads, the replay enters it and goes on behind it. -/
theorem replayFrom_of_some (h : LogEntry.at? log offset = some entry) :
    replayFrom log offset index =
      replayFrom log (offset + entry.size) (index.append entry) := by
  rw [replayFrom]
  split
  next hnone => rw [h] at hnone; cases hnone
  next hsome => rw [h] at hsome; cases hsome; rfl

/-- Where no entry reads, the replay is at its end. -/
theorem replayFrom_of_none (h : LogEntry.at? log offset = none) :
    replayFrom log offset index = index := by
  rw [replayFrom]
  split
  next => rfl
  next hsome => rw [h] at hsome; cases hsome

/-- A replay that reaches the end of a log goes on there when bytes are appended. -/
theorem replayFrom_append (index : LogIndex) (offset : Nat) (hoffset : index.length = offset)
    (hwhole : (replayFrom log offset index).length = log.size) :
    replayFrom (log ++ bytes) offset index =
      replayFrom (log ++ bytes) log.size (replayFrom log offset index) := by
  fun_induction replayFrom log offset index with
  | case1 offset index hnone => rw [← hoffset, hwhole]
  | case2 offset index entry hsome ih =>
    have hrest := ih (by rw [length_append, hoffset]) hwhole
    rw [replayFrom_of_some (LogEntry.at?_append_left hsome), hrest]

/-- A whole log with one more entry behind it means what it meant and that entry. -/
theorem replay_append (hwhole : (replay log).length = log.size)
    (h : LogEntry.Encodes bytes entry) : replay (log ++ bytes) = (replay log).append entry := by
  have hentry : LogEntry.at? (log ++ bytes) log.size = some entry := by
    rw [← Nat.add_zero log.size, LogEntry.at?_append_right, h.at_zero]
  have hend : LogEntry.at? (log ++ bytes) (log.size + entry.size) = none := by
    rw [← h.size_eq, ← ByteArray.size_append, LogEntry.at?_size]
  rw [replay, replayFrom_append empty 0 rfl hwhole, replayFrom_of_some hentry,
    replayFrom_of_none hend]
  rfl

end Replay

/-! ## What a log holds -/

/-- The index of a whole log whose records have the given values. -/
structure Describes (index : LogIndex) (log : ByteArray)
    (held : ByteArray → Option ByteArray) : Prop where
  replay_eq : replay log = index
  whole : index.length = log.size
  absent : ∀ key, index.places[key]? = none → held key = none
  present : ∀ key place, index.places[key]? = some place → ∃ value, held key = some value ∧
    value.size = place.valueLength ∧ key.size < wordLimit ∧ value.size < tombstoneMark ∧
    Record.At log place.offset ⟨key, value⟩

section Describes

variable {log log' bytes : ByteArray} {index index' : LogIndex} {entry : LogEntry}
  {held : ByteArray → Option ByteArray} {key value : ByteArray}

/-- A record that is stored has the place at the end of the log, and the other keys have theirs. -/
theorem places_append_stored {other : ByteArray} {n : Nat} :
    (index.append (.stored key n)).places[other]? =
      if key = other then some ⟨index.length, n⟩ else index.places[other]? := by
  simp only [append, Std.HashMap.getElem?_insert, beq_iff_eq]

/-- A key that is removed has no place, and the other keys have theirs. -/
theorem places_append_removed {other : ByteArray} :
    (index.append (.removed key)).places[other]? =
      if key = other then none else index.places[other]? := by
  simp only [append, Std.HashMap.getElem?_erase, beq_iff_eq]

/-- The empty index describes the empty log. -/
theorem describes_empty : empty.Describes .empty fun _ => none := by
  have hreplay : replay .empty = empty := replayFrom_of_none LogEntry.at?_size
  refine ⟨hreplay, rfl, fun _ _ => rfl, fun key place h => ?_⟩
  rw [empty, Std.HashMap.getElem?_empty] at h
  cases h

namespace Describes

/-- A further entry is replayed last. -/
theorem replay_append (h : index.Describes log held) (hentry : LogEntry.Encodes bytes entry) :
    replay (log ++ bytes) = index.append entry := by
  rw [LogIndex.replay_append (by rw [h.replay_eq, h.whole]) hentry, h.replay_eq]

/-- With a further entry the log is whole still. -/
theorem whole_append (h : index.Describes log held) (hentry : LogEntry.Encodes bytes entry) :
    (index.append entry).length = (log ++ bytes).size := by
  rw [length_append, h.whole, ByteArray.size_append, hentry.size_eq]

/-- Records stay where they are when bytes are appended. -/
theorem at_append {offset : Nat} {record : Record} (h : Record.At log offset record) :
    Record.At (log ++ bytes) offset record := by
  have hle := (Bytes.slice?_eq_some_iff.1 h).1
  exact (Bytes.slice?_append_left hle).trans h

/-- A record appended to a log takes the place of any earlier one of its key. -/
theorem append_stored (h : index.Describes log held) (hkey : key.size < wordLimit)
    (hvalue : value.size < tombstoneMark) :
    (index.append (.stored key value.size)).Describes (log ++ Record.encode ⟨key, value⟩)
      (Function.update held key (some value)) := by
  have hentry := LogEntry.encodes_record hkey hvalue
  refine ⟨h.replay_append hentry, h.whole_append hentry, fun other hother => ?_,
    fun other place hother => ?_⟩
  · rw [places_append_stored] at hother
    split at hother
    next => cases hother
    next hne =>
      rw [Function.update_of_ne (Ne.symm hne)]
      exact h.absent other hother
  · rw [places_append_stored] at hother
    split at hother
    next heq =>
      subst heq
      obtain rfl := Option.some.inj hother
      refine ⟨value, Function.update_self .., rfl, hkey, hvalue, ?_⟩
      have hself : Bytes.slice? (log ++ Record.encode ⟨key, value⟩) log.size
          (Record.encode ⟨key, value⟩).size = some (Record.encode ⟨key, value⟩) := by
        rw [Bytes.slice?_append_right (Nat.le_refl _), Nat.sub_self, Bytes.slice?_self]
      rw [Record.size_encode] at hself
      rw [Record.At, h.whole]
      exact hself
    next hne =>
      obtain ⟨v, hheld, hlength, hk, hv, hat⟩ := h.present other place hother
      rw [Function.update_of_ne (Ne.symm hne)]
      exact ⟨v, hheld, hlength, hk, hv, at_append hat⟩

/-- A tombstone appended to a log drops its key. -/
theorem append_removed (h : index.Describes log held) (hkey : key.size < wordLimit) :
    (index.append (.removed key)).Describes (log ++ LogEntry.encodeRemoved key)
      (Function.update held key none) := by
  have hentry := LogEntry.encodes_removed hkey
  refine ⟨h.replay_append hentry, h.whole_append hentry, fun other hother => ?_,
    fun other place hother => ?_⟩
  · rw [places_append_removed] at hother
    split at hother
    next heq => rw [← heq, Function.update_self]
    next hne =>
      rw [Function.update_of_ne (Ne.symm hne)]
      exact h.absent other hother
  · rw [places_append_removed] at hother
    split at hother
    next => cases hother
    next hne =>
      obtain ⟨v, hheld, hlength, hk, hv, hat⟩ := h.present other place hother
      rw [Function.update_of_ne (Ne.symm hne)]
      exact ⟨v, hheld, hlength, hk, hv, at_append hat⟩

/-- A key has a place exactly when it has a value. -/
theorem mem_places_iff (h : index.Describes log held) :
    key ∈ index.places ↔ (held key).isSome := by
  rw [Std.HashMap.mem_iff_isSome_getElem?]
  cases hplace : index.places[key]? with
  | none => simp only [h.absent key hplace, Option.isSome_none]
  | some place =>
    obtain ⟨value, hheld, _⟩ := h.present key place hplace
    rw [hheld, Option.isSome_some, Option.isSome_some]

end Describes

end Describes

/-! ## The bytes of live records -/

/-- Bytes of the record of a key with its place. -/
def recordBytes (entry : ByteArray × Place) : Nat :=
  Record.sizeOf entry.1.size entry.2.valueLength

/-- Bytes of the records that an index has places for. -/
def placedBytes (index : LogIndex) : Nat := (index.places.toList.map recordBytes).sum

section Bytes

variable {places : Std.HashMap ByteArray Place} {index index' : LogIndex} {log log' : ByteArray}
  {held : ByteArray → Option ByteArray}

/-- No key has two places. -/
theorem nodup_toList (places : Std.HashMap ByteArray Place) : places.toList.Nodup := by
  refine places.distinct_keys_toList.imp fun hne heq => ?_
  rw [heq, beq_self_eq_true] at hne
  cases hne

/-- The places of the other keys are those that are left. -/
theorem mem_filter_toList {key other : ByteArray} {place : Place} :
    (other, place) ∈ places.toList.filter (¬key == ·.1) ↔
      places[other]? = some place ∧ key ≠ other := by
  simp only [List.mem_filter, Std.HashMap.mem_toList_iff_getElem?_eq_some, decide_eq_true_eq,
    beq_iff_eq, ne_eq]

/-- What erasing a key leaves. -/
theorem toList_erase_perm (places : Std.HashMap ByteArray Place) (key : ByteArray) :
    (places.erase key).toList.Perm (places.toList.filter (¬key == ·.1)) := by
  rw [List.perm_ext_iff_of_nodup (nodup_toList _) ((nodup_toList _).filter _)]
  rintro ⟨other, place⟩
  rw [mem_filter_toList, Std.HashMap.mem_toList_iff_getElem?_eq_some, Std.HashMap.getElem?_erase]
  by_cases heq : key = other <;> simp [heq]

/-- The places are the one of a key and those of the others. -/
theorem toList_perm_of_getElem? {key : ByteArray} {place : Place} (h : places[key]? = some place) :
    places.toList.Perm ((key, place) :: places.toList.filter (¬key == ·.1)) := by
  have hnotMem : (key, place) ∉ places.toList.filter (¬key == ·.1) := by
    rw [mem_filter_toList]
    exact fun hmem => hmem.2 rfl
  rw [List.perm_ext_iff_of_nodup (nodup_toList _)
    (List.nodup_cons.2 ⟨hnotMem, (nodup_toList _).filter _⟩)]
  rintro ⟨other, place'⟩
  rw [List.mem_cons, mem_filter_toList, Std.HashMap.mem_toList_iff_getElem?_eq_some,
    Prod.mk.injEq]
  constructor
  · intro hother
    by_cases heq : key = other
    · subst heq
      exact .inl ⟨rfl, Option.some.inj (hother.symm.trans h)⟩
    · exact .inr ⟨hother, heq⟩
  · rintro (⟨rfl, rfl⟩ | ⟨hother, _⟩)
    · exact h
    · exact hother

/-- The live record of a key and those of the other keys make up all. -/
theorem placedBytes_eq_add (index : LogIndex) (key : ByteArray) :
    index.placedBytes = index.liveSize key +
      ((index.places.toList.filter (¬key == ·.1)).map recordBytes).sum := by
  unfold placedBytes liveSize
  cases hplace : index.places[key]? with
  | none =>
    rw [List.filter_eq_self.2, Nat.zero_add]
    rintro ⟨other, place⟩ hother
    rw [decide_eq_true_eq, beq_iff_eq]
    rintro rfl
    rw [Std.HashMap.mem_toList_iff_getElem?_eq_some, hplace] at hother
    cases hother
  | some place =>
    rw [((toList_perm_of_getElem? hplace).map _).sum_nat, List.map_cons, List.sum_cons,
      recordBytes]

/-- An entry changes the live bytes by the record it adds and the record it supersedes. -/
theorem liveBytes_append (h : index.liveBytes = index.placedBytes) (entry : LogEntry) :
    (index.append entry).liveBytes = (index.append entry).placedBytes := by
  cases entry with
  | stored key n =>
    have hbefore := placedBytes_eq_add index key
    have hafter := ((Std.HashMap.toList_insert_perm (m := index.places) (k := key)
      (v := ⟨index.length, n⟩)).map recordBytes).sum_nat
    rw [List.map_cons, List.sum_cons] at hafter
    rw [placedBytes, append, hafter]
    show index.liveBytes - index.liveSize key + Record.sizeOf key.size n =
      Record.sizeOf key.size n + _
    omega
  | removed key =>
    have hbefore := placedBytes_eq_add index key
    have hafter := ((toList_erase_perm index.places key).map recordBytes).sum_nat
    rw [placedBytes, append, hafter]
    show index.liveBytes - index.liveSize key = _
    omega

/-- Every byte of a log is counted once, as one of a live record or as garbage. -/
structure Balanced (index : LogIndex) : Prop where
  live_eq : index.liveBytes = index.placedBytes
  total_eq : index.liveBytes + index.garbageBytes = index.length

/-- The empty index is balanced. -/
theorem balanced_empty : empty.Balanced := by
  refine ⟨?_, rfl⟩
  rw [placedBytes, empty, Std.HashMap.toList_empty]
  rfl

namespace Balanced

/-- The live record of a key is among those that the live bytes count. -/
theorem liveSize_le (h : index.Balanced) (key : ByteArray) :
    index.liveSize key ≤ index.liveBytes := by
  rw [h.live_eq, placedBytes_eq_add index key]
  exact Nat.le_add_right _ _

/-- A further entry keeps the index balanced. -/
theorem append (h : index.Balanced) (entry : LogEntry) : (index.append entry).Balanced := by
  refine ⟨liveBytes_append h.live_eq entry, ?_⟩
  have htotal := h.total_eq
  cases entry with
  | stored key n =>
    have hle := h.liveSize_le key
    simp only [LogIndex.append]
    omega
  | removed key =>
    have hle := h.liveSize_le key
    simp only [LogIndex.append]
    omega

end Balanced

/-! ## Checked counters -/

/-- One more entry at the end of the log, with every difference checked. -/
def appendIn (index : LogIndex) : LogEntry → Except Fault LogIndex
  | .stored key valueLength => do
    let previous := index.liveSize key
    let size := Record.sizeOf key.size valueLength
    let live ← minus index.liveBytes previous
    return ⟨index.places.insert key ⟨index.length, valueLength⟩, live + size,
      index.garbageBytes + previous, index.length + size⟩
  | .removed key => do
    let previous := index.liveSize key
    let size := Record.sizeOf key.size 0
    let live ← minus index.liveBytes previous
    return ⟨index.places.erase key, live, index.garbageBytes + previous + size,
      index.length + size⟩

/-- The meaning of a log from an offset on, with every difference checked. -/
def replayFromIn (log : ByteArray) (offset : Nat) (index : LogIndex) : Except Fault LogIndex :=
  match _h : LogEntry.at? log offset with
  | none => .ok index
  | some entry => index.appendIn entry >>= replayFromIn log (offset + entry.size)
termination_by log.size - offset
decreasing_by
  have := LogEntry.size_le_of_at? _h
  have := entry.headerSize_le_size
  simp only [Record.headerSize] at this
  omega

/-- The meaning of a log, with every difference checked. -/
def replayIn (log : ByteArray) : Except Fault LogIndex := replayFromIn log 0 empty

/-- No difference is negative as long as every byte is counted once. -/
theorem Balanced.appendIn_eq (h : index.Balanced) (entry : LogEntry) :
    index.appendIn entry = .ok (index.append entry) := by
  cases entry with
  | stored key n =>
    rw [appendIn, minus_eq_ok (h.liveSize_le key)]
    rfl
  | removed key =>
    rw [appendIn, minus_eq_ok (h.liveSize_le key)]
    rfl

/-- A replay counts every byte once and does the same with every difference checked. -/
theorem Balanced.replayFrom (h : index.Balanced) (log : ByteArray) (offset : Nat) :
    (replayFrom log offset index).Balanced ∧
      replayFromIn log offset index = .ok (replayFrom log offset index) := by
  fun_induction LogIndex.replayFrom log offset index with
  | case1 offset index hnone =>
    refine ⟨h, ?_⟩
    rw [replayFromIn]
    split
    next => rfl
    next hsome => rw [hnone] at hsome; cases hsome
  | case2 offset index entry hsome ih =>
    obtain ⟨hbalanced, hrest⟩ := ih (h.append entry)
    refine ⟨hbalanced, ?_⟩
    rw [replayFromIn]
    split
    next hnone => rw [hsome] at hnone; cases hnone
    next entry' hentry =>
      obtain rfl := Option.some.inj (hsome.symm.trans hentry)
      rw [h.appendIn_eq, ok_bind, hrest]

namespace Describes

/-- An index that describes a log is balanced. -/
theorem balanced (h : index.Describes log held) : index.Balanced := by
  rw [← h.replay_eq]
  exact (balanced_empty.replayFrom log 0).1

/-- The live bytes of an index are those of the records it has places for. -/
theorem liveBytes_eq (h : index.Describes log held) : index.liveBytes = index.placedBytes :=
  h.balanced.live_eq

/-- How many bytes records take depends on what is held, and not on where it stands. -/
theorem placedBytes_eq (h : index.Describes log held) (h' : index'.Describes log' held) :
    index'.placedBytes = index.placedBytes := by
  have hmem {index : LogIndex} {log : ByteArray} (h : index.Describes log held)
      (key : ByteArray) (n : Nat) :
      (key, n) ∈ index.places.toList.map (fun entry => (entry.1, entry.2.valueLength)) ↔
        ∃ value, held key = some value ∧ value.size = n := by
    simp only [List.mem_map, Prod.exists, Std.HashMap.mem_toList_iff_getElem?_eq_some,
      Prod.mk.injEq]
    constructor
    · rintro ⟨key, place, hplace, rfl, rfl⟩
      obtain ⟨value, hheld, hlength, _⟩ := h.present key place hplace
      exact ⟨value, hheld, hlength⟩
    · rintro ⟨value, hheld, rfl⟩
      cases hplace : index.places[key]? with
      | none =>
        rw [h.absent key hplace] at hheld
        cases hheld
      | some place =>
        obtain ⟨v, hv, hlength, _⟩ := h.present key place hplace
        obtain rfl := Option.some.inj (hheld.symm.trans hv)
        exact ⟨key, place, hplace, rfl, hlength.symm⟩
  have hnodup (index : LogIndex) :
      (index.places.toList.map fun entry => (entry.1, entry.2.valueLength)).Nodup := by
    refine List.pairwise_map.2 (index.places.distinct_keys_toList.imp fun hne heq => ?_)
    rw [(Prod.mk.inj heq).1, beq_self_eq_true] at hne
    cases hne
  have hperm : (index'.places.toList.map fun entry => (entry.1, entry.2.valueLength)).Perm
      (index.places.toList.map fun entry => (entry.1, entry.2.valueLength)) := by
    rw [List.perm_ext_iff_of_nodup (hnodup _) (hnodup _)]
    exact fun ⟨key, n⟩ => (hmem h' key n).trans (hmem h key n).symm
  have hsum := (hperm.map fun entry => Record.sizeOf entry.1.size entry.2).sum_nat
  rwa [List.map_map, List.map_map] at hsum

end Describes

end Bytes

end LogIndex

end ElasticCache
