import ElasticCache.Proofs.Storage.ArbitraryLogs

/-!
# What a compaction leaves

The record of a change is live when it stored a value and no later change is about its key. A
compaction writes the live records of a log in the order in which they stood, and as they are of
different keys, none of them makes garbage.
-/

namespace ElasticCache

/-- The key that a change is about. -/
def MapChange.key : MapChange → ByteArray
  | .put key _ => key
  | .drop key => key

/-- The changes whose records are live, in their order, given all with the newest first. -/
def liveRecords : List MapChange → List MapChange
  | [] => []
  | .put key value :: older => .put key value :: (liveRecords older).filter (·.key ≠ key)
  | .drop key :: older => (liveRecords older).filter (·.key ≠ key)

/-- The keys of the live records and where these stand, in the same order. -/
def livePlaces : List MapChange → List (ByteArray × Place)
  | [] => []
  | .put key value :: older =>
    (key, ⟨(logOf older).size, value.size⟩) :: (livePlaces older).filter (·.1 ≠ key)
  | .drop key :: older => (livePlaces older).filter (·.1 ≠ key)

/-- The change that stored what a key has. -/
def storedBy (held : ByteArray → Option ByteArray) (entry : ByteArray × Place) : MapChange :=
  .put entry.1 ((held entry.1).getD .empty)

section Live

variable {changes older : List MapChange} {change : MapChange} {key : ByteArray} {place : Place}

/-- The live records are among all, in the same order. -/
theorem liveRecords_sublist (changes : List MapChange) : (liveRecords changes).Sublist changes := by
  induction changes with
  | nil => exact .slnil
  | cons change older ih =>
    have hkept (k : ByteArray) : ((liveRecords older).filter (·.key ≠ k)).Sublist older :=
      List.filter_sublist.trans ih
    cases change with
    | put key value => exact (hkept key).cons_cons _
    | drop key => exact (hkept key).cons _

/-- A record is live when it stored the last value of its key. -/
theorem put_mem_liveRecords_iff {value : ByteArray} :
    .put key value ∈ liveRecords changes ↔ lastValue changes key = some value := by
  induction changes with
  | nil => simp only [liveRecords, lastValue, List.not_mem_nil, reduceCtorEq]
  | cons change older ih =>
    cases change with
    | put k v =>
      by_cases heq : key = k
      · simp [liveRecords, lastValue, MapChange.key, heq, eq_comm]
      · simp [liveRecords, lastValue, MapChange.key, heq, ih]
    | drop k =>
      by_cases heq : key = k
      · simp [liveRecords, lastValue, MapChange.key, heq]
      · simp [liveRecords, lastValue, MapChange.key, heq, ih]

/-- A tombstone is never live. -/
theorem drop_not_mem_liveRecords : .drop key ∉ liveRecords changes := by
  induction changes with
  | nil => exact List.not_mem_nil
  | cons change older ih => cases change <;> simp [liveRecords, ih]

/-- A live record stands where the index has the last value of its key. -/
theorem mem_livePlaces_iff :
    (key, place) ∈ livePlaces changes ↔ lastPlace changes key = some place := by
  induction changes with
  | nil => simp only [livePlaces, lastPlace, List.not_mem_nil, reduceCtorEq]
  | cons change older ih =>
    cases change with
    | put k value =>
      by_cases heq : key = k
      · simp [livePlaces, lastPlace, heq, eq_comm]
      · simp [livePlaces, lastPlace, heq, ih]
    | drop k =>
      by_cases heq : key = k
      · simp [livePlaces, lastPlace, heq]
      · simp [livePlaces, lastPlace, heq, ih]

/-- The record of a change has the size of its entry. -/
theorem MapChange.size_encode (change : MapChange) : change.encode.size = change.entry.size := by
  cases change with
  | put key value => exact Record.size_encode _
  | drop key =>
    rw [encode, LogEntry.encodeRemoved, ByteArray.size_append, Record.size_lengths]
    rfl

/-- Every change makes the log longer. -/
theorem size_logOf_lt_cons (change : MapChange) (older : List MapChange) :
    (logOf older).size < (logOf (change :: older)).size := by
  have hheader := change.entry.headerSize_le_size
  rw [← change.size_encode, Record.headerSize] at hheader
  rw [size_logOf_cons]
  omega

/-- A live record stands inside the log. -/
theorem offset_lt_of_mem_livePlaces {entry : ByteArray × Place} (h : entry ∈ livePlaces changes) :
    entry.2.offset < (logOf changes).size := by
  induction changes with
  | nil => cases h
  | cons change older ih =>
    have hmore := size_logOf_lt_cons change older
    cases change with
    | put k value =>
      rcases List.mem_cons.1 h with rfl | hold
      · exact hmore
      · exact (ih (List.mem_filter.1 hold).1).trans hmore
    | drop k => exact (ih (List.mem_filter.1 h).1).trans hmore

/-- Live records are listed from the end of the log on. -/
theorem pairwise_livePlaces (changes : List MapChange) :
    (livePlaces changes).Pairwise fun a b => b.2.offset < a.2.offset := by
  induction changes with
  | nil => exact .nil
  | cons change older ih =>
    cases change with
    | put k value =>
      refine List.pairwise_cons.2 ⟨fun entry hentry => ?_, ih.filter _⟩
      exact offset_lt_of_mem_livePlaces (List.mem_filter.1 hentry).1
    | drop k => exact ih.filter _

/-- A compaction takes the live records in the order in which they stand. No two of them stand at
one offset, so that this order is strict. -/
theorem inOrder_replay_logOf (hfits : ∀ change ∈ changes, change.Fits) :
    (LogIndex.replay (logOf changes)).inOrder = (livePlaces changes).reverse := by
  let index := LogIndex.replay (logOf changes)
  have hstrict := pairwise_livePlaces changes
  have hnodup : (livePlaces changes).Nodup := by
    refine hstrict.imp fun hlt heq => ?_
    rw [heq] at hlt
    exact Nat.lt_irrefl _ hlt
  have hperm : index.inOrder.Perm (livePlaces changes).reverse := by
    refine (List.mergeSort_perm _ _).trans (List.perm_reverse.2 ?_)
    rw [List.perm_ext_iff_of_nodup (LogIndex.nodup_toList _) hnodup]
    rintro ⟨key, place⟩
    rw [Std.HashMap.mem_toList_iff_getElem?_eq_some, places_replay_logOf hfits, mem_livePlaces_iff]
  have hascending : index.inOrder.Pairwise fun a b => a.2.offset ≤ b.2.offset := by
    refine (List.pairwise_mergeSort ?_ ?_ _).imp of_decide_eq_true
    · intro a b c hab hbc
      exact decide_eq_true ((of_decide_eq_true hab).trans (of_decide_eq_true hbc))
    · intro a b
      rw [Bool.or_eq_true, decide_eq_true_iff, decide_eq_true_iff]
      exact Nat.le_total ..
  have hreverse : (livePlaces changes).reverse.Pairwise fun a b => a.2.offset < b.2.offset :=
    List.pairwise_reverse.2 hstrict
  have hdistinct : index.inOrder.Pairwise fun a b => a.2.offset ≠ b.2.offset :=
    (hperm.pairwise_iff Ne.symm).2 (hreverse.imp Nat.ne_of_lt)
  have hstrictly : index.inOrder.Pairwise fun a b => a.2.offset < b.2.offset :=
    hascending.imp₂ (fun _ _ hle hne => Nat.lt_of_le_of_ne hle hne) hdistinct
  exact hperm.eq_of_pairwise (fun _ _ _ _ hab hba => absurd hba (Nat.lt_asymm hab)) hstrictly
    hreverse

/-- Live records are those of the keys that have a value, with this value. A newer change does not
touch what other keys have. -/
theorem map_storedBy_livePlaces (changes : List MapChange) :
    (livePlaces changes).map (storedBy (lastValue changes)) = liveRecords changes := by
  induction changes with
  | nil => rfl
  | cons change older ih =>
    have hkept (held : ByteArray → Option ByteArray) (k : ByteArray)
        (hother : ∀ other ≠ k, held other = lastValue older other) :
        ((livePlaces older).filter (·.1 ≠ k)).map (storedBy held) =
          (liveRecords older).filter (·.key ≠ k) := by
      rw [← ih, List.filter_map]
      refine List.map_congr_left fun entry hentry => ?_
      have hne := of_decide_eq_true (List.mem_filter.1 hentry).2
      rw [storedBy, storedBy, hother entry.1 hne]
    cases change with
    | put k value =>
      have hother (other : ByteArray) (hne : other ≠ k) :
          lastValue (.put k value :: older) other = lastValue older other := if_neg hne
      have hself : lastValue (.put k value :: older) k = some value := if_pos rfl
      rw [livePlaces, liveRecords, List.map_cons, hkept _ _ hother, storedBy, hself]
      rfl
    | drop k =>
      have hother (other : ByteArray) (hne : other ≠ k) :
          lastValue (.drop k :: older) other = lastValue older other := if_neg hne
      rw [livePlaces, liveRecords, hkept _ _ hother]

end Live

/-! ## Compactions -/

namespace DiskTier

section Compact

variable {tier tier' : DiskTier} {held : ByteArray → Option ByteArray}
  {changes older : List MapChange} {places : List (ByteArray × Place)}

/-- Records that are gathered behind the log of some changes are further changes. -/
theorem Records.gatherLive_eq (h : tier.Records held) (older : List MapChange)
    (hplaces : ∀ entry ∈ places, tier.index.places[entry.1]? = some entry.2) :
    tier.gatherLive (logOf older) places =
      .ok (logOf ((places.map (storedBy held)).reverse ++ older)) := by
  induction places generalizing older with
  | nil => rfl
  | cons entry rest ih =>
    obtain ⟨key, place⟩ := entry
    obtain ⟨value, hheld, hlength, _, _, hat⟩ :=
      h.present key place (hplaces _ List.mem_cons_self)
    have hread : tier.readLog place.offset (Record.sizeOf key.size place.valueLength) =
        .ok (storedBy held (key, place)).encode := by
      rw [← hlength, storedBy, hheld]
      exact readLog_eq_ok hat
    have hrest := ih (storedBy held (key, place) :: older)
      fun entry hentry => hplaces entry (List.mem_cons_of_mem _ hentry)
    rw [gatherLive, hread, ok_bind, List.map_cons, List.reverse_cons, List.append_assoc]
    exact hrest

/-- Records of different keys, none of which has one yet, make no garbage. -/
theorem garbageBytes_appendAll {index : LogIndex} (hdistinct : places.Pairwise fun a b => a.1 ≠ b.1)
    (habsent : ∀ entry ∈ places, index.places[entry.1]? = none) :
    (appendAll index places).garbageBytes = index.garbageBytes := by
  induction places generalizing index with
  | nil => rfl
  | cons entry rest ih =>
    obtain ⟨hne, hrest⟩ := List.pairwise_cons.1 hdistinct
    have hnone : index.liveSize entry.1 = 0 := by
      rw [LogIndex.liveSize, habsent entry List.mem_cons_self]
    have hlater : ∀ other ∈ rest,
        (index.append (.stored entry.1 entry.2.valueLength)).places[other.1]? = none := by
      intro other hother
      rw [LogIndex.places_append_stored, if_neg (hne other hother)]
      exact habsent other (List.mem_cons_of_mem _ hother)
    refine (ih hrest hlater).trans ?_
    rw [LogIndex.append, hnone, Nat.add_zero]

/-- The records that a compaction takes are of different keys. -/
theorem pairwise_inOrder (index : LogIndex) : index.inOrder.Pairwise fun a b => a.1 ≠ b.1 :=
  ((List.mergeSort_perm _ _).pairwise_iff Ne.symm).2
    (index.places.distinct_keys_toList.imp fun hne => ne_of_beq_false hne)

/-- A compaction writes the live records of the log, in their order, and leaves no garbage. -/
theorem Records.exists_compact_logOf (h : tier.Records held) (hfree : ¬tier.Blocked)
    (hfits : ∀ change ∈ changes, change.Fits) (hlog : tier.dir.log = logOf changes) :
    ∃ tier', tier.compact = (.ok (), tier') ∧ tier.SameSetting tier' ∧
      tier'.liveBytes = tier.liveBytes ∧ tier'.Records held ∧
      tier'.dir.log = logOf (liveRecords changes) ∧ tier'.garbageBytes = 0 := by
  obtain ⟨tier', hcompact, hsetting, hlive, hrecords⟩ := h.exists_compact hfree
  have hindex : LogIndex.replay (logOf changes) = tier.index := by
    rw [← hlog, h.replay_eq]
  have hheld := h.lastValue_eq hfits hlog
  have horder : tier.index.inOrder = (livePlaces changes).reverse := by
    rw [← hindex, inOrder_replay_logOf hfits]
  have hgather : tier.gatherLive .empty tier.index.inOrder = .ok (logOf (liveRecords changes)) := by
    refine (h.gatherLive_eq [] fun entry hentry => mem_inOrder_iff.1 hentry).trans ?_
    rw [horder, ← List.map_reverse, List.reverse_reverse, List.append_nil, ← hheld,
      map_storedBy_livePlaces]
  have heq := (Prod.mk.inj (hcompact.symm.trans (compact_eq_ok hfree hgather))).2
  refine ⟨tier', hcompact, hsetting, hlive, hrecords, ?_, ?_⟩
  · rw [heq]
    exact Directory.log_putLog
  · rw [heq]
    exact garbageBytes_appendAll (pairwise_inOrder _) fun _ _ => Std.HashMap.getElem?_empty

end Compact

end DiskTier

end ElasticCache
