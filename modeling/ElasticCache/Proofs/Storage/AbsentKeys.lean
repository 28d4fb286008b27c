import ElasticCache.Proofs.Contracts
import ElasticCache.Proofs.Storage.FailedCompactions
import ElasticCache.Proofs.Storage.LastingFacts
import ElasticCache.Proofs.Storage.Placement

/-!
# Keys that a store lacks

Every step on a store leaves it known which keys it lacks, also a step that fails: a removal takes
its key out of both tiers before anything can go wrong, and no step brings a record into the store
but that of the key that it is asked to insert. This needs no fresh numbers for the slabs. A slab
that takes the place of another one takes records away and leaves places behind in the index that
name nothing, or a record that is listed besides.
-/

namespace ElasticCache

namespace RamTier

/-- No record of the tier has the key. -/
def Lacks (tier : RamTier) (key : ByteArray) : Prop :=
  ∀ id offset value, ¬tier.At id offset ⟨key, value⟩

/-- Every record of the tier can be found by its key, and no two have the same. -/
structure Traceable (tier : RamTier) : Prop where
  small : tier.slabSize < wordLimit
  sound : tier.Sound
  listed : ∀ id offset record, tier.At id offset record →
    Listed tier.index (KeyHash.ofKey record.key) id offset
  unique : ∀ id offset record id' offset' record', tier.At id offset record →
    tier.At id' offset' record' → record.key = record'.key → id = id' ∧ offset = offset'

section Traces

variable {tier tier' placed : RamTier} {key other value : ByteArray} {id offset : Nat}
  {records : List Record}

/-- A tier with fewer records lacks what the other one does. -/
theorem Lacks.of_subset (h : tier.Lacks key)
    (hat : ∀ id offset record, tier'.At id offset record → tier.At id offset record) :
    tier'.Lacks key := fun id offset value hrecord => h id offset value (hat _ _ _ hrecord)

/-- A tier that keeps some of the records and lists them. -/
theorem Traceable.of_subset (h : tier.Traceable) (hsize : tier'.slabSize = tier.slabSize)
    (hsound : tier'.Sound)
    (hat : ∀ id offset record, tier'.At id offset record → tier.At id offset record)
    (hlisted : ∀ id offset record, tier'.At id offset record →
      Listed tier'.index (KeyHash.ofKey record.key) id offset) : tier'.Traceable := by
  refine ⟨by rw [hsize]; exact h.small, hsound, hlisted, ?_⟩
  intro id offset record id' offset' record' hrecord hrecord'
  exact h.unique _ _ _ _ _ _ (hat _ _ _ hrecord) (hat _ _ _ hrecord')

/-- The use of the slabs, the clock and the ceiling have no part in what can be found. -/
theorem Traceable.congr (h : tier.Traceable) (hsize : tier'.slabSize = tier.slabSize)
    (hslabs : tier'.slabs = tier.slabs) (hindex : tier'.index = tier.index) :
    tier'.Traceable := by
  have hat (id offset : Nat) (record : Record) (hrecord : tier'.At id offset record) :
      tier.At id offset record := by rwa [At, ← hslabs]
  refine h.of_subset hsize (h.sound.congr hslabs) hat fun id offset record hrecord => ?_
  rw [hindex]
  exact h.listed id offset record (hat id offset record hrecord)

/-- What a tier lacks is told by its slabs. -/
theorem Lacks.congr (h : tier.Lacks key) (hslabs : tier'.slabs = tier.slabs) :
    tier'.Lacks key := by
  intro id offset value hrecord
  rw [At, hslabs] at hrecord
  exact h id offset value hrecord

/-- A new tier has no records. -/
theorem not_at_new {slabSize maxSlabs staleAfter : Nat} {record : Record} :
    ¬(new slabSize maxSlabs staleAfter).At id offset record := by
  rintro ⟨slab, hslab, _⟩
  cases hslab

/-- A new tier can be traced. -/
theorem traceable_new {slabSize : Nat} (hsmall : slabSize < wordLimit)
    (maxSlabs staleAfter : Nat) : (new slabSize maxSlabs staleAfter).Traceable := by
  refine ⟨hsmall, fun id slab hslab => ?_, fun id offset record hrecord => ?_,
    fun id offset record id' offset' record' hrecord => ?_⟩
  · cases hslab
  · exact (not_at_new hrecord).elim
  · exact (not_at_new hrecord).elim

/-- A key is located unless the tier lacks it. -/
theorem Traceable.locate?_eq_none_iff (h : tier.Traceable) :
    tier.locate? key = none ↔ tier.Lacks key := by
  constructor
  · intro hnone id offset value hrecord
    have hlisted := h.listed id offset _ hrecord
    obtain ⟨slab, hslab, hthere⟩ := hrecord
    exact locate?_ne_none_of_listed hslab ((h.sound id slab hslab).holds_iff.2 ⟨value, hthere⟩)
      hlisted hnone
  · intro hlacks
    cases hlocate : tier.locate? key with
    | none => rfl
    | some place =>
      obtain ⟨value, hrecord⟩ := at_of_locate? h.sound hlocate
      exact (hlacks _ _ value hrecord).elim

/-- A tier that can be traced does not contain a key exactly when it lacks it. -/
theorem Traceable.contains_eq_false_iff (h : tier.Traceable) :
    tier.contains key = false ↔ tier.Lacks key := by
  rw [contains, Option.isSome_eq_false_iff, Option.isNone_iff_eq_none, h.locate?_eq_none_iff]

/-- A read that finds nothing is one of a key that the tier lacks. -/
theorem Traceable.lacks_of_find (h : tier.Traceable) (hfind : tier.find key = none) :
    tier.Lacks key := by
  rw [← h.locate?_eq_none_iff]
  cases hlocate : tier.locate? key with
  | none => rfl
  | some place =>
    obtain ⟨id, offset⟩ := place
    obtain ⟨value, slab, hslab, hthere⟩ := at_of_locate? h.sound hlocate
    simp [find, hlocate, hslab, (h.sound id slab hslab).valueAt?_eq hthere] at hfind

/-- A key that a tier lacks is not found. -/
theorem Lacks.find_eq_none (hlacks : tier.Lacks key) (h : tier.Traceable) :
    tier.find key = none := by
  rw [find, h.locate?_eq_none_iff.2 hlacks]
  rfl

/-- A read changes the use of a slab alone. -/
theorem find_slabs (hfind : tier.find key = some (value, tier')) :
    tier'.slabs = tier.slabs ∧ tier'.index = tier.index ∧ tier'.slabSize = tier.slabSize := by
  simp only [find, Option.bind_eq_bind, Option.bind_eq_some_iff] at hfind
  obtain ⟨_, _, _, _, _, _, hfind⟩ := hfind
  obtain ⟨_, rfl⟩ := Prod.mk.inj (Option.some.inj hfind)
  exact ⟨rfl, rfl, rfl⟩

/-- A tier can be traced after a read. -/
theorem Traceable.find (h : tier.Traceable) (hfind : tier.find key = some (value, tier')) :
    tier'.Traceable := by
  obtain ⟨hslabs, hindex, hsize⟩ := find_slabs hfind
  exact h.congr hsize hslabs hindex

/-- A tick changes neither the slabs nor the index. -/
theorem tick_slabs (tier : RamTier) : tier.tick.2.slabs = tier.slabs ∧
    tier.tick.2.index = tier.index ∧ tier.tick.2.slabSize = tier.slabSize := by
  unfold tick
  dsimp only
  split <;> exact ⟨rfl, rfl, rfl⟩

/-- The slab that takes a record is in order and holds no more than the tier held there. When a new
slab takes the number of a loaded one, the records of that one are gone. -/
theorem Traceable.exists_slab_of_placed (h : tier.Traceable)
    (hplaced : tier.Placed key value id offset placed) : ∃ slab slab' : Slab, slab.Sound ∧
      slab.insert key value = some (offset, slab') ∧
      (∀ offset' record, slab.recordAt? offset' = some record → tier.At id offset' record) ∧
      placed.slabs = tier.slabs.insert id slab' ∧ placed.index = tier.index ∧
      placed.slabSize = tier.slabSize := by
  cases hplaced with
  | @loaded _ _ slab slab' hslab hinsert =>
    exact ⟨slab, slab', h.sound id slab hslab, hinsert,
      fun offset' record hthere => ⟨slab, hslab, hthere⟩, rfl, rfl, rfl⟩
  | @opened _ slab' hbelow hinsert =>
    refine ⟨_, slab', Slab.sound_new h.small, hinsert, fun offset' record hthere => ?_, rfl, rfl,
      rfl⟩
    cases (Slab.recordAt?_of_not_mem Std.TreeSet.not_mem_emptyc).symm.trans hthere

/-- What a tier holds once a record got its place is the new record and some of the others. -/
theorem Traceable.at_of_placed (h : tier.Traceable)
    (hplaced : tier.Placed key value id offset placed) {id' offset' : Nat} {record : Record}
    (hrecord : placed.At id' offset' record) :
    (id' = id ∧ offset' = offset ∧ record = ⟨key, value⟩) ∨ tier.At id' offset' record := by
  obtain ⟨slab, slab', hsound, hinsert, hold, hslabs, -, -⟩ := h.exists_slab_of_placed hplaced
  obtain ⟨_, _, _, _, hrecords⟩ := hsound.insert hinsert
  rw [at_exchange (getElem?_insert_slab hslabs), hrecords] at hrecord
  by_cases hid : id = id'
  · subst hid
    rw [if_pos rfl] at hrecord
    by_cases hoffset : offset' = offset
    · subst hoffset
      rw [Function.update_self] at hrecord
      exact .inl ⟨rfl, rfl, (Option.some.inj hrecord).symm⟩
    · rw [Function.update_of_ne hoffset] at hrecord
      exact .inr (hold offset' record hrecord)
  · rw [if_neg hid] at hrecord
    exact .inr hrecord

/-- A record of a key that the tier lacks comes in addition, and the others stay or go. -/
theorem Traceable.insert (h : tier.Traceable) (hlacks : tier.Lacks key) (value : ByteArray) :
    (tier.insert key value).2.Traceable ∧
      ∀ other, other ≠ key → tier.Lacks other → (tier.insert key value).2.Lacks other := by
  rcases tier.insert_placed key value with heq | ⟨id, offset, placed, hplaced, heq⟩
  · rw [heq]
    exact ⟨h, fun _ _ hother => hother⟩
  have hat (id' offset' : Nat) (record : Record)
      (hrecord : ((placed.indexRecord (KeyHash.ofKey key) id offset).touch id 0).At id' offset'
        record) :
      (id' = id ∧ offset' = offset ∧ record = ⟨key, value⟩) ∨ tier.At id' offset' record :=
    h.at_of_placed hplaced hrecord
  have hsound := h.sound.insert h.small key value
  obtain ⟨_, _, _, _, _, _, hindex, hsize⟩ := h.exists_slab_of_placed hplaced
  rw [heq] at hsound ⊢
  constructor
  · refine ⟨hsize ▸ h.small, hsound, fun id' offset' record hrecord => ?_, ?_⟩
    · refine listed_indexRecord.2 ?_
      rw [hindex]
      obtain ⟨rfl, rfl, rfl⟩ | hrecord := hat _ _ _ hrecord
      · exact .inl ⟨rfl, rfl, rfl⟩
      · exact .inr (h.listed id' offset' record hrecord)
    · intro id₁ offset₁ record₁ id₂ offset₂ record₂ hrecord₁ hrecord₂ hsame
      have hother {id' offset' : Nat} {record : Record} (hold : tier.At id' offset' record) :
          record.key ≠ key := by
        rintro rfl
        exact hlacks _ _ record.value hold
      obtain ⟨rfl, rfl, rfl⟩ | hold₁ := hat _ _ _ hrecord₁
      · obtain ⟨rfl, rfl, rfl⟩ | hold₂ := hat _ _ _ hrecord₂
        · exact ⟨rfl, rfl⟩
        · exact absurd hsame.symm (hother hold₂)
      · obtain ⟨rfl, rfl, rfl⟩ | hold₂ := hat _ _ _ hrecord₂
        · exact absurd hsame (hother hold₁)
        · exact h.unique _ _ _ _ _ _ hold₁ hold₂ hsame
  · intro other hne hother id' offset' value' hrecord
    obtain ⟨_, _, hnew⟩ | hrecord := hat _ _ _ hrecord
    · exact hne (Record.mk.inj hnew).1
    · exact hother _ _ value' hrecord

/-- A record that is refused changes nothing. -/
theorem insert_snd_of_refused (hrefused : (tier.insert key value).1 = false) :
    (tier.insert key value).2 = tier := by
  rcases tier.insert_placed key value with heq | ⟨_, _, _, _, heq⟩
  · rw [heq]
  · rw [heq] at hrefused
    cases hrefused

/-- A key that is removed is one that the tier lacks, and the others stay as they are. -/
theorem Traceable.remove (h : tier.Traceable) (key : ByteArray) :
    (tier.remove key).2.Traceable ∧ (tier.remove key).2.Lacks key ∧
      ∀ other, tier.Lacks other → (tier.remove key).2.Lacks other := by
  have hsound := h.sound.remove key
  cases hlocate : tier.locate? key with
  | none =>
    have hremove : tier.remove key = (false, tier) := by simp only [RamTier.remove, hlocate]
    rw [hremove]
    exact ⟨h, h.locate?_eq_none_iff.1 hlocate, fun _ hother => hother⟩
  | some place =>
    obtain ⟨id, offset⟩ := place
    obtain ⟨value, hrecord⟩ := at_of_locate? h.sound hlocate
    simp only [RamTier.remove, hlocate] at hsound ⊢
    have hat := at_drop h.sound hrecord (KeyHash.ofKey key)
    have hsubset (id' offset' : Nat) (record : Record) (hkept : _) :=
      ((hat id' offset' record).1 hkept).1
    refine ⟨h.of_subset (slabs_unindexRecord ..).2.2 hsound hsubset ?_, ?_,
      fun other hother => hother.of_subset hsubset⟩
    · intro id' offset' record hkept
      obtain ⟨hkept, hne⟩ := (hat ..).1 hkept
      have hlisted := h.listed id' offset' record hkept
      exact Listed.unindexRecord hlisted fun heq => hne heq.2
    · intro id' offset' value' hkept
      obtain ⟨hkept, hne⟩ := (hat ..).1 hkept
      obtain ⟨rfl, rfl⟩ := h.unique _ _ _ _ _ _ hrecord hkept rfl
      exact hne ⟨rfl, rfl⟩

/-- What leaves with a slab was in the tier, and the tier lacks what it lacked before. -/
theorem Traceable.evictOne (h : tier.Traceable)
    (hevict : tier.evictOne = some (records, tier')) :
    tier'.Traceable ∧ (∀ other, tier.Lacks other → tier'.Lacks other) ∧
      ∀ record ∈ records, ¬tier.Lacks record.key := by
  obtain ⟨id, hevict⟩ := exists_evictSlab_of_evictOne hevict
  have hsound := h.sound.evictSlab hevict
  cases hslab : tier.slabs[id]? with
  | none => simp [RamTier.evictSlab, hslab] at hevict
  | some slab =>
    rw [evictSlab_eq hslab] at hevict
    obtain ⟨rfl, htier⟩ := Prod.mk.inj (Option.some.inj hevict)
    have hslabs : tier'.slabs = tier.slabs.erase id := by rw [← htier]
    have hsize : tier'.slabSize = tier.slabSize := by rw [← htier]
    have hat := at_erase hslabs
    have hsubset (id' offset' : Nat) (record : Record) (hkept : tier'.At id' offset' record) :
        tier.At id' offset' record := ((hat ..).1 hkept).1
    refine ⟨h.of_subset hsize hsound hsubset ?_, fun other hother => hother.of_subset hsubset, ?_⟩
    · intro id' offset' record hkept
      obtain ⟨hkept, hne⟩ := (hat ..).1 hkept
      rw [← htier]
      exact listed_foldl_unindexSlab (h.listed id' offset' record hkept) hne
    · intro record hrecord hlacks
      obtain ⟨offset, hthere⟩ := Slab.Sound.mem_records_iff.1 hrecord
      exact hlacks id offset record.value ⟨slab, hslab, hthere⟩

end Traces

end RamTier

namespace DiskTier

section Keys

variable {tier : DiskTier} {key other value : ByteArray}

/-- The disk contains a key when the index has a length for its value. -/
theorem contains_eq (tier : DiskTier) (key : ByteArray) :
    tier.contains key = (tier.lengthOf? key).isSome := by
  rw [Bool.eq_iff_iff, contains, decide_eq_true_iff, lengthOf?, Option.isSome_map,
    Std.HashMap.mem_iff_isSome_getElem?]

/-- An insertion leaves all other keys as they are, however it ends. -/
theorem lengthOf?_insert_of_ne (hne : other ≠ key) :
    (tier.insert key value).2.lengthOf? other = tier.lengthOf? other := by
  by_cases hrefuses : tier.Refuses key value
  · obtain ⟨size, hrefused⟩ := insert_eq_refused hrefuses
    rw [hrefused]
  · rw [insert_eq_settle hrefuses, lengthOf?_settle, lengthOf?, appendEntry,
      LogIndex.places_append_stored, if_neg hne.symm, lengthOf?]

/-- A removal takes its key out of the tier and leaves the others, however it ends. -/
theorem lengthOf?_remove (tier : DiskTier) (key other : ByteArray) :
    (tier.remove key).2.lengthOf? other = if key = other then none else tier.lengthOf? other := by
  by_cases hcontains : tier.contains key = true
  · rw [remove_eq_settle hcontains, lengthOf?_settle, lengthOf?, appendEntry,
      LogIndex.places_append_removed]
    split
    next => rfl
    next => rfl
  · rw [remove_eq_missed hcontains]
    split
    next heq =>
      rw [contains_eq, Option.isSome_iff_ne_none, not_not] at hcontains
      rw [← heq, hcontains]
    next => rfl

/-- A key without a length in the index is not found on disk. -/
theorem find_eq_none (hlacks : tier.lengthOf? key = none) : tier.find key = .ok none := by
  rw [lengthOf?, Option.map_eq_none_iff] at hlacks
  rw [find, hlacks]

end Keys

end DiskTier

namespace TieredStore

/-- RAM can be traced, and each tier lacks some keys. -/
structure Clear (ramless diskless : Set ByteArray) (store : TieredStore) : Prop where
  traceable : store.ram.Traceable
  ram : ∀ key ∈ ramless, store.ram.Lacks key
  disk : ∀ key ∈ diskless, store.disk.lengthOf? key = none

section Clear

variable {ramless ramless' diskless diskless' gone : Set ByteArray} {store store' : TieredStore}
  {key value : ByteArray}

/-- A store that is clear of some keys is clear of fewer. -/
theorem Clear.of_subset (h : store.Clear ramless diskless) (hram : ramless' ⊆ ramless)
    (hdisk : diskless' ⊆ diskless) : store.Clear ramless' diskless' :=
  ⟨h.traceable, fun key hkey => h.ram key (hram hkey), fun key hkey => h.disk key (hdisk hkey)⟩

/-- The counters and the working set have no part in the keys that a store is clear of. -/
theorem clear_congr (store store' : TieredStore) (hsame : store.SameTiers store')
    (h : store.Clear ramless diskless) : store'.Clear ramless diskless := by
  refine ⟨?_, ?_, ?_⟩
  · rw [hsame.ram_eq]
    exact h.traceable
  · rw [hsame.ram_eq]
    exact h.ram
  · rw [hsame.disk_eq]
    exact h.disk

/-- A key that both tiers lack is in neither. -/
theorem Clear.tierOf_eq_none (h : store.Clear gone gone) (hkey : key ∈ gone) :
    store.tierOf key = none := by
  rw [tierOf, h.traceable.contains_eq_false_iff.2 (h.ram key hkey), DiskTier.contains_eq,
    h.disk key hkey]
  rfl

/-! ### Steps on the tiers -/

/-- A step of RAM always answers, and what follows it goes on from there. -/
theorem leads_onRam_bind {α β : Type} {f : RamTier → α × RamTier} {next : α → StoreM β}
    {before : TieredStore → Prop} {after : Except Error β → TieredStore → Prop}
    (between : α → TieredStore → Prop)
    (h : ∀ store, before store →
      between (f store.ram).1 { store with ram := (f store.ram).2 })
    (hnext : ∀ a, Leads (between a) (next a) after) : Leads before (onRam f >>= next) after := by
  intro store hbefore
  rw [run_bind_of_ok (yields_onRam f store)]
  exact hnext _ _ (h store hbefore)

/-- Counting keeps a store clear. -/
theorem maintains_count_clear (f : StoreStats → StoreStats) :
    Maintains (Clear ramless diskless) (count f) := maintains_count_of_congr clear_congr f

/-- RAM gets no key but the one that is stored in it. -/
theorem Clear.ramInsert (h : store.Clear (ramless ∪ {key}) diskless) (hkey : key ∉ ramless)
    (value : ByteArray) :
    Clear ramless diskless { store with ram := (store.ram.insert key value).2 } := by
  obtain ⟨htraceable, hothers⟩ := h.traceable.insert (h.ram key (.inr rfl)) value
  refine ⟨htraceable, fun other hother => hothers other ?_ (h.ram other (.inl hother)), h.disk⟩
  rintro rfl
  exact hkey hother

/-- A removal clears RAM of its key in addition. -/
theorem Clear.ramRemove (h : store.Clear ramless diskless) (key : ByteArray) :
    Clear (ramless ∪ {key}) diskless { store with ram := (store.ram.remove key).2 } := by
  obtain ⟨htraceable, hlacks, hothers⟩ := h.traceable.remove key
  refine ⟨htraceable, fun other hother => ?_, h.disk⟩
  rcases hother with hother | rfl
  · exact hothers other (h.ram other hother)
  · exact hlacks

/-- A value that goes to disk keeps the store clear of other keys. -/
theorem maintains_diskInsert_clear (hkey : key ∉ diskless) :
    Maintains (Clear ramless diskless) (onDisk (·.insert key value)) := by
  intro store h
  refine ⟨h.traceable, h.ram, fun other hother => ?_⟩
  have hne : other ≠ key := fun heq => hkey (heq ▸ hother)
  exact (DiskTier.lengthOf?_insert_of_ne hne).trans (h.disk other hother)

/-- The disk lacks a key that is removed from it, also when that fails. -/
theorem leads_diskRemove :
    Leads (Clear ramless diskless) (onDisk (·.remove key)) fun _ =>
      Clear ramless (diskless ∪ {key}) := by
  intro store h
  refine ⟨h.traceable, h.ram, fun other hother => ?_⟩
  refine (store.disk.lengthOf?_remove key other).trans ?_
  split
  next => rfl
  next hne => exact h.disk other (hother.resolve_right (Ne.symm hne))

/-! ### Operations -/

/-- What leaves RAM for the disk are records that RAM held. -/
theorem maintains_evictOne_clear (hsub : diskless ⊆ ramless) :
    Maintains (Clear ramless diskless) evictOne := by
  refine Leads.maintains ?_
  refine leads_onRam_bind (fun records? store => store.Clear ramless diskless ∧
    ∀ records, records? = some records → ∀ record ∈ records, record.key ∉ diskless)
    (fun store h => ?_) fun records? => ?_
  · cases hevict : store.ram.evictOne with
    | none => exact ⟨h, nofun⟩
    | some evicted =>
      obtain ⟨records, ram⟩ := evicted
      obtain ⟨htraceable, hothers, hheld⟩ := h.traceable.evictOne hevict
      refine ⟨⟨htraceable, fun key hkey => hothers key (h.ram key hkey), h.disk⟩, ?_⟩
      intro records' hrecords record hrecord hlacked
      obtain rfl : records = records' := Option.some.inj hrecords
      exact hheld record hrecord (h.ram _ (hsub hlacked))
  · split
    next => exact .pure fun _ h => h.1
    next records =>
      intro store h
      have hdemotes : Leads (Clear ramless diskless) (records.forM demote) fun _ =>
          Clear ramless diskless :=
        .forM fun record hrecord => maintains_demote_of_congr clear_congr
          (maintains_diskInsert_clear (h.2 records rfl record hrecord))
      have hrest : Maintains (Clear ramless diskless) (do
          count fun s => { s with evictedSlabs := s.evictedSlabs + 1 }
          records.forM demote
          return true) :=
        (maintains_count_clear _).bind fun _ => Maintains.bind hdemotes fun _ => .pure true
      exact hrest store h.1

/-- Storing in RAM brings no key there but its own, and none to the disk that RAM lacked. A refusal
leaves RAM as it was, so that the key may be stored after an eviction. -/
theorem leads_insertRam (hkey : key ∉ ramless) (hsub : diskless ⊆ ramless) :
    Leads (Clear (ramless ∪ {key}) diskless) (insertRam key value) fun _ =>
      Clear ramless diskless := by
  have hweaken (store : TieredStore) (h : store.Clear (ramless ∪ {key}) diskless) :
      store.Clear ramless diskless := h.of_subset Set.subset_union_left subset_rfl
  refine leads_onRam_bind (fun stored store => store.Clear ramless diskless ∧
    (stored = false → store.Clear (ramless ∪ {key}) diskless)) (fun store h => ?_) fun stored => ?_
  · refine ⟨h.ramInsert hkey value, fun hrefused => ?_⟩
    rw [RamTier.insert_snd_of_refused hrefused]
    exact h
  · split
    next => exact .pure fun _ h => h.1
    next hrefused =>
      have hagain : Leads (Clear (ramless ∪ {key}) diskless) (do
          let store ← get
          if !store.ram.fits key value || !store.canDemote then return false
          if ← evictOne then onRam (·.insert key value) else return false) fun _ =>
          Clear ramless diskless := by
        refine Leads.bind_of_maintains .get (fun _ => hweaken) fun store => ?_
        split
        next => exact .pure hweaken
        have hevict := maintains_evictOne_clear (hsub.trans (Set.subset_union_left (t := {key})))
        refine Leads.bind_of_maintains hevict (fun _ => hweaken) fun evicted => ?_
        split
        next => exact fun store h => h.ramInsert hkey value
        next => exact .pure hweaken
      exact hagain.imp (fun _ h => h.2 (Bool.eq_false_of_not_eq_true hrefused)) fun _ _ h => h

/-- Both tiers lack a key that is removed, however the removal ends. -/
theorem leads_remove :
    Leads (Clear ramless diskless) (remove key) fun _ =>
      Clear (ramless ∪ {key}) (diskless ∪ {key}) := by
  refine leads_onRam_bind (fun _ => Clear (ramless ∪ {key}) diskless)
    (fun store h => h.ramRemove key) fun inRam => ?_
  refine leads_diskRemove.bind (fun _ _ h => h) fun onDisk => Leads.of_maintains ?_
  split
  next =>
    exact (maintains_of_sameTiers clear_congr (exists_untrack key)).bind fun _ => .pure _
  next => exact .pure _

/-- An insertion brings no other key into the store, however it ends. -/
theorem maintains_insert_clear (hkey : key ∉ gone) :
    Maintains (Clear gone gone) (insert key value) := by
  have hend (tier : Tier) : Leads (Clear gone gone) (do
      track key (value.size % wordLimit)
      count fun s => { s with inserts := s.inserts + 1 }
      return tier) fun _ => Clear gone gone :=
    (maintains_of_sameTiers clear_congr (exists_track key _)).bind fun _ =>
      (maintains_count_clear _).bind fun _ => .pure tier
  refine Leads.maintains ?_
  refine Leads.bind_of_maintains .get (fun _ _ h => h) fun store => ?_
  refine Leads.bind_of_maintains (.liftExcept _) (fun _ _ h => h) fun _ => ?_
  have hremoved (_ : Except Error Bool) (store : TieredStore)
      (h : store.Clear (gone ∪ {key}) (gone ∪ {key})) : store.Clear (gone ∪ {key}) gone :=
    h.of_subset subset_rfl Set.subset_union_left
  refine Leads.bind (leads_remove.imp (fun _ h => h) hremoved)
    (fun _ _ h => h.of_subset Set.subset_union_left subset_rfl) fun _ => ?_
  refine (leads_insertRam hkey subset_rfl).bind (fun _ _ h => h) fun stored => ?_
  split
  next => exact Leads.bind_of_maintains (.pure _) (fun _ _ h => h) hend
  next =>
    refine Leads.bind_of_maintains (maintains_diskInsert_clear hkey) (fun _ _ h => h) fun _ => ?_
    exact Leads.bind_of_maintains (.pure _) (fun _ _ h => h) hend

/-- A value that was found on disk may get into RAM, and nothing else does. -/
theorem leads_promote (hkey : key ∉ gone) :
    Leads (Clear (gone ∪ {key}) gone) (promote key value) fun _ => Clear gone gone := by
  have hmove : Leads (Clear (gone ∪ {key}) gone)
      (MonadExcept.tryCatch (insertRam key value) fun _ => return false) fun _ =>
      Clear gone gone :=
    (leads_insertRam hkey subset_rfl).tryCatch (fun _ _ h => h) fun _ => .of_maintains (.pure false)
  refine hmove.bind (fun _ _ h => h) fun moved => ?_
  split
  next =>
    have hremoved (_ : Except Error Bool) (store : TieredStore)
        (h : store.Clear gone (gone ∪ {key})) : store.Clear gone gone :=
      h.of_subset subset_rfl Set.subset_union_left
    exact (leads_diskRemove.imp (fun _ h => h) hremoved).bind (fun _ _ h => h) fun _ =>
      .of_maintains (maintains_count_clear _)
  next => exact .of_maintains (.pure ())

/-- Nothing is found on disk under a key that it lacks. -/
theorem leads_diskFind :
    Leads (Clear ramless diskless) (onDisk fun disk => (disk.find key, disk)) fun outcome store =>
      store.Clear ramless diskless ∧ (key ∈ diskless → outcome = .ok none) :=
  fun _ h => ⟨h, fun hkey => DiskTier.find_eq_none (h.disk key hkey)⟩

/-- What follows a read from disk moves its key alone. -/
theorem leads_answer_disk (hkey : key ∉ gone) :
    Leads (Clear (gone ∪ {key}) gone) (do
      trackRead key
      count fun s => { s with diskHits := s.diskHits + 1 }
      promote key value
      return some (⟨value, .disk⟩ : Found)) fun _ => Clear gone gone := by
  have hweaken (store : TieredStore) (h : store.Clear (gone ∪ {key}) gone) :
      store.Clear gone gone := h.of_subset Set.subset_union_left subset_rfl
  refine Leads.bind_of_maintains (maintains_of_sameTiers clear_congr (exists_trackRead key))
    (fun _ => hweaken) fun _ => ?_
  refine Leads.bind_of_maintains (maintains_count_clear _) (fun _ => hweaken) fun _ => ?_
  exact (leads_promote hkey).bind (fun _ _ h => h) fun _ => .pure fun _ h => h

/-- A read brings no key into the store: it moves the one that it has found on disk. -/
theorem maintains_find_clear (key : ByteArray) : Maintains (Clear gone gone) (find key) := by
  refine Leads.maintains ?_
  refine leads_onRam_bind (fun value? store => store.Clear gone gone ∧
    (value? = none → store.Clear (gone ∪ {key}) gone)) (fun store h => ?_) fun inRam? => ?_
  · cases hfind : store.ram.find key with
    | none =>
      refine ⟨h, fun _ => ⟨h.traceable, fun other hother => ?_, h.disk⟩⟩
      rcases hother with hother | rfl
      · exact h.ram other hother
      · exact h.traceable.lacks_of_find hfind
    | some found =>
      obtain ⟨hslabs, _, _⟩ := RamTier.find_slabs hfind
      exact ⟨⟨h.traceable.find hfind, fun other hother => (h.ram other hother).congr hslabs,
        h.disk⟩, nofun⟩
  split
  next value =>
    have hanswer : Maintains (Clear gone gone) (do
        trackRead key
        count fun s => { s with ramHits := s.ramHits + 1 }
        return some (⟨value, .ram⟩ : Found)) :=
      (maintains_of_sameTiers clear_congr (exists_trackRead key)).bind fun _ =>
        (maintains_count_clear _).bind fun _ => .pure _
    exact (Leads.of_maintains hanswer).imp (fun _ h => h.1) fun _ _ h => h
  next =>
    have hweaken (store : TieredStore) (h : store.Clear (gone ∪ {key}) gone) :
        store.Clear gone gone := h.of_subset Set.subset_union_left subset_rfl
    refine (leads_diskFind.imp (fun _ h => h.2 rfl) fun _ _ h => h).bind
      (fun _ _ h => hweaken _ h.1) fun value? => ?_
    split
    next =>
      have hmissed : Maintains (Clear gone gone) (do
          count fun s => { s with misses := s.misses + 1 }
          return (none : Option Found)) := (maintains_count_clear _).bind fun _ => .pure _
      exact (Leads.of_maintains hmissed).imp (fun _ h => hweaken _ h.1) fun _ _ h => h
    next value =>
      by_cases hkey : key ∈ gone
      · exact fun store h => by cases h.2 hkey
      · exact (leads_answer_disk hkey).imp (fun _ h => h.1) fun _ _ h => h

/-- A key that both tiers lack is not found. -/
theorem Clear.yields_find (h : store.Clear gone gone) (hkey : key ∈ gone) :
    Yields (find key) store none
      { store with stats := { store.stats with misses := store.stats.misses + 1 } } := by
  have hram : store.ram.find key = none := (h.ram key hkey).find_eq_none h.traceable
  have hdisk : Runs (onDisk fun disk => (disk.find key, disk)) store (.ok none) store :=
    runs_onDisk (congrArg (·, store.disk) (DiskTier.find_eq_none (h.disk key hkey)))
  refine (yields_onRam _ store).bind ?_
  simp only [hram]
  exact Yields.bind hdisk rfl

/-- Evictions keep a store clear of keys that no tier holds. -/
theorem maintains_shrink_clear (slabs rounds : Nat) :
    Maintains (Clear gone gone) (shrink slabs rounds) := by
  induction rounds with
  | zero => exact .pure 0
  | succ rounds ih =>
    refine Maintains.get.bind fun store => ?_
    split
    next => exact .pure 0
    refine (maintains_evictOne_clear subset_rfl).bind fun evicted => ?_
    split
    next => exact ih.bind fun _ => .pure _
    next => exact .pure 0

/-- A new ceiling keeps a store clear of keys that no tier holds. -/
theorem maintains_resizeBytes_clear (bytes : Nat) :
    Maintains (Clear gone gone) (resizeBytes bytes) := by
  refine Maintains.get.bind fun store => Maintains.bind (.modify fun store h => ?_) fun _ =>
    Maintains.get.bind fun _ => maintains_shrink_clear _ _
  exact ⟨h.traceable.congr rfl rfl rfl, fun key hkey => (h.ram key hkey).congr rfl, h.disk⟩

end Clear

end TieredStore

end ElasticCache
