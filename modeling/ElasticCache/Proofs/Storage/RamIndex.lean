import ElasticCache.Proofs.Storage.RamMap

/-!
# The index of the RAM tier

The index names exactly the places of the records that the slabs hold, each of them once and under
the hash of its key, and keeps no entry that names nothing. It is pruned in two ways: a removal
takes out one place, and an eviction all places of a slab under the hashes of the records it had.
-/

namespace ElasticCache

namespace RamTier

/-- An index without an entry that names nothing, in which no place stands twice. -/
def Tidy (index : PlaceIndex) : Prop :=
  ∀ (hash : UInt64) (places : Std.TreeMap Nat (List Nat)), index[hash]? = some places →
    places.isEmpty = false ∧ ∀ (id : Nat) (offsets : List Nat), places[id]? = some offsets →
      offsets ≠ [] ∧ offsets.Nodup

/-- The index and the usage table agree with the slabs. -/
structure InStep (tier : RamTier) : Prop where
  /-- The places listed are those of the records, each under the hash of its key. -/
  listed_iff : ∀ hash id offset, Listed tier.index hash id offset ↔
    ∃ record, tier.At id offset record ∧ KeyHash.ofKey record.key = hash
  tidy : Tidy tier.index
  /-- The use of exactly the loaded slabs is known. -/
  known : ∀ id, id ∈ tier.usage ↔ id ∈ tier.slabs

section Index

variable {tier : RamTier} {index : PlaceIndex} {places : Std.TreeMap Nat (List Nat)}
  {hash hash' : UInt64} {id offset id' offset' : Nat}

/-- A place is listed under a hash with places when it is among them. -/
theorem listed_of_getElem? (hplaces : index[hash]? = some places) :
    Listed index hash id offset ↔ offset ∈ places.getD id [] := by
  rw [Listed, Std.HashMap.getD_eq_getD_getElem?, hplaces, Option.getD_some]

/-- No place is listed under a hash without places. -/
theorem not_listed_of_getElem? (hplaces : index[hash]? = none) : ¬Listed index hash id offset := by
  rw [Listed, Std.HashMap.getD_eq_getD_getElem?, hplaces]
  exact List.not_mem_nil

/-- Places that are tidy may take those of a hash, and an entry without places is not kept. -/
theorem Tidy.exchange (h : Tidy index) (hash : UInt64) (places : Std.TreeMap Nat (List Nat))
    (hplaces : ∀ (id : Nat) (offsets : List Nat), places[id]? = some offsets →
      offsets ≠ [] ∧ offsets.Nodup) :
    Tidy (if places.isEmpty then index.erase hash else index.insert hash places) := by
  intro hash' places' hfound
  split at hfound
  next =>
    rw [Std.HashMap.getElem?_erase] at hfound
    split at hfound
    next => cases hfound
    next => exact h hash' places' hfound
  next hsome =>
    rw [Std.HashMap.getElem?_insert] at hfound
    split at hfound
    next =>
      obtain rfl := Option.some.inj hfound
      exact ⟨Bool.eq_false_iff.2 hsome, hplaces⟩
    next => exact h hash' places' hfound

/-- The offsets of a tidy index are some, and none stands twice. -/
theorem Tidy.of_getD (h : Tidy index) (hash : UInt64) (id : Nat) (offsets : List Nat)
    (hoffsets : (index.getD hash ∅)[id]? = some offsets) : offsets ≠ [] ∧ offsets.Nodup := by
  rw [Std.HashMap.getD_eq_getD_getElem?] at hoffsets
  cases hplaces : index[hash]? with
  | none => simp [hplaces] at hoffsets
  | some places =>
    rw [hplaces, Option.getD_some] at hoffsets
    exact (h hash places hplaces).2 id offsets hoffsets

/-- The offsets of a slab under a hash are different. -/
theorem Tidy.nodup_getD (h : Tidy index) (hash : UInt64) (id : Nat) :
    ((index.getD hash ∅).getD id []).Nodup := by
  rw [Std.TreeMap.getD_eq_getD_getElem?]
  cases hoffsets : (index.getD hash ∅)[id]? with
  | none => exact List.nodup_nil
  | some offsets => exact (h.of_getD hash id offsets hoffsets).2

/-- A place that was not listed can be entered. -/
theorem Tidy.indexRecord (h : Tidy tier.index) (hnew : ¬Listed tier.index hash id offset) :
    Tidy (tier.indexRecord hash id offset).index := by
  have hnodup : ((tier.index.getD hash ∅).getD id [] ++ [offset]).Nodup := by
    rw [List.nodup_append']
    exact ⟨h.nodup_getD hash id, List.nodup_singleton offset, by simpa [Listed] using hnew⟩
  have hsome : ((tier.index.getD hash ∅).insert id
      ((tier.index.getD hash ∅).getD id [] ++ [offset])).isEmpty = false :=
    Std.TreeMap.isEmpty_insert
  have hexchange := h.exchange hash ((tier.index.getD hash ∅).insert id
      ((tier.index.getD hash ∅).getD id [] ++ [offset])) ?_
  · rw [hsome] at hexchange
    exact hexchange
  · intro id' offsets hoffsets
    rw [Std.TreeMap.getElem?_insert] at hoffsets
    split at hoffsets
    next =>
      obtain rfl := Option.some.inj hoffsets
      exact ⟨by simp, hnodup⟩
    next => exact h.of_getD hash id' offsets hoffsets

/-- Taking a record out takes out its place and no other. -/
theorem listed_unindexRecord :
    Listed (tier.unindexRecord hash id offset).index hash' id' offset' ↔
      Listed tier.index hash' id' offset' ∧ ¬(hash = hash' ∧ id = id' ∧ offset' = offset) := by
  refine ⟨fun hlisted => ?_, fun h => h.1.unindexRecord h.2⟩
  unfold RamTier.unindexRecord at hlisted
  split at hlisted
  next hnone =>
    refine ⟨hlisted, ?_⟩
    rintro ⟨rfl, rfl, rfl⟩
    exact not_listed_of_getElem? hnone hlisted
  next places hplaces =>
    rw [listed_exchange] at hlisted
    split at hlisted
    next hhash =>
      subst hhash
      rw [listed_of_getElem? hplaces]
      by_cases hid : id = id'
      · subst hid
        split at hlisted
        next => simp at hlisted
        next =>
          rw [Std.TreeMap.getD_insert_self, List.mem_filter, decide_eq_true_eq] at hlisted
          exact ⟨hlisted.1, fun heq => hlisted.2 heq.2.2⟩
      · split at hlisted
        · rw [Std.TreeMap.getD_erase, if_neg (by simpa using hid)] at hlisted
          exact ⟨hlisted, fun heq => hid heq.2.1⟩
        · rw [Std.TreeMap.getD_insert, if_neg (by simpa using hid)] at hlisted
          exact ⟨hlisted, fun heq => hid heq.2.1⟩
    next hhash => exact ⟨hlisted, fun heq => hhash heq.1⟩

/-- Taking out one record leaves the index tidy. -/
theorem Tidy.unindexRecord (h : Tidy tier.index) :
    Tidy (tier.unindexRecord hash id offset).index := by
  unfold RamTier.unindexRecord
  split
  next => exact h
  next places hplaces =>
    refine h.exchange hash _ fun id' offsets hoffsets => ?_
    split at hoffsets
    next =>
      rw [Std.TreeMap.getElem?_erase] at hoffsets
      split at hoffsets
      next => cases hoffsets
      next => exact (h hash places hplaces).2 id' offsets hoffsets
    next hsome =>
      rw [Std.TreeMap.getElem?_insert] at hoffsets
      split at hoffsets
      next =>
        obtain rfl := Option.some.inj hoffsets
        have hnodup := h.nodup_getD hash id
        rw [Std.HashMap.getD_eq_getD_getElem?, hplaces, Option.getD_some] at hnodup
        exact ⟨by simpa using hsome, hnodup.filter _⟩
      next => exact (h hash places hplaces).2 id' offsets hoffsets

/-- Taking out the entries of one slab under one hash takes out no other. -/
theorem listed_unindexSlab :
    Listed (unindexSlab index id hash) hash' id' offset' ↔
      Listed index hash' id' offset' ∧ ¬(hash = hash' ∧ id = id') := by
  unfold RamTier.unindexSlab
  split
  next hnone =>
    refine ⟨fun hlisted => ⟨hlisted, ?_⟩, fun h => h.1⟩
    rintro ⟨rfl, rfl⟩
    exact not_listed_of_getElem? hnone hlisted
  next places hplaces =>
    rw [listed_exchange]
    by_cases hhash : hash = hash'
    · subst hhash
      rw [if_pos rfl, listed_of_getElem? hplaces, Std.TreeMap.getD_erase]
      by_cases hid : id = id' <;> simp [hid]
    · simp [hhash]

/-- Taking out the entries of one slab under one hash leaves the index tidy. -/
theorem Tidy.unindexSlab (h : Tidy index) : Tidy (unindexSlab index id hash) := by
  unfold RamTier.unindexSlab
  split
  next => exact h
  next places hplaces =>
    refine h.exchange hash _ fun id' offsets hoffsets => ?_
    rw [Std.TreeMap.getElem?_erase] at hoffsets
    split at hoffsets
    next => cases hoffsets
    next => exact (h hash places hplaces).2 id' offsets hoffsets

/-- An eviction takes out the places of its slab under the hashes of some records. -/
theorem listed_foldl_unindexSlab_iff (records : List Record) :
    Listed (records.foldl (fun index record => unindexSlab index id (KeyHash.ofKey record.key))
        index) hash' id' offset' ↔
      Listed index hash' id' offset' ∧
        ¬(id = id' ∧ ∃ record ∈ records, KeyHash.ofKey record.key = hash') := by
  induction records generalizing index with
  | nil => simp
  | cons record rest ih =>
    rw [List.foldl_cons, ih, listed_unindexSlab, and_assoc, ← not_or]
    refine and_congr_right fun _ => not_congr ?_
    simp only [List.mem_cons, exists_eq_or_imp, and_or_left, and_comm]

/-- Taking out all records of a slab leaves the index tidy. -/
theorem Tidy.foldl_unindexSlab (h : Tidy index) (records : List Record) :
    Tidy (records.foldl (fun index record => RamTier.unindexSlab index id
      (KeyHash.ofKey record.key)) index) := by
  induction records generalizing index with
  | nil => exact h
  | cons record rest ih => exact ih h.unindexSlab

end Index

/-! ## Where an insertion puts a record -/

/-- A record has got its place: in a slab that is loaded, or in a new one below the ceiling. -/
inductive Placed (tier : RamTier) (key value : ByteArray) : (id offset : Nat) → RamTier → Prop
  | loaded {id offset : Nat} {slab slab' : Slab} (hslab : tier.slabs[id]? = some slab)
      (hinsert : slab.insert key value = some (offset, slab')) :
      tier.Placed key value id offset { tier with slabs := tier.slabs.insert id slab' }
  | opened {offset : Nat} {slab' : Slab} (hbelow : tier.loadedSlabs < tier.maxSlabs)
      (hinsert : (Slab.new tier.nextId tier.slabSize).insert key value = some (offset, slab')) :
      tier.Placed key value tier.nextId offset { tier with
        nextId := (tier.nextId + 1) % wordLimit
        slabs := tier.slabs.insert tier.nextId slab'
        usage := tier.usage.insert tier.nextId ⟨0, tier.clock, false⟩ }

section Steps

variable {tier tier' placed : RamTier} {opened : Nat} {held : ByteArray → Option ByteArray}
  {key value : ByteArray} {id offset : Nat} {records : List Record}

/-- A record is refused with no change, or gets its place, is indexed and touches its slab. -/
theorem insert_placed (tier : RamTier) (key value : ByteArray) :
    tier.insert key value = (false, tier) ∨ ∃ id offset placed,
      tier.Placed key value id offset placed ∧ tier.insert key value =
        (true, (placed.indexRecord (KeyHash.ofKey key) id offset).touch id 0) := by
  unfold insert
  split
  next => exact .inl rfl
  next needed _ =>
    cases hloaded : tier.placeLoaded key value needed with
    | some place =>
      obtain ⟨id, offset, slab'⟩ := place
      obtain ⟨slab, hslab, hinsert⟩ := exists_of_placeLoaded hloaded
      exact .inr ⟨id, offset, _, .loaded hslab hinsert, rfl⟩
    | none =>
      cases hopen : tier.openSlab key value with
      | none => exact .inl rfl
      | some place =>
        obtain ⟨id, offset, tier₁⟩ := place
        rw [openSlab] at hopen
        split at hopen
        next => cases hopen
        next hbelow =>
          simp only [Option.bind_eq_bind, Option.bind_eq_some_iff] at hopen
          obtain ⟨⟨offset', slab'⟩, hinsert, hpair⟩ := hopen
          obtain ⟨rfl, rfl, rfl⟩ : tier.nextId = id ∧ offset' = offset ∧ _ = tier₁ := by
            simpa using hpair
          exact .inr ⟨_, _, _, .opened (by omega) hinsert, rfl⟩

/-- The slab that takes a record is in order and holds what the tier held there, nothing if it is
new. -/
theorem Holds.exists_slab_of_placed (h : tier.Holds opened held) (hopened : opened < wordLimit)
    (hplaced : tier.Placed key value id offset placed) : ∃ slab slab' : Slab, slab.Sound ∧
      slab.insert key value = some (offset, slab') ∧
      (∀ offset' record, slab.recordAt? offset' = some record ↔ tier.At id offset' record) ∧
      placed.slabs = tier.slabs.insert id slab' ∧ placed.index = tier.index := by
  cases hplaced with
  | @loaded _ _ slab slab' hslab hinsert =>
    refine ⟨slab, slab', h.sound id slab hslab, hinsert, fun offset' record => ?_, rfl, rfl⟩
    simp [At, hslab]
  | @opened _ slab' hbelow hinsert =>
    refine ⟨_, slab', Slab.sound_new h.small, hinsert, fun offset' record => ?_, rfl, rfl⟩
    have hempty : (Slab.new tier.nextId tier.slabSize).recordAt? offset' = none :=
      Slab.recordAt?_of_not_mem Std.TreeSet.not_mem_emptyc
    simp [At, h.getElem?_nextId hopened, hempty]

/-- The use of the slab that takes a record is known, too. -/
theorem InStep.known_of_placed (h : tier.InStep)
    (hplaced : tier.Placed key value id offset placed) (id' : Nat) :
    id' ∈ placed.usage ↔ id' ∈ placed.slabs := by
  cases hplaced with
  | loaded hslab _ =>
    have hmem : id ∈ tier.slabs := by
      rw [Std.TreeMap.mem_iff_isSome_getElem?, hslab]
      rfl
    simp only [Std.TreeMap.mem_insert, Nat.compare_eq_eq, h.known]
    constructor
    · exact .inr
    · rintro (rfl | hmem')
      · exact hmem
      · exact hmem'
  | opened _ _ => simp only [Std.TreeMap.mem_insert, h.known]

/-- The index of a new tier is in step with it. -/
theorem inStep_new (slabSize maxSlabs staleAfter : Nat) :
    (new slabSize maxSlabs staleAfter).InStep := by
  constructor
  · intro hash id offset
    constructor
    · intro hlisted
      exact (not_listed_of_getElem? Std.HashMap.getElem?_empty hlisted).elim
    · rintro ⟨record, ⟨slab, hslab, _⟩, _⟩
      cases hslab
  · intro hash places hplaces
    have hnone : (new slabSize maxSlabs staleAfter).index[hash]? = none :=
      Std.HashMap.getElem?_empty
    rw [hnone] at hplaces
    cases hplaces
  · exact fun id => Iff.rfl

/-- The index does not depend on how slabs are used, on the clock and on the ceiling. -/
theorem InStep.congr (h : tier.InStep) (hslabs : tier'.slabs = tier.slabs)
    (hindex : tier'.index = tier.index) (husage : ∀ id, id ∈ tier'.usage ↔ id ∈ tier.usage) :
    tier'.InStep := by
  constructor
  · intro hash id offset
    rw [hindex, h.listed_iff]
    simp only [At, hslabs]
  · rw [hindex]
    exact h.tidy
  · intro id
    rw [husage, hslabs, h.known]

/-- A touch leaves the index in step. -/
theorem InStep.touch (h : tier.InStep) (id hits : Nat) : (tier.touch id hits).InStep :=
  h.congr rfl rfl fun _ => Std.TreeMap.mem_modify

/-- A tick leaves the index in step. -/
theorem InStep.tick (h : tier.InStep) : tier.tick.2.InStep := by
  unfold RamTier.tick
  dsimp only
  split
  next => exact h.congr rfl rfl fun _ => Iff.rfl
  next => exact h.congr rfl rfl fun _ => Std.TreeMap.mem_map

/-- A read leaves the index in step. -/
theorem InStep.find (h : tier.InStep) (hfind : tier.find key = some (value, tier')) :
    tier'.InStep := by
  simp only [RamTier.find, Option.bind_eq_bind, Option.bind_eq_some_iff] at hfind
  obtain ⟨⟨id, offset⟩, _, slab, _, read, _, hfind⟩ := hfind
  obtain ⟨_, rfl⟩ := Prod.mk.inj (Option.some.inj hfind)
  exact h.touch id 1

/-- The place of a new record is listed with the others. -/
theorem InStep.insert (h : tier.InStep) (hholds : tier.Holds opened held)
    (hopened : opened < wordLimit) (key value : ByteArray) :
    (tier.insert key value).2.InStep := by
  rcases tier.insert_placed key value with heq | ⟨id, offset, placed, hplaced, heq⟩
  · rw [heq]
    exact h
  · rw [heq]
    obtain ⟨slab, slab', hsound, hinsert, hold, hslabs, hindex⟩ :=
      hholds.exists_slab_of_placed hopened hplaced
    have hat := at_store hsound hinsert hold (getElem?_insert_slab hslabs)
    have hnew : ¬Listed placed.index (KeyHash.ofKey key) id offset := by
      rw [hindex, h.listed_iff]
      rintro ⟨record, hrecord, _⟩
      rw [← hold, Slab.recordAt?_of_not_mem (hsound.insert hinsert).2.2.1] at hrecord
      cases hrecord
    apply InStep.touch
    constructor
    · intro hash id' offset'
      rw [listed_indexRecord, hindex, h.listed_iff]
      constructor
      · rintro (⟨rfl, rfl, rfl⟩ | ⟨record, hrecord, hhash⟩)
        · exact ⟨⟨key, value⟩, (hat ..).2 (.inl ⟨rfl, rfl, rfl⟩), rfl⟩
        · exact ⟨record, (hat ..).2 (.inr hrecord), hhash⟩
      · rintro ⟨record, hrecord, rfl⟩
        rcases (hat ..).1 hrecord with ⟨rfl, rfl, rfl⟩ | hrecord
        · exact .inl ⟨rfl, rfl, rfl⟩
        · exact .inr ⟨record, hrecord, rfl⟩
    · apply Tidy.indexRecord _ hnew
      rw [hindex]
      exact h.tidy
    · intro id'
      have hknown := h.known_of_placed hplaced id'
      exact hknown

/-- The place of a removed record is no longer listed, and all others are. -/
theorem InStep.remove (h : tier.InStep) (hholds : tier.Holds opened held) (key : ByteArray) :
    (tier.remove key).2.InStep := by
  rcases hholds.locate?_cases key with ⟨_, hlocate⟩ | ⟨id, offset, value, _, hlocate, hat⟩
  · rw [RamTier.remove, hlocate]
    exact h
  · rw [RamTier.remove, hlocate]
    have hgone := hholds.at_drop hat (KeyHash.ofKey key)
    dsimp only
    constructor
    · intro hash id' offset'
      have hlisted := h.listed_iff hash id' offset'
      rw [listed_unindexRecord]
      constructor
      · rintro ⟨hmem, hne⟩
        obtain ⟨record, hrecord, rfl⟩ := hlisted.1 hmem
        refine ⟨record, (hgone ..).2 ⟨hrecord, ?_⟩, rfl⟩
        rintro ⟨rfl, rfl⟩
        obtain ⟨slab, hslab, hthere⟩ := hat
        obtain ⟨_, hslab', hthere'⟩ := hrecord
        obtain rfl := Option.some.inj (hslab.symm.trans hslab')
        obtain rfl := Option.some.inj (hthere.symm.trans hthere')
        exact hne ⟨rfl, rfl, rfl⟩
      · rintro ⟨record, hrecord, rfl⟩
        obtain ⟨hrecord, hne⟩ := (hgone ..).1 hrecord
        exact ⟨hlisted.2 ⟨record, hrecord, rfl⟩, fun heq => hne heq.2⟩
    · apply Tidy.unindexRecord
      exact h.tidy
    · intro id'
      rw [(slabs_unindexRecord ..).1, Std.TreeMap.mem_modify, ← h.known]
      unfold unindexRecord
      split <;> rfl

/-- The places of a slab that leaves are no longer listed, and all others are. -/
theorem InStep.evictSlab (h : tier.InStep) (hevict : tier.evictSlab id = some (records, tier')) :
    tier'.InStep := by
  cases hslab : tier.slabs[id]? with
  | none => simp [RamTier.evictSlab, hslab] at hevict
  | some slab =>
    rw [evictSlab_eq hslab] at hevict
    obtain ⟨rfl, htier⟩ := Prod.mk.inj (Option.some.inj hevict)
    have hslabs : tier'.slabs = tier.slabs.erase id := by rw [← htier]
    have hat := at_erase hslabs
    have hindex : tier'.index = slab.records.foldl
        (fun index record => unindexSlab index id (KeyHash.ofKey record.key)) tier.index := by
      rw [← htier]
    constructor
    · intro hash id' offset
      rw [hindex, listed_foldl_unindexSlab_iff, h.listed_iff]
      simp only [hat]
      constructor
      · rintro ⟨⟨record, hrecord, rfl⟩, hne⟩
        refine ⟨record, ⟨hrecord, ?_⟩, rfl⟩
        rintro rfl
        obtain ⟨_, hslab', hthere⟩ := hrecord
        obtain rfl := Option.some.inj (hslab.symm.trans hslab')
        exact hne ⟨rfl, record, Slab.Sound.mem_records_iff.2 ⟨offset, hthere⟩, rfl⟩
      · rintro ⟨record, ⟨hrecord, hne⟩, rfl⟩
        exact ⟨⟨record, hrecord, rfl⟩, fun heq => hne heq.1⟩
    · rw [hindex]
      exact h.tidy.foldl_unindexSlab slab.records
    · intro id'
      simp only [← htier, Std.TreeMap.mem_erase, h.known]

end Steps

end RamTier

end ElasticCache
