import ElasticCache.Storage.RamTier
import ElasticCache.Proofs.Arena.SlabRecords
import Mathlib

/-!
# The RAM tier is a map

The records of all slabs together hold a map, each key in one place. The index lists at least these
places under the hashes of their keys; a place that it lists besides does no harm, since the stored
key decides. Numbers of slabs are fresh as long as fewer were opened than there are words.
-/

namespace ElasticCache

/-- A map without some of its keys. -/
def without (held : ByteArray → Option ByteArray) (keys : List ByteArray) :
    ByteArray → Option ByteArray :=
  fun key => if key ∈ keys then none else held key

/-- Records of a map that fit one slab, each key with its value. -/
structure Batch (records : List Record) (held : ByteArray → Option ByteArray) : Prop where
  nodup : (records.map (·.key)).Nodup
  held_eq : ∀ record ∈ records, held record.key = some record.value
  sum_lt : (records.map Record.size).sum < wordLimit

namespace RamTier

/-- An index of hashes to slab numbers to offsets. -/
abbrev PlaceIndex : Type := Std.HashMap UInt64 (Std.TreeMap Nat (List Nat))

/-- A slab of the tier has a record at an offset. -/
def At (tier : RamTier) (id offset : Nat) (record : Record) : Prop :=
  ∃ slab, tier.slabs[id]? = some slab ∧ slab.recordAt? offset = some record

/-- An index lists an offset of a slab under a hash. -/
def Listed (index : PlaceIndex) (hash : UInt64) (id offset : Nat) : Prop :=
  offset ∈ (index.getD hash ∅).getD id []

/-- A tier that has opened a number of slabs holds a map. -/
structure Holds (tier : RamTier) (opened : Nat) (held : ByteArray → Option ByteArray) : Prop where
  small : tier.slabSize < wordLimit
  sound : ∀ (id : Nat) (slab : Slab), tier.slabs[id]? = some slab → slab.Sound
  ids : ∀ (id : Nat) (slab : Slab), tier.slabs[id]? = some slab → id < opened
  next : tier.nextId = opened % wordLimit
  listed : ∀ id offset record, tier.At id offset record →
    Listed tier.index (KeyHash.ofKey record.key) id offset
  unique : ∀ id offset record id' offset' record', tier.At id offset record →
    tier.At id' offset' record' → record.key = record'.key → id = id' ∧ offset = offset'
  held_iff : ∀ key value, held key = some value ↔ ∃ id offset, tier.At id offset ⟨key, value⟩

/-- A tier without slabs holds nothing. -/
theorem holds_new {slabSize : Nat} (h : slabSize < wordLimit) (maxSlabs staleAfter : Nat) :
    (new slabSize maxSlabs staleAfter).Holds 0 fun _ => none := by
  have hslabs (id : Nat) : (new slabSize maxSlabs staleAfter).slabs[id]? = none :=
    Std.TreeMap.getElem?_emptyc
  have hat (id offset : Nat) (record : Record) :
      ¬(new slabSize maxSlabs staleAfter).At id offset record := by
    rintro ⟨slab, hslab, _⟩
    rw [hslabs] at hslab
    cases hslab
  refine ⟨h, ?_, ?_, rfl, ?_, ?_, ?_⟩
  · intro id slab hslab
    rw [hslabs] at hslab
    cases hslab
  · intro id slab hslab
    rw [hslabs] at hslab
    cases hslab
  · exact fun id offset record hrecord => (hat _ _ _ hrecord).elim
  · exact fun id offset record _ _ _ hrecord => (hat _ _ _ hrecord).elim
  · exact fun key value => ⟨nofun, fun ⟨id, offset, hrecord⟩ => (hat _ _ _ hrecord).elim⟩

section Index

variable {tier : RamTier} {index : PlaceIndex} {places : Std.TreeMap Nat (List Nat)}
  {hash hash' : UInt64} {id offset id' offset' : Nat}

/-- New places of a hash are listed in the place of those that it had, and no other hash changes. -/
theorem listed_insert : Listed (index.insert hash places) hash' id' offset' ↔
    if hash = hash' then offset' ∈ places.getD id' [] else Listed index hash' id' offset' := by
  simp only [Listed, Std.HashMap.getD_insert, beq_iff_eq]
  split <;> rfl

/-- No offset is listed when there are no places. -/
theorem not_listed_of_isEmpty (h : places.isEmpty) : offset' ∉ places.getD id' [] := by
  have hnot : id' ∉ places := Std.TreeMap.isEmpty_iff_forall_not_mem.1 h id'
  rw [Std.TreeMap.getD_eq_fallback hnot]
  exact List.not_mem_nil

/-- Places under one hash are exchanged for others, which leaves those under other hashes alone. An
entry without places is not kept. -/
theorem listed_exchange : Listed (if places.isEmpty then index.erase hash
      else index.insert hash places) hash' id' offset' ↔
    if hash = hash' then offset' ∈ places.getD id' [] else Listed index hash' id' offset' := by
  split
  next hempty =>
    simp only [Listed, Std.HashMap.getD_erase, beq_iff_eq]
    split
    next =>
      exact ⟨fun h => (List.not_mem_nil h).elim, fun h => (not_listed_of_isEmpty hempty h).elim⟩
    next => rfl
  next => exact listed_insert

/-- Entering a record lists its place and keeps the places listed before. -/
theorem listed_indexRecord :
    Listed (tier.indexRecord hash id offset).index hash' id' offset' ↔
      (hash = hash' ∧ id = id' ∧ offset' = offset) ∨ Listed tier.index hash' id' offset' := by
  rw [indexRecord, listed_insert]
  by_cases hhash : hash = hash'
  · subst hhash
    simp only [if_pos, Std.TreeMap.getD_insert, Nat.compare_eq_eq]
    by_cases hid : id = id'
    · subst hid
      rw [if_pos rfl, List.mem_append, List.mem_singleton, Listed]
      tauto
    · rw [if_neg hid, Listed]
      tauto
  · rw [if_neg hhash]
    tauto

/-- Taking a record out keeps all other places. -/
theorem Listed.unindexRecord (h : Listed tier.index hash' id' offset')
    (hne : ¬(hash = hash' ∧ id = id' ∧ offset' = offset)) :
    Listed (tier.unindexRecord hash id offset).index hash' id' offset' := by
  unfold RamTier.unindexRecord
  split
  next => exact h
  next places hplaces =>
    rw [listed_exchange]
    split
    next hhash =>
      subst hhash
      rw [Listed, Std.HashMap.getD_eq_getD_getElem?, hplaces, Option.getD_some] at h
      by_cases hid : id = id'
      · subst hid
        have hmem : offset' ∈ (places.getD id []).filter (· ≠ offset) :=
          List.mem_filter.2 ⟨h, decide_eq_true fun heq => hne ⟨rfl, rfl, heq⟩⟩
        rw [if_neg fun hempty => List.ne_nil_of_mem hmem (List.isEmpty_iff.1 hempty)]
        simpa only [Std.TreeMap.getD_insert_self] using hmem
      · split
        · simpa only [Std.TreeMap.getD_erase, Nat.compare_eq_eq, if_neg hid] using h
        · simpa only [Std.TreeMap.getD_insert, Nat.compare_eq_eq, if_neg hid] using h
    next => exact h

/-- Taking out the entries of one slab keeps those of the others. -/
theorem Listed.unindexSlab (h : Listed index hash' id' offset') (hne : id ≠ id') :
    Listed (unindexSlab index id hash) hash' id' offset' := by
  unfold RamTier.unindexSlab
  split
  next => exact h
  next places hplaces =>
    rw [listed_exchange]
    split
    next hhash =>
      subst hhash
      rw [Listed, Std.HashMap.getD_eq_getD_getElem?, hplaces, Option.getD_some] at h
      simpa only [Std.TreeMap.getD_erase, Nat.compare_eq_eq, if_neg hne] using h
    next => exact h

/-- Taking out the records of a slab leaves those of the other slabs listed. -/
theorem listed_foldl_unindexSlab {records : List Record} (h : Listed index hash' id' offset')
    (hne : id ≠ id') :
    Listed (records.foldl (fun index record => RamTier.unindexSlab index id
      (KeyHash.ofKey record.key)) index) hash' id' offset' := by
  induction records generalizing index with
  | nil => exact h
  | cons record rest ih => exact ih (h.unindexSlab hne)

end Index

/-! ## Finding -/

section Finding

variable {tier tier' : RamTier} {opened : Nat} {held : ByteArray → Option ByteArray}
  {key value : ByteArray} {id offset : Nat}

/-- What is located is a record of the key. -/
theorem at_of_locate?
    (hsound : ∀ (id : Nat) (slab : Slab), tier.slabs[id]? = some slab → slab.Sound)
    (hlocate : tier.locate? key = some (id, offset)) :
    ∃ value, tier.At id offset ⟨key, value⟩ := by
  simp only [locate?, Option.bind_eq_bind, Option.bind_eq_some_iff] at hlocate
  obtain ⟨places, _, hfind⟩ := hlocate
  obtain ⟨⟨id', offsets⟩, _, hsome⟩ := List.exists_of_findSome?_eq_some hfind
  simp only [Option.bind_eq_some_iff] at hsome
  obtain ⟨slab, hslab, offset', hoffset, hpair⟩ := hsome
  obtain ⟨rfl, rfl⟩ := Prod.mk.inj (Option.some.inj hpair)
  have hholds : slab.holds offset' key = true := List.find?_some (p := (slab.holds · key)) hoffset
  obtain ⟨value, hrecord⟩ := (hsound id' slab hslab).holds_iff.1 hholds
  exact ⟨value, slab, hslab, hrecord⟩

/-- Where a key is located there is a record with it. -/
theorem Holds.at_of_locate? (h : tier.Holds opened held)
    (hlocate : tier.locate? key = some (id, offset)) :
    ∃ value, tier.At id offset ⟨key, value⟩ := RamTier.at_of_locate? h.sound hlocate

/-- A key is located when a place is listed under its hash where its record is. -/
theorem locate?_ne_none_of_listed {slab : Slab} (hslab : tier.slabs[id]? = some slab)
    (hholds : slab.holds offset key = true)
    (hlisted : Listed tier.index (KeyHash.ofKey key) id offset) : tier.locate? key ≠ none := by
  intro hnone
  rw [Listed, Std.HashMap.getD_eq_getD_getElem?] at hlisted
  cases hplaces : tier.index[KeyHash.ofKey key]? with
  | none =>
    rw [hplaces] at hlisted
    exact List.not_mem_nil hlisted
  | some places =>
    rw [hplaces, Option.getD_some, Std.TreeMap.getD_eq_getD_getElem?] at hlisted
    cases hoffsets : places[id]? with
    | none =>
      rw [hoffsets] at hlisted
      exact List.not_mem_nil hlisted
    | some offsets =>
      rw [hoffsets, Option.getD_some] at hlisted
      simp only [locate?, hplaces, Option.bind_eq_bind, Option.bind_some,
        List.findSome?_eq_none_iff] at hnone
      have hentry := hnone (id, offsets) (Std.TreeMap.mem_toList_iff_getElem?_eq_some.2 hoffsets)
      simp only [hslab, Option.bind_some, Option.bind_eq_none_iff] at hentry
      cases hfound : offsets.find? (slab.holds · key) with
      | none => exact List.find?_eq_none.1 hfound offset hlisted hholds
      | some found => exact Option.some_ne_none _ (hentry found hfound)

/-- A key that is held is located. -/
theorem Holds.locate?_ne_none (h : tier.Holds opened held) (hat : tier.At id offset ⟨key, value⟩) :
    tier.locate? key ≠ none := by
  have hlisted := h.listed id offset _ hat
  obtain ⟨slab, hslab, hrecord⟩ := hat
  have hholds : slab.holds offset key = true := (h.sound id slab hslab).holds_iff.2 ⟨value, hrecord⟩
  exact locate?_ne_none_of_listed hslab hholds hlisted

/-- The place of a key is located exactly when the key is held. -/
theorem Holds.locate?_cases (h : tier.Holds opened held) (key : ByteArray) :
    (held key = none ∧ tier.locate? key = none) ∨
      ∃ id offset value, held key = some value ∧ tier.locate? key = some (id, offset) ∧
        tier.At id offset ⟨key, value⟩ := by
  cases hlocate : tier.locate? key with
  | none =>
    refine .inl ⟨?_, rfl⟩
    cases hheld : held key with
    | none => rfl
    | some value =>
      obtain ⟨id, offset, hat⟩ := (h.held_iff key value).1 hheld
      exact absurd hlocate (h.locate?_ne_none hat)
  | some place =>
    obtain ⟨id, offset⟩ := place
    obtain ⟨value, hat⟩ := h.at_of_locate? hlocate
    exact .inr ⟨id, offset, value, (h.held_iff key value).2 ⟨id, offset, hat⟩, rfl, hat⟩

/-- The tier contains the keys that are held. -/
theorem Holds.contains_eq (h : tier.Holds opened held) (key : ByteArray) :
    tier.contains key = (held key).isSome := by
  rcases h.locate?_cases key with ⟨hheld, hlocate⟩ | ⟨id, offset, value, hheld, hlocate, _⟩
  · rw [contains, hlocate, hheld]
    rfl
  · rw [contains, hlocate, hheld]
    rfl

/-- What is held does not depend on how slabs are used, on the clock and on the ceiling. -/
theorem Holds.congr (h : tier.Holds opened held) (hsize : tier'.slabSize = tier.slabSize)
    (hslabs : tier'.slabs = tier.slabs) (hindex : tier'.index = tier.index)
    (hnext : tier'.nextId = tier.nextId) : tier'.Holds opened held := by
  have hat (id offset : Nat) (record : Record) :
      tier'.At id offset record ↔ tier.At id offset record := by rw [At, At, hslabs]
  refine ⟨by rw [hsize]; exact h.small, ?_, ?_, by rw [hnext]; exact h.next, ?_, ?_, ?_⟩
  · rw [hslabs]
    exact h.sound
  · rw [hslabs]
    exact h.ids
  · intro id offset record hrecord
    rw [hindex]
    exact h.listed id offset record ((hat ..).1 hrecord)
  · intro id offset record id' offset' record' hrecord hrecord'
    exact h.unique _ _ _ _ _ _ ((hat ..).1 hrecord) ((hat ..).1 hrecord')
  · intro key value
    simp only [hat]
    exact h.held_iff key value

/-- A lookup answers the value of a key that is held, and changes the use of its slab alone. -/
theorem Holds.exists_find (h : tier.Holds opened held) (hheld : held key = some value) :
    ∃ tier', tier.find key = some (value, tier') ∧ tier'.Holds opened held ∧
      tier'.nextId = tier.nextId := by
  rcases h.locate?_cases key with
    ⟨hnone, _⟩ | ⟨id, offset, value', hheld', hlocate, slab, hslab, hrecord⟩
  · rw [hheld] at hnone
    cases hnone
  · obtain rfl := Option.some.inj (hheld.symm.trans hheld')
    have hvalue := (h.sound id slab hslab).valueAt?_eq hrecord
    refine ⟨tier.touch id 1, ?_, h.congr rfl rfl rfl rfl, rfl⟩
    simp only [find, hlocate, hslab, hvalue, Option.bind_eq_bind, Option.bind_some]
    rfl

/-- A key that is not held is not found. -/
theorem Holds.find_eq_none (h : tier.Holds opened held) (hheld : held key = none) :
    tier.find key = none := by
  rcases h.locate?_cases key with ⟨_, hlocate⟩ | ⟨_, _, _, hheld', _⟩
  · rw [find, hlocate]
    rfl
  · rw [hheld] at hheld'
    cases hheld'

end Finding

/-! ## Storing -/

section Storing

variable {tier tier' : RamTier} {opened opened' : Nat} {held : ByteArray → Option ByteArray}
  {key value : ByteArray} {id offset : Nat}

/-- A tier with one more record, whose key was not held. -/
theorem Holds.add (h : tier.Holds opened held) (id offset : Nat) (hkey : held key = none)
    (hsize : tier'.slabSize = tier.slabSize)
    (hsound : ∀ (id : Nat) (slab : Slab), tier'.slabs[id]? = some slab → slab.Sound)
    (hids : ∀ (id : Nat) (slab : Slab), tier'.slabs[id]? = some slab → id < opened')
    (hnext : tier'.nextId = opened' % wordLimit)
    (hat : ∀ id' offset' record', tier'.At id' offset' record' ↔
      (id' = id ∧ offset' = offset ∧ record' = ⟨key, value⟩) ∨ tier.At id' offset' record')
    (hlisted : ∀ hash id' offset', Listed tier'.index hash id' offset' ↔
      (KeyHash.ofKey key = hash ∧ id = id' ∧ offset' = offset) ∨
        Listed tier.index hash id' offset') :
    tier'.Holds opened' (Function.update held key (some value)) := by
  have hother {id' offset' : Nat} {record' : Record} (hrecord : tier.At id' offset' record') :
      record'.key ≠ key := by
    rintro rfl
    have hheld := (h.held_iff record'.key record'.value).2 ⟨id', offset', hrecord⟩
    rw [hkey] at hheld
    cases hheld
  refine ⟨by rw [hsize]; exact h.small, hsound, hids, hnext, ?_, ?_, ?_⟩
  · intro id' offset' record' hrecord
    rw [hlisted]
    rcases (hat ..).1 hrecord with ⟨rfl, rfl, rfl⟩ | hrecord
    · exact .inl ⟨rfl, rfl, rfl⟩
    · exact .inr (h.listed _ _ _ hrecord)
  · intro id₁ offset₁ record₁ id₂ offset₂ record₂ hrecord₁ hrecord₂ heq
    rcases (hat ..).1 hrecord₁ with ⟨rfl, rfl, rfl⟩ | hrecord₁
    · rcases (hat ..).1 hrecord₂ with ⟨rfl, rfl, rfl⟩ | hrecord₂
      · exact ⟨rfl, rfl⟩
      · exact absurd heq.symm (hother hrecord₂)
    · rcases (hat ..).1 hrecord₂ with ⟨rfl, rfl, rfl⟩ | hrecord₂
      · exact absurd heq (hother hrecord₁)
      · exact h.unique _ _ _ _ _ _ hrecord₁ hrecord₂ heq
  · intro key' value'
    by_cases heq : key' = key
    · subst heq
      rw [Function.update_self]
      constructor
      · intro hvalue
        obtain rfl := Option.some.inj hvalue
        exact ⟨id, offset, (hat ..).2 (.inl ⟨rfl, rfl, rfl⟩)⟩
      · rintro ⟨id', offset', hrecord⟩
        rcases (hat ..).1 hrecord with ⟨_, _, hrecord⟩ | hrecord
        · rw [(Record.mk.inj hrecord).2]
        · exact absurd rfl (hother hrecord)
    · rw [Function.update_of_ne heq, h.held_iff]
      constructor
      · rintro ⟨id', offset', hrecord⟩
        exact ⟨id', offset', (hat ..).2 (.inr hrecord)⟩
      · rintro ⟨id', offset', hrecord⟩
        rcases (hat ..).1 hrecord with ⟨_, _, hrecord⟩ | hrecord
        · exact absurd (Record.mk.inj hrecord).1 heq
        · exact ⟨id', offset', hrecord⟩

/-- Slabs opened by a step: one when the number of the next slab has changed. -/
def opens (tier tier' : RamTier) : Nat := if tier'.nextId = tier.nextId then 0 else 1

/-- No slab was opened when the next number is the same. -/
theorem opens_of_eq (h : tier'.nextId = tier.nextId) : opens tier tier' = 0 := if_pos h

/-- One slab was opened when the next number is another. -/
theorem opens_of_ne (h : tier'.nextId ≠ tier.nextId) : opens tier tier' = 1 := if_neg h

/-- A step opens one slab at most. -/
theorem opens_le_one (tier tier' : RamTier) : opens tier tier' ≤ 1 := by
  unfold opens
  split <;> decide

/-- Only one slab differs when it is put in place of another or added. -/
theorem getElem?_insert_slab {slab' : Slab} (hslabs : tier'.slabs = tier.slabs.insert id slab')
    (id' : Nat) : tier'.slabs[id']? = if id = id' then some slab' else tier.slabs[id']? := by
  simp only [hslabs, Std.TreeMap.getElem?_insert, Nat.compare_eq_eq]

/-- With one slab exchanged, its records are the new ones and the others are as before. -/
theorem at_exchange {slab' : Slab}
    (hget : ∀ id', tier'.slabs[id']? = if id = id' then some slab' else tier.slabs[id']?)
    (id' offset' : Nat) (record' : Record) : tier'.At id' offset' record' ↔
      if id = id' then slab'.recordAt? offset' = some record' else tier.At id' offset' record' := by
  simp only [At, hget]
  by_cases hid : id = id'
  · simp only [if_pos hid, Option.some.injEq, exists_eq_left']
  · simp only [if_neg hid]

/-- A slab that takes a record adds it to those of the tier. -/
theorem at_store {slab slab' : Slab} (hsound : slab.Sound)
    (hinsert : slab.insert key value = some (offset, slab'))
    (hold : ∀ offset' record', slab.recordAt? offset' = some record' ↔ tier.At id offset' record')
    (hget : ∀ id', tier'.slabs[id']? = if id = id' then some slab' else tier.slabs[id']?)
    (id' offset' : Nat) (record' : Record) : tier'.At id' offset' record' ↔
      (id' = id ∧ offset' = offset ∧ record' = ⟨key, value⟩) ∨ tier.At id' offset' record' := by
  obtain ⟨_, _, hfresh, _, hrecords⟩ := hsound.insert hinsert
  rw [at_exchange hget, hrecords]
  by_cases heq : id = id'
  · subst heq
    rw [if_pos rfl, ← hold]
    by_cases hoffset : offset' = offset
    · have hnone : slab.recordAt? offset = none := Slab.recordAt?_of_not_mem hfresh
      rw [hoffset, Function.update_self, hnone, Option.some.injEq, eq_comm]
      simp only [true_and, reduceCtorEq, or_false]
    · rw [Function.update_of_ne hoffset]
      simp only [hoffset, false_and, and_false, false_or]
  · rw [if_neg heq, eq_comm (a := id')]
    simp only [heq, false_and, false_or]

/-- The slabs stay in order when one of them is exchanged for another in order. -/
theorem Holds.exchange (h : tier.Holds opened held) {slab' : Slab} (hsound : slab'.Sound)
    (hid : id < opened') (hle : opened ≤ opened')
    (hget : ∀ id', tier'.slabs[id']? = if id = id' then some slab' else tier.slabs[id']?) :
    (∀ (id₁ : Nat) (slab₁ : Slab), tier'.slabs[id₁]? = some slab₁ → slab₁.Sound) ∧
      ∀ (id₁ : Nat) (slab₁ : Slab), tier'.slabs[id₁]? = some slab₁ → id₁ < opened' := by
  have hcases (id₁ : Nat) (slab₁ : Slab) (hslab₁ : tier'.slabs[id₁]? = some slab₁) :
      (id = id₁ ∧ slab' = slab₁) ∨ tier.slabs[id₁]? = some slab₁ := by
    rw [hget] at hslab₁
    split at hslab₁
    next heq => exact .inl ⟨heq, Option.some.inj hslab₁⟩
    next => exact .inr hslab₁
  constructor
  · intro id₁ slab₁ hslab₁
    rcases hcases id₁ slab₁ hslab₁ with ⟨_, rfl⟩ | hslab₁
    · exact hsound
    · exact h.sound id₁ slab₁ hslab₁
  · intro id₁ slab₁ hslab₁
    rcases hcases id₁ slab₁ hslab₁ with ⟨rfl, _⟩ | hslab₁
    · exact hid
    · exact Nat.lt_of_lt_of_le (h.ids id₁ slab₁ hslab₁) hle

/-- A record that a slab of the tier has taken, or a new one, is held from then on. -/
theorem Holds.store (h : tier.Holds opened held) (hkey : held key = none) {slab slab' : Slab}
    (hsound : slab.Sound) (hinsert : slab.insert key value = some (offset, slab'))
    (hold : ∀ offset' record', slab.recordAt? offset' = some record' ↔ tier.At id offset' record')
    (hsize : tier'.slabSize = tier.slabSize) (hindex : tier'.index = tier.index)
    (hslabs : tier'.slabs = tier.slabs.insert id slab') (hid : id < opened')
    (hle : opened ≤ opened') (hnext : tier'.nextId = opened' % wordLimit) :
    ((tier'.indexRecord (KeyHash.ofKey key) id offset).touch id 0).Holds opened'
      (Function.update held key (some value)) := by
  have hget (id' : Nat) :
      ((tier'.indexRecord (KeyHash.ofKey key) id offset).touch id 0).slabs[id']? =
        if id = id' then some slab' else tier.slabs[id']? := getElem?_insert_slab hslabs id'
  obtain ⟨hsounds, hids⟩ := h.exchange (hsound.insert hinsert).1 hid hle hget
  refine h.add id offset hkey hsize hsounds hids hnext (at_store hsound hinsert hold hget) ?_
  intro hash id' offset'
  rw [← hindex]
  exact listed_indexRecord

/-- A loaded slab with room for a record is one of the tier that takes it. -/
theorem exists_of_placeLoaded {needed : Nat} {slab' : Slab}
    (hplaced : tier.placeLoaded key value needed = some (id, offset, slab')) :
    ∃ slab, tier.slabs[id]? = some slab ∧ slab.insert key value = some (offset, slab') := by
  obtain ⟨⟨id', slab⟩, hmem, hfound⟩ := List.exists_of_findSome?_eq_some hplaced
  simp only at hfound
  split at hfound
  next =>
    obtain ⟨⟨offset', slab₁⟩, hinsert, hpair⟩ := Option.map_eq_some_iff.1 hfound
    obtain ⟨rfl, rfl, rfl⟩ : id' = id ∧ offset' = offset ∧ slab₁ = slab' := by
      simpa using hpair
    exact ⟨slab, Std.TreeMap.mem_toList_iff_getElem?_eq_some.1 hmem, hinsert⟩
  next => cases hfound

/-- A record for which a loaded slab has room is held from then on. -/
theorem Holds.placeLoaded (h : tier.Holds opened held) (hkey : held key = none) {needed : Nat}
    {slab' : Slab} (hplaced : tier.placeLoaded key value needed = some (id, offset, slab')) :
    (({ tier with slabs := tier.slabs.insert id slab' }.indexRecord
      (KeyHash.ofKey key) id offset).touch id 0).Holds opened
        (Function.update held key (some value)) := by
  obtain ⟨slab, hslab, hinsert⟩ := exists_of_placeLoaded hplaced
  refine h.store hkey (h.sound _ _ hslab) hinsert ?_ rfl rfl rfl (h.ids _ _ hslab)
    (Nat.le_refl _) h.next
  intro offset₁ record₁
  simp only [At, hslab, Option.some.injEq, exists_eq_left']

/-- The number of the next slab is fresh as long as the numbers have not wrapped around. -/
theorem Holds.getElem?_nextId (h : tier.Holds opened held) (hopened : opened < wordLimit) :
    tier.slabs[tier.nextId]? = none := by
  have hnext : tier.nextId = opened := by rw [h.next, Nat.mod_eq_of_lt hopened]
  cases hslab : tier.slabs[tier.nextId]? with
  | none => rfl
  | some slab =>
    have hlt := h.ids _ _ hslab
    omega

/-- A record in a new slab is held from then on. The number of the slab is fresh as long as the
numbers have not wrapped around. -/
theorem Holds.openSlab (h : tier.Holds opened held) (hkey : held key = none)
    (hopened : opened < wordLimit) (hopen : tier.openSlab key value = some (id, offset, tier')) :
    tier'.nextId ≠ tier.nextId ∧
      ((tier'.indexRecord (KeyHash.ofKey key) id offset).touch id 0).Holds (opened + 1)
        (Function.update held key (some value)) := by
  rw [RamTier.openSlab] at hopen
  split at hopen
  next => cases hopen
  next =>
    simp only [Option.bind_eq_bind, Option.bind_eq_some_iff] at hopen
    obtain ⟨⟨offset', slab'⟩, hinsert, hpair⟩ := hopen
    obtain ⟨rfl, rfl, rfl⟩ : tier.nextId = id ∧ offset' = offset ∧ _ = tier' := by
      simpa using hpair
    have hnext : tier.nextId = opened := by rw [h.next, Nat.mod_eq_of_lt hopened]
    have hnone := h.getElem?_nextId hopened
    constructor
    · show (tier.nextId + 1) % wordLimit ≠ tier.nextId
      simp only [wordLimit] at hopened ⊢
      omega
    · refine h.store hkey (Slab.sound_new h.small) hinsert ?_ rfl rfl rfl (by omega)
        (Nat.le_succ _) (by rw [hnext])
      intro offset₁ record₁
      have hempty : (Slab.new tier.nextId tier.slabSize).recordAt? offset₁ = none :=
        Slab.recordAt?_of_not_mem Std.TreeSet.not_mem_emptyc
      simp only [At, hnone, hempty, reduceCtorEq, false_and, exists_false]

/-- A record goes to a slab that is loaded, or to a new one, or is refused with no change. -/
theorem Holds.insert_cases (h : tier.Holds opened held) (hkey : held key = none)
    (value : ByteArray) (hopened : opened < wordLimit) :
    tier.insert key value = (false, tier) ∨
      ∃ tier', tier.insert key value = (true, tier') ∧
        tier'.Holds (opened + opens tier tier') (Function.update held key (some value)) := by
  unfold insert
  split
  next => exact .inl rfl
  next needed _ =>
    cases hloaded : tier.placeLoaded key value needed with
    | some placed =>
      refine .inr ⟨_, rfl, ?_⟩
      rw [opens_of_eq]
      · exact h.placeLoaded hkey hloaded
      · rfl
    | none =>
      cases hopen : tier.openSlab key value with
      | none => exact .inl rfl
      | some placed =>
        obtain ⟨id, offset, tier₁⟩ := placed
        obtain ⟨hchanged, hholds⟩ := h.openSlab hkey hopened hopen
        refine .inr ⟨_, rfl, ?_⟩
        rw [opens_of_ne]
        · exact hholds
        · exact hchanged

end Storing

/-! ## Removing and evicting -/

section Removing

variable {tier tier' : RamTier} {opened : Nat} {held held' : ByteArray → Option ByteArray}
  {key value : ByteArray} {id offset : Nat} {records : List Record}

/-- A tier that keeps some of the records. -/
theorem Holds.restrict (h : tier.Holds opened held) (keep : Nat → Nat → Prop)
    (hsize : tier'.slabSize = tier.slabSize)
    (hsound : ∀ (id : Nat) (slab : Slab), tier'.slabs[id]? = some slab → slab.Sound)
    (hids : ∀ (id : Nat) (slab : Slab), tier'.slabs[id]? = some slab → id < opened)
    (hnext : tier'.nextId = tier.nextId)
    (hat : ∀ id offset record, tier'.At id offset record ↔
      tier.At id offset record ∧ keep id offset)
    (hlisted : ∀ id offset record, tier.At id offset record → keep id offset →
      Listed tier'.index (KeyHash.ofKey record.key) id offset)
    (hheld : ∀ key value, held' key = some value ↔
      ∃ id offset, tier.At id offset ⟨key, value⟩ ∧ keep id offset) : tier'.Holds opened held' := by
  refine ⟨by rw [hsize]; exact h.small, hsound, hids, by rw [hnext]; exact h.next, ?_, ?_, ?_⟩
  · intro id offset record hrecord
    obtain ⟨hrecord, hkeep⟩ := (hat ..).1 hrecord
    exact hlisted id offset record hrecord hkeep
  · intro id offset record id' offset' record' hrecord hrecord'
    exact h.unique _ _ _ _ _ _ ((hat ..).1 hrecord).1 ((hat ..).1 hrecord').1
  · intro key value
    rw [hheld]
    simp only [hat]

/-- Taking a record out of the index changes the index alone. -/
theorem slabs_unindexRecord (tier : RamTier) (hash : UInt64) (id offset : Nat) :
    (tier.unindexRecord hash id offset).slabs = tier.slabs ∧
      (tier.unindexRecord hash id offset).nextId = tier.nextId ∧
      (tier.unindexRecord hash id offset).slabSize = tier.slabSize := by
  unfold unindexRecord
  split <;> exact ⟨rfl, rfl, rfl⟩

/-- Only one slab differs once a record was removed from it. -/
theorem getElem?_drop {slab : Slab} (hslab : tier.slabs[id]? = some slab) (hash : UInt64)
    (id' : Nat) :
    ({ tier with slabs := tier.slabs.modify id fun slab => (slab.remove offset).2 }.unindexRecord
      hash id offset).slabs[id']? =
        if id = id' then some (slab.remove offset).2 else tier.slabs[id']? := by
  rw [(slabs_unindexRecord ..).1]
  simp only [Std.TreeMap.getElem?_modify, Nat.compare_eq_eq, hslab, Option.map_some]

/-- Removing a record from its slab takes it away from those of the tier. -/
theorem at_drop (hsound : ∀ (id : Nat) (slab : Slab), tier.slabs[id]? = some slab → slab.Sound)
    {record : Record} (hat : tier.At id offset record) (hash : UInt64) (id' offset' : Nat)
    (record' : Record) :
    ({ tier with slabs := tier.slabs.modify id fun slab => (slab.remove offset).2 }.unindexRecord
      hash id offset).At id' offset' record' ↔
        tier.At id' offset' record' ∧ ¬(id = id' ∧ offset' = offset) := by
  obtain ⟨slab, hslab, hrecord⟩ := hat
  obtain ⟨_, _, _, _, hrecords⟩ := (hsound id slab hslab).remove (Slab.Sound.mem_live hrecord)
  rw [at_exchange (getElem?_drop hslab hash), hrecords]
  by_cases hid : id = id'
  · subst hid
    rw [if_pos rfl]
    simp only [At, hslab, Option.some.injEq, exists_eq_left', true_and]
    by_cases hoffset : offset' = offset
    · simp only [hoffset, Function.update_self, reduceCtorEq, not_true_eq_false, and_false]
    · simp only [Function.update_of_ne hoffset, hoffset, not_false_eq_true, and_true]
  · rw [if_neg hid]
    simp only [hid, false_and, not_false_eq_true, and_true]

/-- A removal takes out the record at its place and no other. -/
theorem Holds.at_drop (h : tier.Holds opened held) {record : Record}
    (hat : tier.At id offset record) (hash : UInt64) (id' offset' : Nat) (record' : Record) :
    ({ tier with slabs := tier.slabs.modify id fun slab => (slab.remove offset).2 }.unindexRecord
      hash id offset).At id' offset' record' ↔
        tier.At id' offset' record' ∧ ¬(id = id' ∧ offset' = offset) :=
  RamTier.at_drop h.sound hat hash id' offset' record'

/-- A record that is removed from its slab and from the index is no longer held. -/
theorem Holds.drop (h : tier.Holds opened held) (hat : tier.At id offset ⟨key, value⟩) :
    ({ tier with slabs := tier.slabs.modify id fun slab => (slab.remove offset).2 }.unindexRecord
      (KeyHash.ofKey key) id offset).Holds opened (Function.update held key none) := by
  have hgone := h.at_drop hat (KeyHash.ofKey key)
  obtain ⟨slab, hslab, hrecord⟩ := hat
  obtain ⟨_, hsound', _⟩ := (h.sound id slab hslab).remove (Slab.Sound.mem_live hrecord)
  let removed : RamTier :=
    { tier with slabs := tier.slabs.modify id fun slab => (slab.remove offset).2 }
  obtain ⟨_, hnext, hsize⟩ := slabs_unindexRecord removed (KeyHash.ofKey key) id offset
  obtain ⟨hsounds, hids⟩ := h.exchange hsound' (h.ids id slab hslab) (Nat.le_refl opened)
    (getElem?_drop hslab (KeyHash.ofKey key))
  refine h.restrict (fun id' offset' => ¬(id = id' ∧ offset' = offset)) hsize hsounds hids hnext
    hgone ?_ ?_
  · intro id' offset' record hat hkeep
    have hlisted : Listed removed.index (KeyHash.ofKey record.key) id' offset' :=
      h.listed id' offset' record hat
    exact hlisted.unindexRecord fun heq => hkeep heq.2
  · intro key' value'
    have hat : tier.At id offset ⟨key, value⟩ := ⟨slab, hslab, hrecord⟩
    by_cases heq : key' = key
    · subst heq
      rw [Function.update_self]
      refine ⟨nofun, fun ⟨id', offset', hat', hkeep⟩ => absurd ?_ hkeep⟩
      obtain ⟨hid, hoffset⟩ := h.unique _ _ _ _ _ _ hat hat' rfl
      exact ⟨hid, hoffset.symm⟩
    · rw [Function.update_of_ne heq, h.held_iff]
      refine exists_congr fun id' => exists_congr fun offset' => ?_
      refine ⟨fun hat' => ⟨hat', ?_⟩, fun hat' => hat'.1⟩
      rintro ⟨rfl, rfl⟩
      obtain ⟨slab', hslab', hrecord'⟩ := hat'
      obtain rfl := Option.some.inj (hslab.symm.trans hslab')
      exact heq (Record.mk.inj (Option.some.inj (hrecord'.symm.trans hrecord))).1

/-- A key that is not held is not dropped. -/
theorem Holds.remove_eq_false (h : tier.Holds opened held) (hheld : held key = none) :
    tier.remove key = (false, tier) := by
  rcases h.locate?_cases key with ⟨_, hlocate⟩ | ⟨_, _, _, hheld', _⟩
  · rw [remove, hlocate]
  · rw [hheld] at hheld'
    cases hheld'

/-- A removal drops the key and answers whether it was held. -/
theorem Holds.exists_remove (h : tier.Holds opened held) (key : ByteArray) :
    ∃ tier', tier.remove key = ((held key).isSome, tier') ∧ tier'.nextId = tier.nextId ∧
      tier'.Holds opened (Function.update held key none) := by
  rcases h.locate?_cases key with ⟨hheld, _⟩ | ⟨id, offset, value, hheld, hlocate, hat⟩
  · have hupdate : Function.update held key none = held := by
      rw [← hheld, Function.update_eq_self]
    rw [hheld, hupdate]
    exact ⟨tier, h.remove_eq_false hheld, rfl, h⟩
  · have hnext := (slabs_unindexRecord
      { tier with slabs := tier.slabs.modify id fun slab => (slab.remove offset).2 }
      (KeyHash.ofKey key) id offset).2.1
    refine ⟨_, ?_, hnext, h.drop hat⟩
    rw [remove, hlocate, hheld]
    rfl

/-- The records of a slab are those of the map that it holds. -/
theorem Holds.batch_records (h : tier.Holds opened held) {slab : Slab}
    (hslab : tier.slabs[id]? = some slab) : Batch slab.records held := by
  refine ⟨Slab.Sound.nodup_records fun o o' r r' hr hr' heq => ?_, ?_,
    (h.sound id slab hslab).sum_sizes_lt⟩
  · exact (h.unique id o r id o' r' ⟨slab, hslab, hr⟩ ⟨slab, hslab, hr'⟩ heq).2
  · intro record hrecord
    obtain ⟨offset, hat⟩ := Slab.Sound.mem_records_iff.1 hrecord
    exact (h.held_iff record.key record.value).2 ⟨id, offset, slab, hslab, hat⟩

/-- What is left of a tier when one of its slabs leaves. -/
theorem evictSlab_eq {slab : Slab} (hslab : tier.slabs[id]? = some slab) :
    tier.evictSlab id = some (slab.records, { tier with
      slabs := tier.slabs.erase id
      usage := tier.usage.erase id
      index := slab.records.foldl
        (fun index record => unindexSlab index id (KeyHash.ofKey record.key)) tier.index }) := by
  simp only [evictSlab, hslab, Option.bind_eq_bind, Option.bind_some]
  rfl

/-- What one eviction takes out is one slab. -/
theorem exists_evictSlab_of_evictOne {records : List Record}
    (hevict : tier.evictOne = some (records, tier')) :
    ∃ id, tier.evictSlab id = some (records, tier') := by
  rw [evictOne, Option.bind_eq_bind, Option.bind_eq_some_iff] at hevict
  obtain ⟨id, -, hevict⟩ := hevict
  exact ⟨id, hevict⟩

/-- What an eviction is to take out is what it takes out. -/
theorem victimRecords_eq_of_evictOne {records : List Record}
    (hevict : tier.evictOne = some (records, tier')) : tier.victimRecords = records := by
  rw [evictOne, Option.bind_eq_bind, Option.bind_eq_some_iff] at hevict
  obtain ⟨id, hvictim, hevict⟩ := hevict
  rw [evictSlab, Option.bind_eq_bind, Option.bind_eq_some_iff] at hevict
  obtain ⟨slab, hslab, hevict⟩ := hevict
  rw [victimRecords, hvictim]
  dsimp only
  rw [hslab, Option.map_some, Option.getD_some]
  exact (Prod.mk.inj (Option.some.inj hevict)).1

/-- Erasing a slab takes its records away from those of the tier. -/
theorem at_erase (hslabs : tier'.slabs = tier.slabs.erase id) (id' offset' : Nat)
    (record' : Record) :
    tier'.At id' offset' record' ↔ tier.At id' offset' record' ∧ id ≠ id' := by
  simp only [At, hslabs, Std.TreeMap.getElem?_erase, Nat.compare_eq_eq]
  by_cases hid : id = id' <;> simp [hid]

/-- A slab that leaves takes its records with it. -/
theorem Holds.exists_evictSlab (h : tier.Holds opened held) {slab : Slab}
    (hslab : tier.slabs[id]? = some slab) :
    ∃ tier', tier.evictSlab id = some (slab.records, tier') ∧ tier'.nextId = tier.nextId ∧
      tier'.Holds opened (without held (slab.records.map (·.key))) := by
  have hmem (record : Record) : record ∈ slab.records ↔ ∃ offset, tier.At id offset record := by
    simp only [Slab.Sound.mem_records_iff, At, hslab, Option.some.injEq, exists_eq_left']
  have hkept (id' : Nat) (slab₁ : Slab) (hslab₁ : (tier.slabs.erase id)[id']? = some slab₁) :
      tier.slabs[id']? = some slab₁ := by
    simp only [Std.TreeMap.getElem?_erase, Nat.compare_eq_eq] at hslab₁
    split at hslab₁
    next => cases hslab₁
    next => exact hslab₁
  refine ⟨_, evictSlab_eq hslab, rfl,
    h.restrict (fun id' _ => id ≠ id') rfl ?_ ?_ rfl (at_erase rfl) ?_ ?_⟩
  · exact fun id' slab₁ hslab₁ => h.sound id' slab₁ (hkept id' slab₁ hslab₁)
  · exact fun id' slab₁ hslab₁ => h.ids id' slab₁ (hkept id' slab₁ hslab₁)
  · intro id' offset record hat hne
    exact listed_foldl_unindexSlab (h.listed id' offset record hat) hne
  · intro key value
    rw [without]
    split
    next hkey =>
      obtain ⟨record, hrecord, rfl⟩ := List.mem_map.1 hkey
      obtain ⟨offset, hat⟩ := (hmem record).1 hrecord
      refine ⟨nofun, fun ⟨id', offset', hat', hne⟩ => absurd ?_ hne⟩
      exact (h.unique _ _ _ _ _ _ hat hat' rfl).1
    next hkey =>
      rw [h.held_iff]
      refine exists_congr fun id' => exists_congr fun offset => ?_
      refine ⟨fun hat => ⟨hat, ?_⟩, fun hat => hat.1⟩
      rintro rfl
      exact hkey (List.mem_map.2 ⟨_, (hmem _).2 ⟨offset, hat⟩, rfl⟩)

/-- Evicting takes the records of one slab out of the tier, unless there is no slab to leave. -/
theorem Holds.evictOne_cases (h : tier.Holds opened held) :
    (tier.evictOne = none ∧ tier.victimRecords = []) ∨
      ∃ tier', tier.evictOne = some (tier.victimRecords, tier') ∧ tier'.nextId = tier.nextId ∧
        Batch tier.victimRecords held ∧
        tier'.Holds opened (without held (tier.victimRecords.map (·.key))) := by
  rw [evictOne, victimRecords]
  cases hvictim : tier.nextVictim? with
  | none => exact .inl ⟨rfl, rfl⟩
  | some id =>
    cases hslab : tier.slabs[id]? with
    | none =>
      left
      simp only [evictSlab, hslab, Option.bind_eq_bind, Option.bind_some, Option.bind_none,
        Option.map_none, Option.getD_none, and_self]
    | some slab =>
      obtain ⟨tier', hevict, hnext, hholds⟩ := h.exists_evictSlab hslab
      simp only [hslab, Option.map_some, Option.getD_some]
      exact .inr ⟨tier', hevict, hnext, h.batch_records hslab, hholds⟩

end Removing

/-! ## Counting -/

section Counting

variable {tier : RamTier} {opened : Nat} {held : ByteArray → Option ByteArray}

/-- The values of a map are those of its entries. -/
theorem values_eq {β : Type} (map : Std.TreeMap Nat β) : map.values = map.toList.map (·.2) := by
  have hvalues : map.values = map.foldr (fun _ value values => value :: values) [] := rfl
  rw [hvalues, Std.TreeMap.foldr_eq_foldr_toList, List.map_eq_foldr]

/-- The keys of all records, slab by slab. -/
def keys (tier : RamTier) : List ByteArray :=
  tier.slabs.toList.flatMap fun entry => entry.2.records.map (·.key)

/-- The keys of the tier are those that are held. -/
theorem Holds.mem_keys_iff (h : tier.Holds opened held) (key : ByteArray) :
    key ∈ tier.keys ↔ (held key).isSome := by
  simp only [keys, List.mem_flatMap, List.mem_map, Slab.Sound.mem_records_iff,
    Option.isSome_iff_exists, h.held_iff]
  constructor
  · rintro ⟨⟨id, slab⟩, hslab, ⟨_, value⟩, ⟨offset, hrecord⟩, rfl⟩
    exact ⟨value, id, offset, slab, Std.TreeMap.mem_toList_iff_getElem?_eq_some.1 hslab, hrecord⟩
  · rintro ⟨value, id, offset, slab, hslab, hrecord⟩
    exact ⟨(id, slab), Std.TreeMap.mem_toList_iff_getElem?_eq_some.2 hslab, ⟨key, value⟩,
      ⟨offset, hrecord⟩, rfl⟩

/-- No key is stored twice, neither within a slab nor in two slabs. -/
theorem Holds.nodup_keys (h : tier.Holds opened held) : tier.keys.Nodup := by
  refine List.nodup_flatMap.2 ⟨fun ⟨id, slab⟩ hslab => ?_, ?_⟩
  · exact (h.batch_records (Std.TreeMap.mem_toList_iff_getElem?_eq_some.1 hslab)).nodup
  · refine List.Pairwise.imp_of_mem ?_ Std.TreeMap.distinct_keys_toList
    rintro ⟨id, slab⟩ ⟨id', slab'⟩ hslab hslab' hne key hkey hkey'
    have hslab := Std.TreeMap.mem_toList_iff_getElem?_eq_some.1 hslab
    have hslab' := Std.TreeMap.mem_toList_iff_getElem?_eq_some.1 hslab'
    obtain ⟨record, hmem, rfl⟩ := List.mem_map.1 hkey
    obtain ⟨record', hmem', heq⟩ := List.mem_map.1 hkey'
    obtain ⟨offset, hrecord⟩ := Slab.Sound.mem_records_iff.1 hmem
    obtain ⟨offset', hrecord'⟩ := Slab.Sound.mem_records_iff.1 hmem'
    have hid := (h.unique _ _ _ _ _ _ ⟨slab, hslab, hrecord⟩ ⟨slab', hslab', hrecord'⟩ heq.symm).1
    exact hne (Nat.compare_eq_eq.2 hid)

/-- The tier counts the keys that it holds. -/
theorem Holds.count_eq (h : tier.Holds opened held) : tier.count = tier.keys.length := by
  rw [count, sumSizes_eq_sum, values_eq, List.map_map, keys, List.length_flatMap]
  congr 1
  refine List.map_congr_left fun ⟨id, slab⟩ hslab => ?_
  have hsound := h.sound id slab (Std.TreeMap.mem_toList_iff_getElem?_eq_some.1 hslab)
  rw [List.length_map, Function.comp_apply, hsound.length_records]

/-- Keys that leave are no longer counted. -/
theorem Holds.count_without {tier' : RamTier} {keys : List ByteArray}
    (h : tier.Holds opened held) (h' : tier'.Holds opened (without held keys))
    (hnodup : keys.Nodup) (hkeys : ∀ key ∈ keys, (held key).isSome) :
    tier'.count + keys.length = tier.count := by
  have hperm : (tier'.keys ++ keys).Perm tier.keys := by
    have happended : (tier'.keys ++ keys).Nodup := by
      refine List.nodup_append'.2 ⟨h'.nodup_keys, hnodup, fun key hkey hleft => ?_⟩
      rw [h'.mem_keys_iff, without, if_pos hleft] at hkey
      cases hkey
    refine (List.perm_ext_iff_of_nodup happended h.nodup_keys).2 fun key => ?_
    rw [List.mem_append, h'.mem_keys_iff, h.mem_keys_iff, without]
    by_cases hleft : key ∈ keys
    · simp only [hleft, or_true, hkeys key hleft]
    · simp only [hleft, if_false, or_false]
  rw [h.count_eq, h'.count_eq, ← hperm.length_eq, List.length_append]

end Counting

end RamTier

end ElasticCache
