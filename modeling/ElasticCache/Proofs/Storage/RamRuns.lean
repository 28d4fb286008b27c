import ElasticCache.Proofs.Storage.RamCeiling
import ElasticCache.Proofs.Storage.RamIndex

/-!
# Runs of the RAM tier

Whatever is asked of a RAM tier, as long as the numbers of its slabs have not wrapped around it
answers for the map of the records that it took and neither removed nor evicted since. Keys of one
hash are told apart, and the index, the usage table and the slabs agree.
-/

namespace ElasticCache

namespace RamTier

/-- Calls one after the other on a new tier. Told by the answers alone, with the records that were
taken and neither removed nor evicted since, and with the number of slabs opened. Only keys that
are not held are inserted. -/
inductive Run (slabSize maxSlabs staleAfter : Nat) :
    (opened : Nat) → (held : ByteArray → Option ByteArray) → RamTier → Prop
  | new : Run slabSize maxSlabs staleAfter 0 (fun _ => none) (new slabSize maxSlabs staleAfter)
  | insert {opened : Nat} {held : ByteArray → Option ByteArray} {tier tier' : RamTier}
      {key value : ByteArray} {stored : Bool}
      (h : Run slabSize maxSlabs staleAfter opened held tier)
      (hkey : held key = none) (hinsert : tier.insert key value = (stored, tier')) :
      Run slabSize maxSlabs staleAfter (opened + opens tier tier')
        (if stored then Function.update held key (some value) else held) tier'
  | find {opened : Nat} {held : ByteArray → Option ByteArray} {tier tier' : RamTier}
      {key value : ByteArray} (h : Run slabSize maxSlabs staleAfter opened held tier)
      (hfind : tier.find key = some (value, tier')) :
      Run slabSize maxSlabs staleAfter opened held tier'
  | remove {opened : Nat} {held : ByteArray → Option ByteArray} {tier tier' : RamTier}
      {key : ByteArray} {removed : Bool} (h : Run slabSize maxSlabs staleAfter opened held tier)
      (hremove : tier.remove key = (removed, tier')) :
      Run slabSize maxSlabs staleAfter opened (Function.update held key none) tier'
  | setMaxSlabs {opened : Nat} {held : ByteArray → Option ByteArray} {tier : RamTier}
      (h : Run slabSize maxSlabs staleAfter opened held tier) (maxSlabs' : Nat) :
      Run slabSize maxSlabs staleAfter opened held { tier with maxSlabs := maxSlabs' }
  | tick {opened : Nat} {held : ByteArray → Option ByteArray} {tier : RamTier}
      (h : Run slabSize maxSlabs staleAfter opened held tier) :
      Run slabSize maxSlabs staleAfter opened held tier.tick.2
  | evictOne {opened : Nat} {held : ByteArray → Option ByteArray} {tier tier' : RamTier}
      {records : List Record} (h : Run slabSize maxSlabs staleAfter opened held tier)
      (hevict : tier.evictOne = some (records, tier')) :
      Run slabSize maxSlabs staleAfter opened (without held (records.map (·.key))) tier'
  | evictSlab {opened : Nat} {held : ByteArray → Option ByteArray} {tier tier' : RamTier} {id : Nat}
      {records : List Record} (h : Run slabSize maxSlabs staleAfter opened held tier)
      (hevict : tier.evictSlab id = some (records, tier')) :
      Run slabSize maxSlabs staleAfter opened (without held (records.map (·.key))) tier'

/-- A tier answers for a map. -/
structure Mirrors (tier : RamTier) (held : ByteArray → Option ByteArray) : Prop where
  find_eq : ∀ key, (tier.find key).map (·.1) = held key
  contains_eq : ∀ key, tier.contains key = (held key).isSome
  /-- The count is that of the keys held. -/
  count_eq : ∃ keys : List ByteArray, keys.Nodup ∧ (∀ key, key ∈ keys ↔ (held key).isSome) ∧
    tier.count = keys.length

section Runs

variable {tier tier' : RamTier} {slabSize maxSlabs staleAfter opened id : Nat}
  {held : ByteArray → Option ByteArray} {records : List Record}

/-- A tier that holds a map answers for it. -/
theorem Holds.mirrors (h : tier.Holds opened held) : tier.Mirrors held := by
  refine ⟨fun key => ?_, h.contains_eq, tier.keys, h.nodup_keys, h.mem_keys_iff, h.count_eq⟩
  cases hheld : held key with
  | none => rw [h.find_eq_none hheld, Option.map_none]
  | some value =>
    obtain ⟨tier', hfind, _⟩ := h.exists_find hheld
    rw [hfind, Option.map_some]

/-- An eviction answers the records of a loaded slab and takes them out. -/
theorem Holds.of_evictSlab (h : tier.Holds opened held)
    (hevict : tier.evictSlab id = some (records, tier')) :
    Batch records held ∧ (∀ record, record ∈ records ↔ ∃ offset, tier.At id offset record) ∧
      tier'.Holds opened (without held (records.map (·.key))) := by
  cases hslab : tier.slabs[id]? with
  | none => simp [RamTier.evictSlab, hslab] at hevict
  | some slab =>
    obtain ⟨_, hevict', -, hholds⟩ := h.exists_evictSlab hslab
    rw [hevict] at hevict'
    obtain ⟨rfl, rfl⟩ := Prod.mk.inj (Option.some.inj hevict')
    refine ⟨h.batch_records hslab, fun record => ?_, hholds⟩
    simp only [Slab.Sound.mem_records_iff, At, hslab, Option.some.injEq, exists_eq_left']

/-- Every call keeps what is held, and the index in step with it. -/
theorem Run.holds (h : Run slabSize maxSlabs staleAfter opened held tier)
    (hsmall : slabSize < wordLimit) (hopened : opened < wordLimit) :
    tier.Holds opened held ∧ tier.InStep := by
  induction h with
  | new => exact ⟨holds_new hsmall maxSlabs staleAfter, inStep_new slabSize maxSlabs staleAfter⟩
  | @insert opened held tier tier' key value stored _ hkey hinsert ih =>
    have hbefore : opened < wordLimit := by omega
    obtain ⟨hholds, hstep⟩ := ih hbefore
    have hstep' := hstep.insert hholds hbefore key value
    rw [hinsert] at hstep'
    refine ⟨?_, hstep'⟩
    rcases hholds.insert_cases hkey value hbefore with heq | ⟨tier₁, heq, hholds₁⟩
    · obtain ⟨rfl, rfl⟩ := Prod.mk.inj (hinsert.symm.trans heq)
      simpa [opens_of_eq] using hholds
    · obtain ⟨rfl, rfl⟩ := Prod.mk.inj (hinsert.symm.trans heq)
      simpa using hholds₁
  | @find opened held tier tier' key value _ hfind ih =>
    obtain ⟨hholds, hstep⟩ := ih hopened
    refine ⟨?_, hstep.find hfind⟩
    cases hheld : held key with
    | none => simp [hholds.find_eq_none hheld] at hfind
    | some value' =>
      obtain ⟨tier₁, hfind', hholds₁, -⟩ := hholds.exists_find hheld
      obtain ⟨-, rfl⟩ := Prod.mk.inj (Option.some.inj (hfind'.symm.trans hfind))
      exact hholds₁
  | @remove opened held tier tier' key removed _ hremove ih =>
    obtain ⟨hholds, hstep⟩ := ih hopened
    obtain ⟨tier₁, heq, -, hholds₁⟩ := hholds.exists_remove key
    have hstep' := hstep.remove hholds key
    obtain ⟨-, rfl⟩ := Prod.mk.inj (heq.symm.trans hremove)
    rw [heq] at hstep'
    exact ⟨hholds₁, hstep'⟩
  | setMaxSlabs _ maxSlabs' ih =>
    obtain ⟨hholds, hstep⟩ := ih hopened
    exact ⟨hholds.congr rfl rfl rfl rfl, hstep.congr rfl rfl fun _ => Iff.rfl⟩
  | tick _ ih =>
    obtain ⟨hholds, hstep⟩ := ih hopened
    refine ⟨?_, hstep.tick⟩
    unfold RamTier.tick
    dsimp only
    split
    · exact hholds.congr rfl rfl rfl rfl
    · exact hholds.congr rfl rfl rfl rfl
  | evictOne _ hevict ih =>
    obtain ⟨hholds, hstep⟩ := ih hopened
    obtain ⟨id, hevict⟩ := exists_evictSlab_of_evictOne hevict
    exact ⟨(hholds.of_evictSlab hevict).2.2, hstep.evictSlab hevict⟩
  | evictSlab _ hevict ih =>
    obtain ⟨hholds, hstep⟩ := ih hopened
    exact ⟨(hholds.of_evictSlab hevict).2.2, hstep.evictSlab hevict⟩

/-- A slab leaves unless none is loaded, when the use of exactly the loaded slabs is known. -/
theorem evictOne_eq_none_iff (hknown : ∀ id, id ∈ tier.usage ↔ id ∈ tier.slabs) :
    tier.evictOne = none ↔ tier.loadedSlabs = 0 := by
  rw [loadedSlabs_eq_zero_iff, RamTier.evictOne]
  rcases tier.nextVictim?_cases with ⟨hvictim, hnone⟩ | ⟨id, hvictim, hid⟩
  · refine ⟨fun _ id hid => ?_, fun _ => by rw [hvictim]; rfl⟩
    rw [← hknown, ← Std.TreeMap.mem_keys, ← Std.TreeMap.map_fst_toList_eq_keys, hnone] at hid
    cases hid
  · rw [hknown] at hid
    have hsome := hid
    rw [Std.TreeMap.mem_iff_isSome_getElem?, Option.isSome_iff_exists] at hsome
    obtain ⟨slab, hslab⟩ := hsome
    rw [hvictim, Option.bind_eq_bind, Option.bind_some, evictSlab_eq hslab]
    refine ⟨fun hnone => ?_, fun hempty => (hempty id hid).elim⟩
    cases hnone

/-- When the tables are in step, a slab leaves unless none is loaded. -/
theorem InStep.evictOne_eq_none_iff (h : tier.InStep) :
    tier.evictOne = none ↔ tier.loadedSlabs = 0 := RamTier.evictOne_eq_none_iff h.known

/-- **The RAM tier is a map.** For every slab size, ceiling and time to staleness, and after all
calls that opened fewer slabs than there are words, the tier answers for the records that it took
and neither removed nor evicted since, whichever keys have one hash. The index names exactly their
places, and the use of exactly the loaded slabs is known. An insertion adds its record or changes
nothing, a removal takes out its key alone and tells whether it was held, and an eviction answers
exactly the records of one slab and keeps all others. -/
theorem Run.mirrors_whatever_hashes (h : Run slabSize maxSlabs staleAfter opened held tier)
    (hsmall : slabSize < wordLimit) (hopened : opened < wordLimit) :
    tier.Mirrors held ∧ tier.InStep ∧
    (∀ key value, held key = none → tier.insert key value = (false, tier) ∨
      ∃ tier', tier.insert key value = (true, tier') ∧
        tier'.Mirrors (Function.update held key (some value))) ∧
    (∀ key, ∃ tier', tier.remove key = ((held key).isSome, tier') ∧
      tier'.Mirrors (Function.update held key none)) ∧
    (∀ id, (tier.evictSlab id = none ↔ id ∉ tier.slabs) ∧
      ∀ records tier', tier.evictSlab id = some (records, tier') → Batch records held ∧
        (∀ record, record ∈ records ↔ ∃ offset, tier.At id offset record) ∧
        tier'.Mirrors (without held (records.map (·.key)))) ∧
    (tier.evictOne = none ↔ tier.loadedSlabs = 0) ∧
    ∀ records tier', tier.evictOne = some (records, tier') →
      ∃ id, tier.evictSlab id = some (records, tier') := by
  obtain ⟨hholds, hstep⟩ := h.holds hsmall hopened
  refine ⟨hholds.mirrors, hstep, fun key value hkey => ?_, fun key => ?_, fun id => ⟨?_, ?_⟩,
    hstep.evictOne_eq_none_iff, fun records tier' => exists_evictSlab_of_evictOne⟩
  · rcases hholds.insert_cases hkey value hopened with heq | ⟨tier', heq, hholds'⟩
    · exact .inl heq
    · exact .inr ⟨tier', heq, hholds'.mirrors⟩
  · obtain ⟨tier', heq, -, hholds'⟩ := hholds.exists_remove key
    exact ⟨tier', heq, hholds'.mirrors⟩
  · rw [Std.TreeMap.mem_iff_isSome_getElem?, RamTier.evictSlab]
    cases tier.slabs[id]? <;> simp
  · intro records tier' hevict
    obtain ⟨hbatch, hrecords, hholds'⟩ := hholds.of_evictSlab hevict
    exact ⟨hbatch, hrecords, hholds'.mirrors⟩

/-- An insertion that stored its record answers the tier that it leaves. -/
theorem insert_eq_of_fst {key value : ByteArray} (h : (tier.insert key value).1 = true) :
    tier.insert key value = (true, (tier.insert key value).2) := Prod.ext h rfl

/-- Two records of 40 bytes each take a slab of 64 bytes for themselves. When the first slab leaves
it answers the first record alone, whose key is gone, and the second one is still found until it is
removed. -/
theorem Run.mirrors_whatever_hashes_of_eviction :
    ∃ held tier records tier' tier'',
      Run 64 2 1 2 held tier ∧ tier.contains ⟨#[97]⟩ = true ∧ tier.contains ⟨#[98]⟩ = true ∧
      tier.evictSlab 0 = some (records, tier') ∧
      records.map (·.key) = [⟨#[97]⟩] ∧ tier'.contains ⟨#[97]⟩ = false ∧
      (tier'.find ⟨#[98]⟩).map (·.1) = some ⟨Array.replicate 40 2⟩ ∧
      tier'.remove ⟨#[98]⟩ = (true, tier'') ∧ tier''.contains ⟨#[98]⟩ = false := by
  let one := ((RamTier.new 64 2 1).insert ⟨#[97]⟩ ⟨Array.replicate 40 1⟩).2
  let two := (one.insert ⟨#[98]⟩ ⟨Array.replicate 40 2⟩).2
  have hone : (RamTier.new 64 2 1).insert ⟨#[97]⟩ ⟨Array.replicate 40 1⟩ = (true, one) :=
    insert_eq_of_fst (by decide +kernel)
  have htwo : one.insert ⟨#[98]⟩ ⟨Array.replicate 40 2⟩ = (true, two) :=
    insert_eq_of_fst (by decide +kernel)
  have hopened : 0 + opens (RamTier.new 64 2 1) one + opens one two = 2 := by decide +kernel
  have hrun := (Run.new.insert rfl hone).insert rfl htwo
  rw [hopened] at hrun
  obtain ⟨hmirrors, -, -, -, hevicts, -⟩ := hrun.mirrors_whatever_hashes (by decide) (by decide)
  have hleaves : (two.evictSlab 0).map (fun answer => answer.1.map (·.key)) = some [⟨#[97]⟩] := by
    decide +kernel
  obtain ⟨⟨records, tier'⟩, hevict, hkeys⟩ := Option.map_eq_some_iff.1 hleaves
  have hkeys : records.map (·.key) = [⟨#[97]⟩] := hkeys
  obtain ⟨-, -, hmirrors'⟩ := (hevicts 0).2 records tier' hevict
  obtain ⟨-, -, -, hremoves, -⟩ :=
    (hrun.evictSlab hevict).mirrors_whatever_hashes (by decide) (by decide)
  obtain ⟨tier'', hremove, hmirrors''⟩ := hremoves ⟨#[98]⟩
  rw [hkeys] at hmirrors' hremove
  refine ⟨_, two, records, tier', tier'', hrun, ?_, ?_, hevict, hkeys, ?_, ?_, hremove, ?_⟩
  · rw [hmirrors.contains_eq]
    decide
  · rw [hmirrors.contains_eq]
    decide
  · rw [hmirrors'.contains_eq]
    decide
  · rw [hmirrors'.find_eq]
    decide +kernel
  · rw [hmirrors''.contains_eq, Function.update_self]
    rfl

end Runs

end RamTier

end ElasticCache
