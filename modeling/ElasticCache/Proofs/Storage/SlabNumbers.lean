import ElasticCache.Proofs.Storage.RamRuns

/-!
# Numbers of slabs

The number of a new slab is a word that counts up and wraps around. So it is the number of a loaded
slab exactly when that slab has stayed while the counter came all the way round. Then the new slab
takes its place, and its records are lost.
-/

namespace ElasticCache

namespace RamTier

/-- Calls one after the other on a new tier, in any order and with any keys. Told with the number of
slabs opened and, for each number, how many were opened before the last slab of that number. -/
inductive Course (slabSize maxSlabs staleAfter : Nat) :
    (opened : Nat) → (since : Nat → Nat) → RamTier → Prop
  | new : Course slabSize maxSlabs staleAfter 0 (fun _ => 0) (new slabSize maxSlabs staleAfter)
  | insert {opened : Nat} {since : Nat → Nat} {tier : RamTier}
      (h : Course slabSize maxSlabs staleAfter opened since tier) (key value : ByteArray) :
      Course slabSize maxSlabs staleAfter (opened + opens tier (tier.insert key value).2)
        (if opens tier (tier.insert key value).2 = 0 then since
          else Function.update since tier.nextId opened) (tier.insert key value).2
  | find {opened : Nat} {since : Nat → Nat} {tier tier' : RamTier} {key value : ByteArray}
      (h : Course slabSize maxSlabs staleAfter opened since tier)
      (hfind : tier.find key = some (value, tier')) :
      Course slabSize maxSlabs staleAfter opened since tier'
  | remove {opened : Nat} {since : Nat → Nat} {tier : RamTier}
      (h : Course slabSize maxSlabs staleAfter opened since tier) (key : ByteArray) :
      Course slabSize maxSlabs staleAfter opened since (tier.remove key).2
  | setMaxSlabs {opened : Nat} {since : Nat → Nat} {tier : RamTier}
      (h : Course slabSize maxSlabs staleAfter opened since tier) (maxSlabs' : Nat) :
      Course slabSize maxSlabs staleAfter opened since { tier with maxSlabs := maxSlabs' }
  | tick {opened : Nat} {since : Nat → Nat} {tier : RamTier}
      (h : Course slabSize maxSlabs staleAfter opened since tier) :
      Course slabSize maxSlabs staleAfter opened since tier.tick.2
  | evictOne {opened : Nat} {since : Nat → Nat} {tier tier' : RamTier} {records : List Record}
      (h : Course slabSize maxSlabs staleAfter opened since tier)
      (hevict : tier.evictOne = some (records, tier')) :
      Course slabSize maxSlabs staleAfter opened since tier'
  | evictSlab {opened : Nat} {since : Nat → Nat} {tier tier' : RamTier} {id : Nat}
      {records : List Record} (h : Course slabSize maxSlabs staleAfter opened since tier)
      (hevict : tier.evictSlab id = some (records, tier')) :
      Course slabSize maxSlabs staleAfter opened since tier'

/-- Every number in use is what the counter was when its slab was opened. -/
structure Numbered (tier : RamTier) (opened : Nat) (since : Nat → Nat) : Prop where
  next : tier.nextId = opened % wordLimit
  number : ∀ id ∈ tier.slabs, since id < opened ∧ since id % wordLimit = id

section Numbers

variable {tier tier' placed : RamTier} {opened id offset : Nat} {since : Nat → Nat}
  {key value : ByteArray} {records : List Record}

/-- A step that opens no slab may only let slabs leave. -/
theorem Numbered.of_subset (h : tier.Numbered opened since) (hnext : tier'.nextId = tier.nextId)
    (hslabs : ∀ id, id ∈ tier'.slabs → id ∈ tier.slabs) : tier'.Numbered opened since :=
  ⟨hnext.trans h.next, fun id hid => h.number id (hslabs id hid)⟩

/-- The slabs that an eviction leaves have the numbers that they had. -/
theorem Numbered.evictSlab (h : tier.Numbered opened since)
    (hevict : tier.evictSlab id = some (records, tier')) : tier'.Numbered opened since := by
  cases hslab : tier.slabs[id]? with
  | none => simp [RamTier.evictSlab, hslab] at hevict
  | some slab =>
    rw [evictSlab_eq hslab] at hevict
    obtain ⟨-, rfl⟩ := Prod.mk.inj (Option.some.inj hevict)
    exact h.of_subset rfl fun id' hid => Std.TreeMap.mem_of_mem_erase hid

/-- A removal changes no number. -/
theorem Numbered.remove (h : tier.Numbered opened since) (key : ByteArray) :
    (tier.remove key).2.Numbered opened since := by
  unfold RamTier.remove
  split
  next => exact h
  next id offset _ =>
    obtain ⟨hslabs, hnext, _⟩ := slabs_unindexRecord
      { tier with slabs := tier.slabs.modify id fun slab => (slab.remove offset).2 }
      (KeyHash.ofKey key) id offset
    dsimp only
    refine h.of_subset hnext fun id' hid' => ?_
    rwa [hslabs, Std.TreeMap.mem_modify] at hid'

/-- A record that goes to a loaded slab opens none, any other one opens the slab of the next
number. -/
theorem Numbered.placed_cases (h : tier.Numbered opened since)
    (hplaced : tier.Placed key value id offset placed) :
    (placed.nextId = tier.nextId ∧ id ∈ tier.slabs ∧ ∃ slab,
        placed.slabs = tier.slabs.insert id slab) ∨
      (placed.nextId ≠ tier.nextId ∧ placed.nextId = (opened + 1) % wordLimit ∧
        id = tier.nextId ∧ ∃ slab u, placed.slabs = tier.slabs.insert id slab ∧
          placed.usage = tier.usage.insert id u) := by
  cases hplaced with
  | loaded hslab hinsert =>
    refine .inl ⟨rfl, ?_, _, rfl⟩
    rw [Std.TreeMap.mem_iff_isSome_getElem?, hslab]
    rfl
  | opened hbelow hinsert =>
    have hnext := h.next
    refine .inr ⟨?_, ?_, rfl, _, _, rfl, rfl⟩
    all_goals
      simp only [wordLimit] at hnext ⊢
      omega

/-- An insertion numbers the slab that it opens, if any, by the slabs opened before. -/
theorem Numbered.insert (h : tier.Numbered opened since) (key value : ByteArray) :
    (tier.insert key value).2.Numbered (opened + opens tier (tier.insert key value).2)
      (if opens tier (tier.insert key value).2 = 0 then since
        else Function.update since tier.nextId opened) := by
  rcases tier.insert_placed key value with heq | ⟨id, offset, placed, hplaced, heq⟩
  · rw [heq, opens_of_eq rfl]
    exact h
  · rw [heq]
    have hslabs : ((placed.indexRecord (KeyHash.ofKey key) id offset).touch id 0).slabs =
      placed.slabs := rfl
    rcases h.placed_cases hplaced with ⟨hnext, hid, slab, hinsert⟩ |
      ⟨hne, hnext, rfl, slab, _, hinsert, _⟩
    · rw [opens_of_eq (by exact hnext)]
      refine h.of_subset hnext fun id' hid' => ?_
      rw [hslabs, hinsert, Std.TreeMap.mem_insert, Nat.compare_eq_eq] at hid'
      rcases hid' with rfl | hid'
      · exact hid
      · exact hid'
    · rw [opens_of_ne (by exact hne)]
      refine ⟨hnext, fun id' hid' => ?_⟩
      rw [hslabs, hinsert, Std.TreeMap.mem_insert, Nat.compare_eq_eq] at hid'
      by_cases heq : id' = tier.nextId
      · subst heq
        simp [h.next]
      · have hmem : id' ∈ tier.slabs := hid'.resolve_left fun h => heq h.symm
        obtain ⟨hlt, hmod⟩ := h.number id' hmem
        simp only [Nat.one_ne_zero, if_false, Function.update_of_ne heq]
        omega

/-- Every call keeps the numbers those of the counter. -/
theorem Course.numbered {slabSize maxSlabs staleAfter : Nat}
    (h : Course slabSize maxSlabs staleAfter opened since tier) : tier.Numbered opened since := by
  induction h with
  | new =>
    refine ⟨rfl, fun id hid => ?_⟩
    exact (Std.TreeMap.not_mem_emptyc hid).elim
  | insert _ key value ih => exact ih.insert key value
  | find _ hfind ih =>
    simp only [RamTier.find, Option.bind_eq_bind, Option.bind_eq_some_iff] at hfind
    obtain ⟨_, _, _, _, _, _, hfind⟩ := hfind
    obtain ⟨_, rfl⟩ := Prod.mk.inj (Option.some.inj hfind)
    exact ih.of_subset rfl fun _ hid => hid
  | remove _ key ih => exact ih.remove key
  | setMaxSlabs _ _ ih => exact ih.of_subset rfl fun _ hid => hid
  | tick _ ih =>
    unfold RamTier.tick
    dsimp only
    split <;> exact ih.of_subset rfl fun _ hid => hid
  | evictOne _ hevict ih =>
    obtain ⟨id, hevict⟩ := exists_evictSlab_of_evictOne hevict
    exact ih.evictSlab hevict
  | evictSlab _ hevict ih => exact ih.evictSlab hevict

/-- A new slab leaves all slabs of other numbers as they are. It is one more unless it takes the
place of one. -/
theorem Numbered.of_opens (h : tier.Numbered opened since) (key value : ByteArray)
    (hopens : opens tier (tier.insert key value).2 = 1) :
    (∀ id, id ≠ tier.nextId → (tier.insert key value).2.slabs[id]? = tier.slabs[id]? ∧
        (tier.insert key value).2.usage[id]? = tier.usage[id]?) ∧
      (tier.insert key value).2.loadedSlabs =
        tier.loadedSlabs + if tier.nextId ∈ tier.slabs then 0 else 1 := by
  rcases tier.insert_placed key value with heq | ⟨id, offset, placed, hplaced, heq⟩
  · simp [heq, opens_of_eq] at hopens
  · rw [heq] at hopens ⊢
    have hslabs : ((placed.indexRecord (KeyHash.ofKey key) id offset).touch id 0).slabs =
      placed.slabs := rfl
    have husage : ((placed.indexRecord (KeyHash.ofKey key) id offset).touch id 0).usage =
      placed.usage.modify id fun u =>
        { u with hits := u.hits + 0, lastTouch := placed.clock, stale := false } := rfl
    rcases h.placed_cases hplaced with ⟨hnext, _⟩ | ⟨_, _, rfl, slab, u, hinsert, hinsertUse⟩
    · rw [opens_of_eq (by exact hnext)] at hopens
      cases hopens
    · simp only [hslabs, husage, hinsert, hinsertUse, loadedSlabs, Std.TreeMap.size_insert,
        ← Std.TreeMap.mem_iff_contains]
      constructor
      · intro id hne
        have hother : ¬compare tier.nextId id = .eq := by simpa using Ne.symm hne
        simp only [Std.TreeMap.getElem?_insert, Std.TreeMap.getElem?_modify, hother, if_false,
          and_self]
      · split <;> rfl

/-- When a new slab takes the place of a loaded one. Its number is the number of slabs opened before
it, which wraps around. So the slab of that number is loaded exactly when it has stayed for a
multiple of 2^32 openings, and as long as no slab has stayed that long all loaded slabs stay as they
are. -/
theorem Course.replaces_iff_stayed {slabSize maxSlabs staleAfter : Nat}
    (h : Course slabSize maxSlabs staleAfter opened since tier) :
    tier.nextId = opened % wordLimit ∧
    (∀ id ∈ tier.slabs, since id < opened ∧
      (id = tier.nextId ↔ wordLimit ∣ opened - since id)) ∧
    ((∀ id ∈ tier.slabs, opened < since id + wordLimit) → tier.nextId ∉ tier.slabs) ∧
    ∀ key value, opens tier (tier.insert key value).2 = 1 →
      (∀ id, id ≠ tier.nextId → (tier.insert key value).2.slabs[id]? = tier.slabs[id]? ∧
        (tier.insert key value).2.usage[id]? = tier.usage[id]?) ∧
      (tier.insert key value).2.loadedSlabs =
        tier.loadedSlabs + if tier.nextId ∈ tier.slabs then 0 else 1 := by
  have hnumbered := h.numbered
  have hnext := hnumbered.next
  have hstayed (id : Nat) (hid : id ∈ tier.slabs) : since id < opened ∧
      (id = tier.nextId ↔ wordLimit ∣ opened - since id) := by
    obtain ⟨hlt, hmod⟩ := hnumbered.number id hid
    rw [hnext]
    simp only [wordLimit] at hmod ⊢
    omega
  refine ⟨hnext, hstayed, fun hyoung hmem => ?_, hnumbered.of_opens⟩
  obtain ⟨hlt, hiff⟩ := hstayed _ hmem
  have hage := hyoung _ hmem
  have hle := Nat.le_of_dvd (by omega) (hiff.1 rfl)
  omega

/-- After the first slab the next number is a fresh one. -/
theorem Course.replaces_iff_stayed_of_one :
    ((RamTier.new 32 2 0).insert ⟨#[97]⟩ ⟨#[1]⟩).2.nextId ∉
      ((RamTier.new 32 2 0).insert ⟨#[97]⟩ ⟨#[1]⟩).2.slabs := by
  have hcourse := (@Course.new 32 2 0).insert ⟨#[97]⟩ ⟨#[1]⟩
  have hle := opens_le_one (RamTier.new 32 2 0) ((RamTier.new 32 2 0).insert ⟨#[97]⟩ ⟨#[1]⟩).2
  have hlimit : 1 < wordLimit := by decide
  obtain ⟨-, -, hfresh, -⟩ := hcourse.replaces_iff_stayed
  exact hfresh fun id _ => by omega

end Numbers

end RamTier

/-! ## All the way round -/

/-- The number of a slab has no part in how it takes a record. -/
theorem Slab.insert_with_id (slab : Slab) (id : Nat) (key value : ByteArray) :
    ({ slab with id } : Slab).insert key value =
      (slab.insert key value).map fun (offset, slab') => (offset, { slab' with id }) := by
  unfold Slab.insert
  cases recordSize? key value with
  | none => rfl
  | some size =>
    simp only [Option.bind_eq_bind, Option.bind_some]
    rcases slab.arena.alloc size with _ | ⟨_ | offset, arena⟩
    · rfl
    · rfl
    · simp only
      cases arena.write? offset (Record.encode ⟨key, value⟩) <;> rfl

namespace RamTier

section Wrap

variable {tier : RamTier} {id : Nat} {key value : ByteArray} {full : Slab}

/-- The only slab of a tier is that of number zero, which has no room for another record. -/
structure Alone (tier : RamTier) (full : Slab) : Prop where
  slabs : ∀ id : Nat, tier.slabs[id]? = if id = 0 then some full else none
  loaded : tier.loadedSlabs = 1
  full : full.maxAllocSize = 0
  slabSize_eq : tier.slabSize = 32
  maxSlabs_eq : tier.maxSlabs = 2

/-- The key that comes and goes, with an empty value. -/
def guest : ByteArray := ⟨#[98]⟩

/-- The key that stays, with a value that fills its slab. -/
def resident : ByteArray := ⟨#[97]⟩

/-- A new slab of 32 bytes takes the guest, whatever its number is. -/
theorem exists_insert_guest (id : Nat) :
    ∃ offset slab, (Slab.new id 32).insert guest .empty = some (offset, slab) := by
  have hsome : ((Slab.new 0 32).insert guest .empty).isSome = true := by decide +kernel
  obtain ⟨⟨offset, slab⟩, hinsert⟩ := Option.isSome_iff_exists.1 hsome
  refine ⟨offset, { slab with id }, ?_⟩
  have hid := (Slab.new 0 32).insert_with_id id guest .empty
  rw [hinsert] at hid
  exact hid

/-- The guest opens the slab of the next number. -/
theorem Alone.exists_insert (h : tier.Alone full) : ∃ offset slab,
    (Slab.new tier.nextId 32).insert guest .empty = some (offset, slab) ∧
    tier.insert guest .empty = (true, (({ tier with
        nextId := (tier.nextId + 1) % wordLimit
        slabs := tier.slabs.insert tier.nextId slab
        usage := tier.usage.insert tier.nextId ⟨0, tier.clock, false⟩ } : RamTier).indexRecord
      (KeyHash.ofKey guest) tier.nextId offset).touch tier.nextId 0) := by
  obtain ⟨offset, slab, hinsert⟩ := exists_insert_guest tier.nextId
  refine ⟨offset, slab, hinsert, ?_⟩
  have hsize : Slab.recordSize? guest .empty = some 9 := by decide +kernel
  have hnone : tier.placeLoaded guest .empty 9 = none := by
    rw [placeLoaded, List.findSome?_eq_none_iff]
    rintro ⟨id, slab₁⟩ hmem
    rw [Std.TreeMap.mem_toList_iff_getElem?_eq_some, h.slabs] at hmem
    split at hmem
    next =>
      obtain rfl := Option.some.inj hmem
      simp [h.full]
    next => cases hmem
  have hopen : ¬(tier.maxSlabs ≤ tier.loadedSlabs ∨ ¬tier.fits guest .empty) := by
    have hfits : tier.fits guest .empty = true := by
      rw [fits, hsize, h.slabSize_eq]
      decide
    simp [h.loaded, h.maxSlabs_eq, hfits]
  simp only [insert, hsize, hnone, openSlab, if_neg hopen, h.slabSize_eq, hinsert,
    Option.bind_eq_bind, Option.bind_some]
  rfl

/-- A step that counts the next number up opened a slab. -/
theorem opens_of_next {tier' : RamTier} (hnext : tier'.nextId = (tier.nextId + 1) % wordLimit) :
    opens tier tier' = 1 := by
  apply opens_of_ne
  rw [hnext]
  simp only [wordLimit]
  omega

/-- The guest comes and leaves with its slab, and one more number is used up. -/
theorem Alone.exists_visit (h : tier.Alone full) (hnext : tier.nextId ≠ 0) :
    ∃ records tier', (tier.insert guest .empty).2.evictSlab tier.nextId = some (records, tier') ∧
      opens tier (tier.insert guest .empty).2 = 1 ∧ tier'.Alone full ∧
      tier'.nextId = (tier.nextId + 1) % wordLimit := by
  obtain ⟨offset, slab, -, heq⟩ := h.exists_insert
  have hnone : tier.slabs[tier.nextId]? = none := by rw [h.slabs, if_neg hnext]
  have hcontains : tier.slabs.contains tier.nextId = false := by
    rw [← Bool.not_eq_true, ← Std.TreeMap.mem_iff_contains, Std.TreeMap.mem_iff_isSome_getElem?,
      hnone]
    exact Bool.false_ne_true
  rw [heq]
  refine ⟨_, _, @evictSlab_eq _ _ slab ?_, opens_of_next rfl, ?_, rfl⟩
  · exact Std.TreeMap.getElem?_insert_self
  · refine ⟨fun id => ?_, ?_, h.full, h.slabSize_eq, h.maxSlabs_eq⟩
    · show ((tier.slabs.insert tier.nextId slab).erase tier.nextId)[id]? = _
      rw [Std.TreeMap.getElem?_erase, Std.TreeMap.getElem?_insert, ← h.slabs]
      split
      next heq =>
        rw [← Nat.compare_eq_eq.1 heq, hnone]
      next => rfl
    · have hloaded := h.loaded
      show ((tier.slabs.insert tier.nextId slab).erase tier.nextId).size = 1
      rw [loadedSlabs] at hloaded
      simp [Std.TreeMap.size_erase, Std.TreeMap.size_insert, hcontains, hloaded]

/-- The value of the resident. -/
def filling : ByteArray := ⟨Array.replicate 11 0⟩

/-- The resident fills the first slab. -/
theorem exists_alone : ∃ full since tier, Course 32 2 0 1 since tier ∧ tier.Alone full ∧
    tier.nextId = 1 ∧ ∃ offset, full.recordAt? offset = some ⟨resident, filling⟩ := by
  have hstored : ((new 32 2 0).insert resident filling).1 = true := by decide +kernel
  have hfull : ((Slab.new 0 32).insert resident filling).map (·.2.maxAllocSize) = some 0 := by
    decide +kernel
  have hcourse := (@Course.new 32 2 0).insert resident filling
  rcases (new 32 2 0).insert_placed resident filling with heq | ⟨id, offset, placed, hplaced, heq⟩
  · rw [heq] at hstored
    cases hstored
  · cases hplaced with
    | loaded hslab _ => cases hslab
    | @opened _ slab hbelow hinsert =>
      rw [heq, opens_of_next rfl] at hcourse
      refine ⟨slab, _, _, hcourse, ⟨fun id => ?_, rfl, ?_, rfl, rfl⟩, rfl, offset, ?_⟩
      · show ((∅ : Std.TreeMap Nat Slab).insert 0 slab)[id]? = _
        by_cases hid : id = 0
        · simp [hid]
        · simp [hid, Ne.symm hid]
      · have hinsert' : (Slab.new 0 32).insert resident filling = some (offset, slab) := hinsert
        rw [hinsert'] at hfull
        exact Option.some.inj hfull
      · have hsound : (Slab.new 0 32).Sound := Slab.sound_new (by decide)
        rw [(hsound.insert hinsert).2.2.2.2, Function.update_self]

/-- Any number of slabs up to a full round can be opened while the first one stays. -/
theorem exists_course_alone {n : Nat} (hpos : 1 ≤ n) (hle : n ≤ wordLimit) :
    ∃ full since tier, Course 32 2 0 n since tier ∧ tier.Alone full ∧
      tier.nextId = n % wordLimit ∧ ∃ offset, full.recordAt? offset = some ⟨resident, filling⟩ := by
  induction n, hpos using Nat.le_induction with
  | base => exact exists_alone
  | succ n hpos ih =>
    obtain ⟨full, since, tier, hcourse, halone, hnext, hresident⟩ := ih (by omega)
    rw [Nat.mod_eq_of_lt (by omega)] at hnext
    obtain ⟨records, tier', hevict, hopens, halone', hnext'⟩ := halone.exists_visit (by omega)
    have hcourse' := (hcourse.insert guest .empty).evictSlab hevict
    rw [hopens] at hcourse'
    exact ⟨full, _, tier', hcourse', halone', by rw [hnext', hnext], hresident⟩

/-- After a full round of openings the next slab takes the place of the first one, which is still
loaded, and the resident is lost. -/
theorem Course.exists_replaced : ∃ since tier, Course 32 2 0 wordLimit since tier ∧
    tier.nextId ∈ tier.slabs ∧ (∃ offset, tier.At tier.nextId offset ⟨resident, filling⟩) ∧
    (tier.insert guest .empty).1 = true ∧ opens tier (tier.insert guest .empty).2 = 1 ∧
    ∀ id offset value, ¬(tier.insert guest .empty).2.At id offset ⟨resident, value⟩ := by
  obtain ⟨full, since, tier, hcourse, halone, hnext, offset, hresident⟩ :=
    exists_course_alone (n := wordLimit) (by decide) (Nat.le_refl _)
  rw [Nat.mod_self] at hnext
  have hfull : tier.slabs[tier.nextId]? = some full := by rw [halone.slabs, if_pos hnext]
  obtain ⟨offset', slab, hinsert, heq⟩ := halone.exists_insert
  refine ⟨since, tier, hcourse, ?_, ⟨offset, full, hfull, hresident⟩, by rw [heq], ?_, ?_⟩
  · rw [Std.TreeMap.mem_iff_isSome_getElem?, hfull]
    rfl
  · rw [heq]
    exact opens_of_next rfl
  · rintro id offset₁ value ⟨slab₁, hslab₁, hrecord⟩
    rw [heq] at hslab₁
    have hget : (tier.slabs.insert tier.nextId slab)[id]? = some slab₁ := hslab₁
    simp only [Std.TreeMap.getElem?_insert, halone.slabs, hnext, Nat.compare_eq_eq] at hget
    by_cases hid : 0 = id
    · rw [if_pos hid] at hget
      obtain rfl := Option.some.inj hget
      have hsound : (Slab.new tier.nextId 32).Sound := Slab.sound_new (by decide)
      have hempty : (Slab.new tier.nextId 32).recordAt? offset₁ = none :=
        Slab.recordAt?_of_not_mem Std.TreeSet.not_mem_emptyc
      rw [(hsound.insert hinsert).2.2.2.2, Function.update_apply, hempty] at hrecord
      split at hrecord
      next =>
        have hkey := (Record.mk.inj (Option.some.inj hrecord)).1
        exact absurd hkey (by decide)
      next => cases hrecord
    · rw [if_neg hid, if_neg (Ne.symm hid)] at hget
      cases hget

end Wrap

end RamTier

end ElasticCache
