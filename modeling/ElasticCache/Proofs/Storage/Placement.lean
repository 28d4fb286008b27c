import ElasticCache.Proofs.Arena.BestFit
import ElasticCache.Proofs.Storage.RamCeiling
import ElasticCache.Proofs.Storage.RamIndex

/-!
# Where a record goes

A slab takes a record exactly when its allocator has a large enough block, and an empty slab exactly
when the record is not above the largest record size. So a record goes to the first loaded slab that
takes it, or else to a new one when the ceiling allows one more and an empty slab would take it.
-/

namespace ElasticCache

namespace FreeList

open ElasticCache.FreeList

variable {list : FreeList} {layout : List Piece}

/-- The largest payload leaves room for the header of the arena and for its own tag. -/
theorem Represents.maxAllocSize_le (h : list.Represents layout) :
    list.maxAllocSize ≤ list.capacity - (headerSize + tagSize) := by
  by_cases hzero : list.maxAllocSize = 0
  · omega
  · obtain ⟨_, g, hg, hfits⟩ := (h.le_maxAllocSize_iff (Nat.pos_of_ne_zero hzero)).1 (Nat.le_refl _)
    have hbounds := h.bounds (mem_gaps.1 hg)
    simp only [Piece.extent, Extent.stop, blockSizeFor, headerSize, tagSize] at hbounds hfits ⊢
    omega

/-- The only gap of a new arena spans everything behind the header. -/
theorem maxAllocSize_new {size : Nat} (hsmall : size < wordLimit) :
    (new size).maxAllocSize = max size (headerSize + nodeSize) - (headerSize + tagSize) := by
  have hlayout := Heap.hasLayout_new hsmall
  have hnodes : (new size).nodes = [⟨headerSize, max size 16 - headerSize, 0⟩] :=
    hlayout.represents.nodes_eq_linked
  rw [maxAllocSize, hnodes]
  simp only [List.map_cons, List.map_nil, List.foldl_cons, List.foldl_nil, headerSize, nodeSize,
    tagSize]
  omega

end FreeList

/-- An allocation above the largest payload answers nothing. -/
theorem Heap.HasLayout.alloc_eq_none {heap : Heap} {layout : List Piece} {n : Nat}
    (h : heap.HasLayout layout) (hn : 1 ≤ n) (hlarger : heap.list.maxAllocSize < n) :
    heap.list.alloc n = .ok (none, heap.list) := by
  have hnone := mt (h.represents.le_maxAllocSize_iff hn).2 (Nat.not_le.2 hlarger)
  refine (h.represents.alloc_eq_none ?_).1
  by_cases hword : n + FreeList.tagSize < wordLimit
  · exact .inr fun g hg => Nat.lt_of_not_le fun hfits => hnone ⟨hword, g, hg, hfits⟩
  · exact .inl (Nat.le_of_not_lt hword)

namespace Slab

/-- Whether a slab takes a record now. -/
def takes (slab : Slab) (key value : ByteArray) : Bool := (slab.insert key value).isSome

section Taking

variable {slab slab' : Slab} {key value : ByteArray} {needed size offset : Nat}

/-- The size of a record is that of its key and value with a header, below the limit of a word. -/
theorem recordSize?_eq_some_iff : recordSize? key value = some needed ↔
    Record.sizeOf key.size value.size = needed ∧ needed < wordLimit := by
  rw [recordSize?, Option.ite_none_right_eq_some, Option.some.injEq]
  constructor
  · rintro ⟨hlt, rfl⟩
    exact ⟨rfl, hlt⟩
  · rintro ⟨rfl, hlt⟩
    exact ⟨hlt, rfl⟩

/-- A record has a header at least. -/
theorem headerSize_le_of_recordSize? (h : recordSize? key value = some needed) :
    Record.headerSize ≤ needed := by
  rw [← (recordSize?_eq_some_iff.1 h).1, Record.sizeOf]
  omega

/-- A slab takes a record that is not larger than the largest payload of its allocator. The block
that is allocated has the size of the record, which can be written there. -/
theorem Sound.takes_iff (h : slab.Sound) (hneeded : recordSize? key value = some needed) :
    slab.takes key value = true ↔ needed ≤ slab.maxAllocSize := by
  obtain ⟨live, layout, hlayout, _⟩ := h
  have hpos : 1 ≤ needed := by
    have hheader := headerSize_le_of_recordSize? hneeded
    rw [Record.headerSize] at hheader
    omega
  rw [takes, Slab.insert, hneeded, Option.bind_eq_bind, Option.bind_some]
  obtain hlarger | hfits := Nat.lt_or_ge slab.maxAllocSize needed
  · have hnone : slab.arena.alloc needed = .ok (none, slab.arena) :=
      hlayout.alloc_eq_none hpos hlarger
    simp only [hnone, Option.isSome_none, Bool.false_eq_true, false_iff]
    omega
  · refine ⟨fun _ => hfits, fun _ => ?_⟩
    obtain ⟨answer, arena, halloc, _, _, hanswer⟩ := hlayout.exists_alloc (n := needed)
    have halloc : slab.arena.alloc needed = .ok (answer, arena) := halloc
    rcases hanswer with ⟨rfl, _⟩ | ⟨b, layout', rfl, hlarge, _, hlayout'⟩
    · obtain ⟨_, _, _, _, hserved, _⟩ := hlayout.exists_best_fit hpos hfits
      cases halloc.symm.trans hserved
    · have hroom : b.payload + (Record.encode ⟨key, value⟩).size ≤ b.stop := by
        rw [Record.size_encode, Record.size, (recordSize?_eq_some_iff.1 hneeded).1, Extent.payload,
          Extent.stop]
        simp only [FreeList.tagSize] at hlarge ⊢
        omega
      obtain ⟨arena', hwrite, _⟩ := hlayout'.represents.exists_write
        (hlayout'.live.mem_iff.1 List.mem_cons_self) (Nat.le_refl _) hroom
      have hwrite : arena.write? b.payload (Record.encode ⟨key, value⟩) = some arena' := hwrite
      simp only [halloc, hwrite]
      rfl

/-- A removal leaves the slab in order, whatever offset it is asked for. -/
theorem Sound.remove_snd (h : slab.Sound) (offset : Nat) : (slab.remove offset).2.Sound := by
  by_cases hlive : offset ∈ slab.live
  · exact (h.remove hlive).2.1
  · rwa [Slab.remove, if_neg hlive]

/-- A record whose size does not fit a word is not taken. -/
theorem takes_eq_false_of_recordSize? (h : recordSize? key value = none) :
    slab.takes key value = false := by
  rw [takes, Slab.insert, h]
  rfl

/-- No slab takes a record that is above the largest record size of its own. -/
theorem Sound.le_maxRecordSize (h : slab.Sound) (hneeded : recordSize? key value = some needed)
    (htakes : slab.takes key value = true) : needed ≤ maxRecordSize slab.size := by
  have hle := (h.takes_iff hneeded).1 htakes
  obtain ⟨live, layout, hlayout, _⟩ := h
  exact hle.trans hlayout.represents.maxAllocSize_le

/-- An empty slab takes every record that is not above the largest record size. -/
theorem takes_new_iff (id : Nat) (hsmall : size < wordLimit)
    (hneeded : recordSize? key value = some needed) :
    (new id size).takes key value = true ↔ needed ≤ maxRecordSize size := by
  have hheader := headerSize_le_of_recordSize? hneeded
  have hnew : (new id size).maxAllocSize = _ := FreeList.maxAllocSize_new hsmall
  rw [(sound_new hsmall).takes_iff hneeded, hnew]
  simp only [maxRecordSize, Record.headerSize, FreeList.headerSize, FreeList.nodeSize,
    FreeList.tagSize] at hheader ⊢
  omega

end Taking

end Slab

namespace RamTier

/-- Every slab is in order. -/
def Sound (tier : RamTier) : Prop :=
  ∀ (id : Nat) (slab : Slab), tier.slabs[id]? = some slab → slab.Sound

/-- The first loaded slab that takes a record. -/
def firstTaker? (tier : RamTier) (key value : ByteArray) : Option (Nat × Slab) :=
  tier.slabs.toList.find? (·.2.takes key value)

/-- A record opens a new slab: no loaded one takes it, the ceiling allows one more, and an empty one
takes it. -/
def Opens (tier : RamTier) (key value : ByteArray) : Prop :=
  tier.firstTaker? key value = none ∧ tier.loadedSlabs < tier.maxSlabs ∧
    (Slab.new tier.nextId tier.slabSize).takes key value = true

instance (tier : RamTier) (key value : ByteArray) : Decidable (tier.Opens key value) := by
  unfold Opens
  infer_instance

/-- The tier with a slab in the place of the one of its number. -/
def putSlab (tier : RamTier) (id : Nat) (slab : Slab) : RamTier :=
  { tier with slabs := tier.slabs.insert id slab }

/-- The tier with a slab under the next number. -/
def addSlab (tier : RamTier) (slab : Slab) : RamTier :=
  { tier with
    nextId := (tier.nextId + 1) % wordLimit
    slabs := tier.slabs.insert tier.nextId slab
    usage := tier.usage.insert tier.nextId ⟨0, tier.clock, false⟩ }

/-- The tier with a record entered that one of its slabs has just taken. -/
def enter (tier : RamTier) (key : ByteArray) (id offset : Nat) : RamTier :=
  (tier.indexRecord (KeyHash.ofKey key) id offset).touch id 0

section Soundness

variable {tier tier' : RamTier} {key value : ByteArray} {id offset : Nat} {slab : Slab}
  {records : List Record}

/-- What slabs are loaded decides alone. -/
theorem Sound.congr (h : tier.Sound) (hslabs : tier'.slabs = tier.slabs) : tier'.Sound := by
  rw [Sound, hslabs]
  exact h

/-- A slab in order may take the place of another one or come in addition. -/
theorem Sound.of_insert (h : tier.Sound) (hsound : slab.Sound)
    (hslabs : tier'.slabs = tier.slabs.insert id slab) : tier'.Sound := by
  intro other slab' hslab'
  rw [getElem?_insert_slab hslabs] at hslab'
  split at hslab'
  next => rwa [← Option.some.inj hslab']
  next => exact h other slab' hslab'

/-- A tier is in order without one of its slabs. -/
theorem Sound.of_erase (h : tier.Sound) (hslabs : tier'.slabs = tier.slabs.erase id) :
    tier'.Sound := by
  intro other slab' hslab'
  rw [hslabs, Std.TreeMap.getElem?_erase] at hslab'
  split at hslab'
  next => cases hslab'
  next => exact h other slab' hslab'

/-- A tier is in order after a removal from one of its slabs. -/
theorem Sound.of_modify (h : tier.Sound)
    (hslabs : tier'.slabs = tier.slabs.modify id fun slab => (slab.remove offset).2) :
    tier'.Sound := by
  intro other slab' hslab'
  rw [hslabs, Std.TreeMap.getElem?_modify] at hslab'
  split at hslab'
  next =>
    obtain ⟨slab, hslab, rfl⟩ := Option.map_eq_some_iff.1 hslab'
    exact (h id slab hslab).remove_snd offset
  next => exact h other slab' hslab'

/-- A tier is in order after an insertion, whether it was stored or not. -/
theorem Sound.insert (h : tier.Sound) (hsmall : tier.slabSize < wordLimit)
    (key value : ByteArray) : (tier.insert key value).2.Sound := by
  rcases tier.insert_placed key value with heq | ⟨id, offset, placed, hplaced, heq⟩
  · rwa [heq]
  · rw [heq]
    cases hplaced with
    | loaded hslab hinsert => exact h.of_insert ((h _ _ hslab).insert hinsert).1 rfl
    | opened _ hinsert => exact h.of_insert ((Slab.sound_new hsmall).insert hinsert).1 rfl

/-- What was just stored is held. -/
theorem Sound.contains_of_insert (h : tier.Sound) (hsmall : tier.slabSize < wordLimit)
    (hinsert : tier.insert key value = (true, tier')) : tier'.contains key = true := by
  rcases tier.insert_placed key value with heq | ⟨id, offset, placed, hplaced, heq⟩
  · cases hinsert.symm.trans heq
  obtain ⟨_, rfl⟩ := Prod.mk.inj (hinsert.symm.trans heq)
  obtain ⟨slab, slab', hsound, htaken, hslabs⟩ : ∃ slab slab' : Slab, slab.Sound ∧
      slab.insert key value = some (offset, slab') ∧ placed.slabs = tier.slabs.insert id slab' := by
    cases hplaced with
    | loaded hslab htaken => exact ⟨_, _, h _ _ hslab, htaken, rfl⟩
    | opened _ htaken => exact ⟨_, _, Slab.sound_new hsmall, htaken, rfl⟩
  obtain ⟨hsound', _, _, _, hrecords⟩ := hsound.insert htaken
  have hholds : slab'.holds offset key = true := by
    refine hsound'.holds_iff.2 ⟨value, ?_⟩
    rw [hrecords, Function.update_self]
  rw [contains, Option.isSome_iff_ne_none]
  have hslab' : ((placed.indexRecord (KeyHash.ofKey key) id offset).touch id 0).slabs[id]? =
      some slab' := (getElem?_insert_slab hslabs id).trans (if_pos rfl)
  exact locate?_ne_none_of_listed hslab' hholds (listed_indexRecord.2 (.inl ⟨rfl, rfl, rfl⟩))

/-- A tier is in order after a read. -/
theorem Sound.find (h : tier.Sound) (hfind : tier.find key = some (value, tier')) :
    tier'.Sound := by
  simp only [RamTier.find, Option.bind_eq_bind, Option.bind_eq_some_iff] at hfind
  obtain ⟨_, _, _, _, _, _, hfind⟩ := hfind
  obtain ⟨_, rfl⟩ := Prod.mk.inj (Option.some.inj hfind)
  exact h.congr rfl

/-- A tier is in order after a removal. -/
theorem Sound.remove (h : tier.Sound) (key : ByteArray) : (tier.remove key).2.Sound := by
  unfold RamTier.remove
  split
  next => exact h
  next =>
    dsimp only
    unfold unindexRecord
    split <;> exact h.of_modify rfl

/-- A tier is in order after an eviction. -/
theorem Sound.evictSlab (h : tier.Sound) (hevict : tier.evictSlab id = some (records, tier')) :
    tier'.Sound := by
  rw [RamTier.evictSlab, Option.bind_eq_bind, Option.bind_eq_some_iff] at hevict
  obtain ⟨_, _, hevict⟩ := hevict
  obtain ⟨_, rfl⟩ := Prod.mk.inj (Option.some.inj hevict)
  exact h.of_erase rfl

end Soundness

section Placing

variable {tier : RamTier} {key value : ByteArray} {id needed : Nat} {slab : Slab}

/-- A record whose size does not fit a word fits no slab. -/
theorem fits_eq_false_of_recordSize? (h : Slab.recordSize? key value = none) :
    tier.fits key value = false := by
  rw [fits, h]

/-- The test for a record that is too large is that of an empty slab. -/
theorem fits_eq_takes (hsmall : tier.slabSize < wordLimit) (id : Nat) (key value : ByteArray) :
    tier.fits key value = (Slab.new id tier.slabSize).takes key value := by
  cases hneeded : Slab.recordSize? key value with
  | none => rw [fits_eq_false_of_recordSize? hneeded, Slab.takes_eq_false_of_recordSize? hneeded]
  | some needed =>
    rw [Bool.eq_iff_iff, Slab.takes_new_iff id hsmall hneeded, fits, hneeded, decide_eq_true_iff]

/-- The first result of a function is that of the first element that has one. -/
theorem findSome?_eq_bind_find? {α β : Type} {f : α → Option β} {p : α → Bool} {l : List α}
    (h : ∀ a ∈ l, (f a).isSome = p a) : l.findSome? f = (l.find? p).bind f := by
  induction l with
  | nil => rfl
  | cons a rest ih =>
    have ha := h a List.mem_cons_self
    rw [List.findSome?_cons, List.find?_cons]
    cases hfa : f a with
    | none =>
      rw [hfa, Option.isSome_none] at ha
      rw [← ha]
      exact ih fun b hb => h b (List.mem_cons_of_mem _ hb)
    | some b =>
      rw [hfa, Option.isSome_some] at ha
      rw [← ha]
      exact hfa.symm

/-- The first slab that takes a record is loaded, and takes it. -/
theorem getElem?_of_firstTaker? (htaker : tier.firstTaker? key value = some (id, slab)) :
    tier.slabs[id]? = some slab ∧ slab.takes key value = true := by
  rw [firstTaker?] at htaker
  have htakes := List.find?_some htaker
  exact ⟨Std.TreeMap.mem_toList_iff_getElem?_eq_some.1 (List.mem_of_find?_eq_some htaker), htakes⟩

/-- Loaded slabs are asked in turn, and the first one that takes the record gets it. -/
theorem Sound.placeLoaded_eq (h : tier.Sound) (hneeded : Slab.recordSize? key value = some needed) :
    tier.placeLoaded key value needed = (tier.firstTaker? key value).bind fun (id, slab) =>
      (slab.insert key value).map fun (offset, slab) => (id, offset, slab) := by
  have hsome (entry : Nat × Slab) (hentry : entry ∈ tier.slabs.toList) :
      (if needed ≤ entry.2.maxAllocSize then
        (entry.2.insert key value).map fun (offset, slab) => (entry.1, offset, slab)
        else none).isSome = entry.2.takes key value := by
    have hsound := h entry.1 entry.2 (Std.TreeMap.mem_toList_iff_getElem?_eq_some.1 hentry)
    split
    next => exact Option.isSome_map
    next hlarger => exact (Bool.eq_false_iff.2 (mt (hsound.takes_iff hneeded).1 hlarger)).symm
  refine (findSome?_eq_bind_find? hsome).trans ?_
  rw [firstTaker?]
  cases htaker : tier.slabs.toList.find? (·.2.takes key value) with
  | none => rfl
  | some entry =>
    obtain ⟨hslab, htakes⟩ := getElem?_of_firstTaker? htaker
    exact if_pos (((h _ _ hslab).takes_iff hneeded).1 htakes)

/-- No loaded slab takes a record when there is no first one. -/
theorem firstTaker?_eq_none_iff : tier.firstTaker? key value = none ↔
    ∀ (id : Nat) (slab : Slab), tier.slabs[id]? = some slab → slab.takes key value = false := by
  simp only [firstTaker?, List.find?_eq_none, Prod.forall,
    Std.TreeMap.mem_toList_iff_getElem?_eq_some, Bool.not_eq_true]

/-- A record goes to the first loaded slab that takes it. -/
theorem Sound.insert_of_firstTaker? (h : tier.Sound)
    (htaker : tier.firstTaker? key value = some (id, slab)) :
    ∃ offset slab', slab.insert key value = some (offset, slab') ∧
      tier.insert key value = (true, (tier.putSlab id slab').enter key id offset) := by
  obtain ⟨hslab, htakes⟩ := getElem?_of_firstTaker? htaker
  obtain ⟨⟨offset, slab'⟩, hinsert⟩ := Option.isSome_iff_exists.1 htakes
  refine ⟨offset, slab', hinsert, ?_⟩
  cases hneeded : Slab.recordSize? key value with
  | none =>
    rw [Slab.takes_eq_false_of_recordSize? hneeded] at htakes
    cases htakes
  | some needed =>
    rw [RamTier.insert, hneeded]
    simp only [h.placeLoaded_eq hneeded, htaker, Option.bind_some, hinsert, Option.map_some]
    rfl

/-- A record goes to a new slab when no loaded one takes it, the ceiling allows one more and an
empty one takes it. -/
theorem Sound.insert_of_opens (h : tier.Sound) (hsmall : tier.slabSize < wordLimit)
    (hopens : tier.Opens key value) :
    ∃ offset slab', (Slab.new tier.nextId tier.slabSize).insert key value = some (offset, slab') ∧
      tier.insert key value = (true, (tier.addSlab slab').enter key tier.nextId offset) := by
  obtain ⟨hnone, hbelow, htakes⟩ := hopens
  obtain ⟨⟨offset, slab'⟩, hinsert⟩ := Option.isSome_iff_exists.1 htakes
  refine ⟨offset, slab', hinsert, ?_⟩
  cases hneeded : Slab.recordSize? key value with
  | none =>
    rw [Slab.takes_eq_false_of_recordSize? hneeded] at htakes
    cases htakes
  | some needed =>
    have hfits : tier.fits key value = true := by rw [fits_eq_takes hsmall tier.nextId, htakes]
    have hguard : ¬(tier.maxSlabs ≤ tier.loadedSlabs ∨ ¬tier.fits key value = true) :=
      not_or.2 ⟨Nat.not_le.2 hbelow, not_not.2 hfits⟩
    rw [RamTier.insert, hneeded]
    simp only [h.placeLoaded_eq hneeded, hnone, Option.bind_none, openSlab, if_neg hguard, hinsert,
      Option.bind_eq_bind, Option.bind_some]
    rfl

/-- Any other record is refused. -/
theorem Sound.insert_of_refused (h : tier.Sound) (hsmall : tier.slabSize < wordLimit)
    (hnone : tier.firstTaker? key value = none) (hopens : ¬tier.Opens key value) :
    tier.insert key value = (false, tier) := by
  cases hneeded : Slab.recordSize? key value with
  | none => rw [RamTier.insert, hneeded]
  | some needed =>
    have hguard : tier.maxSlabs ≤ tier.loadedSlabs ∨ ¬tier.fits key value = true := by
      rw [fits_eq_takes hsmall tier.nextId]
      by_contra hallowed
      rw [not_or, Decidable.not_not, Nat.not_le] at hallowed
      exact hopens ⟨hnone, hallowed⟩
    rw [RamTier.insert, hneeded]
    simp only [h.placeLoaded_eq hneeded, hnone, Option.bind_none, openSlab, if_pos hguard]

/-- A record is refused exactly when no loaded slab takes it and it opens none. -/
theorem Sound.insert_fst_eq_false_iff (h : tier.Sound) (hsmall : tier.slabSize < wordLimit) :
    (tier.insert key value).1 = false ↔
      tier.firstTaker? key value = none ∧ ¬tier.Opens key value := by
  cases htaker : tier.firstTaker? key value with
  | some entry =>
    obtain ⟨_, _, _, heq⟩ := h.insert_of_firstTaker? htaker
    simp only [heq, Bool.true_eq_false, reduceCtorEq, false_and]
  | none =>
    by_cases hopens : tier.Opens key value
    · obtain ⟨_, _, _, heq⟩ := h.insert_of_opens hsmall hopens
      simp only [heq, Bool.true_eq_false, hopens, not_true_eq_false, and_false]
    · simp only [h.insert_of_refused hsmall htaker hopens, hopens, not_false_eq_true, and_self]

end Placing

/-! ## Which slabs are loaded -/

section Loaded

variable {tier tier' : RamTier} {key : ByteArray} {id : Nat} {records : List Record}

/-- An insertion leaves all slabs loaded. -/
theorem mem_slabs_insert (hid : id ∈ tier.slabs) (key value : ByteArray) :
    id ∈ (tier.insert key value).2.slabs := by
  rcases tier.insert_placed key value with heq | ⟨_, _, placed, hplaced, heq⟩
  · rwa [heq]
  · rw [heq]
    cases hplaced with
    | loaded => exact Std.TreeMap.mem_insert.2 (.inr hid)
    | opened => exact Std.TreeMap.mem_insert.2 (.inr hid)

/-- A removal neither loads nor unloads a slab. -/
theorem mem_slabs_remove : id ∈ (tier.remove key).2.slabs ↔ id ∈ tier.slabs := by
  unfold RamTier.remove
  split
  next => rfl
  next =>
    dsimp only
    unfold unindexRecord
    split <;> exact Std.TreeMap.mem_modify

/-- An eviction leaves all slabs loaded but one. -/
theorem exists_gone_of_evictOne (hevict : tier.evictOne = some (records, tier')) :
    ∃ gone ∈ tier.slabs, ∀ id ∈ tier.slabs, id ≠ gone → id ∈ tier'.slabs := by
  obtain ⟨gone, hevict⟩ := exists_evictSlab_of_evictOne hevict
  cases hslab : tier.slabs[gone]? with
  | none => simp [RamTier.evictSlab, hslab] at hevict
  | some slab =>
    rw [evictSlab_eq hslab] at hevict
    obtain ⟨_, rfl⟩ := Prod.mk.inj (Option.some.inj hevict)
    refine ⟨gone, ?_, fun id hid hne => Std.TreeMap.mem_erase.2 ⟨?_, hid⟩⟩
    · rw [Std.TreeMap.mem_iff_isSome_getElem?, hslab, Option.isSome_some]
    · exact mt Nat.compare_eq_eq.1 hne.symm

end Loaded

end RamTier

end ElasticCache
