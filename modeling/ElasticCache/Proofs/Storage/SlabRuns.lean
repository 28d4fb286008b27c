import ElasticCache.Proofs.Storage.Placement

/-!
# Runs of a slab

Records are stored in a slab and removed from it in any order. Whatever the order was, the slab
holds the record that was stored last at each offset and not removed since, and the blocks of its
arena are those of the records it holds. So what it accepts, what it answers and what it has in use
are told by the records alone, and an empty slab is as good as a new one.
-/

namespace ElasticCache

namespace Heap

open FreeList

/-- Bytes of the arena that are in no live block are in one free node as far as they stand together.
A node that ended before them would end at a live block, which stands apart from them. -/
theorem HasLayout.exists_node_of_apart {heap : Heap} {layout : List Piece} {e : Extent}
    (h : heap.HasLayout layout) (hpos : 0 < e.size) (hstart : headerSize ≤ e.offset)
    (hstop : e.stop ≤ heap.list.capacity)
    (hapart : ∀ b ∈ heap.live, b.stop ≤ e.offset ∨ e.stop ≤ b.offset) :
    ∃ node ∈ heap.list.nodes, node.offset ≤ e.offset ∧ e.stop ≤ node.extent.stop := by
  obtain ⟨⟨extents, hperm, htiles⟩, _, _, hmaximal, _⟩ := h.sound
  have hlt : e.offset < e.stop := Nat.lt_add_of_pos_right hpos
  obtain ⟨x, hx, hle, hinside⟩ := htiles.exists_mem hstart (Nat.lt_of_lt_of_le hlt hstop)
  rcases List.mem_append.1 (hperm.mem_iff.1 hx) with hlive | hnode
  · have := hapart x hlive
    omega
  · obtain ⟨node, hmem, rfl⟩ := List.mem_map.1 hnode
    refine ⟨node, hmem, hle, Nat.le_of_not_lt fun hshort => ?_⟩
    rcases ((hmaximal _).1 hnode).ends with hend | ⟨b, hb, hend⟩
    · omega
    · have hside := hapart b hb
      have hbstop : b.offset ≤ b.stop := Nat.le_add_right ..
      omega

end Heap

namespace Slab

open FreeList

/-- What happened to a slab. -/
inductive Event where
  /-- A record was stored and got an offset. -/
  | stored (offset : Nat) (record : Record)
  /-- The record at an offset was to be removed. -/
  | removed (offset : Nat)

/-- The record that was stored last at an offset and not removed since, given all events with the
latest first. -/
def lastStored : List Event → Nat → Option Record
  | [] => fun _ => none
  | .stored offset record :: earlier => Function.update (lastStored earlier) offset (some record)
  | .removed offset :: earlier => Function.update (lastStored earlier) offset none

/-- Records that are stored in a new slab of `size` bytes and removed from it, in any order. Any
offset may be asked to be removed. A record that is refused leaves the slab as it is. -/
inductive Use (id size : Nat) : List Event → Slab → Prop
  | new : Use id size [] (new id size)
  | stored {events : List Event} {slab slab' : Slab} {key value : ByteArray} {offset : Nat}
      (use : Use id size events slab) (h : slab.insert key value = some (offset, slab')) :
      Use id size (.stored offset ⟨key, value⟩ :: events) slab'
  | removed {events : List Event} {slab : Slab} (use : Use id size events slab) (offset : Nat) :
      Use id size (.removed offset :: events) (slab.remove offset).2

/-- The arena of a slab has come about by allocations, writes and releases, and its live blocks are
those of the live records. -/
structure Houses (slab : Slab) (size : Nat) (live : List Extent) : Prop where
  reachable : Heap.Reachable size ⟨slab.arena, live⟩
  mem_iff : ∀ offset, offset ∈ live.map Extent.payload ↔ offset ∈ slab.live

section Houses

variable {slab slab' : Slab} {size id offset : Nat} {live : List Extent} {b : Extent}
  {key value : ByteArray}

/-- A new slab houses no records. -/
theorem houses_new (id size : Nat) : (new id size).Houses size [] :=
  ⟨.new, fun _ => ⟨fun h => (List.not_mem_nil h).elim,
    fun h => (Std.TreeSet.not_mem_emptyc h).elim⟩⟩

/-- The arena of a slab that houses records has a layout. -/
theorem Houses.exists_layout (h : slab.Houses size live) (hsmall : size < wordLimit) :
    ∃ layout, Heap.HasLayout ⟨slab.arena, live⟩ layout := (h.reachable.exists_layout hsmall).1

/-- A record that is stored is written into a new block. -/
theorem exists_writes_of_insert (h : slab.insert key value = some (offset, slab')) :
    ∃ arena, Record.sizeOf key.size value.size < wordLimit ∧
      slab.arena.alloc (Record.sizeOf key.size value.size) = .ok (some offset, arena) ∧
      arena.write? offset (Record.encode ⟨key, value⟩) = some slab'.arena ∧
      slab'.live = slab.live.insert offset := by
  rw [Slab.insert, Option.bind_eq_bind, Option.bind_eq_some_iff] at h
  obtain ⟨needed, hneeded, h⟩ := h
  obtain ⟨rfl, hsmall⟩ := recordSize?_eq_some_iff.1 hneeded
  split at h
  next payload arena halloc =>
    obtain ⟨arena', hwrite, h⟩ := Option.bind_eq_some_iff.1 h
    obtain ⟨rfl, rfl⟩ := Prod.mk.inj (Option.some.inj h)
    exact ⟨arena, hsmall, halloc, hwrite, rfl⟩
  next => cases h

/-- A record that is stored has a block of its own in addition to those of the others. -/
theorem Houses.exists_insert (h : slab.Houses size live) (hsmall : size < wordLimit)
    (hinsert : slab.insert key value = some (offset, slab')) :
    ∃ live', slab'.Houses size live' := by
  obtain ⟨arena, hfits, halloc, hwrite, hlive⟩ := exists_writes_of_insert hinsert
  obtain ⟨layout, hlayout⟩ := h.exists_layout hsmall
  obtain ⟨answer, arena', halloc', _, _, hanswer⟩ :=
    hlayout.exists_alloc (n := Record.sizeOf key.size value.size)
  obtain ⟨rfl, rfl⟩ := Prod.mk.inj (Except.ok.inj (halloc.symm.trans halloc'))
  obtain ⟨hnone, _⟩ | ⟨b, _, hpayload, hlarge, hsize, _⟩ := hanswer
  · cases hnone
  · obtain rfl := Option.some.inj hpayload
    have hallows : Heap.Allows ⟨slab.arena, live⟩ (.alloc (Record.sizeOf key.size value.size)) :=
      hfits
    have hallocated : Heap.Reachable size ⟨arena, b :: live⟩ :=
      h.reachable.step hallows (Heap.step_alloc halloc hsize)
    have hroom : b.payload + (Record.encode ⟨key, value⟩).size ≤ b.stop := by
      rw [Record.size_encode, Record.size, Extent.payload, Extent.stop]
      simp only [tagSize] at hlarge ⊢
      omega
    have hstep : Heap.step ⟨arena, b :: live⟩ (.write b.payload (Record.encode ⟨key, value⟩)) =
        .ok ⟨slab'.arena, b :: live⟩ := by
      simp only [Heap.step, hwrite]
      rfl
    have hinside : Heap.Allows ⟨arena, b :: live⟩ (.write b.payload (Record.encode ⟨key, value⟩)) :=
      ⟨b, List.mem_cons_self, Nat.le_refl _, hroom⟩
    refine ⟨b :: live, hallocated.step hinside hstep, ?_⟩
    intro other
    rw [hlive, mem_insert_live, List.map_cons, List.mem_cons, h.mem_iff]

/-- A removal releases the block of its record. -/
theorem Houses.remove_eq (h : slab.Houses size live) (hsmall : size < wordLimit) (hb : b ∈ live) :
    ∃ arena, slab.remove b.payload =
        (true, { slab with arena, live := slab.live.erase b.payload }) ∧
      (slab.remove b.payload).2.Houses size (live.filter (·.payload ≠ b.payload)) := by
  obtain ⟨layout, hlayout⟩ := h.exists_layout hsmall
  obtain ⟨arena, _, hfree, _⟩ := hlayout.exists_free hb
  have hfree : slab.arena.free b.payload = .ok (true, arena) := hfree
  have hlive : b.payload ∈ slab.live := (h.mem_iff _).1 (List.mem_map_of_mem hb)
  have hremove : slab.remove b.payload =
      (true, { slab with arena, live := slab.live.erase b.payload }) := by
    rw [Slab.remove, if_pos hlive]
    simp only [hfree]
  refine ⟨arena, hremove, ?_⟩
  rw [hremove]
  have hallows : Heap.Allows ⟨slab.arena, live⟩ (.free b.payload) := ⟨b, hb, rfl⟩
  refine ⟨h.reachable.step hallows (Heap.step_free hfree), fun offset => ?_⟩
  rw [mem_erase_live, ← h.mem_iff]
  simp only [List.mem_map, List.mem_filter, decide_eq_true_eq]
  constructor
  · rintro ⟨d, ⟨hd, hne⟩, rfl⟩
    exact ⟨hne, d, hd, rfl⟩
  · rintro ⟨hne, d, hd, rfl⟩
    exact ⟨d, ⟨hd, hne⟩, rfl⟩

/-- An offset without a live record is not removed. -/
theorem remove_eq_of_not_mem (h : offset ∉ slab.live) : slab.remove offset = (false, slab) :=
  if_neg h

/-- A removal leaves the other records housed, whether there was one to remove or not. -/
theorem Houses.exists_remove (h : slab.Houses size live) (hsmall : size < wordLimit)
    (offset : Nat) : ∃ live', (slab.remove offset).2.Houses size live' := by
  by_cases hlive : offset ∈ slab.live
  · obtain ⟨b, hb, rfl⟩ := List.mem_map.1 ((h.mem_iff offset).2 hlive)
    obtain ⟨_, _, hhouses⟩ := h.remove_eq hsmall hb
    exact ⟨_, hhouses⟩
  · rw [remove_eq_of_not_mem hlive]
    exact ⟨live, h⟩

/-- What is in use are the bytes of the live blocks, and all bytes behind the header are in these
and in free nodes. -/
theorem Houses.used_eq (h : slab.Houses size live) (hsmall : size < wordLimit) :
    headerSize + slab.arena.remainingSize ≤ slab.size ∧
      slab.used = (live.map (·.size)).sum := by
  obtain ⟨layout, hlayout⟩ := h.exists_layout hsmall
  have hremaining := hlayout.sound.remaining
  dsimp only at hremaining
  rw [Slab.used, Slab.size]
  omega

/-- A removal frees the whole block of its record: all its bytes are in one free node. -/
theorem Houses.frees_block (h : slab.Houses size live) (hsmall : size < wordLimit)
    (hb : b ∈ live) :
    (slab.remove b.payload).2.used + b.size = slab.used ∧
      ∃ node ∈ (slab.remove b.payload).2.arena.nodes,
        node.offset ≤ b.offset ∧ b.stop ≤ node.offset + node.size := by
  obtain ⟨_, _, hafter⟩ := h.remove_eq hsmall hb
  obtain ⟨layout, hlayout⟩ := h.exists_layout hsmall
  obtain ⟨layout', hlayout'⟩ := hafter.exists_layout hsmall
  have hperm := hlayout.perm_filter hb
  have hbounds := hlayout.represents.bounds (mem_blocks.1 (hlayout.live.mem_iff.1 hb))
  have hpos := hlayout.represents.pos _ (mem_blocks.1 (hlayout.live.mem_iff.1 hb))
  have hcapacity := (hafter.reachable.exists_layout hsmall).2.trans
    (h.reachable.exists_layout hsmall).2.symm
  dsimp only at hcapacity hperm
  constructor
  · rw [(hafter.used_eq hsmall).2, (h.used_eq hsmall).2, ← (hperm.map (·.size)).sum_nat,
      List.map_cons, List.sum_cons, Nat.add_comm]
  · refine hlayout'.exists_node_of_apart hpos hbounds.1 ?_ fun d hd => ?_
    · exact hcapacity ▸ hbounds.2
    · have : Std.Symm fun b d : Extent => b.stop ≤ d.offset ∨ d.stop ≤ b.offset :=
        ⟨fun _ _ hor => hor.symm⟩
      obtain ⟨hmem, hne⟩ := List.mem_filter.1 hd
      refine hlayout.pairwise_live.forall hmem hb fun heq => ?_
      rw [heq] at hne
      simp at hne

/-- A slab without live records takes what a new one takes. -/
theorem Houses.takes_eq_of_count (h : slab.Houses size live) (hsmall : size < wordLimit)
    (hsound : slab.Sound) (hcount : slab.count = 0) (key value : ByteArray) :
    slab.takes key value = (new id size).takes key value := by
  have hlive : live = [] := by
    refine List.eq_nil_iff_forall_not_mem.2 fun b hb => ?_
    have hmem := (h.mem_iff b.payload).1 (List.mem_map_of_mem hb)
    rw [Slab.count, ← Std.TreeSet.length_toList, List.length_eq_zero_iff] at hcount
    rw [← Std.TreeSet.mem_toList, hcount] at hmem
    cases hmem
  subst hlive
  have hnodes : slab.arena.nodes = (FreeList.new size).nodes :=
    Heap.Reachable.new.nodes_eq h.reachable hsmall fun _ => Iff.rfl
  have hlargest : slab.maxAllocSize = (new id size).maxAllocSize := by
    have hnew : (new id size).maxAllocSize = (FreeList.new size).maxAllocSize := rfl
    rw [hnew, Slab.maxAllocSize, FreeList.maxAllocSize, hnodes, FreeList.maxAllocSize]
  cases hneeded : recordSize? key value with
  | none => rw [takes_eq_false_of_recordSize? hneeded, takes_eq_false_of_recordSize? hneeded]
  | some needed =>
    rw [Bool.eq_iff_iff, hsound.takes_iff hneeded, (sound_new hsmall).takes_iff hneeded, hlargest]

end Houses

section Runs

variable {slab slab' : Slab} {size id offset : Nat} {events : List Event} {key value : ByteArray}

/-- Whatever happened, the slab is in order, holds what was stored and not removed, and has a block
for each of its records. -/
theorem Use.sound (use : Use id size events slab) (hsmall : size < wordLimit) :
    slab.Sound ∧ slab.recordAt? = lastStored events ∧ ∃ live, slab.Houses size live := by
  induction use with
  | new =>
    refine ⟨sound_new hsmall, funext fun offset => ?_, [], houses_new id size⟩
    exact recordAt?_of_not_mem Std.TreeSet.not_mem_emptyc
  | stored use h ih =>
    obtain ⟨hsound, hrecords, live, hhouses⟩ := ih
    obtain ⟨hsound', _, _, _, hrecords'⟩ := hsound.insert h
    refine ⟨hsound', ?_, hhouses.exists_insert hsmall h⟩
    rw [hrecords', hrecords, lastStored]
  | @removed events slab use offset ih =>
    obtain ⟨hsound, hrecords, live, hhouses⟩ := ih
    refine ⟨hsound.remove_snd offset, ?_, hhouses.exists_remove hsmall offset⟩
    by_cases hlive : offset ∈ slab.live
    · rw [(hsound.remove hlive).2.2.2.2, hrecords, lastStored]
    · rw [remove_eq_of_not_mem hlive, lastStored, ← hrecords, ← recordAt?_of_not_mem hlive,
        Function.update_eq_self]

/-- The live offsets are those of the records that the slab holds. -/
theorem Sound.mem_live_iff (h : slab.Sound) :
    offset ∈ slab.live ↔ (slab.recordAt? offset).isSome := by
  constructor
  · intro hlive
    obtain ⟨record, hrecord, _⟩ := h.exists_record hlive
    rw [hrecord, Option.isSome_some]
  · intro hsome
    obtain ⟨record, hrecord⟩ := Option.isSome_iff_exists.1 hsome
    exact mem_live hrecord

/-- The key and the value at an offset are those of the record there. -/
theorem Sound.reads_eq (h : slab.Sound) (offset : Nat) :
    slab.keyAt? offset = (slab.recordAt? offset).map (·.key) ∧
      slab.valueAt? offset = (slab.recordAt? offset).map (·.value) := by
  by_cases hlive : offset ∈ slab.live
  · obtain ⟨record, hrecord, hkey, hvalue, _⟩ := h.exists_record hlive
    rw [hrecord, hkey, hvalue]
    exact ⟨rfl, rfl⟩
  · rw [recordAt?_of_not_mem hlive, keyAt?, valueAt?, lengths?, if_neg hlive]
    exact ⟨rfl, rfl⟩

/-- Where the records of two slabs agree, so do the keys and the values. -/
theorem Sound.reads_congr (h : slab.Sound) (h' : slab'.Sound)
    (heq : slab'.recordAt? offset = slab.recordAt? offset) :
    slab'.keyAt? offset = slab.keyAt? offset ∧ slab'.valueAt? offset = slab.valueAt? offset := by
  rw [(h'.reads_eq offset).1, (h'.reads_eq offset).2, heq]
  exact ⟨(h.reads_eq offset).1.symm, (h.reads_eq offset).2.symm⟩

/-- A record that is stored goes to an offset without a record, and what is read at every other
offset stays. -/
theorem Sound.insert_fresh (h : slab.Sound)
    (hinsert : slab.insert key value = some (offset, slab')) :
    slab.recordAt? offset = none ∧ ∀ other, other ≠ offset →
      slab'.keyAt? other = slab.keyAt? other ∧ slab'.valueAt? other = slab.valueAt? other := by
  obtain ⟨hsound', _, hfresh, _, hrecords⟩ := h.insert hinsert
  refine ⟨recordAt?_of_not_mem hfresh, fun other hother => h.reads_congr hsound' ?_⟩
  rw [hrecords, Function.update_of_ne hother]

/-- A removal tells whether there was a record at its offset, and what is read at every other offset
stays. -/
theorem Sound.remove_spares (h : slab.Sound) (offset : Nat) :
    ((slab.remove offset).1 = true ↔ (slab.recordAt? offset).isSome) ∧
      ∀ other, other ≠ offset → (slab.remove offset).2.keyAt? other = slab.keyAt? other ∧
        (slab.remove offset).2.valueAt? other = slab.valueAt? other := by
  rw [← h.mem_live_iff]
  by_cases hlive : offset ∈ slab.live
  · obtain ⟨htrue, hsound', _, _, hrecords⟩ := h.remove hlive
    refine ⟨iff_of_true htrue hlive, fun other hother => h.reads_congr hsound' ?_⟩
    rw [hrecords, Function.update_of_ne hother]
  · rw [remove_eq_of_not_mem hlive]
    exact ⟨iff_of_false Bool.false_ne_true hlive, fun _ _ => ⟨rfl, rfl⟩⟩

/-- The records are listed in ascending order of their offsets. -/
theorem Sound.exists_offsets (h : slab.Sound) :
    ∃ offsets : List Nat, offsets.Pairwise (· < ·) ∧
      (∀ offset, offset ∈ offsets ↔ (slab.recordAt? offset).isSome) ∧
      slab.records.map some = offsets.map slab.recordAt? := by
  refine ⟨slab.live.toList, ?_, fun offset => ?_, ?_⟩
  · exact Std.TreeSet.ordered_toList.imp fun hlt => Nat.compare_eq_lt.1 hlt
  · rw [Std.TreeSet.mem_toList, h.mem_live_iff]
  · have hrecords : slab.records = slab.live.toList.filterMap slab.recordAt? := rfl
    have hsome (offset : Nat) (hoffset : offset ∈ slab.live.toList) :
        (slab.recordAt? offset).isSome := h.mem_live_iff.1 (Std.TreeSet.mem_toList.1 hoffset)
    rw [hrecords]
    revert hsome
    induction slab.live.toList with
    | nil => exact fun _ => rfl
    | cons offset rest ih =>
      intro hsome
      obtain ⟨record, hrecord⟩ := Option.isSome_iff_exists.1 (hsome offset List.mem_cons_self)
      rw [List.filterMap_cons_some hrecord, List.map_cons, List.map_cons, hrecord,
        ih fun other hother => hsome other (List.mem_cons_of_mem _ hother)]

/-- A slab takes a record exactly when its size fits a word and a free block, and a record that is
refused leaves the arena as it is. -/
theorem Sound.insert_iff (h : slab.Sound) (key value : ByteArray) :
    ((slab.insert key value).isSome ↔ Record.sizeOf key.size value.size < wordLimit ∧
        Record.sizeOf key.size value.size ≤ slab.maxAllocSize) ∧
      (slab.maxAllocSize < Record.sizeOf key.size value.size →
        slab.arena.alloc (Record.sizeOf key.size value.size) = .ok (none, slab.arena)) := by
  constructor
  · by_cases hword : Record.sizeOf key.size value.size < wordLimit
    · have htakes := h.takes_iff (recordSize?_eq_some_iff.2 ⟨rfl, hword⟩)
      rwa [takes, ← and_iff_right (b := _ ≤ _) hword] at htakes
    · have hrefuses : slab.takes key value = false :=
        takes_eq_false_of_recordSize? (if_neg hword)
      rw [takes] at hrefuses
      simp only [hrefuses, hword, Bool.false_eq_true, false_and]
  · intro hlarger
    obtain ⟨live, layout, hlayout, _⟩ := h
    exact hlayout.alloc_eq_none (by rw [Record.sizeOf, Record.headerSize]; omega) hlarger

/-- **A slab stores its records faithfully.** Whatever was stored in it and removed from it,
whichever offsets the removals named: a record is taken exactly when its size fits a word and is not
above the largest payload, and a refusal changes nothing; a record that is taken goes to an offset
without a live record, and what is read at every other offset stays; key and value at each offset
are those that were stored there last, and nothing where the record was removed; the live records
are listed in ascending order of their offsets; a removal tells whether there was a live record,
leaves what is read at every other offset, and frees the whole block of its record; the blocks of
the arena are those of the live records, and what is in use is the sum of their sizes; and without
live records the slab takes exactly the records that fit an empty one. -/
theorem Use.stores_faithfully (use : Use id size events slab) (hsmall : size < wordLimit) :
    (∀ key value : ByteArray,
      ((slab.insert key value).isSome ↔ 8 + key.size + value.size < wordLimit ∧
        8 + key.size + value.size ≤ slab.maxAllocSize) ∧
      (slab.maxAllocSize < 8 + key.size + value.size →
        slab.arena.alloc (8 + key.size + value.size) = .ok (none, slab.arena)) ∧
      ∀ offset slab', slab.insert key value = some (offset, slab') →
        lastStored events offset = none ∧ ∀ other, other ≠ offset →
          slab'.keyAt? other = slab.keyAt? other ∧ slab'.valueAt? other = slab.valueAt? other) ∧
    (∀ offset, slab.keyAt? offset = (lastStored events offset).map (·.key) ∧
      slab.valueAt? offset = (lastStored events offset).map (·.value)) ∧
    (∃ offsets : List Nat, offsets.Pairwise (· < ·) ∧
      (∀ offset, offset ∈ offsets ↔ (lastStored events offset).isSome) ∧
      slab.records.map some = offsets.map (lastStored events)) ∧
    (∀ offset, ((slab.remove offset).1 = true ↔ (lastStored events offset).isSome) ∧
      ∀ other, other ≠ offset → (slab.remove offset).2.keyAt? other = slab.keyAt? other ∧
        (slab.remove offset).2.valueAt? other = slab.valueAt? other) ∧
    (∃ blocks : List Extent, Heap.Reachable size ⟨slab.arena, blocks⟩ ∧
      (∀ offset, offset ∈ blocks.map Extent.payload ↔ (lastStored events offset).isSome) ∧
      headerSize + slab.arena.remainingSize ≤ slab.size ∧
      slab.used = (blocks.map (·.size)).sum ∧
      ∀ b ∈ blocks, (slab.remove b.payload).2.used + b.size = slab.used ∧
        ∃ node ∈ (slab.remove b.payload).2.arena.nodes,
          node.offset ≤ b.offset ∧ b.stop ≤ node.offset + node.size) ∧
    (slab.count = 0 → ∀ tier : RamTier, tier.slabSize = size → ∀ key value,
      (slab.insert key value).isSome = tier.fits key value) := by
  obtain ⟨hsound, hrecords, blocks, hhouses⟩ := use.sound hsmall
  rw [← hrecords]
  refine ⟨fun key value => ?_, hsound.reads_eq, hsound.exists_offsets, hsound.remove_spares,
    ⟨blocks, hhouses.reachable, fun offset => ?_, (hhouses.used_eq hsmall).1,
      (hhouses.used_eq hsmall).2, fun b hb => hhouses.frees_block hsmall hb⟩, ?_⟩
  · have htaken := hsound.insert_iff key value
    exact ⟨htaken.1, htaken.2, fun offset slab' hinsert => hsound.insert_fresh hinsert⟩
  · rw [hhouses.mem_iff, hsound.mem_live_iff]
  · rintro hcount tier rfl key value
    rw [RamTier.fits_eq_takes hsmall 0]
    exact hhouses.takes_eq_of_count hsmall hsound hcount key value

/-- A slab of 64 bytes that got two records at different offsets gives the second one back after the
first was removed, with the bytes of the first free again. -/
theorem Use.stores_faithfully_of_two_records :
    ∃ first second one two,
      (Slab.new 0 64).insert ⟨#[97]⟩ ⟨#[1]⟩ = some (first, one) ∧
      one.insert ⟨#[98]⟩ ⟨#[2, 3]⟩ = some (second, two) ∧ second ≠ first ∧
      two.valueAt? first = some ⟨#[1]⟩ ∧
      (two.remove first).1 = true ∧ (two.remove first).2.keyAt? first = none ∧
      (two.remove first).2.keyAt? second = some ⟨#[98]⟩ ∧
      (two.remove first).2.valueAt? second = some ⟨#[2, 3]⟩ ∧
      (two.remove first).2.records = [⟨⟨#[98]⟩, ⟨#[2, 3]⟩⟩] := by
  have htakes : ((Slab.new 0 64).insert ⟨#[97]⟩ ⟨#[1]⟩).isSome := by decide +kernel
  obtain ⟨⟨first, one⟩, hone⟩ := Option.isSome_iff_exists.1 htakes
  have htakes : (((Slab.new 0 64).insert ⟨#[97]⟩ ⟨#[1]⟩).bind
      fun answer => answer.2.insert ⟨#[98]⟩ ⟨#[2, 3]⟩).isSome := by decide +kernel
  rw [hone, Option.bind_some] at htakes
  obtain ⟨⟨second, two⟩, htwo⟩ := Option.isSome_iff_exists.1 htakes
  have useOne : Use 0 64 [.stored first ⟨⟨#[97]⟩, ⟨#[1]⟩⟩] one := Use.new.stored hone
  have useTwo := useOne.stored htwo
  obtain ⟨hinsert, hreadsOne, -⟩ := useOne.stores_faithfully (by decide)
  obtain ⟨hfresh, hkept⟩ := (hinsert ⟨#[98]⟩ ⟨#[2, 3]⟩).2.2 second two htwo
  obtain ⟨-, hreads, -, hremove, -⟩ := useTwo.stores_faithfully (by decide)
  obtain ⟨-, hafter, ⟨offsets, hordered, hmem, hrecords⟩, -⟩ :=
    (useTwo.removed first).stores_faithfully (by decide)
  have hne : second ≠ first := fun heq => by
    rw [heq] at hfresh
    cases (Function.update_self first _ _).symm.trans hfresh
  have hleft : lastStored [.removed first, .stored second ⟨⟨#[98]⟩, ⟨#[2, 3]⟩⟩,
      .stored first ⟨⟨#[97]⟩, ⟨#[1]⟩⟩] =
        Function.update (fun _ => none) second (some ⟨⟨#[98]⟩, ⟨#[2, 3]⟩⟩) := by
    funext offset
    simp only [lastStored, Function.update_apply]
    grind
  have hlisted : offsets = [second] := by
    refine List.perm_singleton.1 ((List.perm_ext_iff_of_nodup (hordered.imp Nat.ne_of_lt)
      (List.nodup_singleton second)).2 fun offset => ?_)
    rw [hmem, hleft, Function.update_apply, List.mem_singleton]
    split <;> simp [*]
  rw [hlisted, hleft] at hrecords
  rw [hleft] at hafter
  refine ⟨first, second, one, two, hone, htwo, hne, ?_, ?_, ?_, ?_, ?_, ?_⟩
  · rw [(hkept first hne.symm).2, (hreadsOne first).2]
    simp [lastStored]
  · exact (hremove first).1.2 (by simp [lastStored, hne.symm])
  · simp [(hafter first).1, hne.symm]
  · simp [(hafter second).1]
  · simp [(hafter second).2]
  · simpa using hrecords

end Runs

end Slab

end ElasticCache
