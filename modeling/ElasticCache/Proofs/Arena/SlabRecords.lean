import ElasticCache.Arena.Slab
import ElasticCache.Proofs.Record
import ElasticCache.Proofs.Arena.Heap
import Mathlib.Algebra.Order.BigOperators.Group.List
import Mathlib.Algebra.Order.Group.Nat
import Mathlib.Data.List.Perm.Basic

/-!
# The records of a slab

The arena of a slab is a heap whose live blocks hold the records. So a slab is a map from offsets to
records: storing one adds an offset and removing one takes it away, and neither disturbs the others.
-/

namespace ElasticCache

/-- Live blocks lie apart from each other. -/
theorem Heap.HasLayout.pairwise_live {heap : Heap} {layout : List Piece}
    (h : heap.HasLayout layout) :
    heap.live.Pairwise fun b d => b.stop ≤ d.offset ∨ d.stop ≤ b.offset := by
  have hpairwise := List.pairwise_map.1 h.represents.tiles.pairwise
  have hblocks : (blocks layout).Pairwise fun b d => b.stop ≤ d.offset ∨ d.stop ≤ b.offset := by
    refine List.pairwise_filterMap.2 (hpairwise.imp fun {p q} hle b hb d hd => ?_)
    cases p with
    | gap g => cases hb
    | block b' =>
      cases q with
      | gap g => cases hd
      | block d' =>
        obtain rfl := Option.some.inj hb
        obtain rfl := Option.some.inj hd
        exact .inl hle
  exact (h.live.pairwise_iff fun hor => hor.symm).2 hblocks

/-- No two live blocks have the same payload. -/
theorem Heap.HasLayout.eq_of_payload_eq {heap : Heap} {layout : List Piece}
    (h : heap.HasLayout layout) {b d : Extent} (hb : b ∈ heap.live) (hd : d ∈ heap.live)
    (heq : b.payload = d.payload) : b = d := by
  by_contra hne
  have hpos (e : Extent) (he : e ∈ heap.live) : 0 < e.size :=
    h.represents.pos _ (mem_blocks.1 (h.live.mem_iff.1 he))
  have hbpos := hpos b hb
  have hdpos := hpos d hd
  have : Std.Symm fun b d : Extent => b.stop ≤ d.offset ∨ d.stop ≤ b.offset :=
    ⟨fun _ _ hor => hor.symm⟩
  have hapart := h.pairwise_live.forall hb hd hne
  simp only [Extent.payload, Extent.stop] at heq hapart
  omega

/-- A record that was written stands where it was written. -/
theorem Record.at_of_write? {list list' : FreeList} {offset : Nat} {record : Record}
    (h : list.write? offset record.encode = some list') : Record.At list'.arena offset record := by
  unfold FreeList.write? at h
  split at h
  next hle =>
    obtain rfl := Option.some.inj h
    have hslice := Bytes.slice?_splice_self hle
    rwa [Record.size_encode] at hslice
  next => cases h

/-- A record is still there when none of its bytes has changed. -/
theorem Record.At.congr {list list' : FreeList} {offset : Nat} {record : Record}
    (h : Record.At list.arena offset record) (hcapacity : list'.capacity = list.capacity)
    (hsame : list.SameBytes list' offset (offset + record.size)) :
    Record.At list'.arena offset record := by
  have hle := (Bytes.slice?_eq_some_iff.1 h).1
  have hsize : list'.arena.size = list.arena.size := hcapacity
  exact (Bytes.slice?_congr (by omega) hle fun k hk => hsame _ (by omega) (by omega)).trans h

namespace Slab

/-- The live record at an offset. -/
def recordAt? (slab : Slab) (offset : Nat) : Option Record := do
  let key ← slab.keyAt? offset
  let value ← slab.valueAt? offset
  return ⟨key, value⟩

/-- Bytes of the record at an offset, zero when there is none. -/
def sizeAt (slab : Slab) (offset : Nat) : Nat := ((slab.recordAt? offset).map Record.size).getD 0

/-- A live block with the record that its payload holds. -/
structure Holding (arena : FreeList) (live : List Extent) (offset : Nat) (record : Record) :
    Prop where
  block : ∃ b ∈ live, b.payload = offset ∧ offset + record.size ≤ b.stop
  small : record.size < wordLimit
  at_offset : Record.At arena.arena offset record

/-- The arena is a heap, and every live offset of the slab is a block of it that holds a record. -/
def Sound (slab : Slab) : Prop :=
  ∃ live layout, Heap.HasLayout ⟨slab.arena, live⟩ layout ∧
    ∀ offset ∈ slab.live, ∃ record, Holding slab.arena live offset record

/-- A record is no longer than the block of its payload. -/
theorem Holding.size_le {arena : FreeList} {live : List Extent} {layout : List Piece} {b : Extent}
    {record : Record} (h : Holding arena live b.payload record)
    (hlayout : Heap.HasLayout ⟨arena, live⟩ layout) (hb : b ∈ live) : record.size ≤ b.size := by
  obtain ⟨⟨d, hd, hpayload, hle⟩, _, _⟩ := h
  obtain rfl := hlayout.eq_of_payload_eq hd hb hpayload
  simp only [Extent.payload, Extent.stop] at hle
  omega

section Reading

variable {slab slab' : Slab} {offset other : Nat} {record : Record} {live : List Extent}
  {key value : ByteArray}

/-- There is no record at an offset that is not live. -/
theorem recordAt?_of_not_mem (h : offset ∉ slab.live) : slab.recordAt? offset = none := by
  rw [recordAt?, keyAt?, lengths?, if_neg h]
  rfl

/-- The record of a live block is read back. -/
theorem recordAt?_eq_some (h : Holding slab.arena live offset record) (hlive : offset ∈ slab.live) :
    slab.keyAt? offset = some record.key ∧ slab.valueAt? offset = some record.value ∧
      slab.recordAt? offset = some record := by
  have hsmall := h.small
  simp only [Record.size, Record.sizeOf] at hsmall
  have hlengths : slab.lengths? offset = some (record.key.size, record.value.size) := by
    rw [lengths?, if_pos hlive, h.at_offset.word?_key (by omega),
      h.at_offset.word?_value (by omega)]
    rfl
  have hkey : slab.keyAt? offset = some record.key := by
    rw [keyAt?, hlengths]
    exact h.at_offset.slice?_key
  have hvalue : slab.valueAt? offset = some record.value := by
    rw [valueAt?, hlengths]
    exact h.at_offset.slice?_value
  refine ⟨hkey, hvalue, ?_⟩
  rw [recordAt?, hkey, hvalue]
  rfl

namespace Sound

/-- At every live offset there is a record, and it is read back by key and by value. -/
theorem exists_record (h : slab.Sound) (hlive : offset ∈ slab.live) :
    ∃ record, slab.recordAt? offset = some record ∧ slab.keyAt? offset = some record.key ∧
      slab.valueAt? offset = some record.value ∧ record.size < wordLimit := by
  obtain ⟨live, layout, _, hrecords⟩ := h
  obtain ⟨record, hholding⟩ := hrecords offset hlive
  obtain ⟨hkey, hvalue, hrecord⟩ := recordAt?_eq_some hholding hlive
  exact ⟨record, hrecord, hkey, hvalue, hholding.small⟩

/-- An offset with a record is live. -/
theorem mem_live (hrecord : slab.recordAt? offset = some record) : offset ∈ slab.live := by
  by_contra hnot
  rw [recordAt?_of_not_mem hnot] at hrecord
  cases hrecord

/-- The size of a live record fits a word. -/
theorem small (h : slab.Sound) (hrecord : slab.recordAt? offset = some record) :
    record.size < wordLimit := by
  obtain ⟨record', hrecord', _, _, hsmall⟩ := h.exists_record (mem_live hrecord)
  obtain rfl := Option.some.inj (hrecord.symm.trans hrecord')
  exact hsmall

/-- The value read at an offset is that of the record there. -/
theorem valueAt?_eq (h : slab.Sound) (hrecord : slab.recordAt? offset = some record) :
    slab.valueAt? offset = some record.value := by
  obtain ⟨record', hrecord', _, hvalue, _⟩ := h.exists_record (mem_live hrecord)
  obtain rfl := Option.some.inj (hrecord.symm.trans hrecord')
  exact hvalue

/-- The test for a key finds the records of that key. -/
theorem holds_iff (h : slab.Sound) :
    slab.holds offset key = true ↔ ∃ value, slab.recordAt? offset = some ⟨key, value⟩ := by
  rw [holds, beq_iff_eq]
  constructor
  · intro hkey
    have hlive : offset ∈ slab.live := by
      by_contra hnot
      rw [keyAt?, lengths?, if_neg hnot] at hkey
      cases hkey
    obtain ⟨record, hrecord, hkey', _, _⟩ := h.exists_record hlive
    obtain rfl := Option.some.inj (hkey.symm.trans hkey')
    exact ⟨record.value, hrecord⟩
  · rintro ⟨value, hrecord⟩
    obtain ⟨record', hrecord', hkey, _, _⟩ := h.exists_record (mem_live hrecord)
    obtain rfl := Option.some.inj (hrecord.symm.trans hrecord')
    exact hkey

/-- The records of a slab are those at its live offsets. -/
theorem mem_records_iff :
    record ∈ slab.records ↔ ∃ offset, slab.recordAt? offset = some record := by
  have hrecords : slab.records = slab.live.toList.filterMap slab.recordAt? := rfl
  rw [hrecords, List.mem_filterMap]
  constructor
  · rintro ⟨offset, _, hrecord⟩
    exact ⟨offset, hrecord⟩
  · rintro ⟨offset, hrecord⟩
    exact ⟨offset, Std.TreeSet.mem_toList.2 (mem_live hrecord), hrecord⟩

/-- As many records are listed as are counted. -/
theorem length_records (h : slab.Sound) : slab.records.length = slab.count := by
  have hrecords : slab.records = slab.live.toList.filterMap slab.recordAt? := rfl
  rw [hrecords, List.filterMap_length_eq_length.2, Std.TreeSet.length_toList, count]
  intro offset hmem
  obtain ⟨record, hrecord, _⟩ := h.exists_record (Std.TreeSet.mem_toList.1 hmem)
  rw [hrecord, Option.isSome_some]

/-- The records listed have the sizes that stand at the live offsets. -/
theorem sum_sizes_eq (slab : Slab) :
    (slab.records.map Record.size).sum = (slab.live.toList.map slab.sizeAt).sum := by
  have hrecords : slab.records = slab.live.toList.filterMap slab.recordAt? := rfl
  rw [hrecords]
  induction slab.live.toList with
  | nil => rfl
  | cons offset rest ih => cases hrecord : slab.recordAt? offset <;> simp [hrecord, ih, sizeAt]

/-- The records of a slab fit its arena together. Each offset is the payload of a block of its own,
and the blocks share the arena. -/
theorem sum_sizes_lt (h : slab.Sound) : (slab.records.map Record.size).sum < wordLimit := by
  obtain ⟨live, layout, hlayout, hrecords⟩ := h
  have hnodup : slab.live.toList.Nodup := by
    refine Std.TreeSet.distinct_toList.imp fun hne heq => hne ?_
    rw [heq]
    exact Std.ReflCmp.compare_self
  have hsubset : slab.live.toList ⊆ live.map Extent.payload := by
    intro offset hoffset
    obtain ⟨_, ⟨b, hb, hpayload, _⟩, _, _⟩ := hrecords offset (Std.TreeSet.mem_toList.1 hoffset)
    exact List.mem_map.2 ⟨b, hb, hpayload⟩
  have hblock (b : Extent) (hb : b ∈ live) : slab.sizeAt b.payload ≤ b.size := by
    rw [sizeAt]
    by_cases hlive : b.payload ∈ slab.live
    · obtain ⟨record, hholding⟩ := hrecords b.payload hlive
      rw [(recordAt?_eq_some hholding hlive).2.2]
      exact hholding.size_le hlayout hb
    · rw [recordAt?_of_not_mem hlive]
      exact Nat.zero_le _
  obtain ⟨part, hperm, hsublist⟩ := List.subperm_of_subset hnodup hsubset
  have hpart := (hsublist.map slab.sizeAt).sum_le_sum fun _ _ => Nat.zero_le _
  rw [(hperm.map slab.sizeAt).sum_nat, List.map_map, ← sum_sizes_eq] at hpart
  have hblocks : (live.map (slab.sizeAt ∘ Extent.payload)).sum ≤ (live.map (·.size)).sum :=
    List.sum_le_sum hblock
  have hremaining := hlayout.sound.remaining
  have hsmall := hlayout.represents.small
  simp only at hremaining hsmall
  omega

/-- Records at different offsets are listed as often, so they have different keys when no two
offsets share one. -/
theorem nodup_records (hunique : ∀ o o' r r', slab.recordAt? o = some r →
    slab.recordAt? o' = some r' → r.key = r'.key → o = o') :
    (slab.records.map (·.key)).Nodup := by
  have hrecords : slab.records = slab.live.toList.filterMap slab.recordAt? := rfl
  rw [hrecords, List.Nodup, List.pairwise_map, List.pairwise_filterMap]
  refine Std.TreeSet.distinct_toList.imp fun {o o'} hne r hr r' hr' heq => hne ?_
  rw [hunique o o' r r' hr hr' heq]
  exact Std.ReflCmp.compare_self

end Sound

end Reading

/-! ## Storing and removing -/

section Changes

variable {slab slab' : Slab} {offset other : Nat} {record : Record} {key value : ByteArray}

/-- An offset that is added is live, besides those that were. -/
theorem mem_insert_live {live : Std.TreeSet Nat} :
    other ∈ live.insert offset ↔ other = offset ∨ other ∈ live := by
  rw [Std.TreeSet.mem_insert, Nat.compare_eq_eq, eq_comm]

/-- An offset that is taken out is live no longer, and the others stay. -/
theorem mem_erase_live {live : Std.TreeSet Nat} :
    other ∈ live.erase offset ↔ other ≠ offset ∧ other ∈ live := by
  rw [Std.TreeSet.mem_erase, ne_eq, Nat.compare_eq_eq, ne_comm]

/-- A new slab is in order. -/
theorem sound_new {id size : Nat} (hsize : size < wordLimit) : (new id size).Sound := by
  refine ⟨[], _, Heap.hasLayout_new hsize, fun offset hlive => ?_⟩
  exact absurd hlive Std.TreeSet.not_mem_emptyc

/-- Beside one offset two slabs have the same records when the blocks of these hold the same. -/
theorem recordAt?_eq_of_ne {live live' : List Extent}
    (hmem : ∀ o, o ≠ offset → (o ∈ slab'.live ↔ o ∈ slab.live))
    (hrecords : ∀ o ∈ slab.live, o ≠ offset →
      ∃ record, Holding slab.arena live o record ∧ Holding slab'.arena live' o record)
    (hne : other ≠ offset) : slab'.recordAt? other = slab.recordAt? other := by
  by_cases hlive : other ∈ slab.live
  · obtain ⟨record, hbefore, hafter⟩ := hrecords other hlive hne
    rw [(recordAt?_eq_some hbefore hlive).2.2,
      (recordAt?_eq_some hafter ((hmem other hne).2 hlive)).2.2]
  · rw [recordAt?_of_not_mem hlive]
    exact recordAt?_of_not_mem fun hlive' => hlive ((hmem other hne).1 hlive')

/-- A record keeps its place when its block keeps its bytes. -/
theorem Holding.keep {arena arena' : FreeList} {live live' : List Extent}
    (h : Holding arena live offset record) (hcapacity : arena'.capacity = arena.capacity)
    (hkeep : ∀ b ∈ live, b.payload = offset →
      b ∈ live' ∧ arena.SameBytes arena' b.offset b.stop) : Holding arena' live' offset record := by
  obtain ⟨⟨b, hb, hpayload, hle⟩, hsmall, hat⟩ := h
  obtain ⟨hb', hsame⟩ := hkeep b hb hpayload
  refine ⟨⟨b, hb', hpayload, hle⟩, hsmall, hat.congr hcapacity fun i hi hi' => ?_⟩
  have hoffset : b.offset ≤ offset := by
    rw [← hpayload]
    exact Nat.le_add_right ..
  exact hsame i (Nat.le_trans hoffset hi) (Nat.lt_of_lt_of_le hi' hle)

/-- A record that is stored gets a new block of the arena for itself. -/
theorem exists_block_of_insert {live : List Extent} {layout : List Piece}
    (hlayout : Heap.HasLayout ⟨slab.arena, live⟩ layout)
    (hinsert : slab.insert key value = some (offset, slab')) :
    ∃ b layout', slab' = { slab with arena := slab'.arena, live := slab.live.insert offset } ∧
      Heap.HasLayout ⟨slab'.arena, b :: live⟩ layout' ∧
      slab'.arena.capacity = slab.arena.capacity ∧ b.payload = offset ∧
      Holding slab'.arena (b :: live) offset ⟨key, value⟩ ∧
      ∀ d ∈ live, d.payload ≠ offset ∧ slab.arena.SameBytes slab'.arena d.offset d.stop := by
  rw [Slab.insert, Option.bind_eq_bind, Option.bind_eq_some_iff] at hinsert
  obtain ⟨size, hsize, hinsert⟩ := hinsert
  obtain ⟨hsmall, rfl⟩ : Record.sizeOf key.size value.size < wordLimit ∧
      Record.sizeOf key.size value.size = size := by
    rw [recordSize?] at hsize
    split at hsize
    next hlt => exact ⟨hlt, Option.some.inj hsize⟩
    next => cases hsize
  obtain ⟨answer, arena₁, halloc, _, hkeeps, hanswer⟩ :=
    hlayout.exists_alloc (n := Record.sizeOf key.size value.size)
  have halloc : slab.arena.alloc (Record.sizeOf key.size value.size) = .ok (answer, arena₁) :=
    halloc
  rcases hanswer with ⟨rfl, _⟩ | ⟨b, layout₁, rfl, hfits, _, hlayout₁⟩
  · simp only [halloc] at hinsert
    cases hinsert
  · have hblocks : b ∈ blocks layout₁ := hlayout₁.live.mem_iff.1 List.mem_cons_self
    have hroom : b.payload + (Record.encode ⟨key, value⟩).size ≤ b.stop := by
      rw [Record.size_encode, Record.size, Extent.payload, Extent.stop]
      simp only [FreeList.tagSize] at hfits ⊢
      omega
    obtain ⟨arena₂, hwrite, hrepresents, hcapacity, hsame⟩ :=
      hlayout₁.represents.exists_write hblocks (Nat.le_refl _) hroom
    have hwrite : arena₁.write? b.payload (Record.encode ⟨key, value⟩) = some arena₂ := hwrite
    simp only [halloc, hwrite, Option.bind_eq_bind, Option.bind_some] at hinsert
    obtain ⟨rfl, rfl⟩ := Prod.mk.inj (Option.some.inj hinsert)
    refine ⟨b, layout₁, rfl, ⟨hrepresents, hlayout₁.coalesced, hlayout₁.live⟩,
      hcapacity.trans hkeeps.capacity_eq, rfl, ?_, fun d hd => ?_⟩
    · refine ⟨⟨b, List.mem_cons_self, rfl, ?_⟩, hsmall, Record.at_of_write? hwrite⟩
      rwa [← Record.size_encode]
    · have hside := (List.pairwise_cons.1 hlayout₁.pairwise_live).1 d hd
      have hbpos : 0 < b.size := hlayout₁.represents.pos _ (mem_blocks.1 hblocks)
      have hdpos : 0 < d.size :=
        hlayout.represents.pos _ (mem_blocks.1 (hlayout.live.mem_iff.1 hd))
      refine ⟨?_, fun i hi hi' => ?_⟩
      · simp only [Extent.payload, Extent.stop] at hside ⊢
        omega
      · have hpayload : b.payload = b.offset + 4 := rfl
        rw [hsame i (by omega)]
        exact hkeeps.same d hd i hi hi'

/-- Storing a record adds one offset, and no other record changes. -/
theorem Sound.insert (h : slab.Sound) (hinsert : slab.insert key value = some (offset, slab')) :
    slab'.Sound ∧ slab'.id = slab.id ∧ offset ∉ slab.live ∧
      slab'.live = slab.live.insert offset ∧
      slab'.recordAt? = Function.update slab.recordAt? offset (some ⟨key, value⟩) := by
  obtain ⟨live, layout, hlayout, hrecords⟩ := h
  obtain ⟨b, layout', hslab, hlayout', hcapacity, _, hnew, hkeep⟩ :=
    exists_block_of_insert hlayout hinsert
  have hlive : slab'.live = slab.live.insert offset := by rw [hslab]
  have hothers (o : Nat) (ho : o ∈ slab.live) : ∃ record,
      Holding slab.arena live o record ∧ Holding slab'.arena (b :: live) o record := by
    obtain ⟨record, hholding⟩ := hrecords o ho
    refine ⟨record, hholding, hholding.keep hcapacity fun d hd _ => ?_⟩
    exact ⟨List.mem_cons_of_mem _ hd, (hkeep d hd).2⟩
  have hfresh : offset ∉ slab.live := by
    intro hmem
    obtain ⟨_, ⟨d, hd, hpayload, _⟩, _, _⟩ := hrecords _ hmem
    exact (hkeep d hd).1 hpayload
  refine ⟨⟨_, layout', hlayout', fun o ho => ?_⟩, by rw [hslab], hfresh, hlive, funext fun o => ?_⟩
  · rw [hlive] at ho
    rcases mem_insert_live.1 ho with rfl | ho
    · exact ⟨_, hnew⟩
    · obtain ⟨record, _, hholding⟩ := hothers o ho
      exact ⟨record, hholding⟩
  · by_cases heq : o = offset
    · have hmem : offset ∈ slab'.live := by
        rw [hlive]
        exact mem_insert_live.2 (.inl rfl)
      rw [heq, Function.update_self]
      exact (recordAt?_eq_some hnew hmem).2.2
    · rw [Function.update_of_ne heq]
      refine recordAt?_eq_of_ne (fun o hne => ?_) (fun o ho _ => hothers o ho) heq
      rw [hlive, mem_insert_live, or_iff_right hne]

/-- Removing a record takes away one offset, and no other record changes. -/
theorem Sound.remove (h : slab.Sound) (hlive : offset ∈ slab.live) :
    (slab.remove offset).1 = true ∧ (slab.remove offset).2.Sound ∧
      (slab.remove offset).2.id = slab.id ∧
      (slab.remove offset).2.live = slab.live.erase offset ∧
      (slab.remove offset).2.recordAt? = Function.update slab.recordAt? offset none := by
  obtain ⟨live, layout, hlayout, hrecords⟩ := h
  obtain ⟨record, ⟨b, hb, rfl, _⟩, _, _⟩ := hrecords offset hlive
  obtain ⟨arena', layout', hfree, _, hkeeps, hlayout'⟩ := hlayout.exists_free hb
  have hfree : slab.arena.free b.payload = .ok (true, arena') := hfree
  have hremove : slab.remove b.payload =
      (true, { slab with arena := arena', live := slab.live.erase b.payload }) := by
    rw [Slab.remove, if_pos hlive]
    simp only [hfree]
  have hmem (o : Nat) (hne : o ≠ b.payload) :
      o ∈ slab.live.erase b.payload ↔ o ∈ slab.live := by
    rw [mem_erase_live, and_iff_right hne]
  have hothers (o : Nat) (ho : o ∈ slab.live) (hne : o ≠ b.payload) : ∃ record,
      Holding slab.arena live o record ∧
        Holding arena' (live.filter (·.payload ≠ b.payload)) o record := by
    obtain ⟨record, hholding⟩ := hrecords o ho
    refine ⟨record, hholding, hholding.keep hkeeps.capacity_eq fun d hd hpayload => ?_⟩
    have hd' : d ∈ live.filter (·.payload ≠ b.payload) :=
      List.mem_filter.2 ⟨hd, decide_eq_true (by rwa [hpayload])⟩
    exact ⟨hd', hkeeps.same d hd'⟩
  rw [hremove]
  refine ⟨rfl, ⟨_, layout', hlayout', fun o ho => ?_⟩, rfl, rfl, funext fun o => ?_⟩
  · obtain ⟨hne, ho⟩ := mem_erase_live.1 ho
    obtain ⟨record, _, hholding⟩ := hothers o ho hne
    exact ⟨record, hholding⟩
  · by_cases heq : o = b.payload
    · rw [heq, Function.update_self, recordAt?_of_not_mem]
      exact fun hmem => (mem_erase_live.1 hmem).1 rfl
    · rw [Function.update_of_ne heq]
      exact recordAt?_eq_of_ne hmem hothers heq

end Changes

end Slab

end ElasticCache
