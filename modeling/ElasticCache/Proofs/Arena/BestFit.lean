import ElasticCache.Proofs.Arena.Refusals

/-!
# Which allocations succeed, and where

The largest payload that a free node can take predicts exactly which allocations succeed. Such an
allocation takes the lowest among the smallest free nodes that are large enough. The free list loses
the bytes of the block, and a node only when nothing worth keeping is left of it.
-/

namespace ElasticCache

namespace FreeList

/-- A node that is the lowest among the smallest of those with at least `need` bytes. -/
structure IsBestFit (need : Nat) (nodes : List FreeNode) (node : FreeNode) : Prop where
  mem : node ∈ nodes
  fits : need ≤ node.size
  smallest : ∀ other ∈ nodes, need ≤ other.size → node.size ≤ other.size
  lowest : ∀ other ∈ nodes, other.size = node.size → node.offset ≤ other.offset

section Choice

variable {list list' : FreeList} {need n m : Nat} {nodes before behind : List FreeNode}
  {node : FreeNode} {g : Extent}

/-- In ascending order the first of the smallest is the lowest of them. -/
theorem FirstBest.isBestFit (h : FirstBest need nodes before node behind)
    (hascending : nodes.Pairwise fun m n => m.offset < n.offset) : IsBestFit need nodes node := by
  obtain ⟨rfl, hfits, hbefore, hbehind⟩ := h
  have hlater := (List.pairwise_cons.1 (List.pairwise_append.1 hascending).2.1).1
  refine ⟨by simp, hfits, fun other hother hneed => ?_, fun other hother hsize => ?_⟩
  · rcases List.mem_append.1 hother with hother | hother
    · exact Nat.le_of_lt (hbefore other hother hneed)
    · rcases List.mem_cons.1 hother with rfl | hother
      · exact Nat.le_refl _
      · exact hbehind other hother hneed
  · rcases List.mem_append.1 hother with hother | hother
    · have hlarger := hbefore other hother (by omega)
      omega
    · rcases List.mem_cons.1 hother with rfl | hother
      · exact Nat.le_refl _
      · exact Nat.le_of_lt (hlater other hother)

/-- The end of an allocation answers the offset behind the tag that it writes. -/
theorem payload_of_linked {previous replacement offset block payload : Nat}
    (h : (do
      let list ← list.putLink previous replacement
      let list ← list.putWord offset block
      let payload ← fitWord (offset + tagSize)
      return (some payload, list) : Except Fault (Option Nat × FreeList)) =
        .ok (some payload, list')) :
    payload = offset + tagSize := by
  obtain ⟨list₁, _, h⟩ := bind_eq_ok_iff.1 h
  obtain ⟨list₂, _, h⟩ := bind_eq_ok_iff.1 h
  obtain ⟨behindTag, hfits, h⟩ := bind_eq_ok_iff.1 h
  obtain ⟨hpayload, _⟩ := Prod.mk.inj (Except.ok.inj h)
  rw [← Option.some.inj hpayload, (fitWord_eq_ok_iff.1 hfits).2]

/-- What an allocation answers stands right behind the tag of the node that best fit chose. -/
theorem exists_bestFit_of_alloc {payload : Nat} (h : list.alloc n = .ok (some payload, list')) :
    ∃ previous node, bestFit (blockSizeFor n) 0 list.nodes = some (previous, node) ∧
      payload = node.offset + tagSize := by
  unfold alloc at h
  split at h
  next => cases h
  next =>
    obtain ⟨_, _, h⟩ := bind_eq_ok_iff.1 h
    dsimp only at h
    split at h
    next => cases h
    next previous node hbest =>
      refine ⟨previous, node, hbest, ?_⟩
      split at h
      next =>
        obtain ⟨split, _, h⟩ := bind_eq_ok_iff.1 h
        obtain ⟨list₁, _, h⟩ := bind_eq_ok_iff.1 h
        exact payload_of_linked h
      next => exact payload_of_linked h

/-- A gap is taken whole when at most a node's worth of bytes is left of it, and split otherwise. -/
theorem carve_cases {b : Extent} (h : blocks (carve need g) = [b]) :
    (b.size = g.size ∧ g.size ≤ need + nodeSize ∧ gaps (carve need g) = []) ∨
      (b.size = need ∧ need + nodeSize < g.size ∧ (gaps (carve need g)).length = 1) := by
  by_cases hrest : nodeSize < g.size - need
  · rw [carve, if_pos hrest] at h ⊢
    obtain rfl := List.singleton_inj.1 h
    exact .inr ⟨rfl, by omega, rfl⟩
  · rw [carve, if_neg hrest] at h ⊢
    obtain rfl := List.singleton_inj.1 h
    exact .inl ⟨rfl, by omega, rfl⟩

/-- A number is below the maximum of a list and a start value when it is below one of them. -/
theorem lt_foldl_max_iff {sizes : List Nat} :
    n < sizes.foldl max m ↔ n < m ∨ ∃ size ∈ sizes, n < size := by
  induction sizes generalizing m with
  | nil => simp
  | cons size rest ih =>
    have hmax : n < max m size ↔ n < m ∨ n < size := by omega
    rw [List.foldl_cons, ih, hmax]
    simp only [List.mem_cons, exists_eq_or_imp, or_assoc]

/-- Some node can take a payload of `n` bytes exactly when the largest payload is not smaller. -/
theorem le_maxAllocSize_iff (hn : 1 ≤ n) :
    n ≤ list.maxAllocSize ↔ ∃ node ∈ list.nodes, n + tagSize ≤ node.size := by
  obtain ⟨n, rfl⟩ : ∃ m, n = m + 1 := ⟨n - 1, by omega⟩
  rw [Nat.succ_le_iff, maxAllocSize, lt_foldl_max_iff]
  simp only [Nat.not_lt_zero, false_or, List.mem_map, exists_exists_and_eq_and]
  refine exists_congr fun node => and_congr_right fun _ => ?_
  omega

end Choice

namespace Represents

variable {list : FreeList} {layout : List Piece} {b : Extent} {n : Nat}

/-- The free nodes are counted by the gaps of the layout. -/
theorem freeNodes_eq (h : list.Represents layout) : list.freeNodes = (gaps layout).length := by
  rw [freeNodes, h.nodes_eq, List.length_map]

/-- The size of a gap fits its word. -/
theorem size_gap_lt (h : list.Represents layout) {g : Extent} (hg : g ∈ gaps layout) :
    g.size < wordLimit := by
  have hbounds := h.bounds (mem_gaps.1 hg)
  have hsmall := h.small
  simp only [Piece.extent, Extent.stop] at hbounds
  omega

/-- The tag of a block tells the size of its payload. -/
theorem blockSize?_eq (h : list.Represents layout) (hb : b ∈ blocks layout) :
    list.blockSize? b.payload = some (b.size - tagSize) := by
  have hbounds := h.bounds (mem_blocks.1 hb)
  have hlarge := h.large _ (mem_blocks.1 hb)
  have htag := h.tagged b hb
  simp only [Piece.extent, Extent.stop, headerSize, nodeSize] at hbounds hlarge
  have hinside : b.offset + 4 ≤ list.arena.size := Nat.le_trans (by omega) hbounds.2
  obtain ⟨tag, hword⟩ := Option.isSome_iff_exists.1 (Bytes.word?_isSome_iff.2 hinside)
  rw [word, hword, Option.getD_some] at htag
  subst htag
  have hbehind : ¬b.payload < tagSize + headerSize := by
    simp only [Extent.payload, tagSize, headerSize]
    omega
  have hoffset : b.payload - tagSize = b.offset := Nat.add_sub_cancel ..
  rw [blockSize?, if_neg hbehind, hoffset, hword]
  exact if_neg (by simp only [tagSize]; omega)

/-- Some gap serves an allocation exactly when the largest payload is not smaller, and then the size
of the block fits a word. -/
theorem le_maxAllocSize_iff (h : list.Represents layout) (hn : 1 ≤ n) :
    n ≤ list.maxAllocSize ↔
      n + tagSize < wordLimit ∧ ∃ g ∈ gaps layout, blockSizeFor n ≤ g.size := by
  rw [FreeList.le_maxAllocSize_iff hn, h.nodes_eq]
  constructor
  · rintro ⟨node, hnode, hfits⟩
    obtain ⟨g, hg, rfl⟩ := List.mem_map.1 hnode
    have hlarge := h.large _ (mem_gaps.1 hg)
    have hsmall := h.size_gap_lt hg
    rw [nodeAt, h.word_gap hg] at hfits
    exact ⟨Nat.lt_of_le_of_lt hfits hsmall, g, hg, Nat.max_le.2 ⟨hfits, hlarge⟩⟩
  · rintro ⟨_, g, hg, hfits⟩
    refine ⟨_, List.mem_map_of_mem hg, ?_⟩
    rw [nodeAt, h.word_gap hg]
    exact Nat.le_trans (Nat.le_max_left _ _) hfits

end Represents

end FreeList

namespace Heap

open FreeList

section Allocation

variable {heap : Heap} {layout : List Piece} {capacity n : Nat}

/-- The free nodes stand in ascending order. -/
theorem HasLayout.nodes_ascending (h : heap.HasLayout layout) :
    heap.list.nodes.Pairwise fun m n => m.offset < n.offset := by
  refine h.sound.apart.imp fun {m n} hapart => ?_
  simp only [FreeNode.extent, Extent.stop] at hapart
  omega

/-- A payload that is not too large gets the best node, whole or split. The node that is chosen is
the gap that is carved. -/
theorem HasLayout.exists_best_fit (h : heap.HasLayout layout) (hn : 1 ≤ n)
    (hfits : n ≤ heap.list.maxAllocSize) :
    ∃ node list' block, IsBestFit (blockSizeFor n) heap.list.nodes node ∧
      heap.list.alloc n = .ok (some (node.offset + tagSize), list') ∧
      list'.blockSize? (node.offset + tagSize) = some (block - tagSize) ∧
      list'.remainingSize + block = heap.list.remainingSize ∧
      (block = node.size ∧ node.size ≤ blockSizeFor n + nodeSize ∧
          list'.freeNodes + 1 = heap.list.freeNodes ∨
        block = blockSizeFor n ∧ blockSizeFor n + nodeSize < node.size ∧
          list'.freeNodes = heap.list.freeNodes) := by
  obtain ⟨hlarge, hsome⟩ := (h.represents.le_maxAllocSize_iff hn).1 hfits
  obtain ⟨P, g, S, list', start, stop, rfl, -, -, halloc, -, hrepresents, -⟩ :=
    h.represents.exists_alloc hlarge hsome
  obtain ⟨previous, node, hbest, hpayload⟩ := exists_bestFit_of_alloc halloc
  obtain ⟨before, behind, hfirst, -⟩ := firstBest_of_bestFit hbest
  have hnode := hfirst.isBestFit h.nodes_ascending
  have hoffset : node.offset = g.offset := (Nat.add_right_cancel hpayload).symm
  have hsize : node.size = g.size := by
    have hmem := hnode.mem
    rw [h.represents.nodes_eq] at hmem
    obtain ⟨e, he, rfl⟩ := List.mem_map.1 hmem
    have hword := h.represents.word_gap (g := g) (by simp)
    rw [← hword]
    exact congrArg heap.list.word hoffset
  have hremaining := h.represents.remainingSize_eq
  have hremaining' := hrepresents.remainingSize_eq
  have hcount := h.represents.freeNodes_eq
  have hcount' := hrepresents.freeNodes_eq
  rw [hpayload] at halloc
  obtain ⟨b, hblock, hstart, -, hleft⟩ := exists_blocks_carve (hsize ▸ hnode.fits)
  have htag := hrepresents.blockSize?_eq (b := b) (by simp [hblock])
  rw [Extent.payload, hstart, ← hoffset] at htag
  simp only [gaps_append, gaps_gap, gaps_nil, List.map_append, List.map_cons, List.map_nil,
    List.sum_append, List.sum_cons, List.sum_nil, List.length_append, List.length_cons,
    List.length_nil] at hremaining hremaining' hcount hcount'
  refine ⟨node, list', b.size, hnode, halloc, htag, by omega, ?_⟩
  rcases carve_cases hblock with ⟨hwhole, hrest, hnone⟩ | ⟨hsplit, hrest, hone⟩
  · rw [hnone, List.length_nil] at hcount'
    exact .inl ⟨by omega, by omega, by omega⟩
  · exact .inr ⟨hsplit, by omega, by omega⟩

/-- Best fit. In a reachable heap an allocation of at least one byte succeeds exactly when it asks
for no more than the largest payload. Its block begins at the offset of the lowest among the
smallest free nodes that are large enough, is at most a node larger than it must be, and takes
exactly its bytes out of the free list. The list loses a node when that is consumed whole, and
otherwise keeps what is left of it. An allocation that fails changes nothing. -/
theorem Reachable.alloc_best_fit (h : Reachable capacity heap) (hsmall : capacity < wordLimit)
    (hn : 1 ≤ n) :
    (n ≤ heap.list.maxAllocSize → ∃ node list' size,
      IsBestFit (max (n + 4) 8) heap.list.nodes node ∧
      heap.list.alloc n = .ok (some (node.offset + tagSize), list') ∧
      list'.blockSize? (node.offset + tagSize) = some size ∧ n ≤ size ∧ size ≤ max n 4 + 8 ∧
      list'.remainingSize + (tagSize + size) = heap.list.remainingSize ∧
      (tagSize + size = node.size ∧ list'.freeNodes + 1 = heap.list.freeNodes ∨
        tagSize + size < node.size ∧ list'.freeNodes = heap.list.freeNodes)) ∧
    (heap.list.maxAllocSize < n → heap.list.alloc n = .ok (none, heap.list)) := by
  obtain ⟨⟨layout, hlayout⟩, -⟩ := h.exists_layout hsmall
  constructor
  · intro hfits
    obtain ⟨node, list', block, hnode, halloc, htag, hremaining, hshape⟩ :=
      hlayout.exists_best_fit hn hfits
    have hneed := hnode.fits
    simp only [blockSizeFor, tagSize, nodeSize] at *
    refine ⟨node, list', block - 4, hnode, halloc, htag, ?_⟩
    rcases hshape with ⟨rfl, hrest, hcount⟩ | ⟨rfl, hrest, hcount⟩
    · exact ⟨by omega, by omega, by omega, .inl ⟨by omega, hcount⟩⟩
    · exact ⟨by omega, by omega, by omega, .inr ⟨by omega, hcount⟩⟩
  · intro hlarger
    have hnone := mt (hlayout.represents.le_maxAllocSize_iff hn).2 (Nat.not_le.2 hlarger)
    refine (hlayout.represents.alloc_eq_none ?_).1
    by_cases hword : n + tagSize < wordLimit
    · exact .inr fun g hg => Nat.lt_of_not_le fun hfits => hnone ⟨hword, g, hg, hfits⟩
    · exact .inl (Nat.le_of_not_lt hword)

/-- Two holes of 24 bytes around a block: twenty bytes go into the first one, which is consumed
whole, and 21 bytes fit nowhere. -/
theorem Reachable.alloc_best_fit_of_holes :
    ∃ heap, (Heap.new 64).follow? [.alloc 20, .alloc 4, .free 12] = some heap ∧
      heap.list.nodes = [⟨8, 24, 40⟩, ⟨40, 24, 0⟩] ∧
      (∃ list', heap.list.alloc 20 = .ok (some 12, list') ∧
        list'.freeNodes + 1 = heap.list.freeNodes) ∧
      heap.list.alloc 21 = .ok (none, heap.list) := by
  have hanswers : ((Heap.new 64).follow? [.alloc 20, .alloc 4, .free 12]).map (fun heap =>
      (heap.list.maxAllocSize, heap.list.nodes)) = some (20, [⟨8, 24, 40⟩, ⟨40, 24, 0⟩]) := by
    decide +kernel
  obtain ⟨heap, hfollow, hheap⟩ := Option.map_eq_some_iff.1 hanswers
  obtain ⟨hlargest, hnodes⟩ := Prod.mk.inj hheap
  have hreachable : Reachable 64 heap := Reachable.new.follow? hfollow
  obtain ⟨hfits, -⟩ := hreachable.alloc_best_fit (n := 20) (by decide) (by decide)
  obtain ⟨-, hlarger⟩ := hreachable.alloc_best_fit (n := 21) (by decide) (by decide)
  obtain ⟨node, list', size, hnode, halloc, -, hsize, -, -, hshape⟩ := hfits (by omega)
  have hlowest := hnode.lowest ⟨8, 24, 40⟩ (by simp [hnodes])
  have hmem := hnode.mem
  rw [hnodes] at hmem
  obtain rfl : node = ⟨8, 24, 40⟩ := by
    simp only [List.mem_cons, List.not_mem_nil, or_false] at hmem
    rcases hmem with rfl | rfl
    · rfl
    · simp at hlowest
  refine ⟨heap, hfollow, hnodes, ⟨list', halloc, ?_⟩, hlarger (by omega)⟩
  rcases hshape with ⟨-, hcount⟩ | ⟨hsplit, -⟩
  · exact hcount
  · simp only [tagSize] at hsplit
    omega

end Allocation

end Heap

end ElasticCache
