import ElasticCache.Proofs.Arena.Release
import Mathlib.Data.List.Sort

/-!
# The heap of an arena

A user of an arena allocates payloads, writes inside the payloads it holds, and releases them in any
order. The state of such a use is the arena and the blocks that are live in it. Whatever the
commands were, live blocks and free nodes tile the arena, and the free nodes are the maximal gaps
between the live blocks.
-/

namespace ElasticCache

/-- The bytes of a free node. -/
def FreeNode.extent (node : FreeNode) : Extent := ⟨node.offset, node.size⟩

/-- An arena with the blocks that its user holds. -/
structure Heap where
  list : FreeList
  /-- The live blocks, the newest first. -/
  live : List Extent

/-- What a user asks of an arena. -/
inductive HeapCommand where
  | alloc (size : Nat)
  | free (offset : Nat)
  | write (offset : Nat) (part : ByteArray)

namespace Heap

/-- A new arena, in which nothing is live. -/
def new (capacity : Nat) : Heap := ⟨FreeList.new capacity, []⟩

/-- The commands of a user that keeps to its blocks: sizes are words, what is released is the
payload of a live block, and what is written lies inside one. -/
def Allows (heap : Heap) : HeapCommand → Prop
  | .alloc size => size < wordLimit
  | .free offset => ∃ b ∈ heap.live, b.payload = offset
  | .write offset part => ∃ b ∈ heap.live, b.payload ≤ offset ∧ offset + part.size ≤ b.stop

instance (heap : Heap) (command : HeapCommand) : Decidable (heap.Allows command) :=
  match command with
  | .alloc size => inferInstanceAs (Decidable (size < wordLimit))
  | .free offset => inferInstanceAs (Decidable (∃ b ∈ heap.live, b.payload = offset))
  | .write offset part => inferInstanceAs (Decidable (∃ b ∈ heap.live, b.payload ≤ offset ∧
      offset + part.size ≤ b.stop))

/-- One command. A new block consists of the bytes that have left the free list. -/
def step (heap : Heap) : HeapCommand → Except Fault Heap
  | .alloc size => do
    let (answer, list) ← heap.list.alloc size
    match answer with
    | none => return ⟨list, heap.live⟩
    | some payload =>
      let block : Extent :=
        ⟨payload - FreeList.tagSize, heap.list.remainingSize - list.remainingSize⟩
      return ⟨list, block :: heap.live⟩
  | .free offset => do
    let (released, list) ← heap.list.free offset
    return ⟨list, if released then heap.live.filter (·.payload ≠ offset) else heap.live⟩
  | .write offset part =>
    match heap.list.write? offset part with
    | none => throw .outOfBounds
    | some list => return ⟨list, heap.live⟩

/-- Commands one after the other. -/
def run (heap : Heap) (commands : List HeapCommand) : Except Fault Heap := commands.foldlM step heap

/-- Commands one after the other, as long as each of them is allowed. -/
def follow? (heap : Heap) : List HeapCommand → Option Heap
  | [] => some heap
  | command :: rest =>
    if heap.Allows command then (heap.step command).toOption.bind (·.follow? rest) else none

/-- The heaps that allowed commands lead to, from a new arena. -/
inductive Reachable (capacity : Nat) : Heap → Prop
  | new : Reachable capacity (new capacity)
  | step {heap heap' : Heap} {command : HeapCommand} (h : Reachable capacity heap)
      (hallows : heap.Allows command) (hstep : heap.step command = .ok heap') :
      Reachable capacity heap'

/-- The heap has a layout: the words of the arena describe it, no two of its gaps touch, and its
blocks are the live ones. -/
structure HasLayout (heap : Heap) (layout : List Piece) : Prop where
  represents : heap.list.Represents layout
  coalesced : Coalesced layout
  live : heap.live.Perm (blocks layout)

/-- A heap in order, said of its words and its live blocks alone. -/
structure Sound (heap : Heap) : Prop where
  /-- Live blocks and free nodes stand one behind the other from the header to the end. -/
  tiles : ∃ extents, extents.Perm (heap.live ++ heap.list.nodes.map FreeNode.extent) ∧
    Tiles FreeList.headerSize extents heap.list.capacity
  /-- From the header the links lead through the free nodes to the end of the list. -/
  chain : heap.list.Chain heap.list.head (heap.list.nodes.map FreeNode.extent) 0
  /-- The free nodes ascend, and no two of them touch. -/
  apart : heap.list.nodes.Pairwise fun m n => m.extent.stop < n.offset
  /-- The free nodes are the maximal gaps between the live blocks. -/
  maximal : ∀ e, e ∈ heap.list.nodes.map FreeNode.extent ↔
    IsGap heap.live FreeList.headerSize heap.list.capacity e
  large : ∀ node ∈ heap.list.nodes, FreeList.nodeSize ≤ node.size
  /-- The tag of a live block is its size. -/
  tagged : ∀ b ∈ heap.live, heap.list.word b.offset = b.size
  remaining : heap.list.remainingSize + (heap.live.map (·.size)).sum + FreeList.headerSize =
    heap.list.capacity

end Heap

/-! ## Reading the nodes of a layout -/

namespace FreeList

/-- The free nodes at some gaps, each with the link to the next one. -/
def linked : List Extent → List FreeNode
  | [] => []
  | g :: rest => ⟨g.offset, g.size, firstOffset 0 rest⟩ :: linked rest

section Nodes

variable {list : FreeList} {layout : List Piece}

/-- The nodes at some gaps have these gaps for extents. -/
theorem extents_linked (G : List Extent) : (linked G).map FreeNode.extent = G := by
  induction G with
  | nil => rfl
  | cons g rest ih => rw [linked, List.map_cons, ih, FreeNode.extent]

/-- The nodes read along a chain are the linked gaps of the chain. -/
theorem Chain.map_nodeAt {p : Nat} {G : List Extent} (h : Chain list p G 0) :
    (G.map fun g => list.nodeAt g.offset) = linked G := by
  induction G generalizing p with
  | nil => rfl
  | cons g rest ih =>
    obtain ⟨_, hsize, hrest⟩ := h
    rw [List.map_cons, ih hrest, linked, nodeAt, hsize, hrest.eq_firstOffset]

/-- The free nodes of a represented layout, with their links. -/
theorem Represents.nodes_eq_linked (h : list.Represents layout) :
    list.nodes = linked (gaps layout) := by
  rw [h.nodes_eq, h.chain.map_nodeAt]

/-- The extents of the free nodes are the gaps of the layout. -/
theorem Represents.extents_nodes (h : list.Represents layout) :
    list.nodes.map FreeNode.extent = gaps layout := by
  rw [h.nodes_eq_linked, extents_linked]

/-- The bytes in free nodes are those of the gaps. -/
theorem Represents.remainingSize_eq (h : list.Represents layout) :
    list.remainingSize = ((gaps layout).map (·.size)).sum := by
  rw [remainingSize, sumSizes_eq_sum, ← h.extents_nodes, List.map_map]
  rfl

end Nodes

/-! ## A new arena -/

section Fresh

variable {capacity : Nat}

/-- A new arena is represented by one gap behind its header. -/
theorem represents_fresh (hroom : headerSize + nodeSize ≤ capacity)
    (hsmall : capacity < wordLimit) :
    (fresh capacity).Represents [.gap ⟨headerSize, capacity - headerSize⟩] := by
  simp only [headerSize, nodeSize] at hroom
  have hsize : (Bytes.zeros capacity).size = capacity := Bytes.size_zeros capacity
  have hcapacity : (fresh capacity).capacity = capacity := by
    rw [FreeList.capacity, fresh, Bytes.size_splice, hsize]
    rw [hsize]
    exact hroom
  have hword (i : Nat) (hi : i + 4 ≤ 16) : (fresh capacity).word i =
      ((Bytes.word? (Bytes.ofWord capacity ++ Bytes.ofWord headerSize ++
        (Bytes.ofWord (capacity - headerSize) ++ Bytes.ofWord 0)) i).getD 0) := by
    rw [word, fresh, Bytes.word?_splice_of_inside, Nat.sub_zero]
    · rw [hsize]
      exact hroom
    · exact ⟨Nat.zero_le _, hi⟩
  have hboth (m n : Nat) : (Bytes.ofWord m ++ Bytes.ofWord n).size = 8 := by
    rw [ByteArray.size_append, Bytes.size_ofWord, Bytes.size_ofWord]
  have hhead : (fresh capacity).head = headerSize := by
    rw [head, hword 4 (by decide), Bytes.word?_append_left (by simp only [hboth]; decide),
      Bytes.word?_append_right (by simp only [Bytes.size_ofWord]; decide), Bytes.size_ofWord,
      Nat.sub_self, Bytes.word?_ofWord (by decide), Option.getD_some]
  have hgap : (fresh capacity).word 8 = capacity - headerSize := by
    rw [hword 8 (by decide), Bytes.word?_append_right (Nat.le_of_eq (hboth ..)), hboth,
      Nat.sub_self, Bytes.word?_append_left (Nat.le_refl 4),
      Bytes.word?_ofWord (by omega), Option.getD_some]
  have hnext : (fresh capacity).word 12 = 0 := by
    rw [hword 12 (by decide), Bytes.word?_append_right (by rw [hboth]; decide), hboth,
      Bytes.word?_append_right (by simp only [Bytes.size_ofWord]; decide), Bytes.size_ofWord,
      Nat.sub_self, Bytes.word?_ofWord (by decide), Option.getD_some]
  refine ⟨by rwa [hcapacity], ⟨rfl, ?_⟩, ?_, fun b hb => (List.not_mem_nil hb).elim, ?_⟩
  · show headerSize + (capacity - headerSize) = (fresh capacity).capacity
    rw [hcapacity]
    simp only [headerSize]
    omega
  · intro p hp
    rw [List.mem_singleton.1 hp]
    simp only [Piece.extent, nodeSize, headerSize]
    omega
  · rw [hhead]
    exact ⟨rfl, hgap, hnext⟩

end Fresh

/-! ## Writes inside a payload -/

section Write

variable {list : FreeList} {layout : List Piece} {b : Extent} {offset : Nat} {part : ByteArray}

/-- A write inside the payload of a live block changes no other byte and keeps the layout. -/
theorem Represents.exists_write (h : list.Represents layout) (hb : b ∈ blocks layout)
    (hoffset : b.payload ≤ offset) (hstop : offset + part.size ≤ b.stop) :
    ∃ list', list.write? offset part = some list' ∧ list'.Represents layout ∧
      list'.capacity = list.capacity ∧
      ∀ i, i < offset ∨ offset + part.size ≤ i → list'.byte? i = list.byte? i := by
  obtain ⟨P, S, rfl⟩ := List.append_of_mem (mem_blocks.1 hb)
  obtain ⟨start, stop, hs⟩ := Represents.split (M := [.block b]) h
  have hstart : b.offset = start := hs.middle.1
  have hend : b.stop = stop := hs.middle.2
  have hbounds := hs.bounds
  have hsize : offset + part.size ≤ list.arena.size := by
    have hcapacity : stop ≤ list.arena.size := hbounds.2.2
    omega
  have hpayload : b.offset + 4 ≤ offset := hoffset
  have hcapacity : FreeList.capacity ⟨Bytes.splice list.arena offset part⟩ = list.capacity :=
    Bytes.size_splice hsize
  have hsame (i : Nat) (hi : i < offset ∨ offset + part.size ≤ i) :
      byte? ⟨Bytes.splice list.arena offset part⟩ i = list.byte? i := by
    rw [byte?, Bytes.getElem?_splice hsize, if_neg (by omega), byte?]
  have hchanges : ChangesOnly list ⟨Bytes.splice list.arena offset part⟩ start stop
      (linkCell P) := ⟨hcapacity, fun i hi _ => hsame i (by omega)⟩
  have hcell := hs.linkCell_le
  refine ⟨_, if_pos hsize, ?_, hcapacity, hsame⟩
  refine h.replace hs hs.middle ?_ ?_ ?_ hchanges
  · intro p hp
    exact hs.large p (List.mem_append_right _ (List.mem_append_left _ hp))
  · intro d hd
    rw [List.mem_singleton.1 hd, ← h.tagged b hb]
    exact word_eq_of_sameBytes fun i _ hi => hsame i (by omega)
  · have hlink := hs.chain_middle
    have hword : (FreeList.mk (Bytes.splice list.arena offset part)).word (linkCell P) =
        list.word (linkCell P) := word_eq_of_sameBytes fun i _ hi => hsame i (by omega)
    rwa [← hword] at hlink

end Write

end FreeList

/-! ## Commands keep a layout -/

namespace Heap

open FreeList

section Steps

variable {heap : Heap} {layout : List Piece} {command : HeapCommand} {n : Nat} {b : Extent}

/-- A new heap has one gap, of eight bytes at least, and no blocks. -/
theorem hasLayout_new {capacity : Nat} (hsmall : capacity < wordLimit) :
    (new capacity).HasLayout [.gap ⟨headerSize, max capacity 16 - headerSize⟩] := by
  refine ⟨represents_fresh (Nat.le_max_right _ _) ?_, List.isChain_singleton _, List.Perm.refl _⟩
  exact Nat.max_lt.2 ⟨hsmall, by decide⟩

/-- An allocation answers a new block or, when no gap can serve it, nothing. It changes no byte of a
live block. -/
theorem HasLayout.exists_alloc (h : heap.HasLayout layout) :
    ∃ answer list', heap.list.alloc n = .ok (answer, list') ∧
      heap.list.allocIn n = .ok (answer, list') ∧ Keeps heap.list list' heap.live ∧
      ((answer = none ∧ list' = heap.list) ∨ ∃ b layout', answer = some b.payload ∧
        n + tagSize ≤ b.size ∧ heap.list.remainingSize - list'.remainingSize = b.size ∧
        HasLayout ⟨list', b :: heap.live⟩ layout') := by
  by_cases hserved : n + tagSize < wordLimit ∧ ∃ g ∈ gaps layout, blockSizeFor n ≤ g.size
  · obtain ⟨P, g, S, list', start, stop, rfl, hs, hfits, halloc, hallocIn, hrepresents, hchanges⟩ :=
      h.represents.exists_alloc hserved.1 hserved.2
    obtain ⟨b, hblocks, hoffset, hneed, hsizes⟩ := exists_blocks_carve hfits
    have hkeeps := hchanges.keeps hs
    have hlive := h.live
    rw [blocks_append, blocks_append, blocks_gap, blocks_nil, List.nil_append] at hlive
    have hpayload : g.payload = b.payload := by rw [Extent.payload, Extent.payload, hoffset]
    refine ⟨_, list', halloc, hallocIn, ⟨hkeeps.capacity_eq, fun d hd => ?_⟩, .inr ?_⟩
    · exact hkeeps.same d (hlive.mem_iff.1 hd)
    · refine ⟨b, _, congrArg some hpayload, ?_, ?_, hrepresents, coalesced_carve h.coalesced, ?_⟩
      · exact Nat.le_trans (Nat.le_max_left _ _) hneed
      · rw [h.represents.remainingSize_eq, hrepresents.remainingSize_eq]
        simp only [gaps_append, List.map_append, List.sum_append, gaps_gap, gaps_nil, List.map_cons,
          List.map_nil, List.sum_cons, List.sum_nil]
        omega
      · rw [blocks_append, blocks_append, hblocks]
        exact (hlive.cons b).trans List.perm_middle.symm
  · have hnone : wordLimit ≤ n + tagSize ∨ ∀ g ∈ gaps layout, g.size < blockSizeFor n := by
      by_cases hlarge : n + tagSize < wordLimit
      · exact .inr fun g hg => Nat.lt_of_not_le fun hfits => hserved ⟨hlarge, g, hg, hfits⟩
      · exact .inl (Nat.le_of_not_lt hlarge)
    obtain ⟨halloc, hallocIn⟩ := h.represents.alloc_eq_none hnone
    exact ⟨none, heap.list, halloc, hallocIn, Keeps.refl, .inl ⟨rfl, rfl⟩⟩

/-- Blocks of a layout have different payloads. -/
theorem filter_blocks {list : FreeList} {P S : List Piece}
    (h : list.Represents (P ++ .block b :: S)) :
    (blocks (P ++ .block b :: S)).filter (·.payload ≠ b.payload) = blocks P ++ blocks S := by
  obtain ⟨start, stop, hs⟩ := Represents.split (M := [.block b]) h
  have hoffset : b.offset = start := hs.middle.1
  have hstop : b.offset + b.size = stop := hs.middle.2
  have hpos : 0 < b.size := h.pos (.block b) (by simp)
  have hbefore (d : Extent) (hd : d ∈ blocks P) : d.payload ≠ b.payload := by
    have hle := (hs.before.bounds (List.mem_map_of_mem (mem_blocks.1 hd))).2
    have hdpos := h.pos (.block d) (List.mem_append_left _ (mem_blocks.1 hd))
    simp only [Piece.extent, Extent.stop] at hle hdpos
    simp only [Extent.payload]
    omega
  have hbehind (d : Extent) (hd : d ∈ blocks S) : d.payload ≠ b.payload := by
    have hle := (hs.behind.bounds (List.mem_map_of_mem (mem_blocks.1 hd))).1
    simp only [Piece.extent] at hle
    simp only [Extent.payload]
    omega
  rw [blocks_append, blocks_block, List.filter_append, List.filter_cons_of_neg (by simp),
    List.filter_eq_self.2 fun d hd => decide_eq_true (hbefore d hd),
    List.filter_eq_self.2 fun d hd => decide_eq_true (hbehind d hd)]

/-- Among the live blocks no other one has the payload offset of a block. -/
theorem HasLayout.perm_filter (h : heap.HasLayout layout) (hb : b ∈ heap.live) :
    (b :: heap.live.filter (·.payload ≠ b.payload)).Perm heap.live := by
  obtain ⟨P, S, rfl⟩ := List.append_of_mem (mem_blocks.1 (h.live.mem_iff.1 hb))
  have hlive := h.live.filter (·.payload ≠ b.payload)
  rw [filter_blocks h.represents] at hlive
  refine ((hlive.cons b).trans List.perm_middle.symm).trans ?_
  rw [← blocks_block, ← blocks_append]
  exact h.live.symm

/-- A live block can be released. This changes no byte of another one. -/
theorem HasLayout.exists_free (h : heap.HasLayout layout) (hb : b ∈ heap.live) :
    ∃ list' layout', heap.list.free b.payload = .ok (true, list') ∧
      heap.list.freeIn b.payload = .ok (true, list') ∧
      Keeps heap.list list' (heap.live.filter (·.payload ≠ b.payload)) ∧
      HasLayout ⟨list', heap.live.filter (·.payload ≠ b.payload)⟩ layout' := by
  obtain ⟨P, S, rfl⟩ := List.append_of_mem (mem_blocks.1 (h.live.mem_iff.1 hb))
  obtain ⟨list', layout', hfree, hfreeIn, hrepresents, hcoalesced, hblocks, hkeeps⟩ :=
    Represents.exists_free h.represents h.coalesced
  have hlive := h.live.filter (·.payload ≠ b.payload)
  rw [filter_blocks h.represents] at hlive
  refine ⟨list', layout', hfree, hfreeIn, ⟨hkeeps.capacity_eq, fun d hd => ?_⟩, hrepresents,
    hcoalesced, by rwa [hblocks]⟩
  exact hkeeps.same d (hlive.mem_iff.1 hd)

/-- The command to allocate adds the block that was cut off the free nodes. -/
theorem step_alloc {list' : FreeList} (halloc : heap.list.alloc n = .ok (some b.payload, list'))
    (hsize : heap.list.remainingSize - list'.remainingSize = b.size) :
    heap.step (.alloc n) = .ok ⟨list', b :: heap.live⟩ := by
  have hoffset : b.payload - tagSize = b.offset := Nat.add_sub_cancel ..
  simp only [step, halloc, ok_bind, hoffset, hsize]
  rfl

/-- The command to release takes out the block with the payload offset. -/
theorem step_free {list' : FreeList} (hfree : heap.list.free b.payload = .ok (true, list')) :
    heap.step (.free b.payload) = .ok ⟨list', heap.live.filter (·.payload ≠ b.payload)⟩ := by
  simp only [step, hfree, ok_bind, if_pos]
  rfl

/-- Every allowed command has a result, and the result has a layout again. -/
theorem HasLayout.exists_step (h : heap.HasLayout layout) (hallows : heap.Allows command) :
    ∃ heap' layout', heap.step command = .ok heap' ∧ heap'.HasLayout layout' ∧
      heap'.list.capacity = heap.list.capacity := by
  cases command with
  | alloc size =>
    obtain ⟨answer, list', halloc, _, hkeeps, hanswer⟩ := h.exists_alloc (n := size)
    rcases hanswer with ⟨rfl, rfl⟩ | ⟨b, layout', rfl, _, hsize, hlayout⟩
    · refine ⟨heap, layout, ?_, h, rfl⟩
      rw [step, halloc]
      rfl
    · exact ⟨_, layout', step_alloc halloc hsize, hlayout, hkeeps.capacity_eq⟩
  | free offset =>
    obtain ⟨b, hb, rfl⟩ := hallows
    obtain ⟨list', layout', hfree, _, hkeeps, hlayout⟩ := h.exists_free hb
    exact ⟨_, layout', step_free hfree, hlayout, hkeeps.capacity_eq⟩
  | write offset part =>
    obtain ⟨b, hb, hoffset, hstop⟩ := hallows
    obtain ⟨list', hwrite, hrepresents, hcapacity, _⟩ :=
      h.represents.exists_write (h.live.mem_iff.1 hb) hoffset hstop
    refine ⟨⟨list', heap.live⟩, layout, ?_, ⟨hrepresents, h.coalesced, h.live⟩, hcapacity⟩
    rw [step, hwrite]
    rfl

end Steps

/-! ## What every layout says -/

section Layouts

variable {heap other : Heap} {layout layout' : List Piece}

/-- Whether something is a gap depends on which blocks are live alone. -/
theorem isGap_congr {live live' : List Extent} {start stop : Nat} {e : Extent}
    (hlive : ∀ b, b ∈ live ↔ b ∈ live') (h : IsGap live start stop e) :
    IsGap live' start stop e := by
  obtain ⟨hsize, hstart, hstop, hapart, hbegins, hends⟩ := h
  refine ⟨hsize, hstart, hstop, fun b hb => hapart b ((hlive b).2 hb), ?_, ?_⟩
  · exact hbegins.imp_right fun ⟨b, hb, hstop⟩ => ⟨b, (hlive b).1 hb, hstop⟩
  · exact hends.imp_right fun ⟨b, hb, hoffset⟩ => ⟨b, (hlive b).1 hb, hoffset⟩

namespace HasLayout

/-- The gaps of a layout are the maximal gaps between the live blocks. -/
theorem mem_gaps_iff (h : heap.HasLayout layout) (e : Extent) :
    e ∈ gaps layout ↔ IsGap heap.live headerSize heap.list.capacity e := by
  have htiles := h.represents.tiles
  have hpos := h.represents.pos
  constructor
  · intro he
    exact isGap_congr (fun b => h.live.mem_iff.symm) (isGap_of_mem_gaps htiles hpos h.coalesced he)
  · intro he
    exact mem_gaps_of_isGap htiles hpos h.coalesced (isGap_congr (fun b => h.live.mem_iff) he)

/-- No gap begins where another one ends: there a block would begin, too. -/
theorem stop_ne_offset (h : heap.HasLayout layout) {e f : Extent} (he : e ∈ gaps layout)
    (hf : f ∈ gaps layout) : e.stop ≠ f.offset := by
  have hgap := (h.mem_gaps_iff e).1 he
  intro htouch
  have hsize := hgap.size_pos
  have hstart := hgap.start_le
  simp only [Extent.stop] at htouch
  rcases ((h.mem_gaps_iff f).1 hf).begins with hbegins | ⟨b, hb, hbegins⟩
  · omega
  · have hpos : 0 < b.size :=
      h.represents.pos _ (mem_blocks.1 (h.live.mem_iff.1 hb))
    have hapart := hgap.apart b hb
    simp only [Extent.stop] at hapart hbegins
    omega

/-- The gaps stand in ascending order, and no two of them touch. -/
theorem pairwise_gaps (h : heap.HasLayout layout) :
    (gaps layout).Pairwise fun e f => e.stop < f.offset := by
  have hpairwise := List.pairwise_map.1 h.represents.tiles.pairwise
  have hle : (gaps layout).Pairwise fun e f => e.stop ≤ f.offset := by
    refine List.pairwise_filterMap.2 (hpairwise.imp fun {p q} hle e he f hf => ?_)
    cases p with
    | block b => cases he
    | gap g =>
      cases q with
      | block d => cases hf
      | gap g' => rwa [← Option.some.inj he, ← Option.some.inj hf]
  exact hle.imp_of_mem fun he hf hle => Nat.lt_of_le_of_ne hle (h.stop_ne_offset he hf)

/-- Which gaps there are depends on the live blocks alone. -/
theorem gaps_eq (h : heap.HasLayout layout) (h' : other.HasLayout layout')
    (hcapacity : other.list.capacity = heap.list.capacity)
    (hlive : ∀ b, b ∈ other.live ↔ b ∈ heap.live) : gaps layout' = gaps layout := by
  have hmem (e : Extent) : e ∈ gaps layout' ↔ e ∈ gaps layout := by
    rw [h.mem_gaps_iff, h'.mem_gaps_iff, hcapacity]
    exact ⟨isGap_congr hlive, isGap_congr fun b => (hlive b).symm⟩
  have : Std.Antisymm fun e f : Extent => e.stop < f.offset :=
    ⟨fun e f hef hfe => by simp only [Extent.stop] at hef hfe; omega⟩
  have : Std.Irrefl fun e f : Extent => e.stop < f.offset :=
    ⟨fun e he => by simp only [Extent.stop] at he; omega⟩
  exact h'.pairwise_gaps.eq_of_mem_iff h.pairwise_gaps hmem

/-- A heap that has a layout is in order. -/
theorem sound (h : heap.HasLayout layout) : heap.Sound := by
  have hextents := h.represents.extents_nodes
  have hperm : (blocks layout ++ gaps layout).Perm (heap.live ++ gaps layout) :=
    h.live.symm.append_right _
  refine ⟨⟨_, ?_, h.represents.tiles⟩, ?_, ?_, ?_, ?_, ?_, ?_⟩
  · rw [hextents]
    exact (blocks_append_gaps_perm layout).symm.trans hperm
  · rw [hextents]
    exact h.represents.chain
  · have hpairwise := h.pairwise_gaps
    rw [← hextents] at hpairwise
    exact List.pairwise_map.1 hpairwise
  · intro e
    rw [hextents]
    exact h.mem_gaps_iff e
  · intro node hnode
    have hmem : node.extent ∈ gaps layout := by
      rw [← hextents]
      exact List.mem_map_of_mem hnode
    exact h.represents.large _ (mem_gaps.1 hmem)
  · exact fun b hb => h.represents.tagged b (h.live.mem_iff.1 hb)
  · have hsizes := h.represents.tiles.sum_sizes
    rw [((blocks_append_gaps_perm layout).symm.map (·.size)).sum_nat, List.map_append,
      List.sum_append] at hsizes
    rw [h.represents.remainingSize_eq, (h.live.map (·.size)).sum_nat]
    omega

end HasLayout

end Layouts

/-! ## Reachable heaps -/

section Reachable

variable {capacity : Nat} {heap other : Heap}

/-- Allowed commands keep the size of the arena, and lead from layouts to layouts. -/
theorem Reachable.exists_layout (h : Reachable capacity heap) (hsmall : capacity < wordLimit) :
    (∃ layout, heap.HasLayout layout) ∧
      heap.list.capacity = max capacity (headerSize + nodeSize) := by
  induction h with
  | new =>
    have hlayout := hasLayout_new hsmall
    refine ⟨⟨_, hlayout⟩, ?_⟩
    have htiles : headerSize + (max capacity 16 - headerSize) = (Heap.new capacity).list.capacity :=
      hlayout.represents.tiles.2
    rw [← htiles]
    simp only [headerSize, nodeSize]
    omega
  | step _ hallows hstep ih =>
    obtain ⟨⟨layout, hlayout⟩, hcapacity⟩ := ih
    obtain ⟨heap', layout', hstep', hlayout', hcapacity'⟩ := hlayout.exists_step hallows
    obtain rfl := Except.ok.inj (hstep'.symm.trans hstep)
    exact ⟨⟨layout', hlayout'⟩, hcapacity'.trans hcapacity⟩

/-- Two reachable heaps with the same live blocks have the same free nodes. -/
theorem Reachable.nodes_eq (h : Reachable capacity heap) (h' : Reachable capacity other)
    (hsmall : capacity < wordLimit) (hlive : ∀ b, b ∈ other.live ↔ b ∈ heap.live) :
    other.list.nodes = heap.list.nodes := by
  obtain ⟨⟨layout, hlayout⟩, hcapacity⟩ := h.exists_layout hsmall
  obtain ⟨⟨layout', hlayout'⟩, hcapacity'⟩ := h'.exists_layout hsmall
  rw [hlayout.represents.nodes_eq_linked, hlayout'.represents.nodes_eq_linked,
    hlayout.gaps_eq hlayout' (hcapacity'.trans hcapacity.symm) hlive]

/-- Without live blocks there is one free node, which spans everything behind the header. -/
theorem Reachable.nodes_of_live_eq_nil (h : Reachable capacity heap) (hsmall : capacity < wordLimit)
    (hlive : heap.live = []) :
    heap.list.nodes = [⟨headerSize, heap.list.capacity - headerSize, 0⟩] := by
  have hlayout := hasLayout_new hsmall
  rw [(h.exists_layout hsmall).2, Reachable.new.nodes_eq h hsmall fun b => by rw [hlive]; rfl,
    hlayout.represents.nodes_eq_linked]
  rfl

/-- The live blocks can be released in any order, and then none is left. -/
theorem Reachable.exists_run_free (h : Reachable capacity heap) (hsmall : capacity < wordLimit)
    {order : List Extent} (horder : order.Perm heap.live) :
    ∃ heap', heap.run (order.map fun b => .free b.payload) = .ok heap' ∧
      Reachable capacity heap' ∧ heap'.live = [] := by
  induction order generalizing heap with
  | nil => exact ⟨heap, rfl, h, List.nil_perm.1 horder⟩
  | cons b rest ih =>
    have hb : b ∈ heap.live := horder.mem_iff.1 List.mem_cons_self
    obtain ⟨⟨layout, hlayout⟩, _⟩ := h.exists_layout hsmall
    obtain ⟨list', layout', hfree, _, _, _⟩ := hlayout.exists_free hb
    have hrest : rest.Perm (heap.live.filter (·.payload ≠ b.payload)) :=
      (horder.trans (hlayout.perm_filter hb).symm).cons_inv
    have hstep := step_free hfree
    have hallows : heap.Allows (.free b.payload) := ⟨b, hb, rfl⟩
    obtain ⟨heap', hrun, hreachable, hlive⟩ := ih (h.step hallows hstep) hrest
    refine ⟨heap', ?_, hreachable, hlive⟩
    simpa only [run, List.map_cons, List.foldlM_cons, hstep, ok_bind] using hrun

/-- Allowed commands one after the other lead from reachable heaps to reachable heaps. -/
theorem Reachable.follow? {heap' : Heap} {commands : List HeapCommand}
    (h : Reachable capacity heap) (hfollow : heap.follow? commands = some heap') :
    Reachable capacity heap' := by
  induction commands generalizing heap with
  | nil => rwa [← Option.some.inj hfollow]
  | cons command rest ih =>
    rw [Heap.follow?] at hfollow
    split at hfollow
    next hallows =>
      obtain ⟨next, hstep, hrest⟩ := Option.bind_eq_some_iff.1 hfollow
      exact ih (h.step hallows (toOption_eq_some_iff.1 hstep)) hrest
    next => cases hfollow

/-- The heap invariant. Whatever allowed commands led to a heap, it is in order and can be surveyed;
its free nodes are determined by its live blocks; every allocation and every release of a live block
has a result, does not leave the arena or its words on the way, and changes no byte of another live
block; and when all live blocks are released, in any order, one free node is left. -/
theorem Reachable.heap_invariant (h : Reachable capacity heap) (hsmall : capacity < wordLimit) :
    heap.list.capacity = max capacity (headerSize + nodeSize) ∧ heap.Sound ∧
    heap.list.survey =
      .ok ⟨heap.list.remainingSize, heap.list.maxAllocSize, heap.list.freeNodes⟩ ∧
    (∀ other, Reachable capacity other → (∀ b, b ∈ other.live ↔ b ∈ heap.live) →
      other.list.nodes = heap.list.nodes) ∧
    (∀ command, heap.Allows command → ∃ heap', heap.step command = .ok heap') ∧
    (∀ size, ∃ answer list', heap.list.alloc size = .ok (answer, list') ∧
      heap.list.allocIn size = .ok (answer, list') ∧
      (∀ b ∈ heap.live, SameBytes heap.list list' b.offset b.stop) ∧
      (answer = none ∧ list' = heap.list ∨ ∃ b, answer = some b.payload ∧
        size + tagSize ≤ b.size ∧ heap.step (.alloc size) = .ok ⟨list', b :: heap.live⟩)) ∧
    (∀ b ∈ heap.live, ∃ list', heap.list.free b.payload = .ok (true, list') ∧
      heap.list.freeIn b.payload = .ok (true, list') ∧
      ∀ d ∈ heap.live, d ≠ b → SameBytes heap.list list' d.offset d.stop) ∧
    ∀ order : List Extent, order.Perm heap.live → ∃ heap',
      heap.run (order.map fun b => .free b.payload) = .ok heap' ∧ heap'.live = [] ∧
      heap'.list.nodes = [⟨headerSize, heap.list.capacity - headerSize, 0⟩] := by
  obtain ⟨⟨layout, hlayout⟩, hcapacity⟩ := h.exists_layout hsmall
  refine ⟨hcapacity, hlayout.sound, ?_, ?_, ?_, ?_, ?_, ?_⟩
  · have hremaining := hlayout.sound.remaining
    have hfits := hlayout.represents.small
    simp only [survey, hlayout.represents.passed_eq_ok, ok_bind,
      fitWord_eq_ok (show heap.list.remainingSize < wordLimit by omega)]
    rfl
  · exact fun other hother hlive => h.nodes_eq hother hsmall hlive
  · intro command hallows
    obtain ⟨heap', _, hstep, _⟩ := hlayout.exists_step hallows
    exact ⟨heap', hstep⟩
  · intro size
    obtain ⟨answer, list', halloc, hallocIn, hkeeps, hanswer⟩ := hlayout.exists_alloc (n := size)
    refine ⟨answer, list', halloc, hallocIn, hkeeps.same, hanswer.imp_right ?_⟩
    rintro ⟨b, layout', rfl, hfits, hsize, _⟩
    exact ⟨b, rfl, hfits, step_alloc halloc hsize⟩
  · intro b hb
    obtain ⟨list', layout', hfree, hfreeIn, hkeeps, _⟩ := hlayout.exists_free hb
    refine ⟨list', hfree, hfreeIn, fun d hd hne => hkeeps.same d ?_⟩
    have hmem := (hlayout.perm_filter hb).mem_iff.2 hd
    exact (List.mem_cons.1 hmem).resolve_left hne
  · intro order horder
    obtain ⟨heap', hrun, hreachable, hlive⟩ := h.exists_run_free hsmall horder
    refine ⟨heap', hrun, hlive, ?_⟩
    rw [hreachable.nodes_of_live_eq_nil hsmall hlive, (hreachable.exists_layout hsmall).2,
      hcapacity]

/-- In an arena of 64 bytes three blocks are allocated, one of an odd size, the last one is written
to, and the second and the first are released. Their bytes have become one free node beside that at
the end, the third block is intact, and when it is released too there is one free node again. -/
theorem Reachable.heap_invariant_of_releases :
    ∃ heap heap', (Heap.new 64).follow? [.alloc 5, .alloc 12, .alloc 8, .write 37 (Bytes.ofWord 8),
        .free 21, .free 12] = some heap ∧
      heap.live = [⟨33, 12⟩] ∧ heap.Sound ∧ heap.list.nodes = [⟨8, 25, 45⟩, ⟨45, 19, 0⟩] ∧
      heap.list.word 33 = 12 ∧ heap.list.word 37 = 8 ∧
      heap.run [.free 37] = .ok heap' ∧ heap'.live = [] ∧ heap'.list.nodes = [⟨8, 56, 0⟩] := by
  have hanswers : ((Heap.new 64).follow? [.alloc 5, .alloc 12, .alloc 8,
      .write 37 (Bytes.ofWord 8), .free 21, .free 12]).map (fun heap =>
        (heap.list.capacity, heap.list.word 37, heap.live, heap.list.nodes)) =
      some (64, 8, [⟨33, 12⟩], [⟨8, 25, 45⟩, ⟨45, 19, 0⟩]) := by
    decide +kernel
  obtain ⟨heap, hfollow, hheap⟩ := Option.map_eq_some_iff.1 hanswers
  obtain ⟨hcapacity, hheap⟩ := Prod.mk.inj hheap
  obtain ⟨hword, hheap⟩ := Prod.mk.inj hheap
  obtain ⟨hlive, hnodes⟩ := Prod.mk.inj hheap
  obtain ⟨-, hsound, -, -, -, -, -, hrelease⟩ :=
    (Reachable.new.follow? hfollow).heap_invariant (by decide)
  obtain ⟨heap', hrun, hnone, hone⟩ := hrelease [⟨33, 12⟩] (hlive ▸ .refl _)
  rw [hcapacity] at hone
  refine ⟨heap, heap', hfollow, hlive, hsound, hnodes, ?_, hword, hrun, hnone, hone⟩
  exact hsound.tagged ⟨33, 12⟩ (hlive ▸ List.mem_singleton_self _)

end Reachable

end Heap

end ElasticCache
