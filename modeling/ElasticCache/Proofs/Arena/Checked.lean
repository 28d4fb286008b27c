import ElasticCache.Proofs.Arena.Chain

/-!
# Operations with every access checked

The allocator reads zero where a word would lie outside the arena, and takes differences of words
that it expects not to be negative. The operations of this file do the same steps, but each word
that is read must lie in the arena, each difference must be one, and each sum must fit a word. Where
they answer, no step of the allocator leaves its arena or its words.
-/

namespace ElasticCache.FreeList

/-- A word that must lie in the arena. -/
def wordIn (list : FreeList) (offset : Nat) : Except Fault Nat :=
  if offset + 4 ≤ list.capacity then .ok (list.word offset) else .error .outOfBounds

/-- A free node whose two words must lie in the arena. -/
def nodeIn (list : FreeList) (offset : Nat) : Except Fault FreeNode := do
  let size ← list.wordIn offset
  let next ← list.wordIn (offset + 4)
  return ⟨offset, size, next⟩

/-- The nodes reached from an offset along the links, of which there must be fewer than `count`. -/
def nodesIn (list : FreeList) : (count offset : Nat) → Except Fault (List FreeNode)
  | 0, _ => .error .endless
  | count + 1, offset =>
    if offset = 0 then .ok []
    else do
      let node ← list.nodeIn offset
      let rest ← list.nodesIn count node.next
      return node :: rest

/-- Allocation with every access checked. -/
def allocIn (list : FreeList) (size : Nat) : Except Fault (Option Nat × FreeList) := do
  if wordLimit ≤ size + tagSize then return (none, list)
  else
    let need := blockSizeFor size
    let first ← list.wordIn 4
    let nodes ← list.nodesIn (list.capacity + 1) first
    match bestFit need 0 nodes with
    | none => return (none, list)
    | some (previous, node) =>
      let rest ← minus node.size need
      let (block, replacement, list) ←
        if nodeSize < rest then do
          let split ← fitWord (node.offset + need)
          let list ← list.putNode split rest node.next
          pure (need, split, list)
        else pure (node.size, node.next, list)
      let list ← list.putLink previous replacement
      let list ← list.putWord node.offset block
      let payload ← fitWord (node.offset + tagSize)
      return (some payload, list)

/-- Joining two nodes with every access checked. -/
def mergeNodesIn (list : FreeList) (first size second : Nat) : Except Fault FreeList := do
  if first = 0 ∨ second = 0 then return list
  let endOfFirst ← fitWord (first + size)
  if endOfFirst = second then
    let other ← list.wordIn second
    let merged ← fitWord (size + other)
    let next ← list.wordIn (second + 4)
    list.putNode first merged next
  else return list

/-- Whether the node at `previous`, if there is one, reaches beyond `block`. -/
def reachesBeyond (list : FreeList) (previous block : Nat) : Except Fault Bool :=
  if previous = 0 then .ok false
  else do
    let size ← list.wordIn previous
    let endOfPrevious ← fitWord (previous + size)
    return endOfPrevious > block

/-- Release with every access checked. -/
def freeIn (list : FreeList) (offset : Nat) : Except Fault (Bool × FreeList) := do
  if offset < headerSize + tagSize ∨ list.capacity ≤ offset then return (false, list)
  else
    let block ← minus offset tagSize
    let size ← list.wordIn block
    if size < nodeSize ∨ list.capacity < block + size then return (false, list)
    else
      let endOfBlock ← fitWord (block + size)
      let first ← list.wordIn 4
      let nodes ← list.nodesIn (list.capacity + 1) first
      let before := nodes.takeWhile (·.offset < block)
      let previous := before.getLast?.elim 0 (·.offset)
      let next := before.getLast?.elim first (·.next)
      let overlaps ← list.reachesBeyond previous block
      if (next ≠ 0 ∧ next < endOfBlock) ∨ overlaps then return (false, list)
      else
        let list ← list.putNode block size next
        let list ← list.putLink previous block
        let list ← list.mergeNodesIn block size next
        let joined ← list.wordIn previous
        let list ← list.mergeNodesIn previous joined block
        return (true, list)

section Reading

variable {list : FreeList} {layout : List Piece}

/-- A word inside the arena is read. -/
theorem wordIn_eq_ok {offset : Nat} (h : offset + 4 ≤ list.capacity) :
    list.wordIn offset = .ok (list.word offset) := if_pos h

/-- A walk along a chain inside the arena reads no word outside. -/
theorem nodesIn_eq_ok_of_chain {count p : Nat} {G : List Extent} (h : Chain list p G 0)
    (hin : ∀ g ∈ G, g.offset ≠ 0 ∧ g.offset + 8 ≤ list.capacity) (hcount : G.length < count) :
    list.nodesIn count p = .ok (G.map fun g => list.nodeAt g.offset) := by
  induction G generalizing count p with
  | nil =>
    obtain _ | count := count
    · cases hcount
    · rw [nodesIn, if_pos (show p = 0 from h), List.map_nil]
  | cons g rest ih =>
    obtain _ | count := count
    · cases hcount
    · obtain ⟨rfl, _, hrest⟩ := h
      obtain ⟨hne, hle⟩ := hin g List.mem_cons_self
      have hnode : list.nodeIn g.offset = .ok (list.nodeAt g.offset) := by
        rw [nodeIn, wordIn_eq_ok (by omega), wordIn_eq_ok (by omega)]
        rfl
      have htail := ih hrest (fun g' hg' => hin g' (List.mem_cons_of_mem _ hg'))
        (Nat.lt_of_succ_lt_succ hcount)
      rw [nodesIn, if_neg hne, hnode, List.map_cons]
      simp only [bind, Except.bind, nodeAt] at htail ⊢
      rw [htail]
      rfl

namespace Represents

/-- The nodes of a represented layout lie in the arena, with their links. -/
theorem node_bounds (h : list.Represents layout) {g : Extent} (hg : g ∈ gaps layout) :
    8 ≤ g.offset ∧ g.offset + 8 ≤ list.capacity := by
  have hbounds := h.bounds (mem_gaps.1 hg)
  have hsize := h.large _ (mem_gaps.1 hg)
  simp only [Piece.extent, Extent.stop, headerSize, nodeSize] at hbounds hsize
  omega

/-- An arena with a layout holds its header. -/
theorem header_le (h : list.Represents layout) : headerSize ≤ list.capacity :=
  h.tiles.start_le_stop

/-- The link of the header is read. -/
theorem wordIn_head (h : list.Represents layout) : list.wordIn 4 = .ok list.head :=
  wordIn_eq_ok h.header_le

/-- The checked walk from the header comes to its end and meets all free nodes. -/
theorem nodesIn_eq_ok (h : list.Represents layout) :
    list.nodesIn (list.capacity + 1) list.head = .ok list.nodes := by
  rw [h.nodes_eq]
  refine nodesIn_eq_ok_of_chain h.chain (fun g hg => ?_) (Nat.lt_succ_of_le h.length_gaps_le)
  have hbounds := h.node_bounds hg
  omega

/-- Every walk along the free list of a represented layout ends, and can address the links. -/
theorem passed_eq_ok (h : list.Represents layout) (stops : FreeNode → Bool) :
    list.passed stops = .ok (list.nodes.takeWhile (!stops ·)) := by
  have hleads : (list.nodes.takeWhile (!stops ·)).all (·.leadsOn) = true := by
    rw [List.all_eq_true]
    intro node hnode
    have hmem := (List.takeWhile_sublist _).subset hnode
    rw [h.nodes_eq] at hmem
    obtain ⟨g, hg, rfl⟩ := List.mem_map.1 hmem
    have hbounds := h.node_bounds hg
    have hsmall := h.small
    exact decide_eq_true (show g.offset + 4 < wordLimit by omega)
  have hlength : (list.nodes.takeWhile (!stops ·)).length ≤ list.capacity := by
    have htake := (List.takeWhile_sublist (p := (!stops ·)) (l := list.nodes)).length_le
    have hgaps := h.length_gaps_le
    rw [h.nodes_eq, List.length_map] at htake
    rw [h.nodes_eq]
    omega
  simp only [passed, hleads, Bool.not_true, Bool.false_eq_true, if_false, if_neg
    (Nat.not_lt.2 hlength)]
  rfl

end Represents

end Reading

end ElasticCache.FreeList
