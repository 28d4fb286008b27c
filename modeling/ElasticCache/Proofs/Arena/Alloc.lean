import ElasticCache.Proofs.Arena.Checked

/-!
# Allocation

An allocation takes the first among the smallest gaps that are large enough. The block stands at the
start of the gap; what is left over stays a gap when it is more than a node's worth, and otherwise
belongs to the block.
-/

namespace ElasticCache.FreeList

/-- What best fit chooses among some nodes: the first of the smallest that are large enough. -/
structure FirstBest (need : Nat) (nodes before : List FreeNode) (best : FreeNode)
    (behind : List FreeNode) : Prop where
  split : nodes = before ++ best :: behind
  fits : need ≤ best.size
  before_larger : ∀ node ∈ before, need ≤ node.size → best.size < node.size
  behind_not_smaller : ∀ node ∈ behind, need ≤ node.size → best.size ≤ node.size

/-- There is no best fit exactly when all nodes are too small. -/
theorem bestFit_eq_none_iff {need previous : Nat} {nodes : List FreeNode} :
    bestFit need previous nodes = none ↔ ∀ node ∈ nodes, node.size < need := by
  induction nodes generalizing previous with
  | nil => simp [bestFit]
  | cons node rest ih =>
    rw [bestFit]
    cases hrest : bestFit need node.offset rest with
    | none =>
      have hsmall := ih.1 hrest
      simp only [ite_eq_right_iff, reduceCtorEq, imp_false, List.mem_cons, forall_eq_or_imp]
      exact ⟨fun h => ⟨by omega, hsmall⟩, fun h => by omega⟩
    | some found =>
      constructor
      · intro h
        dsimp only at h
        split at h <;> simp at h
      · intro h
        rw [ih.2 fun n hn => h n (List.mem_cons_of_mem _ hn)] at hrest
        cases hrest

/-- Best fit answers the first best node together with the offset of the node before it. -/
theorem firstBest_of_bestFit {need start previous : Nat} {nodes : List FreeNode} {best : FreeNode}
    (h : bestFit need start nodes = some (previous, best)) :
    ∃ before behind, FirstBest need nodes before best behind ∧
      previous = before.getLast?.elim start (·.offset) := by
  induction nodes generalizing start previous best with
  | nil => cases h
  | cons node rest ih =>
    rw [bestFit] at h
    cases hrest : bestFit need node.offset rest with
    | none =>
      simp only [hrest] at h
      split at h
      next hfits =>
        obtain ⟨rfl, rfl⟩ : start = previous ∧ node = best := by simpa using h
        refine ⟨[], rest, ⟨rfl, hfits, fun _ hn => (List.not_mem_nil hn).elim, ?_⟩, rfl⟩
        intro n hn hneed
        have hsmall := bestFit_eq_none_iff.1 hrest n hn
        omega
      next => cases h
    | some found =>
      obtain ⟨previous', best'⟩ := found
      obtain ⟨before, behind, ⟨hsplit, hfits, hbefore, hbehind⟩, hprevious⟩ := ih hrest
      simp only [hrest] at h
      split at h
      next hbetter =>
        obtain ⟨rfl, rfl⟩ : start = previous ∧ node = best := by simpa using h
        refine ⟨[], rest, ⟨rfl, hbetter.1, fun _ hn => (List.not_mem_nil hn).elim, ?_⟩, rfl⟩
        intro n hn hneed
        rw [hsplit, List.mem_append, List.mem_cons] at hn
        rcases hn with hn | rfl | hn
        · have := hbefore n hn hneed
          omega
        · exact hbetter.2
        · have := hbehind n hn hneed
          omega
      next hworse =>
        obtain ⟨rfl, rfl⟩ : previous' = previous ∧ best' = best := by simpa using h
        refine ⟨node :: before, behind, ⟨by rw [hsplit]; rfl, hfits, ?_, hbehind⟩, ?_⟩
        · intro n hn hneed
          rcases List.mem_cons.1 hn with rfl | hn
          · omega
          · exact hbefore n hn hneed
        · rw [hprevious, List.getLast?_cons]
          cases before.getLast? <;> rfl

/-! ## Carving a block out of a gap -/

/-- The pieces that a block of `need` bytes and the rest of a gap make. -/
def carve (need : Nat) (g : Extent) : List Piece :=
  if nodeSize < g.size - need then
    [.block ⟨g.offset, need⟩, .gap ⟨g.offset + need, g.size - need⟩]
  else [.block g]

/-- A carved gap holds one block, at its start, and its other bytes are a gap or none. -/
theorem exists_blocks_carve {need : Nat} {g : Extent} (h : need ≤ g.size) :
    ∃ b, blocks (carve need g) = [b] ∧ b.offset = g.offset ∧ need ≤ b.size ∧
      ((gaps (carve need g)).map (·.size)).sum + b.size = g.size := by
  by_cases hrest : nodeSize < g.size - need
  · rw [carve, if_pos hrest]
    refine ⟨⟨g.offset, need⟩, rfl, rfl, Nat.le_refl _, ?_⟩
    show g.size - need + 0 + need = g.size
    omega
  · rw [carve, if_neg hrest]
    exact ⟨g, rfl, rfl, h, Nat.zero_add _⟩

/-- Carving a block out of a gap leaves no two gaps that touch. -/
theorem coalesced_carve {P S : List Piece} {need : Nat} {g : Extent}
    (h : Coalesced (P ++ .gap g :: S)) : Coalesced (P ++ (carve need g ++ S)) := by
  obtain ⟨hP, hgap, hS⟩ := h.of_gap
  unfold carve
  split
  · exact coalesced_block_iff.2 ⟨hP, Coalesced.replace_gap (P := []) hgap⟩
  · exact coalesced_block_iff.2 ⟨hP, hS⟩

section Carve

variable {list : FreeList} {P S : List Piece} {g : Extent} {need start stop : Nat}

/-- The link of a gap leads to the next gap. -/
theorem Split.word_next (hs : Split list P [.gap g] S start stop) :
    list.word (g.offset + 4) = firstOffset 0 (gaps S) := hs.chain_middle.2.2

/-- Splitting a gap: the writes succeed and describe the layout in which the block stands at the
start of the gap and the rest is a gap again. -/
theorem exists_carve_split (h : list.Represents (P ++ ([.gap g] ++ S)))
    (hs : Split list P [.gap g] S start stop) (hneed : nodeSize ≤ need)
    (hrest : nodeSize < g.size - need) :
    ∃ list₁ list₂ list₃,
      list.putNode (g.offset + need) (g.size - need) (list.word (g.offset + 4)) = .ok list₁ ∧
      list₁.putWord (linkCell P) (g.offset + need) = .ok list₂ ∧
      list₂.putWord g.offset need = .ok list₃ ∧
      list₃.Represents (P ++ (carve need g ++ S)) ∧
      ChangesOnly list list₃ start stop (linkCell P) := by
  obtain ⟨hoffset, hstop⟩ := hs.middle
  have hcell := hs.linkCell_le
  obtain ⟨hstart, hle, hcapacity⟩ := hs.bounds
  have hsmall := h.small
  have hstop : g.offset + g.size = stop := hstop
  simp only [Piece.extent, nodeSize, headerSize] at hoffset hneed hrest hstart
  obtain ⟨list₁, hput₁, hwrote₁⟩ := exists_putNode list (g.offset + need) (g.size - need)
    (list.word (g.offset + 4)) (by simp only [nodeSize]; omega) (by omega)
    (list.word_lt (g.offset + 4))
  have hcapacity₁ := hwrote₁.capacity_eq
  obtain ⟨list₂, hput₂, hwrote₂⟩ := exists_putWord list₁ (linkCell P) (g.offset + need)
    (by omega) (by omega)
  have hcapacity₂ := hwrote₂.capacity_eq
  obtain ⟨list₃, hput₃, hwrote₃⟩ := exists_putWord list₂ g.offset need
    (by omega) (by omega)
  have hchanges : ChangesOnly list list₃ start stop (linkCell P) := by
    refine ⟨by rw [hwrote₃.capacity_eq, hcapacity₂, hcapacity₁], fun i hi hlink => ?_⟩
    rw [hwrote₃.same i (by omega), hwrote₂.same i (by omega), hwrote₁.same i (by omega)]
  refine ⟨list₁, list₂, list₃, hput₁, hput₂, hput₃, ?_, hchanges⟩
  have hcarve : carve need g =
      [.block ⟨g.offset, need⟩, .gap ⟨g.offset + need, g.size - need⟩] := if_pos hrest
  rw [hcarve]
  refine h.replace hs ?_ ?_ ?_ ?_ hchanges
  · refine ⟨hoffset, rfl, ?_⟩
    simp only [Piece.extent, Extent.stop]
    show g.offset + need + (g.size - need) = stop
    omega
  · intro p hp
    simp only [List.mem_cons, List.not_mem_nil, or_false] at hp
    rcases hp with rfl | rfl
    · exact hneed
    · exact Nat.le_of_lt hrest
  · intro b hb
    simp only [blocks_block, blocks_gap, blocks_nil, List.mem_cons, List.not_mem_nil,
      or_false] at hb
    rw [hb, hwrote₃.word_eq]
  · refine ⟨?_, ?_, ?_⟩
    · rw [hwrote₃.word_of_disjoint (by omega), hwrote₂.word_eq]
    · rw [hwrote₃.word_of_disjoint (by dsimp only; omega),
        hwrote₂.word_of_disjoint (by dsimp only; omega), hwrote₁.size_eq]
    · rw [hwrote₃.word_of_disjoint (by dsimp only; omega),
        hwrote₂.word_of_disjoint (by dsimp only; omega), hwrote₁.next_eq, hs.word_next]
      rfl

/-- Taking a gap whole: the writes succeed and describe the layout in which the gap is a block. -/
theorem exists_carve_whole (h : list.Represents (P ++ ([.gap g] ++ S)))
    (hs : Split list P [.gap g] S start stop) (hrest : ¬nodeSize < g.size - need) :
    ∃ list₁ list₂,
      list.putWord (linkCell P) (list.word (g.offset + 4)) = .ok list₁ ∧
      list₁.putWord g.offset g.size = .ok list₂ ∧
      list₂.Represents (P ++ (carve need g ++ S)) ∧
      ChangesOnly list list₂ start stop (linkCell P) := by
  obtain ⟨hoffset, hstop⟩ := hs.middle
  have hcell := hs.linkCell_le
  obtain ⟨hstart, hle, hcapacity⟩ := hs.bounds
  have hsmall := h.small
  have hlarge := hs.large (.gap g) (by simp)
  have hstop' : g.offset + g.size = stop := hstop
  simp only [Piece.extent, nodeSize, headerSize] at hoffset hlarge hstart
  obtain ⟨list₁, hput₁, hwrote₁⟩ := exists_putWord list (linkCell P)
    (list.word (g.offset + 4)) (by omega) (list.word_lt (g.offset + 4))
  have hcapacity₁ := hwrote₁.capacity_eq
  obtain ⟨list₂, hput₂, hwrote₂⟩ := exists_putWord list₁ g.offset g.size
    (by omega) (by omega)
  have hchanges : ChangesOnly list list₂ start stop (linkCell P) := by
    refine ⟨by rw [hwrote₂.capacity_eq, hcapacity₁], fun i hi hlink => ?_⟩
    rw [hwrote₂.same i (by omega), hwrote₁.same i (by omega)]
  refine ⟨list₁, list₂, hput₁, hput₂, ?_, hchanges⟩
  rw [show carve need g = [.block g] from if_neg hrest]
  refine h.replace hs ⟨hoffset, hstop⟩ ?_ ?_ ?_ hchanges
  · intro p hp
    rw [List.mem_singleton.1 hp]
    exact hlarge
  · intro b hb
    rw [List.mem_singleton.1 hb, hwrote₂.word_eq]
  · exact (hwrote₂.word_of_disjoint (by omega)).trans (hwrote₁.word_eq.trans hs.word_next)

end Carve

/-! ## The whole operation -/

section Alloc

variable {list : FreeList} {layout : List Piece} {n : Nat}

/-- An allocation that no gap can serve answers nothing and keeps the arena. -/
theorem Represents.alloc_eq_none (h : list.Represents layout)
    (hnone : wordLimit ≤ n + tagSize ∨ ∀ g ∈ gaps layout, g.size < blockSizeFor n) :
    list.alloc n = .ok (none, list) ∧ list.allocIn n = .ok (none, list) := by
  by_cases hlarge : wordLimit ≤ n + tagSize
  · exact ⟨if_pos hlarge, if_pos hlarge⟩
  · have hfit : bestFit (blockSizeFor n) 0 list.nodes = none := by
      rw [bestFit_eq_none_iff, h.nodes_eq]
      intro node hnode
      obtain ⟨g, hg, rfl⟩ := List.mem_map.1 hnode
      rw [nodeAt, h.word_gap hg]
      exact (hnone.resolve_left hlarge) g hg
    simp only [alloc, allocIn, if_neg hlarge, h.passed_eq_ok, h.wordIn_head, ok_bind,
      h.nodesIn_eq_ok, hfit]
    exact ⟨rfl, rfl⟩

/-- The best fit is a gap of the layout that is large enough, with the node that links to it. -/
theorem Represents.exists_bestFit (h : list.Represents layout)
    (hsome : ∃ g ∈ gaps layout, blockSizeFor n ≤ g.size) :
    ∃ P g S previous, layout = P ++ ([.gap g] ++ S) ∧ blockSizeFor n ≤ g.size ∧
      bestFit (blockSizeFor n) 0 list.nodes =
        some (previous, ⟨g.offset, g.size, list.word (g.offset + 4)⟩) ∧
      previous + 4 = linkCell P := by
  obtain ⟨g₀, hg₀, hfits₀⟩ := hsome
  cases hbest : bestFit (blockSizeFor n) 0 list.nodes with
  | none =>
    have hsmall := bestFit_eq_none_iff.1 hbest (list.nodeAt g₀.offset)
      (by rw [h.nodes_eq]; exact List.mem_map_of_mem hg₀)
    rw [nodeAt, h.word_gap hg₀] at hsmall
    exact absurd hfits₀ (Nat.not_le.2 hsmall)
  | some found =>
    obtain ⟨previous, best⟩ := found
    obtain ⟨before, behind, ⟨hsplit, hfits, _, _⟩, hprevious⟩ := firstBest_of_bestFit hbest
    rw [h.nodes_eq] at hsplit
    obtain ⟨G, rest, hgaps, hG, hrest⟩ := List.map_eq_append_iff.1 hsplit
    obtain ⟨g, H, rfl, rfl, rfl⟩ := List.map_eq_cons_iff.1 hrest
    obtain ⟨P, S, rfl, hP, rfl⟩ := exists_of_gaps_eq hgaps
    have hsize : list.word g.offset = g.size := h.word_gap (by simp)
    simp only [nodeAt, hsize] at hfits ⊢
    refine ⟨P, g, S, previous, rfl, hfits, rfl, ?_⟩
    rw [hprevious, ← hG, linkCell, lastOffset, hP, List.getLast?_map]
    cases G.getLast? <;> rfl

/-- An allocation that some gap can serve puts the block at the start of the first among the
smallest of these gaps. It keeps all bytes but those of that gap and of the link to it. -/
theorem Represents.exists_alloc (h : list.Represents layout) (hlarge : n + tagSize < wordLimit)
    (hsome : ∃ g ∈ gaps layout, blockSizeFor n ≤ g.size) :
    ∃ P g S list' start stop, layout = P ++ ([.gap g] ++ S) ∧ Split list P [.gap g] S start stop ∧
      blockSizeFor n ≤ g.size ∧
      list.alloc n = .ok (some g.payload, list') ∧
      list.allocIn n = .ok (some g.payload, list') ∧
      list'.Represents (P ++ (carve (blockSizeFor n) g ++ S)) ∧
      ChangesOnly list list' start stop (linkCell P) := by
  obtain ⟨P, g, S, previous, rfl, hfits, hbest, hcell⟩ := h.exists_bestFit hsome
  obtain ⟨start, stop, hs⟩ := Represents.split (M := [.gap g]) h
  have hbounds := hs.bounds
  have hsmall := h.small
  have hstop : g.offset + g.size = stop := hs.middle.2
  have hroom : 8 ≤ g.size := hs.large (.gap g) (by simp)
  have hneed : nodeSize ≤ blockSizeFor n := Nat.le_max_right _ _
  have hpayload : fitWord (g.offset + tagSize) = .ok g.payload := by
    have hlt : g.offset + 4 < wordLimit := by omega
    exact fitWord_eq_ok hlt
  refine ⟨P, g, S, ?_⟩
  by_cases hrest : nodeSize < g.size - blockSizeFor n
  · obtain ⟨list₁, list₂, list₃, hput₁, hput₂, hput₃, hrepresents, hchanges⟩ :=
      exists_carve_split h hs hneed hrest
    have hsplit : fitWord (g.offset + blockSizeFor n) = .ok (g.offset + blockSizeFor n) :=
      fitWord_eq_ok (by omega)
    refine ⟨list₃, start, stop, rfl, hs, hfits, ?_, ?_, hrepresents, hchanges⟩
    · simp only [alloc, if_neg (Nat.not_le.2 hlarge), h.passed_eq_ok, ok_bind, hbest,
        if_pos hrest, hsplit, hput₁, pure_bind, putLink, hcell, hput₂, hput₃, hpayload]
      rfl
    · simp only [allocIn, if_neg (Nat.not_le.2 hlarge), h.wordIn_head, h.nodesIn_eq_ok, ok_bind,
        hbest, minus_eq_ok hfits, if_pos hrest, hsplit, hput₁, pure_bind, putLink, hcell, hput₂,
        hput₃, hpayload]
      rfl
  · obtain ⟨list₁, list₂, hput₁, hput₂, hrepresents, hchanges⟩ := exists_carve_whole h hs hrest
    refine ⟨list₂, start, stop, rfl, hs, hfits, ?_, ?_, hrepresents, hchanges⟩
    · simp only [alloc, if_neg (Nat.not_le.2 hlarge), h.passed_eq_ok, ok_bind, hbest,
        if_neg hrest, pure_bind, putLink, hcell, hput₁, hput₂, hpayload]
      rfl
    · simp only [allocIn, if_neg (Nat.not_le.2 hlarge), h.wordIn_head, h.nodesIn_eq_ok, ok_bind,
        hbest, minus_eq_ok hfits, if_neg hrest, pure_bind, putLink, hcell, hput₁, hput₂, hpayload]
      rfl

end Alloc

end ElasticCache.FreeList
