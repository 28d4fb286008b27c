import ElasticCache.Proofs.Bytes
import ElasticCache.Proofs.Arena.Layout

/-!
# The free list inside the arena

A layout is represented when every live block carries its size as tag and the links from the header
lead through exactly the gaps, in ascending order. The links are read as a chain between two
pointers, so that a write in one node leaves the chains beside it alone.
-/

namespace ElasticCache.FreeList

/-- A byte of the arena. -/
def byte? (list : FreeList) (i : Nat) : Option UInt8 := list.arena.data[i]?

/-- The bytes between two offsets are the same in both arenas. -/
def SameBytes (list list' : FreeList) (start stop : Nat) : Prop :=
  ∀ i, start ≤ i → i < stop → list'.byte? i = list.byte? i

/-- A word was written, and no byte beside it has changed. -/
structure Wrote (list list' : FreeList) (offset value : Nat) : Prop where
  capacity_eq : list'.capacity = list.capacity
  word_eq : list'.word offset = value
  same : ∀ i, i < offset ∨ offset + 4 ≤ i → list'.byte? i = list.byte? i

/-- The two words of a free node were written, and no byte beside them has changed. -/
structure WroteNode (list list' : FreeList) (offset size next : Nat) : Prop where
  capacity_eq : list'.capacity = list.capacity
  size_eq : list'.word offset = size
  next_eq : list'.word (offset + 4) = next
  same : ∀ i, i < offset ∨ offset + 8 ≤ i → list'.byte? i = list.byte? i

section Words

variable {list list' : FreeList} {offset value size next i : Nat}

/-- A word is the same when its four bytes are. -/
theorem word_eq_of_sameBytes (h : SameBytes list list' offset (offset + 4)) :
    list'.word offset = list.word offset := by
  rw [word, word]
  congr 1
  exact Bytes.word?_congr fun k hk => h _ (by omega) (by omega)

/-- What is read at an offset is a word. -/
theorem word_lt (list : FreeList) (offset : Nat) : list.word offset < wordLimit := by
  unfold word
  cases hword : Bytes.word? list.arena offset with
  | none => exact (by decide : 0 < wordLimit)
  | some n => exact Bytes.lt_of_word?_eq_some hword

/-- A word beside the one that was written is as before. -/
theorem Wrote.word_of_disjoint (h : Wrote list list' offset value)
    (hdisjoint : i + 4 ≤ offset ∨ offset + 4 ≤ i) : list'.word i = list.word i :=
  word_eq_of_sameBytes fun j hj hj' => h.same j (by omega)

/-- A word beside the node that was written is as before. -/
theorem WroteNode.word_of_disjoint (h : WroteNode list list' offset size next)
    (hdisjoint : i + 4 ≤ offset ∨ offset + 8 ≤ i) : list'.word i = list.word i :=
  word_eq_of_sameBytes fun j hj hj' => h.same j (by omega)

/-- A word can be written wherever four bytes of the arena are. -/
theorem exists_putWord (list : FreeList) (offset value : Nat)
    (h : offset + 4 ≤ list.capacity) (hvalue : value < wordLimit) :
    ∃ list', list.putWord offset value = .ok list' ∧ Wrote list list' offset value := by
  have hsize : offset + (Bytes.ofWord value).size ≤ list.arena.size := h
  refine ⟨_, if_pos h, Bytes.size_splice hsize, ?_, fun i hi => ?_⟩
  · rw [word, Bytes.word?_splice_ofWord h hvalue, Option.getD_some]
  · rw [byte?, Bytes.getElem?_splice hsize, if_neg (by rw [Bytes.size_ofWord]; omega), byte?]

/-- A node can be written wherever eight bytes of the arena are. -/
theorem exists_putNode (list : FreeList) (offset size next : Nat)
    (h : offset + nodeSize ≤ list.capacity) (hsize : size < wordLimit) (hnext : next < wordLimit) :
    ∃ list', list.putNode offset size next = .ok list' ∧
      WroteNode list list' offset size next := by
  simp only [nodeSize] at h
  obtain ⟨list₁, hput₁, hwrote₁⟩ := exists_putWord list offset size (by omega) hsize
  have hcapacity := hwrote₁.capacity_eq
  obtain ⟨list₂, hput₂, hwrote₂⟩ :=
    exists_putWord list₁ (offset + 4) next (by omega) hnext
  refine ⟨list₂, ?_, hwrote₂.capacity_eq.trans hcapacity, ?_, hwrote₂.word_eq, fun i hi => ?_⟩
  · rw [putNode, hput₁]
    exact hput₂
  · rw [hwrote₂.word_of_disjoint (by omega), hwrote₁.word_eq]
  · rw [hwrote₂.same i (by omega), hwrote₁.same i (by omega)]

end Words

/-! ## Chains of free nodes -/

/-- The links lead from the pointer `p` through nodes at the given extents to the pointer `q`. -/
def Chain (list : FreeList) : (p : Nat) → List Extent → (q : Nat) → Prop
  | p, [], q => p = q
  | p, g :: rest, q =>
    g.offset = p ∧ list.word g.offset = g.size ∧ Chain list (list.word (g.offset + 4)) rest q

/-- Offset of the last node of a list, or of what stands before the list when it is empty. -/
def lastOffset (before : Nat) (nodes : List Extent) : Nat := nodes.getLast?.elim before (·.offset)

/-- Offset of the first node of a list, or of what stands behind the list when it is empty. -/
def firstOffset (behind : Nat) (nodes : List Extent) : Nat := nodes.head?.elim behind (·.offset)

/-- Nodes in ascending order that leave room for the header of each of them, and for that of what
stands before the list. -/
def Spaced : (before : Nat) → List Extent → (stop : Nat) → Prop
  | before, [], stop => before + nodeSize ≤ stop
  | before, g :: rest, stop => before + nodeSize ≤ g.offset ∧ Spaced g.offset rest stop

section Chains

variable {list list' : FreeList} {p q m before stop : Nat} {G H : List Extent}

/-- A first node is the one before the others. -/
theorem lastOffset_cons (g : Extent) : lastOffset before (g :: G) = lastOffset g.offset G := by
  rw [lastOffset, lastOffset, List.getLast?_cons, Option.elim_some]
  cases G.getLast? <;> rfl

/-- The last offset is that of the node at the end. -/
theorem lastOffset_concat (g : Extent) : lastOffset before (G ++ [g]) = g.offset := by
  rw [lastOffset, List.getLast?_concat, Option.elim_some]

/-- Two chains make one when the second starts where the first one leads to. -/
theorem Chain.append (h : Chain list p G m) (h' : Chain list m H q) :
    Chain list p (G ++ H) q := by
  induction G generalizing p with
  | nil => rwa [show p = m from h]
  | cons g rest ih => exact ⟨h.1, h.2.1, ih h.2.2⟩

/-- A chain can be cut between any two of its nodes. -/
theorem Chain.of_append (h : Chain list p (G ++ H) q) :
    ∃ m, Chain list p G m ∧ Chain list m H q := by
  induction G generalizing p with
  | nil => exact ⟨p, rfl, h⟩
  | cons g rest ih =>
    obtain ⟨m, hrest, hH⟩ := ih h.2.2
    exact ⟨m, ⟨h.1, h.2.1, hrest⟩, hH⟩

/-- A chain begins at its first node. -/
theorem Chain.eq_firstOffset (h : Chain list p G q) : p = firstOffset q G := by
  cases G with
  | nil => exact h
  | cons g rest => exact h.1.symm

/-- A chain reads the two words of each of its nodes and nothing else. -/
theorem Chain.congr (h : Chain list p G q)
    (hsame : ∀ g ∈ G, list'.word g.offset = list.word g.offset ∧
      list'.word (g.offset + 4) = list.word (g.offset + 4)) : Chain list' p G q := by
  induction G generalizing p with
  | nil => exact h
  | cons g rest ih =>
    obtain ⟨hsize, hlink⟩ := hsame g List.mem_cons_self
    refine ⟨h.1, hsize.trans h.2.1, ?_⟩
    rw [hlink]
    exact ih h.2.2 fun g' hg' => hsame g' (List.mem_cons_of_mem _ hg')

/-- The last node ends before the nodes stop. -/
theorem Spaced.lastOffset_le (h : Spaced before G stop) :
    lastOffset before G + nodeSize ≤ stop := by
  induction G generalizing before with
  | nil => exact h
  | cons g rest ih =>
    rw [lastOffset_cons]
    exact ih h.2

/-- The last node does not come before the place in front of the nodes. -/
theorem Spaced.le_lastOffset (h : Spaced before G stop) : before ≤ lastOffset before G := by
  induction G generalizing before with
  | nil => exact Nat.le_refl _
  | cons g rest ih =>
    rw [lastOffset_cons]
    have := ih h.2
    have := h.1
    omega

/-- Once the link of the last node has changed, or that of what stands before the chain when it has
no node, and no other byte on the way, the chain ends where the new link leads. -/
theorem Chain.relink (before : Nat) {target : Nat} (h : Chain list (list.word (before + 4)) G q)
    (hspaced : Spaced before G stop)
    (hlink : list'.word (lastOffset before G + 4) = target)
    (hsame : ∀ i, before + 4 ≤ i → i < stop →
      ¬(lastOffset before G + 4 ≤ i ∧ i < lastOffset before G + 8) → list'.byte? i = list.byte? i) :
    Chain list' (list'.word (before + 4)) G target := by
  induction G generalizing before with
  | nil => exact hlink
  | cons g rest ih =>
    rw [lastOffset_cons] at hlink hsame
    have hle := hspaced.2.le_lastOffset
    have hlast := hspaced.2.lastOffset_le
    have hbefore := hspaced.1
    simp only [nodeSize] at hbefore hlast
    have hfirst : list'.word (before + 4) = list.word (before + 4) :=
      word_eq_of_sameBytes fun i hi hi' => hsame i (by omega) (by omega) (by omega)
    have hsize : list'.word g.offset = list.word g.offset :=
      word_eq_of_sameBytes fun i hi hi' => hsame i (by omega) (by omega) (by omega)
    refine ⟨h.1.trans hfirst.symm, hsize.trans h.2.1, ?_⟩
    exact ih g.offset h.2.2 hspaced.2 hlink fun i hi => hsame i (by omega)

/-- The gaps between two bounds are spaced when every piece has room for a node. -/
theorem spaced_gaps {layout : List Piece} {start : Nat}
    (htiles : Tiles start (layout.map Piece.extent) stop)
    (hlarge : ∀ p ∈ layout, nodeSize ≤ p.extent.size) (hbefore : before + nodeSize ≤ start) :
    Spaced before (gaps layout) stop := by
  induction layout generalizing before start with
  | nil => rwa [show start = stop from htiles] at hbefore
  | cons p rest ih =>
    have hp := hlarge p List.mem_cons_self
    have hrest (q : Piece) (hq : q ∈ rest) := hlarge q (List.mem_cons_of_mem _ hq)
    have hoffset := htiles.1
    have htail := htiles.2
    simp only [Extent.stop] at htail
    cases p with
    | block b => exact ih htail hrest (by omega)
    | gap g =>
      simp only [Piece.extent] at *
      exact ⟨by omega, ih htail hrest (by omega)⟩

end Chains

/-! ## Represented layouts -/

/-- The words of an arena describe a layout: tags in front of the blocks, and the free list through
the gaps. -/
structure Represents (list : FreeList) (layout : List Piece) : Prop where
  small : list.capacity < wordLimit
  tiles : Tiles headerSize (layout.map Piece.extent) list.capacity
  large : ∀ p ∈ layout, nodeSize ≤ p.extent.size
  tagged : ∀ b ∈ blocks layout, list.word b.offset = b.size
  chain : Chain list list.head (gaps layout) 0

section Nodes

variable {list : FreeList} {layout : List Piece}

/-- A walk finds the nodes of a chain, given enough steps. -/
theorem nodesFrom_eq_of_chain {count p : Nat} {G : List Extent} (h : Chain list p G 0)
    (hoffset : ∀ g ∈ G, g.offset ≠ 0) (hcount : G.length < count) :
    list.nodesFrom count p = G.map fun g => list.nodeAt g.offset := by
  induction G generalizing count p with
  | nil =>
    obtain _ | count := count
    · cases hcount
    · rw [nodesFrom, if_pos (show p = 0 from h), List.map_nil]
  | cons g rest ih =>
    obtain _ | count := count
    · cases hcount
    · obtain ⟨rfl, _, hrest⟩ := h
      rw [nodesFrom, if_neg (hoffset g List.mem_cons_self), List.map_cons]
      rw [← ih hrest (fun g' hg' => hoffset g' (List.mem_cons_of_mem _ hg'))
        (Nat.lt_of_succ_lt_succ hcount)]
      rfl

/-- A layout of pieces that are not empty has no more pieces than bytes. -/
theorem length_le_of_tiles {start stop : Nat}
    (htiles : Tiles start (layout.map Piece.extent) stop)
    (hpos : ∀ p ∈ layout, 0 < p.extent.size) : start + layout.length ≤ stop := by
  induction layout generalizing start with
  | nil => exact Nat.le_of_eq htiles
  | cons p rest ih =>
    have hp := hpos p List.mem_cons_self
    have hrest := ih htiles.2 fun q hq => hpos q (List.mem_cons_of_mem _ hq)
    have hoffset := htiles.1
    simp only [Extent.stop] at hrest
    simp only [List.length_cons]
    omega

namespace Represents

/-- No piece is empty. -/
theorem pos (h : list.Represents layout) : ∀ p ∈ layout, 0 < p.extent.size := fun p hp =>
  Nat.lt_of_lt_of_le (by decide) (h.large p hp)

/-- There are no more gaps than bytes. -/
theorem length_gaps_le (h : list.Represents layout) : (gaps layout).length ≤ list.capacity := by
  have hlength := length_le_of_tiles h.tiles h.pos
  have hfilter : (gaps layout).length ≤ layout.length := List.length_filterMap_le _ _
  omega

/-- Every piece lies behind the header and inside the arena. -/
theorem bounds (h : list.Represents layout) {p : Piece} (hp : p ∈ layout) :
    headerSize ≤ p.extent.offset ∧ p.extent.stop ≤ list.capacity :=
  h.tiles.bounds (List.mem_map_of_mem hp)

/-- The free nodes of a represented layout are its gaps. -/
theorem nodes_eq (h : list.Represents layout) :
    list.nodes = (gaps layout).map fun g => list.nodeAt g.offset := by
  refine nodesFrom_eq_of_chain h.chain (fun g hg => ?_) (Nat.lt_succ_of_le h.length_gaps_le)
  have hbounds := (h.bounds (mem_gaps.1 hg)).1
  simp only [Piece.extent, headerSize] at hbounds
  omega

/-- The size word of each gap is its size. -/
theorem word_gap (h : list.Represents layout) {g : Extent} (hg : g ∈ gaps layout) :
    list.word g.offset = g.size := by
  obtain ⟨G, H, hgaps⟩ := List.append_of_mem hg
  have hchain := h.chain
  rw [hgaps] at hchain
  obtain ⟨_, _, _, hsize, _⟩ := hchain.of_append
  exact hsize

end Represents

end Nodes

/-! ## Exchanging some pieces for others -/

section Replace

variable {list list' : FreeList} {P M N S : List Piece} {start stop : Nat}

/-- The cell that links to the first gap behind some pieces: in the node of their last gap, or in
the header when there is none. -/
def linkCell (P : List Piece) : Nat := lastOffset 0 (gaps P) + 4

/-- A represented layout taken apart into the pieces before, in and behind a stretch. -/
structure Split (list : FreeList) (P M S : List Piece) (start stop : Nat) : Prop where
  before : Tiles headerSize (P.map Piece.extent) start
  middle : Tiles start (M.map Piece.extent) stop
  behind : Tiles stop (S.map Piece.extent) list.capacity
  spaced : Spaced 0 (gaps P) start
  chain_before : Chain list list.head (gaps P) (list.word (linkCell P))
  chain_middle : Chain list (list.word (linkCell P)) (gaps M) (firstOffset 0 (gaps S))
  chain_behind : Chain list (firstOffset 0 (gaps S)) (gaps S) 0
  large : ∀ p ∈ P ++ (M ++ S), nodeSize ≤ p.extent.size

/-- No byte differs but those of a stretch and those of a link. -/
structure ChangesOnly (list list' : FreeList) (start stop cell : Nat) : Prop where
  capacity_eq : list'.capacity = list.capacity
  same : ∀ i, i < start ∨ stop ≤ i → ¬(cell ≤ i ∧ i < cell + 4) → list'.byte? i = list.byte? i

/-- A chain ends where the link of its last node leads. -/
theorem Chain.eq_word (before : Nat) {q : Nat} {G : List Extent}
    (h : Chain list (list.word (before + 4)) G q) :
    q = list.word (lastOffset before G + 4) := by
  induction G generalizing before with
  | nil => exact Eq.symm h
  | cons g rest ih =>
    rw [lastOffset_cons]
    exact ih g.offset h.2.2

/-- A layout in three parts has its middle part between two offsets. -/
theorem Represents.split (h : list.Represents (P ++ (M ++ S))) :
    ∃ start stop, Split list P M S start stop := by
  have htiles := h.tiles
  rw [List.map_append, List.map_append] at htiles
  obtain ⟨start, hbefore, hrest⟩ := htiles.of_append
  obtain ⟨stop, hmiddle, hbehind⟩ := hrest.of_append
  have hchain := h.chain
  rw [gaps_append, gaps_append] at hchain
  obtain ⟨p, hchainP, hrest⟩ := hchain.of_append
  obtain ⟨q, hchainM, hchainS⟩ := hrest.of_append
  have hp : p = list.word (linkCell P) := Chain.eq_word 0 hchainP
  have hq := hchainS.eq_firstOffset
  rw [hp, hq] at hchainM
  rw [hp] at hchainP
  rw [hq] at hchainS
  refine ⟨start, stop, hbefore, hmiddle, hbehind, ?_, hchainP, hchainM, hchainS, h.large⟩
  exact spaced_gaps hbefore (fun p hp => h.large p (List.mem_append_left _ hp)) (Nat.le_refl _)

namespace Split

/-- The link to the middle part stands in front of it. -/
theorem linkCell_le (hs : Split list P M S start stop) : linkCell P + 4 ≤ start := by
  have hlast := hs.spaced.lastOffset_le
  simp only [nodeSize] at hlast
  simp only [linkCell]
  omega

/-- The middle part lies behind the header and inside the arena. -/
theorem bounds (hs : Split list P M S start stop) :
    headerSize ≤ start ∧ start ≤ stop ∧ stop ≤ list.capacity :=
  ⟨hs.before.start_le_stop, hs.middle.start_le_stop, hs.behind.start_le_stop⟩

/-- The last gap before the stretch, if there is one, with the pieces on either side of it. -/
theorem last_gap (hs : Split list P M S start stop) :
    gaps P = [] ∨ ∃ P₁ g P₂, P = P₁ ++ .gap g :: P₂ ∧ lastOffset 0 (gaps P) = g.offset ∧
      Tiles headerSize (P₁.map Piece.extent) g.offset ∧
      Tiles g.stop (P₂.map Piece.extent) start := by
  rcases List.eq_nil_or_concat (gaps P) with hgaps | ⟨G, g, hgaps⟩
  · exact .inl hgaps
  · rw [List.concat_eq_append] at hgaps
    obtain ⟨P₁, P₂, rfl, _, _⟩ := exists_of_gaps_eq hgaps
    have hbefore := hs.before
    rw [List.map_append] at hbefore
    obtain ⟨middle, hP₁, hoffset, hP₂⟩ := hbefore.of_append
    refine .inr ⟨P₁, g, P₂, rfl, ?_, ?_, hP₂⟩
    · rw [hgaps, lastOffset_concat]
    · rwa [show middle = g.offset from hoffset.symm] at hP₁

/-- The cell of a link belongs to no block: it lies in the header or in a gap. -/
theorem linkCell_apart (hs : Split list P M S start stop) {b : Extent}
    (hb : b ∈ blocks P ∨ b ∈ blocks S) : b.stop ≤ linkCell P ∨ linkCell P + 4 ≤ b.offset := by
  have hcell := hs.linkCell_le
  rcases hb with hb | hb
  · rcases hs.last_gap with hgaps | ⟨P₁, g, P₂, rfl, hlast, hP₁, hP₂⟩
    · right
      have hoffset := (hs.before.bounds (List.mem_map_of_mem (mem_blocks.1 hb))).1
      simp only [Piece.extent, headerSize] at hoffset
      simp only [linkCell, hgaps, lastOffset, List.getLast?_nil, Option.elim_none]
      omega
    · have hlink : linkCell (P₁ ++ .gap g :: P₂) = g.offset + 4 := congrArg (· + 4) hlast
      rw [blocks_append, blocks_gap, List.mem_append, mem_blocks, mem_blocks] at hb
      rcases hb with hb | hb
      · left
        have hstop := (hP₁.bounds (List.mem_map_of_mem hb)).2
        simp only [Piece.extent] at hstop
        omega
      · right
        have hoffset := (hP₂.bounds (List.mem_map_of_mem hb)).1
        have hsize := hs.large (.gap g) (by simp)
        simp only [Piece.extent, Extent.stop, nodeSize] at hoffset hsize
        omega
  · right
    have hoffset := (hs.behind.bounds (List.mem_map_of_mem (mem_blocks.1 hb))).1
    have hle := hs.bounds.2.1
    simp only [Piece.extent] at hoffset
    omega

/-- The blocks beside the stretch keep all their bytes. -/
theorem sameBytes (hs : Split list P M S start stop)
    (hsame : ChangesOnly list list' start stop (linkCell P)) {b : Extent}
    (hb : b ∈ blocks P ∨ b ∈ blocks S) : SameBytes list list' b.offset b.stop := by
  intro i hi hi'
  have hapart := hs.linkCell_apart hb
  refine hsame.same i ?_ (by omega)
  rcases hb with hb | hb
  · left
    have hstop := (hs.before.bounds (List.mem_map_of_mem (mem_blocks.1 hb))).2
    simp only [Piece.extent] at hstop
    omega
  · right
    have hoffset := (hs.behind.bounds (List.mem_map_of_mem (mem_blocks.1 hb))).1
    simp only [Piece.extent] at hoffset
    omega

end Split

/-- Pieces in the middle of a represented layout may be exchanged for others over the same bytes. It
is enough that the new pieces are described by their own words and by the link that leads to them,
and that no byte has changed but those of the old pieces and of that link. -/
theorem Represents.replace {N : List Piece} (h : list.Represents (P ++ (M ++ S)))
    (hs : Split list P M S start stop)
    (htiles : Tiles start (N.map Piece.extent) stop)
    (hlarge : ∀ p ∈ N, nodeSize ≤ p.extent.size)
    (htagged : ∀ b ∈ blocks N, list'.word b.offset = b.size)
    (hchain : Chain list' (list'.word (linkCell P)) (gaps N) (firstOffset 0 (gaps S)))
    (hsame : ChangesOnly list list' start stop (linkCell P)) :
    list'.Represents (P ++ (N ++ S)) := by
  have hbounds := hs.bounds
  have hcell := hs.linkCell_le
  have hcapacity := hsame.capacity_eq
  simp only [headerSize] at hbounds
  refine ⟨by rw [hcapacity]; exact h.small, ?_, ?_, ?_, ?_⟩
  · rw [List.map_append, List.map_append, hcapacity]
    exact hs.before.append (htiles.append hs.behind)
  · intro p hp
    simp only [List.mem_append] at hp
    rcases hp with hp | hp | hp
    · exact h.large p (List.mem_append_left _ hp)
    · exact hlarge p hp
    · exact h.large p (List.mem_append_right _ (List.mem_append_right _ hp))
  · intro b hb
    simp only [blocks_append, List.mem_append] at hb
    have hold (hb' : b ∈ blocks P ∨ b ∈ blocks S) : list'.word b.offset = b.size := by
      have hmem : b ∈ blocks (P ++ (M ++ S)) := by
        simp only [blocks_append, List.mem_append]
        tauto
      have hsize := h.large _ (mem_blocks.1 hmem)
      simp only [Piece.extent, nodeSize] at hsize
      rw [← h.tagged b hmem]
      refine word_eq_of_sameBytes fun i hi hi' => hs.sameBytes hsame hb' i hi ?_
      simp only [Extent.stop]
      omega
    rcases hb with hb | hb | hb
    · exact hold (.inl hb)
    · exact htagged b hb
    · exact hold (.inr hb)
  · rw [gaps_append, gaps_append]
    have hbefore : Chain list' list'.head (gaps P) (list'.word (linkCell P)) := by
      refine Chain.relink 0 hs.chain_before hs.spaced rfl fun i _ hi hlink => ?_
      exact hsame.same i (by omega) (by simpa only [linkCell, Nat.add_assoc] using hlink)
    refine hbefore.append (hchain.append (hs.chain_behind.congr fun g hg => ?_))
    have hoffset := (hs.behind.bounds (List.mem_map_of_mem (mem_gaps.1 hg))).1
    simp only [Piece.extent] at hoffset
    exact ⟨word_eq_of_sameBytes fun i hi _ => hsame.same i (by omega) (by omega),
      word_eq_of_sameBytes fun i hi _ => hsame.same i (by omega) (by omega)⟩

end Replace

end ElasticCache.FreeList
