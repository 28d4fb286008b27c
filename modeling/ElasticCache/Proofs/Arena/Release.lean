import ElasticCache.Proofs.Arena.Alloc

/-!
# Release

A released block becomes a gap, which is then joined with the gaps that touch it, first the one
behind and then the one before. No live block is touched by any of these steps.
-/

namespace ElasticCache.FreeList

/-- Both arenas have one size, and all bytes of some live blocks, tags included, are the same. -/
structure Keeps (list list' : FreeList) (live : List Extent) : Prop where
  capacity_eq : list'.capacity = list.capacity
  same : ∀ b ∈ live, SameBytes list list' b.offset b.stop

section Keeping

variable {list list₁ list' : FreeList} {live : List Extent}

/-- What does not change keeps the blocks. -/
theorem Keeps.refl : Keeps list list live := ⟨rfl, fun _ _ _ _ _ => rfl⟩

/-- Two changes that keep the blocks do so together. -/
theorem Keeps.trans (h : Keeps list list₁ live) (h' : Keeps list₁ list' live) :
    Keeps list list' live := by
  refine ⟨h'.capacity_eq.trans h.capacity_eq, fun b hb i hi hi' => ?_⟩
  exact (h'.same b hb i hi hi').trans (h.same b hb i hi hi')

/-- A change to the middle part and the link to it keeps the blocks on either side. -/
theorem ChangesOnly.keeps {P M S : List Piece} {start stop : Nat}
    (h : ChangesOnly list list' start stop (linkCell P)) (hs : Split list P M S start stop) :
    Keeps list list' (blocks P ++ blocks S) :=
  ⟨h.capacity_eq, fun _ hb => hs.sameBytes h (List.mem_append.1 hb)⟩

end Keeping

/-! ## Joining gaps that touch -/

section Merge

variable {list : FreeList} {P S : List Piece} {a b c : Extent}

/-- Two gaps that touch are joined into one. -/
theorem exists_mergeNodes (h : list.Represents (P ++ ([.gap a, .gap c] ++ S))) :
    ∃ list', list.mergeNodes a.offset a.size c.offset = .ok list' ∧
      list.mergeNodesIn a.offset a.size c.offset = .ok list' ∧
      list'.Represents (P ++ ([.gap ⟨a.offset, a.size + c.size⟩] ++ S)) ∧
      Keeps list list' (blocks P ++ blocks S) := by
  obtain ⟨start, stop, hs⟩ := h.split
  obtain ⟨hoffset, htouch, hstop⟩ := hs.middle
  obtain ⟨hstart, _, hcapacity⟩ := hs.bounds
  have hcell := hs.linkCell_le
  have hsmall := h.small
  have hroom := hs.large (.gap c) (by simp)
  have hsize : list.word c.offset = c.size := h.word_gap (by simp)
  have hnext : list.word (c.offset + 4) = firstOffset 0 (gaps S) := hs.chain_middle.2.2.2.2
  have htouch : c.offset = a.offset + a.size := htouch
  have hstop : c.offset + c.size = stop := hstop
  simp only [Piece.extent, headerSize, nodeSize] at hoffset hroom hstart
  obtain ⟨list', hput, hwrote⟩ := exists_putNode list a.offset (a.size + c.size)
    (list.word (c.offset + 4)) (by simp only [nodeSize]; omega) (by omega)
    (list.word_lt (c.offset + 4))
  have hchanges : ChangesOnly list list' start stop (linkCell P) :=
    ⟨hwrote.capacity_eq, fun i hi _ => hwrote.same i (by omega)⟩
  have hend : fitWord (a.offset + a.size) = .ok c.offset := by
    rw [fitWord_eq_ok (by omega), htouch]
  have hmerged : fitWord (a.size + c.size) = .ok (a.size + c.size) := fitWord_eq_ok (by omega)
  have hnone : ¬(a.offset = 0 ∨ c.offset = 0) := by omega
  refine ⟨list', ?_, ?_, ?_, hchanges.keeps hs⟩
  · simp only [mergeNodes, if_neg hnone, hend, ok_bind, if_pos, hsize, hmerged, hput]
  · simp only [mergeNodesIn, if_neg hnone, hend, ok_bind, if_pos,
      wordIn_eq_ok (show c.offset + 4 ≤ list.capacity by omega),
      wordIn_eq_ok (show c.offset + 4 + 4 ≤ list.capacity by omega), hsize, hmerged, hput]
  · refine h.replace hs ⟨hoffset, ?_⟩ ?_ ?_ ?_ hchanges
    · simp only [Extent.stop]
      show a.offset + (a.size + c.size) = stop
      omega
    · intro p hp
      rw [List.mem_singleton.1 hp]
      exact Nat.le_trans hroom (Nat.le_add_left _ _)
    · exact fun d hd => (List.not_mem_nil hd).elim
    · refine ⟨?_, hwrote.size_eq, hwrote.next_eq.trans hnext⟩
      rw [hwrote.word_of_disjoint (by omega)]
      exact hs.chain_middle.1

/-- Nodes that do not touch are not joined. -/
theorem mergeNodes_eq_self (list : FreeList) (first size second : Nat)
    (h : first = 0 ∨ second = 0 ∨ (first + size < wordLimit ∧ first + size ≠ second)) :
    list.mergeNodes first size second = .ok list ∧
      list.mergeNodesIn first size second = .ok list := by
  by_cases hnone : first = 0 ∨ second = 0
  · exact ⟨if_pos hnone, if_pos hnone⟩
  · obtain ⟨hfits, hne⟩ : first + size < wordLimit ∧ first + size ≠ second := by tauto
    simp only [mergeNodes, mergeNodesIn, if_neg hnone, fitWord_eq_ok hfits, ok_bind, if_neg hne]
    exact ⟨rfl, rfl⟩

/-- A gap is joined with the gap behind it when one touches it. -/
theorem exists_merge_behind (h : list.Represents (P ++ ([.gap b] ++ S))) (hS : Coalesced S) :
    ∃ list' e S', list.mergeNodes b.offset b.size (firstOffset 0 (gaps S)) = .ok list' ∧
      list.mergeNodesIn b.offset b.size (firstOffset 0 (gaps S)) = .ok list' ∧
      list'.Represents (P ++ ([.gap e] ++ S')) ∧ e.offset = b.offset ∧
      blocks S' = blocks S ∧ Coalesced (.gap e :: S') ∧
      Keeps list list' (blocks P ++ blocks S) := by
  obtain ⟨start, stop, hs⟩ := h.split
  have hstop : b.offset + b.size = stop := hs.middle.2
  by_cases hgap : ∃ c S', S = .gap c :: S'
  · obtain ⟨c, S', rfl⟩ := hgap
    have hoffset : c.offset = stop := hs.behind.1
    obtain ⟨list', hmerge, hmergeIn, hrepresents, hkeeps⟩ := exists_mergeNodes h
    exact ⟨list', _, S', hmerge, hmergeIn, hrepresents, rfl, rfl,
      Coalesced.replace_gap (P := []) hS, hkeeps⟩
  · have hapart : firstOffset 0 (gaps S) = 0 ∨ stop < firstOffset 0 (gaps S) := by
      rcases hgaps : gaps S with _ | ⟨g, rest⟩
      · exact .inl rfl
      · have hg : .gap g ∈ S := mem_gaps.1 (by rw [hgaps]; exact List.mem_cons_self)
        right
        cases S with
        | nil => cases hg
        | cons p S' =>
          have hp := h.pos p (by simp)
          have hbehind := hs.behind
          rcases List.mem_cons.1 hg with rfl | hg
          · exact absurd ⟨g, S', rfl⟩ hgap
          · have hoffset := (hbehind.2.bounds (List.mem_map_of_mem hg)).1
            have hfirst := hbehind.1
            simp only [Piece.extent, Extent.stop] at hoffset hfirst hp
            show stop < g.offset
            omega
    have hsmall := h.small
    have hbounds := hs.bounds
    obtain ⟨hmerge, hmergeIn⟩ := mergeNodes_eq_self list b.offset b.size
      (firstOffset 0 (gaps S)) (by omega)
    refine ⟨list, b, S, hmerge, hmergeIn, h, rfl, rfl, ?_, Keeps.refl⟩
    exact hS.cons_gap fun c S' hc => hgap ⟨c, S', hc⟩

/-- A gap is joined with the gap before it when one touches it. -/
theorem exists_merge_before (h : list.Represents (P ++ ([.gap b] ++ S))) (hP : Coalesced P)
    (hS : Coalesced (.gap b :: S)) :
    ∃ list' e P', list.mergeNodes (lastOffset 0 (gaps P)) (list.word (lastOffset 0 (gaps P)))
        b.offset = .ok list' ∧
      list.mergeNodesIn (lastOffset 0 (gaps P)) (list.word (lastOffset 0 (gaps P)))
        b.offset = .ok list' ∧
      list'.Represents (P' ++ ([.gap e] ++ S)) ∧
      blocks P' = blocks P ∧ Coalesced (P' ++ ([.gap e] ++ S)) ∧
      Keeps list list' (blocks P ++ blocks S) := by
  by_cases hgap : ∃ P' a, P = P' ++ [.gap a]
  · obtain ⟨P', a, rfl⟩ := hgap
    have hlast : lastOffset 0 (gaps (P' ++ [.gap a])) = a.offset := by
      rw [gaps_append]
      exact lastOffset_concat a
    have hsize : list.word a.offset = a.size := h.word_gap (by simp)
    rw [List.append_assoc] at h
    obtain ⟨list', hmerge, hmergeIn, hrepresents, hkeeps⟩ :=
      exists_mergeNodes (P := P') (a := a) (c := b) (S := S) h
    rw [hlast, hsize]
    refine ⟨list', _, P', hmerge, hmergeIn, hrepresents, by simp, ?_, by simpa using hkeeps⟩
    refine Coalesced.replace_gap (g := a) (List.isChain_append.2 ⟨hP.of_gap.1, ?_, ?_⟩)
    · exact Coalesced.replace_gap (P := []) hS
    · exact fun p hp q hq => (List.isChain_append.1 hP).2.2 p hp q hq
  · obtain ⟨start, stop, hs⟩ := h.split
    have hoffset : b.offset = start := hs.middle.1
    have hapart : lastOffset 0 (gaps P) = 0 ∨ (lastOffset 0 (gaps P) +
        list.word (lastOffset 0 (gaps P)) < start) := by
      rcases hs.last_gap with hgaps | ⟨P₁, g, P₂, rfl, hlast, _, hP₂⟩
      · left
        rw [hgaps]
        rfl
      · right
        rw [hlast, h.word_gap (by simp)]
        cases P₂ with
        | nil => exact absurd ⟨P₁, g, rfl⟩ hgap
        | cons p P₃ =>
          have hp := h.pos p (by simp)
          have hfirst : p.extent.offset = g.offset + g.size := hP₂.1
          have hle : p.extent.offset + p.extent.size ≤ start := hP₂.2.start_le_stop
          omega
    have hsmall := h.small
    have hbounds := hs.bounds
    obtain ⟨hmerge, hmergeIn⟩ := mergeNodes_eq_self list (lastOffset 0 (gaps P))
      (list.word (lastOffset 0 (gaps P))) b.offset (by omega)
    refine ⟨list, b, P, hmerge, hmergeIn, h, rfl, ?_, Keeps.refl⟩
    exact hP.append_gap hS fun P' a ha => hgap ⟨P', a, ha⟩

end Merge

/-! ## The whole operation -/

section Free

variable {list : FreeList} {P M S : List Piece} {b : Extent} {start stop : Nat}

/-- The walk of a release stops behind the gaps that stand before the block. -/
theorem takeWhile_nodes (h : list.Represents (P ++ ([.block b] ++ S))) :
    list.nodes.takeWhile (·.offset < b.offset) =
      (gaps P).map fun g => list.nodeAt g.offset := by
  obtain ⟨start, stop, hs⟩ := h.split
  have hoffset : b.offset = start := hs.middle.1
  have hstop : b.offset + b.size = stop := hs.middle.2
  have hbefore (n : FreeNode) (hn : n ∈ (gaps P).map fun g => list.nodeAt g.offset) :
      decide (n.offset < b.offset) = true := by
    obtain ⟨g, hg, rfl⟩ := List.mem_map.1 hn
    have hmem : Piece.gap g ∈ P := mem_gaps.1 hg
    have hpos := h.pos (.gap g) (List.mem_append_left _ hmem)
    have hle := (hs.before.bounds (List.mem_map_of_mem hmem)).2
    simp only [Piece.extent, Extent.stop] at hpos hle
    refine decide_eq_true (show g.offset < b.offset by omega)
  rw [h.nodes_eq, gaps_append, gaps_append, gaps_block, gaps_nil, List.nil_append, List.map_append,
    List.takeWhile_append_of_pos hbefore]
  rcases hgaps : gaps S with _ | ⟨g, rest⟩
  · exact List.append_nil _
  · have hmem : Piece.gap g ∈ S := mem_gaps.1 (by rw [hgaps]; exact List.mem_cons_self)
    have hle := (hs.behind.bounds (List.mem_map_of_mem hmem)).1
    simp only [Piece.extent] at hle
    rw [List.map_cons, List.takeWhile_cons_of_neg, List.append_nil]
    rw [decide_eq_true_eq]
    exact Nat.not_lt.2 (show b.offset ≤ g.offset by omega)

/-- The gap before a stretch does not reach into it. -/
theorem lastOffset_add_word_le (h : list.Represents (P ++ (M ++ S)))
    (hs : Split list P M S start stop) : lastOffset 0 (gaps P) = 0 ∨
      lastOffset 0 (gaps P) + list.word (lastOffset 0 (gaps P)) ≤ start := by
  rcases hs.last_gap with hgaps | ⟨P₁, g, P₂, rfl, hlast, _, hP₂⟩
  · left
    rw [hgaps]
    rfl
  · right
    rw [hlast, h.word_gap (by simp)]
    exact hP₂.start_le_stop

/-- The gap behind a stretch does not begin inside it. -/
theorem le_firstOffset (hs : Split list P M S start stop) :
    firstOffset 0 (gaps S) = 0 ∨ stop ≤ firstOffset 0 (gaps S) := by
  rcases hgaps : gaps S with _ | ⟨g, rest⟩
  · exact .inl rfl
  · right
    have hg : .gap g ∈ S := mem_gaps.1 (by rw [hgaps]; exact List.mem_cons_self)
    exact (hs.behind.bounds (List.mem_map_of_mem hg)).1

/-- Writing a node over a block and linking it between the gaps on either side makes it a gap. -/
theorem exists_gap_of_block (h : list.Represents (P ++ ([.block b] ++ S)))
    (hs : Split list P [.block b] S start stop) :
    ∃ list₁ list₂, list.putNode b.offset b.size (list.word (linkCell P)) = .ok list₁ ∧
      list₁.putWord (linkCell P) b.offset = .ok list₂ ∧
      list₂.Represents (P ++ ([.gap b] ++ S)) ∧ ChangesOnly list list₂ start stop (linkCell P) := by
  obtain ⟨hoffset, hstop⟩ := hs.middle
  obtain ⟨hstart, _, hcapacity⟩ := hs.bounds
  have hcell := hs.linkCell_le
  have hsmall := h.small
  have hroom := hs.large (.block b) (by simp)
  have hlink : list.word (linkCell P) = firstOffset 0 (gaps S) := hs.chain_middle
  have hstop : b.offset + b.size = stop := hstop
  simp only [Piece.extent, headerSize, nodeSize] at hoffset hroom hstart
  obtain ⟨list₁, hput₁, hwrote₁⟩ := exists_putNode list b.offset b.size
    (list.word (linkCell P)) (by simp only [nodeSize]; omega) (by omega) (list.word_lt (linkCell P))
  have hcapacity₁ := hwrote₁.capacity_eq
  obtain ⟨list₂, hput₂, hwrote₂⟩ := exists_putWord list₁ (linkCell P) b.offset
    (by omega) (by omega)
  have hchanges : ChangesOnly list list₂ start stop (linkCell P) := by
    refine ⟨by rw [hwrote₂.capacity_eq, hcapacity₁], fun i hi hcell => ?_⟩
    rw [hwrote₂.same i (by omega), hwrote₁.same i (by omega)]
  refine ⟨list₁, list₂, hput₁, hput₂, h.replace hs hs.middle ?_ ?_ ?_ hchanges, hchanges⟩
  · intro p hp
    rw [List.mem_singleton.1 hp]
    exact hroom
  · exact fun d hd => (List.not_mem_nil hd).elim
  · refine ⟨hwrote₂.word_eq.symm, ?_, ?_⟩
    · rw [hwrote₂.word_of_disjoint (by omega), hwrote₁.size_eq]
    · rw [hwrote₂.word_of_disjoint (by omega), hwrote₁.next_eq, hlink]
      rfl

/-- The gap before the block is the last node that the walk of a release passed. -/
theorem last_passed (list : FreeList) (P : List Piece) :
    ((gaps P).map fun g => list.nodeAt g.offset).getLast?.elim 0 (·.offset) =
      lastOffset 0 (gaps P) := by
  rw [List.getLast?_map, lastOffset]
  cases (gaps P).getLast? <;> rfl

/-- The gap behind the block is where the last passed node leads, or else the head of the list. -/
theorem next_passed (hs : Split list P [.block b] S start stop) :
    ((gaps P).map fun g => list.nodeAt g.offset).getLast?.elim list.head (·.next) =
      firstOffset 0 (gaps S) := by
  have hlink : list.word (linkCell P) = firstOffset 0 (gaps S) := hs.chain_middle
  rw [← hlink, List.getLast?_map, linkCell, lastOffset]
  cases (gaps P).getLast? <;> rfl

/-- A live block has a payload inside the arena, and room for a node. -/
theorem block_inside (h : list.Represents (P ++ ([.block b] ++ S))) :
    ¬(b.payload < headerSize + tagSize ∨ list.capacity ≤ b.payload) ∧
      ¬(b.size < nodeSize ∨ list.capacity < b.offset + b.size) := by
  obtain ⟨start, stop, hs⟩ := h.split
  have hoffset : b.offset = start := hs.middle.1
  have hstop : b.offset + b.size = stop := hs.middle.2
  obtain ⟨hstart, _, hcapacity⟩ := hs.bounds
  have hroom := hs.large (.block b) (by simp)
  simp only [Piece.extent, headerSize, nodeSize] at hroom hstart
  refine ⟨?_, ?_⟩
  · simp only [Extent.payload, headerSize, tagSize]
    omega
  · simp only [nodeSize]
    omega

/-- The gap before a live block ends before the block. -/
theorem reachesBeyond_eq_false (h : list.Represents (P ++ ([.block b] ++ S)))
    (hs : Split list P [.block b] S start stop) :
    list.reachesBeyond (lastOffset 0 (gaps P)) b.offset = .ok false := by
  have hoffset : b.offset = start := hs.middle.1
  have hstop : b.offset + b.size = stop := hs.middle.2
  have hsmall := h.small
  have hbounds := hs.bounds
  have hcell : lastOffset 0 (gaps P) + 4 + 4 ≤ start := hs.linkCell_le
  by_cases hzero : lastOffset 0 (gaps P) = 0
  · exact if_pos hzero
  · have hreach := (lastOffset_add_word_le h hs).resolve_left hzero
    simp only [reachesBeyond, if_neg hzero, ok_bind,
      wordIn_eq_ok (show lastOffset 0 (gaps P) + 4 ≤ list.capacity by omega),
      fitWord_eq_ok (show lastOffset 0 (gaps P) + list.word (lastOffset 0 (gaps P)) < wordLimit
        by omega)]
    exact congrArg Except.ok (decide_eq_false (by omega))

/-- The release of a live block makes its bytes a gap, joined with the gaps that touch it. It keeps
all bytes of the other blocks. None of the checks refuses the block, which becomes a gap and is
joined behind and then before. -/
theorem Represents.exists_free (h : list.Represents (P ++ ([.block b] ++ S)))
    (hcoalesced : Coalesced (P ++ ([.block b] ++ S))) :
    ∃ list' layout', list.free b.payload = .ok (true, list') ∧
      list.freeIn b.payload = .ok (true, list') ∧
      list'.Represents layout' ∧ Coalesced layout' ∧ blocks layout' = blocks P ++ blocks S ∧
      Keeps list list' (blocks P ++ blocks S) := by
  obtain ⟨hcoalescedP, hcoalescedS⟩ := coalesced_block_iff.1 hcoalesced
  obtain ⟨start, stop, hs⟩ := h.split
  have hoffset : b.offset = start := hs.middle.1
  have hstop : b.offset + b.size = stop := hs.middle.2
  have hbounds := hs.bounds
  have hsmall := h.small
  have hroom : 8 ≤ b.size := hs.large (.block b) (by simp)
  obtain ⟨list₁, list₂, hput₁, hput₂, hgap, hchanges⟩ := exists_gap_of_block h hs
  obtain ⟨list₃, e, S', hmerge₃, hmergeIn₃, hrepresents₃, heq, hblocksS, hcoalesced₃, hkeeps₃⟩ :=
    exists_merge_behind hgap hcoalescedS
  obtain ⟨list₄, e', P', hmerge₄, hmergeIn₄, hrepresents₄, hblocksP, hcoalesced₄, hkeeps₄⟩ :=
    exists_merge_before hrepresents₃ hcoalescedP hcoalesced₃
  have hlink : list.word (linkCell P) = firstOffset 0 (gaps S) := hs.chain_middle
  rw [hlink] at hput₁
  rw [hblocksS] at hkeeps₄
  rw [heq] at hmerge₄ hmergeIn₄
  have hput₂ : list₁.putWord (lastOffset 0 (gaps P) + 4) b.offset = .ok list₂ := hput₂
  obtain ⟨hinside, hfits⟩ := block_inside h
  have hlast := lastOffset_add_word_le h hs
  have hbehind : ¬(firstOffset 0 (gaps S) ≠ 0 ∧ firstOffset 0 (gaps S) < b.offset + b.size) := by
    have hfirst := le_firstOffset hs
    omega
  have hsize : list.word b.offset = b.size := h.tagged b (by simp)
  have hpayload : b.payload - tagSize = b.offset := Nat.add_sub_cancel ..
  have hpassed : list.passed (b.offset ≤ ·.offset) =
      .ok ((gaps P).map fun g => list.nodeAt g.offset) := by
    rw [h.passed_eq_ok, ← takeWhile_nodes h]
    simp only [← decide_not, Nat.not_le]
  have hminus : minus b.payload tagSize = .ok b.offset := minus_eq_ok (Nat.le_add_left ..)
  have hword : list.wordIn b.offset = .ok b.size := by rw [wordIn_eq_ok (by omega), hsize]
  have hend : fitWord (b.offset + b.size) = .ok (b.offset + b.size) := fitWord_eq_ok (by omega)
  have hjoined : list₃.wordIn (lastOffset 0 (gaps P)) =
      .ok (list₃.word (lastOffset 0 (gaps P))) := by
    have hcell : lastOffset 0 (gaps P) + 4 + 4 ≤ start := hs.linkCell_le
    refine wordIn_eq_ok ?_
    rw [hkeeps₃.capacity_eq, hchanges.capacity_eq]
    omega
  refine ⟨list₄, P' ++ ([.gap e'] ++ S'), ?_, ?_, hrepresents₄, hcoalesced₄, ?_,
    (hchanges.keeps hs).trans (hkeeps₃.trans hkeeps₄)⟩
  · simp only [free, hpayload, hpassed, hsize, if_neg hinside, if_neg hfits, ok_bind, last_passed,
      next_passed hs, if_neg hbehind, hput₁, putLink, hput₂, hmerge₃, hmerge₄]
    split
    next hne =>
      have hreach := hlast.resolve_left hne
      rw [fitWord_eq_ok (by omega), ok_bind, if_neg (by omega)]
      rfl
    next => rfl
  · simp only [freeIn, if_neg hinside, ok_bind, hminus, hword, if_neg hfits, hend, h.wordIn_head,
      h.nodesIn_eq_ok, takeWhile_nodes h, last_passed, next_passed hs,
      reachesBeyond_eq_false h hs, Bool.false_eq_true, or_false, if_neg hbehind, hput₁, putLink,
      hput₂, hmergeIn₃, hjoined, hmergeIn₄]
    rfl
  · simp [hblocksP, hblocksS]

end Free

end ElasticCache.FreeList
