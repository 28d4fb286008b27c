import ElasticCache.Proofs.Arena.Capacity
import ElasticCache.Proofs.Arena.Heap

/-!
# Which releases are accepted

A release looks at the word in front of the offset, at the bounds of the arena and at the free nodes
on either side. So bytes that are free are never released again. Inside a live block, however, every
word that reads as a size is taken for the tag of a block, be it written by the user or left from an
earlier block. This file says exactly which releases are accepted.
-/

namespace ElasticCache

/-- An offset passes for the payload of a live block: the word in front of it stands in a live block
and reads as the size of a block that ends inside the arena and before the next free node. -/
structure Heap.LooksLive (heap : Heap) (offset : Nat) : Prop where
  inside : ∃ b ∈ heap.live, b.payload ≤ offset ∧ offset < b.stop + FreeList.tagSize
  large : FreeList.nodeSize ≤ heap.list.word (offset - FreeList.tagSize)
  ends : offset - FreeList.tagSize + heap.list.word (offset - FreeList.tagSize) ≤ heap.list.capacity
  apart : ∀ node ∈ heap.list.nodes, node.offset < offset - FreeList.tagSize ∨
    offset - FreeList.tagSize + heap.list.word (offset - FreeList.tagSize) ≤ node.offset

namespace FreeList

/-! ## The nodes on either side of a place -/

section Cuts

variable {list : FreeList} {P S : List Piece} {place : Nat}

/-- The walk of a release passes the gaps in front of its place. -/
theorem Represents.passed_gaps (h : list.Represents (P ++ S)) (place : Nat)
    (hbefore : ∀ g ∈ gaps P, g.offset < place) (hbehind : ∀ g ∈ gaps S, place ≤ g.offset) :
    list.passed (place ≤ ·.offset) = .ok ((gaps P).map fun g => list.nodeAt g.offset) := by
  have hpass (n : FreeNode) (hn : n ∈ (gaps P).map fun g => list.nodeAt g.offset) :
      (!decide (place ≤ n.offset)) = true := by
    obtain ⟨g, hg, rfl⟩ := List.mem_map.1 hn
    have hlt : (list.nodeAt g.offset).offset < place := hbefore g hg
    simpa using hlt
  rw [h.passed_eq_ok, h.nodes_eq, gaps_append, List.map_append,
    List.takeWhile_append_of_pos hpass]
  cases hgaps : gaps S with
  | nil => simp
  | cons g rest =>
    have hle : place ≤ (list.nodeAt g.offset).offset := hbehind g (by simp [hgaps])
    rw [List.map_cons, List.takeWhile_cons_of_neg (by simpa using hle), List.append_nil]

/-- The last gap that the walk passed leads to the first one behind the place. -/
theorem Represents.next_of_gaps (h : list.Represents (P ++ S)) :
    ((gaps P).map fun g => list.nodeAt g.offset).getLast?.elim list.head (·.next) =
      firstOffset 0 (gaps S) := by
  obtain ⟨start, stop, hs⟩ := Represents.split (M := []) h
  have hlink : list.word (linkCell P) = firstOffset 0 (gaps S) := hs.chain_middle
  rw [← hlink, List.getLast?_map, linkCell, lastOffset]
  cases (gaps P).getLast? <;> rfl

/-- No gap behind the place begins before an offset that the first one does not. -/
theorem Represents.le_of_le_firstOffset (h : list.Represents (P ++ S)) {stop : Nat}
    (hfirst : firstOffset 0 (gaps S) ≠ 0 → stop ≤ firstOffset 0 (gaps S)) {g : Extent}
    (hg : g ∈ gaps S) : stop ≤ g.offset := by
  have hbounds (e : Extent) (he : e ∈ gaps S) : 8 ≤ e.offset :=
    (h.node_bounds (gaps_append ▸ List.mem_append_right _ he)).1
  have hpairwise : (gaps (P ++ S)).Pairwise fun e f => e.stop ≤ f.offset := by
    refine List.pairwise_filterMap.2 ((List.pairwise_map.1 h.tiles.pairwise).imp ?_)
    intro p q hle e he f hf
    cases p <;> cases q <;> simp_all [Piece.gap?, Piece.extent]
  cases hgaps : gaps S with
  | nil => simp [hgaps] at hg
  | cons first rest =>
    have height := hbounds first (by simp [hgaps])
    have hstop : stop ≤ first.offset := by
      have hne : firstOffset 0 (gaps S) = first.offset := by simp [hgaps, firstOffset]
      rw [hne] at hfirst
      exact hfirst (by omega)
    rw [hgaps] at hg
    rcases List.mem_cons.1 hg with rfl | hrest
    · exact hstop
    · rw [gaps_append, hgaps] at hpairwise
      have hle := (List.pairwise_cons.1 (List.pairwise_append.1 hpairwise).2.1).1 g hrest
      simp only [Extent.stop] at hle
      omega

end Cuts

/-! ## Refusals -/

section Refusals

variable {list : FreeList} {P S : List Piece} {g b : Extent} {place : Nat}

/-- The gaps before a piece begin before it, and those behind it do not begin inside it. -/
theorem Split.gaps_apart {p : Piece} {start stop : Nat} (hs : Split list P [p] S start stop) :
    (∀ g ∈ gaps P, g.offset < p.extent.offset) ∧ ∀ g ∈ gaps S, p.extent.stop ≤ g.offset := by
  have hoffset : p.extent.offset = start := hs.middle.1
  have hend : p.extent.stop = stop := hs.middle.2
  constructor
  · intro g hg
    have hmem := mem_gaps.1 hg
    have hle := (hs.before.bounds (List.mem_map_of_mem hmem)).2
    have hlarge := hs.large (.gap g) (List.mem_append_left _ hmem)
    simp only [Piece.extent, Extent.stop, nodeSize] at hle hlarge
    omega
  · intro g hg
    have hle := (hs.behind.bounds (List.mem_map_of_mem (mem_gaps.1 hg))).1
    simp only [Piece.extent] at hle
    omega

/-- No offset with its tag in a gap is released. The walk stops at that gap or passes it, and the
supposed block overlaps it either way. -/
theorem Represents.free_of_gap (h : list.Represents (P ++ ([.gap g] ++ S)))
    (hstart : g.offset ≤ place) (hstop : place < g.stop) :
    list.free (place + tagSize) = .ok (false, list) := by
  have hsmall := h.small
  have hsize : list.word g.offset = g.size := h.word_gap (by simp)
  have hbounds := h.bounds (p := .gap g) (by simp)
  obtain ⟨_, _, hs⟩ := h.split
  obtain ⟨hbefore, hbehind⟩ := hs.gaps_apart
  simp only [Piece.extent, Extent.stop] at hbounds hstop hbefore hbehind
  unfold free
  simp only [Nat.add_sub_cancel]
  split
  next => rfl
  next =>
    split
    next => rfl
    next hlarge =>
      simp only [nodeSize] at hlarge
      by_cases heq : g.offset = place
      · have hpassed := Represents.passed_gaps (S := [.gap g] ++ S) h place
          (fun e he => by have := hbefore e he; omega)
          (fun e he => by
            rcases List.mem_cons.1 (by simpa using he : e ∈ g :: gaps S) with rfl | he
            · omega
            · have := hbehind e he
              omega)
        have hnext := Represents.next_of_gaps (S := [.gap g] ++ S) h
        have hfirst : firstOffset 0 (gaps ([.gap g] ++ S)) = g.offset := rfl
        have hoverlap : g.offset ≠ 0 ∧ g.offset < place + list.word place := by
          simp only [headerSize] at hbounds
          omega
        simp only [hpassed, ok_bind, hnext, hfirst, if_pos hoverlap]
        rfl
      · have hcut : list.Represents ((P ++ [.gap g]) ++ S) := by simpa using h
        have hpassed := hcut.passed_gaps place
          (fun e he => by
            rcases List.mem_append.1 (gaps_append ▸ he) with he | he
            · have := hbefore e he
              omega
            · obtain rfl : e = g := by simpa using he
              omega)
          (fun e he => by have := hbehind e he; omega)
        have hlast : lastOffset 0 (gaps (P ++ [.gap g])) = g.offset := by
          rw [gaps_append]
          exact lastOffset_concat g
        have hzero : g.offset ≠ 0 := by
          simp only [headerSize] at hbounds
          omega
        simp only [hpassed, ok_bind, hcut.next_of_gaps, last_passed, hlast, hsize]
        split
        next => rfl
        next =>
          rw [fitWord_eq_ok (by omega), ok_bind, if_pos (by omega)]
          rfl

/-- The walk of a release that begins inside a block passes the gaps in front of it and stops at the
first one behind it. -/
theorem Represents.walk_inside (h : list.Represents (P ++ ([.block b] ++ S)))
    (hstart : b.offset ≤ place) (hstop : place < b.stop) :
    list.passed (place ≤ ·.offset) = .ok ((gaps P).map fun g => list.nodeAt g.offset) ∧
      ((gaps P).map fun g => list.nodeAt g.offset).getLast?.elim list.head (·.next) =
        firstOffset 0 (gaps S) := by
  obtain ⟨_, _, hs⟩ := h.split
  obtain ⟨hbefore, hbehind⟩ := hs.gaps_apart
  have hgaps : gaps ([.block b] ++ S) = gaps S := rfl
  refine ⟨h.passed_gaps place (fun g hg => ?_) (fun g hg => ?_), h.next_of_gaps⟩
  · exact Nat.lt_of_lt_of_le (hbefore g hg) hstart
  · exact Nat.le_trans (Nat.le_of_lt hstop) (hbehind g (hgaps ▸ hg))

/-- The free nodes keep clear of what begins inside a block when the first one behind it does. -/
theorem Represents.nodes_apart_iff (h : list.Represents (P ++ ([.block b] ++ S)))
    (hstart : b.offset ≤ place) (hstop : place < b.stop) (stop : Nat) :
    (∀ node ∈ list.nodes, node.offset < place ∨ stop ≤ node.offset) ↔
      (firstOffset 0 (gaps S) ≠ 0 → stop ≤ firstOffset 0 (gaps S)) := by
  obtain ⟨_, _, hs⟩ := h.split
  obtain ⟨hbefore, hbehind⟩ := hs.gaps_apart
  simp only [Piece.extent] at hbefore hbehind
  have hgaps : gaps (P ++ ([.block b] ++ S)) = gaps P ++ gaps S := by simp
  rw [h.nodes_eq, hgaps]
  constructor
  · intro hapart _
    cases hS : gaps S with
    | nil => simp_all [firstOffset]
    | cons g rest =>
      have hle := hbehind g (by simp [hS])
      have hnode := hapart (list.nodeAt g.offset) (by simp [hS])
      simp only [nodeAt] at hnode
      simp only [firstOffset, List.head?_cons, Option.elim_some]
      omega
  · intro hfirst node hnode
    obtain ⟨g, hg, rfl⟩ := List.mem_map.1 hnode
    rcases List.mem_append.1 hg with hg | hg
    · exact .inl (Nat.lt_of_lt_of_le (hbefore g hg) hstart)
    · exact .inr (Represents.le_of_le_firstOffset (S := [.block b] ++ S) h hfirst hg)

/-- An offset with its tag in a live block is refused unless the word there reads as the size of a
block that ends before the next free node. -/
theorem Represents.free_of_overlap (h : list.Represents (P ++ ([.block b] ++ S)))
    (hstart : b.offset ≤ place) (hstop : place < b.stop)
    (hbad : list.word place < nodeSize ∨ list.capacity < place + list.word place ∨
      (firstOffset 0 (gaps S) ≠ 0 ∧ firstOffset 0 (gaps S) < place + list.word place)) :
    list.free (place + tagSize) = .ok (false, list) := by
  obtain ⟨hpassed, hnext⟩ := h.walk_inside hstart hstop
  unfold free
  simp only [Nat.add_sub_cancel]
  split
  next => rfl
  next =>
    split
    next => rfl
    next hlarge =>
      have hoverlap := (hbad.resolve_left fun hlt => hlarge (.inl hlt)).resolve_left
        fun hlt => hlarge (.inr hlt)
      simp only [hpassed, ok_bind, hnext, if_pos hoverlap]
      rfl

end Refusals

/-! ## Acceptance -/

section Acceptance

variable {list : FreeList} {P S : List Piece} {b : Extent} {place : Nat}

/-- Joining two nodes only needs room for the first one and sums that fit a word. Nothing but the
first node is written. -/
theorem exists_mergeNodes_of_room (list : FreeList) (first size second : Nat)
    (hroom : first ≠ 0 → first + nodeSize ≤ list.capacity) (hfits : first + size < wordLimit)
    (hmerged : first + size = second → size + list.word second < wordLimit) :
    ∃ list', list.mergeNodes first size second = .ok list' ∧
      (∀ i, i + 4 ≤ first → list'.word i = list.word i) ∧
      (list' = list ∨ first + size = second ∧ list'.capacity = list.capacity ∧
        list'.word first = size + list.word second) := by
  unfold mergeNodes
  by_cases hnone : first = 0 ∨ second = 0
  · exact ⟨list, if_pos hnone, fun _ _ => rfl, .inl rfl⟩
  · rw [if_neg hnone, fitWord_eq_ok hfits, ok_bind]
    by_cases htouch : first + size = second
    · have hsum := hmerged htouch
      obtain ⟨list', hput, hwrote⟩ := exists_putNode list first (size + list.word second)
        (list.word (second + 4)) (hroom (by tauto)) hsum (list.word_lt _)
      rw [if_pos htouch, fitWord_eq_ok hsum, ok_bind]
      exact ⟨list', hput, fun i hi => hwrote.word_of_disjoint (.inl hi),
        .inr ⟨htouch, hwrote.capacity_eq, hwrote.size_eq⟩⟩
    · rw [if_neg htouch]
      exact ⟨list, rfl, fun _ _ => rfl, .inl rfl⟩

/-- The first gap behind a place, if there is one, ends inside the arena. -/
theorem Represents.firstOffset_add_word_le (h : list.Represents (P ++ S)) :
    firstOffset 0 (gaps S) = 0 ∨
      firstOffset 0 (gaps S) + list.word (firstOffset 0 (gaps S)) ≤ list.capacity := by
  cases hgaps : gaps S with
  | nil => exact .inl rfl
  | cons g rest =>
    right
    have hmem : g ∈ gaps (P ++ S) := by simp [hgaps]
    have hbounds := (h.bounds (mem_gaps.1 hmem)).2
    simpa [firstOffset, h.word_gap hmem, Piece.extent, Extent.stop] using hbounds

/-- A node that begins inside a live block and ends inside the arena can be linked in and joined
with the gaps on either side. It is written with the link to it, then joined with the one behind it
and with the one before. -/
theorem Represents.exists_join_inside (h : list.Represents (P ++ ([.block b] ++ S)))
    (hstart : b.offset ≤ place) (hlarge : nodeSize ≤ list.word place)
    (hends : place + list.word place ≤ list.capacity) :
    ∃ list₁ list₂ list₃ list', list.putNode place (list.word place) (firstOffset 0 (gaps S)) =
        .ok list₁ ∧
      list₁.putLink (lastOffset 0 (gaps P)) place = .ok list₂ ∧
      list₂.mergeNodes place (list.word place) (firstOffset 0 (gaps S)) = .ok list₃ ∧
      list₃.mergeNodes (lastOffset 0 (gaps P)) (list₃.word (lastOffset 0 (gaps P))) place =
        .ok list' := by
  obtain ⟨start, stop, hs⟩ := h.split
  have hnextEnds : firstOffset 0 (gaps S) = 0 ∨ firstOffset 0 (gaps S) +
      list.word (firstOffset 0 (gaps S)) ≤ list.capacity :=
    h.firstOffset_add_word_le (S := [.block b] ++ S)
  have hlast := lastOffset_add_word_le h hs
  have hcell : lastOffset 0 (gaps P) + 4 + 4 ≤ start := hs.linkCell_le
  have hoffset : b.offset = start := hs.middle.1
  have hbounds := hs.bounds
  have hsmall := h.small
  simp only [nodeSize, headerSize] at hlarge hbounds
  generalize firstOffset 0 (gaps S) = next at *
  generalize lastOffset 0 (gaps P) = previous at *
  obtain ⟨list₁, hput₁, hwrote₁⟩ := exists_putNode list place (list.word place) next
    (by simp only [nodeSize]; omega) (list.word_lt place) (by omega)
  have hcapacity₁ := hwrote₁.capacity_eq
  obtain ⟨list₂, hput₂, hwrote₂⟩ := exists_putWord list₁ (previous + 4) place (by omega) (by omega)
  have hcapacity₂ := hwrote₂.capacity_eq
  have hword₂ : list₂.word place = list.word place := by
    rw [hwrote₂.word_of_disjoint (by omega), hwrote₁.size_eq]
  have hnext₂ (htouch : place + list.word place = next) : list₂.word next = list.word next := by
    rw [hwrote₂.word_of_disjoint (by omega), hwrote₁.word_of_disjoint (by omega)]
  obtain ⟨list₃, hmerge₃, hsame₃, hlist₃⟩ := exists_mergeNodes_of_room list₂ place
    (list.word place) next (by simp only [nodeSize]; omega) (by omega) (fun htouch => by
      rw [hnext₂ htouch]
      omega)
  have hcapacity₃ : list₃.capacity = list.capacity := by
    rcases hlist₃ with rfl | ⟨_, hcapacity₃, _⟩ <;> omega
  have hends₃ : place + list₃.word place ≤ list.capacity := by
    rcases hlist₃ with rfl | ⟨htouch, _, hmerged⟩
    · omega
    · rw [hnext₂ htouch] at hmerged
      omega
  have hprevious₃ : list₃.word previous = list.word previous := by
    rw [hsame₃ _ (by omega), hwrote₂.word_of_disjoint (by omega),
      hwrote₁.word_of_disjoint (by omega)]
  have hword := list.word_lt previous
  obtain ⟨list', hmerge', -, -⟩ := exists_mergeNodes_of_room list₃ previous
    (list₃.word previous) place (by simp only [nodeSize]; omega) (by omega) (by omega)
  exact ⟨list₁, list₂, list₃, list', hput₁, hput₂, hmerge₃, hmerge'⟩

/-- An offset whose tag stands in a live block and reads as the size of a block that ends before the
next free node is released. -/
theorem Represents.exists_free_inside (h : list.Represents (P ++ ([.block b] ++ S)))
    (hstart : b.offset ≤ place) (hstop : place < b.stop)
    (hlarge : nodeSize ≤ list.word place) (hends : place + list.word place ≤ list.capacity)
    (hapart : firstOffset 0 (gaps S) ≠ 0 → place + list.word place ≤ firstOffset 0 (gaps S)) :
    ∃ list', list.free (place + tagSize) = .ok (true, list') := by
  obtain ⟨list₁, list₂, list₃, list', hput₁, hput₂, hmerge₃, hmerge'⟩ :=
    h.exists_join_inside hstart hlarge hends
  obtain ⟨hpassed, hnext⟩ := h.walk_inside hstart hstop
  obtain ⟨start, stop, hs⟩ := h.split
  have hlast := lastOffset_add_word_le h hs
  have hoffset : b.offset = start := hs.middle.1
  have hbounds := hs.bounds
  have hsmall := h.small
  simp only [nodeSize, headerSize] at hlarge hbounds
  have hinside : ¬(place + tagSize < headerSize + tagSize ∨ list.capacity ≤ place + tagSize) := by
    simp only [headerSize, tagSize]
    omega
  have hfits : ¬(list.word place < nodeSize ∨ list.capacity < place + list.word place) := by
    simp only [nodeSize]
    omega
  have hclear : ¬(firstOffset 0 (gaps S) ≠ 0 ∧
      firstOffset 0 (gaps S) < place + list.word place) := by
    omega
  refine ⟨list', ?_⟩
  simp only [free, Nat.add_sub_cancel, if_neg hinside, if_neg hfits, hpassed, ok_bind, hnext,
    last_passed, if_neg hclear, hput₁, hput₂, hmerge₃, hmerge']
  split
  next hne =>
    have hreach := hlast.resolve_left hne
    rw [fitWord_eq_ok (by omega), ok_bind, if_neg (by omega)]
    rfl
  next => rfl

end Acceptance

/-- No byte belongs to two pieces of a layout. -/
theorem piece_unique {layout : List Piece} {start stop i : Nat} {p q : Piece}
    (h : Tiles start (layout.map Piece.extent) stop) (hp : p ∈ layout) (hq : q ∈ layout)
    (hip : p.extent.offset ≤ i ∧ i < p.extent.stop)
    (hiq : q.extent.offset ≤ i ∧ i < q.extent.stop) : p = q := by
  induction layout generalizing start with
  | nil => cases hp
  | cons r rest ih =>
    have hbehind (s : Piece) (hs : s ∈ rest) : r.extent.stop ≤ s.extent.offset :=
      (h.2.bounds (List.mem_map_of_mem hs)).1
    rcases List.mem_cons.1 hp with rfl | hp' <;> rcases List.mem_cons.1 hq with rfl | hq'
    · rfl
    · have := hbehind q hq'
      omega
    · have := hbehind p hp'
      omega
    · exact ih h.2 hp' hq'

end FreeList

/-! ## The answers of a release -/

namespace Heap

open FreeList

section Answers

variable {heap : Heap} {layout : List Piece} {capacity offset : Nat}

/-- A release is accepted when the offset passes for a live block. Otherwise it is refused, and the
arena is as before. -/
theorem HasLayout.free_cases (h : heap.HasLayout layout) (offset : Nat) :
    (heap.LooksLive offset ∧ ∃ list', heap.list.free offset = .ok (true, list')) ∨
      (¬heap.LooksLive offset ∧ heap.list.free offset = .ok (false, heap.list)) := by
  have htiles := h.represents.tiles
  by_cases houtside : offset < headerSize + tagSize ∨ heap.list.capacity ≤ offset
  · refine .inr ⟨fun hlooks => ?_, ?_⟩
    · obtain ⟨b, hb, hpayload, -⟩ := hlooks.inside
      have hbounds := h.represents.bounds (mem_blocks.1 (h.live.mem_iff.1 hb))
      have hlarge := hlooks.large
      have hends := hlooks.ends
      simp only [Extent.payload, Piece.extent, headerSize, tagSize, nodeSize] at *
      omega
    · unfold free
      rw [if_pos houtside]
      rfl
  · obtain ⟨place, rfl⟩ : ∃ place, offset = place + tagSize :=
      ⟨offset - tagSize, by simp only [headerSize, tagSize] at *; omega⟩
    simp only [headerSize, tagSize] at houtside
    obtain ⟨_, hextent, hbyte⟩ := htiles.exists_mem (i := place)
      (by simp only [headerSize]; omega) (by omega)
    obtain ⟨p, hp, rfl⟩ := List.mem_map.1 hextent
    have hinside (b : Extent) (hb : b ∈ heap.live) (hlow : b.payload ≤ place + tagSize)
        (hhigh : place + tagSize < b.stop + tagSize) : .block b = p := by
      refine piece_unique htiles (mem_blocks.1 (h.live.mem_iff.1 hb)) hp (i := place) ?_ hbyte
      simp only [Extent.payload, Piece.extent] at *
      omega
    obtain ⟨P, S, rfl⟩ := List.append_of_mem hp
    cases p with
    | gap g =>
      refine .inr ⟨fun hlooks => ?_, h.represents.free_of_gap hbyte.1 hbyte.2⟩
      obtain ⟨b, hb, hlow, hhigh⟩ := hlooks.inside
      cases hinside b hb hlow hhigh
    | block b =>
      have hapart := h.represents.nodes_apart_iff (S := S) hbyte.1 hbyte.2
        (place + heap.list.word place)
      by_cases hgood : nodeSize ≤ heap.list.word place ∧
          place + heap.list.word place ≤ heap.list.capacity ∧
          (firstOffset 0 (gaps S) ≠ 0 → place + heap.list.word place ≤ firstOffset 0 (gaps S))
      · obtain ⟨hlarge, hends, hfirst⟩ := hgood
        have hlive : b ∈ heap.live := h.live.mem_iff.2 (by simp)
        refine .inl ⟨⟨⟨b, hlive, ?_, ?_⟩, hlarge, hends, hapart.2 hfirst⟩,
          h.represents.exists_free_inside hbyte.1 hbyte.2 hlarge hends hfirst⟩
        · exact Nat.add_le_add_right hbyte.1 _
        · exact Nat.add_lt_add_right hbyte.2 _
      · refine .inr ⟨fun hlooks => ?_, ?_⟩
        · exact hgood ⟨hlooks.large, hlooks.ends, hapart.1 hlooks.apart⟩
        · exact h.represents.free_of_overlap hbyte.1 hbyte.2 (by omega)

/-- A block that was just released is not released again. A block around its tag would have held it
before. -/
theorem HasLayout.free_twice (h : heap.HasLayout layout) {b : Extent} (hb : b ∈ heap.live) :
    ∃ heap', heap.step (.free b.payload) = .ok heap' ∧
      heap'.list.free b.payload = .ok (false, heap'.list) := by
  obtain ⟨list', layout', hfree, -, -, hlayout'⟩ := h.exists_free hb
  refine ⟨_, step_free hfree, ?_⟩
  rcases hlayout'.free_cases b.payload with ⟨hlooks, -⟩ | ⟨-, hrefused⟩
  · exfalso
    obtain ⟨d, hd, hlow, hhigh⟩ := hlooks.inside
    obtain ⟨hdlive, hne⟩ := List.mem_filter.1 hd
    have hbmem := mem_blocks.1 (h.live.mem_iff.1 hb)
    have hdmem := mem_blocks.1 (h.live.mem_iff.1 hdlive)
    have hpos : 0 < b.size := h.represents.pos _ hbmem
    have hsame : Piece.block b = .block d := by
      apply piece_unique h.represents.tiles hbmem hdmem (i := b.offset)
      all_goals
        simp only [Extent.payload, Piece.extent, Extent.stop] at *
        omega
    simp [Piece.block.inj hsame] at hne
  · exact hrefused

end Answers

section Reachable

variable {capacity : Nat} {heap : Heap}

/-- Which releases a reachable heap accepts. The payload of a live block is released. An offset is
released exactly when it passes for a live block, and every other one is refused without a change to
the arena. In particular nothing that is free is released, and so no block twice in a row. -/
theorem Reachable.free_iff_looksLive (h : Reachable capacity heap) (hsmall : capacity < wordLimit) :
    (∀ b ∈ heap.live, heap.LooksLive b.payload) ∧
    (∀ offset, (heap.LooksLive offset ∧ ∃ list', heap.list.free offset = .ok (true, list')) ∨
      (¬heap.LooksLive offset ∧ heap.list.free offset = .ok (false, heap.list))) ∧
    ∀ b ∈ heap.live, ∃ heap', heap.step (.free b.payload) = .ok heap' ∧
      heap'.list.free b.payload = .ok (false, heap'.list) := by
  obtain ⟨⟨layout, hlayout⟩, -⟩ := h.exists_layout hsmall
  refine ⟨fun b hb => ?_, hlayout.free_cases, fun b hb => hlayout.free_twice hb⟩
  obtain ⟨list', -, hfree, -⟩ := hlayout.exists_free hb
  rcases hlayout.free_cases b.payload with ⟨hlooks, -⟩ | ⟨-, hrefused⟩
  · exact hlooks
  · rw [hfree] at hrefused
    cases hrefused

/-- A word written inside the payload of the only block passes for a tag, so its inside is released.
No other word of that payload does. -/
theorem Reachable.free_iff_looksLive_of_written :
    ∃ heap, (Heap.new 64).follow? [.alloc 20, .write 16 (Bytes.ofWord 8)] = some heap ∧
      heap.live.map Extent.payload = [12] ∧ heap.LooksLive 20 ∧ ¬heap.LooksLive 16 := by
  have hanswers : (((Heap.new 64).follow? [.alloc 20, .write 16 (Bytes.ofWord 8)]).map fun heap =>
      (heap.live.map Extent.payload, (heap.list.free 20).toOption.map (·.1),
        (heap.list.free 16).toOption.map (·.1))) = some ([12], some true, some false) := by
    decide +kernel
  obtain ⟨heap, hfollow, hheap⟩ := Option.map_eq_some_iff.1 hanswers
  simp only [Prod.mk.injEq] at hheap
  obtain ⟨hlive, haccepted, hrefused⟩ := hheap
  obtain ⟨-, hcases, -⟩ := (Reachable.new.follow? hfollow).free_iff_looksLive (by decide)
  refine ⟨heap, hfollow, hlive, ?_, ?_⟩
  · rcases hcases 20 with ⟨hlooks, -⟩ | ⟨-, hfree⟩
    · exact hlooks
    · simp [hfree, Except.toOption] at haccepted
  · rcases hcases 16 with ⟨-, list', hfree⟩ | ⟨hnot, -⟩
    · simp [hfree, Except.toOption] at hrefused
    · exact hnot

/-- The tag of an earlier block is enough. Two blocks are released and their bytes go to a larger
one; the second of them, which is no longer live, is then released once more. -/
theorem Reachable.free_of_stale_tag :
    ∃ heap list', (Heap.new 64).follow? [.alloc 4, .alloc 4, .alloc 4, .free 20, .free 12,
        .alloc 12] = some heap ∧ Reachable 64 heap ∧
      heap.live.map Extent.payload = [12, 28] ∧ heap.list.free 20 = .ok (true, list') := by
  have hanswers : (((Heap.new 64).follow? [.alloc 4, .alloc 4, .alloc 4, .free 20, .free 12,
      .alloc 12]).map fun heap => (heap.live.map Extent.payload,
        (heap.list.free 20).toOption.map (·.1))) = some ([12, 28], some true) := by
    decide +kernel
  obtain ⟨heap, hfollow, hheap⟩ := Option.map_eq_some_iff.1 hanswers
  simp only [Prod.mk.injEq] at hheap
  obtain ⟨hlive, haccepted⟩ := hheap
  obtain ⟨⟨freed, list'⟩, hfree, rfl⟩ := Option.map_eq_some_iff.1 haccepted
  exact ⟨heap, list', hfollow, Reachable.new.follow? hfollow, hlive,
    toOption_eq_some_iff.1 hfree⟩

end Reachable

end Heap

end ElasticCache
