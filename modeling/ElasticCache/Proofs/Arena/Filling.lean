import ElasticCache.Proofs.Arena.BestFit

/-!
# Filling a new arena

Without a release between them, allocations cut their blocks off the front of the one free node that
a new arena has, until a block takes what is left of it. From then on nothing is served. A block
that takes more than it must therefore never comes at the cost of a later one as long as all blocks
together are smaller than the arena behind its header; when they fill it to the last byte, it can.
-/

namespace ElasticCache.FreeList

/-- Allocations one after the other, with the answer to each. -/
def allocEach (list : FreeList) : List Nat → Except Fault (List (Option Nat) × FreeList)
  | [] => return ([], list)
  | size :: rest => do
    let (answer, list) ← list.alloc size
    let (answers, list) ← list.allocEach rest
    return (answer :: answers, list)

/-- What a block of `need` bytes at the start of a gap leaves of it. -/
def leftover (need : Nat) (g : Extent) : Option Extent :=
  if nodeSize < g.size - need then some ⟨g.offset + need, g.size - need⟩ else none

/-- Cuts a block for a payload of `size` bytes off the only gap there may be. -/
def cut (size : Nat) : Option Extent → Option Nat × Option Extent
  | none => (none, none)
  | some g =>
    if blockSizeFor size ≤ g.size then (some g.payload, leftover (blockSizeFor size) g)
    else (none, some g)

/-- Blocks cut off one after the other. -/
def cutEach (gap : Option Extent) : List Nat → List (Option Nat) × Option Extent
  | [] => ([], gap)
  | size :: rest =>
    let first := cut size gap
    let others := cutEach first.2 rest
    (first.1 :: others.1, others.2)

/-- The arena has a layout in which this gap is the only one, or in which there is none. -/
def HasGap (list : FreeList) (gap : Option Extent) : Prop :=
  ∃ layout, list.Represents layout ∧ gaps layout = gap.toList

section Runs

variable {list : FreeList} {gap : Option Extent} {g : Extent} {size : Nat}

/-- What is left of a gap is its only gap after it was carved. -/
theorem gaps_carve (need : Nat) (g : Extent) :
    gaps (carve need g) = (leftover need g).toList := by
  unfold carve leftover
  split <;> rfl

/-- A request that is too large for the gap is refused and changes nothing. -/
theorem HasGap.alloc_eq_none (h : list.HasGap gap)
    (hsmall : ∀ g ∈ gap, g.size < blockSizeFor size) : list.alloc size = .ok (none, list) := by
  obtain ⟨layout, hlayout, hgaps⟩ := h
  refine (hlayout.alloc_eq_none (.inr fun g hg => hsmall g ?_)).1
  rwa [hgaps, Option.mem_toList] at hg

/-- A request that the gap has room for is served at its start, and the rest of the gap is the only
one. -/
theorem HasGap.exists_alloc_of_le (h : list.HasGap (some g)) (hfits : blockSizeFor size ≤ g.size) :
    ∃ list', list.alloc size = .ok (some g.payload, list') ∧
      list'.HasGap (leftover (blockSizeFor size) g) := by
  obtain ⟨layout, hlayout, hgaps⟩ := h
  have hg : g ∈ gaps layout := by
    rw [hgaps]
    exact List.mem_singleton_self g
  have hword : size + tagSize < wordLimit :=
    Nat.lt_of_le_of_lt (Nat.le_trans (Nat.le_max_left _ _) hfits) (hlayout.size_gap_lt hg)
  obtain ⟨P, carved, S, list', _, _, rfl, _, _, halloc, _, hlayout', _⟩ :=
    hlayout.exists_alloc hword ⟨g, hg, hfits⟩
  refine ⟨list', ?_⟩
  rw [gaps_append, gaps_append, gaps_gap, gaps_nil, List.singleton_append, Option.toList_some,
    List.append_eq_singleton_iff] at hgaps
  rcases hgaps with ⟨hP, hcarved⟩ | ⟨_, hnone⟩
  · obtain ⟨rfl, hS⟩ := List.cons_eq_cons.1 hcarved
    refine ⟨halloc, _, hlayout', ?_⟩
    rw [gaps_append, gaps_append, hP, hS, gaps_carve, List.nil_append, List.append_nil]
  · cases hnone

/-- An allocation is a cut. -/
theorem HasGap.exists_alloc (h : list.HasGap gap) (size : Nat) :
    ∃ list', list.alloc size = .ok ((cut size gap).1, list') ∧ list'.HasGap (cut size gap).2 := by
  cases gap with
  | none => exact ⟨list, h.alloc_eq_none fun g hg => (Option.not_mem_none g hg).elim, h⟩
  | some g =>
    rw [cut]
    split
    next hfits => exact h.exists_alloc_of_le hfits
    next hlarge =>
      refine ⟨list, h.alloc_eq_none fun g' hg' => ?_, h⟩
      obtain rfl := Option.some.inj hg'
      exact Nat.lt_of_not_le hlarge

/-- Allocations one after the other are cuts one after the other. -/
theorem HasGap.exists_allocEach (h : list.HasGap gap) (sizes : List Nat) :
    ∃ list', list.allocEach sizes = .ok ((cutEach gap sizes).1, list') ∧
      list'.HasGap (cutEach gap sizes).2 := by
  induction sizes generalizing list gap with
  | nil => exact ⟨list, rfl, h⟩
  | cons size rest ih =>
    obtain ⟨list₁, halloc, hgap⟩ := h.exists_alloc size
    obtain ⟨list₂, hrest, hgap'⟩ := ih hgap
    refine ⟨list₂, ?_, hgap'⟩
    simp only [allocEach, halloc, ok_bind, hrest]
    rfl

/-- The gap is the only free node. -/
theorem HasGap.nodes_eq (h : list.HasGap gap) :
    list.nodes = gap.toList.map fun g => ⟨g.offset, g.size, 0⟩ := by
  obtain ⟨layout, hlayout, hgaps⟩ := h
  rw [hlayout.nodes_eq_linked, hgaps]
  cases gap <;> rfl

/-- In a new arena all bytes behind the header are one gap. -/
theorem hasGap_new {capacity : Nat} (hroom : headerSize + nodeSize ≤ capacity)
    (hsmall : capacity < wordLimit) :
    (new capacity).HasGap (some ⟨headerSize, capacity - headerSize⟩) := by
  rw [new, Nat.max_eq_left hroom]
  exact ⟨_, represents_fresh hroom hsmall, rfl⟩

end Runs

/-! ## Requests that fit a gap -/

/-- Bytes of the blocks for some payloads: each of them has a tag, and none is smaller than a free
node. -/
def totalFor (sizes : List Nat) : Nat := (sizes.map fun size => max (size + 4) 8).sum

/-- Offsets of payloads whose blocks stand one behind the other, from the first of them on. -/
def payloads (start : Nat) (sizes : List Nat) : List Nat :=
  (List.range sizes.length).map fun i => start + totalFor (sizes.take i)

/-- The blocks for some payloads fit a gap of `room` bytes: together they are no larger, and those
before the last one leave more than a node's worth of it, so that none of them takes it whole. -/
structure Fit (room : Nat) (sizes : List Nat) : Prop where
  total_le : totalFor sizes ≤ room
  last_lt : sizes.dropLast ≠ [] → totalFor sizes.dropLast + nodeSize < room

section Fits

variable {room size next : Nat} {rest sizes : List Nat} {g : Extent}

/-- A further request in front adds its block. -/
theorem totalFor_cons (size : Nat) (rest : List Nat) :
    totalFor (size :: rest) = blockSizeFor size + totalFor rest := by
  rw [totalFor, totalFor, List.map_cons, List.sum_cons]
  rfl

/-- The blocks of two lists of requests add up. -/
theorem totalFor_append (front back : List Nat) :
    totalFor (front ++ back) = totalFor front + totalFor back := by
  rw [totalFor, List.map_append, List.sum_append, totalFor, totalFor]

/-- Two blocks cut off one behind the other leave what one of their common size leaves. -/
theorem leftover_add (m n : Nat) (g : Extent) :
    leftover (m + n) g = leftover n ⟨g.offset + m, g.size - m⟩ := by
  rw [leftover, leftover, Nat.sub_sub, Nat.add_assoc]

/-- No requests fit any room. -/
theorem fit_nil : Fit room [] := ⟨Nat.zero_le _, fun h => absurd rfl h⟩

/-- One request fits when its block does. -/
theorem fit_singleton_iff : Fit room [size] ↔ blockSizeFor size ≤ room :=
  ⟨fun h => h.total_le, fun h => ⟨h, fun hne => absurd rfl hne⟩⟩

/-- With more requests to come, the first block must leave a node, and the others must fit
the rest. -/
theorem fit_cons_cons_iff :
    Fit room (size :: next :: rest) ↔
      blockSizeFor size + nodeSize < room ∧ Fit (room - blockSizeFor size) (next :: rest) := by
  have htotal : totalFor (size :: next :: rest) = blockSizeFor size + totalFor (next :: rest) :=
    totalFor_cons _ _
  have hbefore : totalFor (size :: next :: rest).dropLast =
      blockSizeFor size + totalFor (next :: rest).dropLast := totalFor_cons _ _
  constructor
  · intro h
    have hle := h.total_le
    have hlt := h.last_lt (List.cons_ne_nil _ _)
    rw [htotal] at hle
    rw [hbefore] at hlt
    exact ⟨by omega, by omega, fun _ => by omega⟩
  · rintro ⟨hlt, hfit⟩
    have hle := hfit.total_le
    refine ⟨by omega, fun _ => ?_⟩
    rw [hbefore]
    by_cases hnil : (next :: rest).dropLast = []
    · rw [hnil]
      exact hlt
    · have := hfit.last_lt hnil
      omega

/-- Blocks that together are smaller than a gap fit it: the last one has at least as many bytes as
one before it may get too many. -/
theorem fit_of_totalFor_lt (h : totalFor sizes < room) : Fit room sizes := by
  refine ⟨Nat.le_of_lt h, fun hne => ?_⟩
  obtain rfl | ⟨front, last, rfl⟩ := List.eq_nil_or_concat sizes
  · exact absurd rfl hne
  · have hlast : nodeSize ≤ totalFor [last] := Nat.le_max_right _ _
    rw [List.concat_eq_append, totalFor_append] at h
    rw [List.concat_eq_append, List.dropLast_concat]
    omega

/-- The first payload stands at the start, and the others behind its block. -/
theorem payloads_cons (start size : Nat) (rest : List Nat) :
    payloads start (size :: rest) = start :: payloads (start + blockSizeFor size) rest := by
  rw [payloads, List.length_cons, List.range_succ_eq_map, List.map_cons, List.map_map]
  congr 1
  refine List.map_congr_left fun i _ => ?_
  rw [Function.comp_apply, List.take_succ_cons, totalFor_cons, Nat.add_assoc]

/-- Requests that fit the only gap are all served, one right behind the other. What is left behind
them stays a gap when it is worth keeping. Only the last request may take the gap whole. -/
theorem cutEach_of_fit (h : Fit g.size sizes) :
    cutEach (some g) sizes = ((payloads g.payload sizes).map some,
      if sizes = [] then some g else leftover (totalFor sizes) g) := by
  induction sizes generalizing g with
  | nil => rfl
  | cons size rest ih =>
    cases rest with
    | nil =>
      have hfits := fit_singleton_iff.1 h
      rw [cutEach, cut, if_pos hfits]
      rfl
    | cons next rest =>
      obtain ⟨hlt, hfit⟩ := fit_cons_cons_iff.1 h
      let g' : Extent := ⟨g.offset + blockSizeFor size, g.size - blockSizeFor size⟩
      have hleft : leftover (blockSizeFor size) g = some g' := if_pos (by omega)
      have hrest := ih (g := g') hfit
      have hpayload : g'.payload = g.payload + blockSizeFor size := Nat.add_right_comm ..
      have hbehind : leftover (totalFor (next :: rest)) g' =
          leftover (totalFor (size :: next :: rest)) g := by
        rw [totalFor_cons size, leftover_add]
      rw [cutEach, cut, if_pos (by omega), hleft, hrest, hpayload, hbehind,
        if_neg (List.cons_ne_nil _ _), if_neg (List.cons_ne_nil _ _), payloads_cons g.payload]
      rfl

/-- When every request is served from the only gap, they fit it. -/
theorem fit_of_served (h : ∀ answer ∈ (cutEach (some g) sizes).1, answer ≠ none) :
    Fit g.size sizes := by
  induction sizes generalizing g with
  | nil => exact fit_nil
  | cons size rest ih =>
    obtain ⟨hfirst, hrest⟩ := List.forall_mem_cons.1 h
    have hfits : blockSizeFor size ≤ g.size := by
      by_contra hlarge
      exact hfirst (by rw [cut, if_neg hlarge])
    cases rest with
    | nil => exact fit_singleton_iff.2 hfits
    | cons next rest =>
      rw [cut, if_pos hfits, leftover] at hrest
      split at hrest
      next hlt => exact fit_cons_cons_iff.2 ⟨by omega, ih hrest⟩
      next => exact absurd rfl (hrest none List.mem_cons_self)

end Fits

/-! ## A new arena -/

section New

variable {capacity : Nat} {sizes : List Nat}

/-- A new arena serves exactly the lists of requests that fit behind its header. -/
theorem exists_allocEach_served_iff (hroom : headerSize + nodeSize ≤ capacity)
    (hsmall : capacity < wordLimit) :
    ∃ answers list', (new capacity).allocEach sizes = .ok (answers, list') ∧
      ((∀ answer ∈ answers, answer ≠ none) ↔ Fit (capacity - headerSize) sizes) := by
  obtain ⟨list', heach, _⟩ := (hasGap_new hroom hsmall).exists_allocEach sizes
  refine ⟨_, list', heach, fit_of_served, fun hfit answer hanswer => ?_⟩
  rw [cutEach_of_fit hfit, List.mem_map] at hanswer
  obtain ⟨payload, _, rfl⟩ := hanswer
  exact Option.some_ne_none payload

/-- Two blocks of eight bytes do not fit an arena that has sixteen behind its header: the first one
gets all of them. -/
example : ((new 24).allocEach [4, 4]).map Prod.fst = .ok [some 12, none] := by decide +kernel

/-- No allocation fails for want of bytes that an earlier block got beyond its need. In a new arena
the requests whose blocks add up to less than what stands behind the header are all served, and the
payloads stand as if every block had exactly the size it must have. All other bytes are in one free
node behind the blocks when they are more than a node's worth. When they are not, the last block has
been given them and no free node is left. -/
theorem serves_all_of_totalFor_lt (hroom : 16 ≤ capacity) (hsmall : capacity < wordLimit)
    (htotal : totalFor sizes < capacity - 8) :
    ∃ list', (new capacity).allocEach sizes =
        .ok ((List.range sizes.length).map fun i => some (12 + totalFor (sizes.take i)), list') ∧
      list'.nodes =
        if sizes = [] ∨ 8 < capacity - 8 - totalFor sizes then
          [⟨8 + totalFor sizes, capacity - 8 - totalFor sizes, 0⟩]
        else [] := by
  have hfit : Fit (capacity - headerSize) sizes := fit_of_totalFor_lt htotal
  obtain ⟨list', heach, hgap⟩ := (hasGap_new hroom hsmall).exists_allocEach sizes
  rw [cutEach_of_fit hfit] at heach hgap
  refine ⟨list', ?_, ?_⟩
  · rw [heach, payloads, List.map_map]
    rfl
  · rw [hgap.nodes_eq]
    by_cases hnil : sizes = []
    · subst hnil
      rfl
    rw [if_neg hnil]
    by_cases hrest : 8 < capacity - 8 - totalFor sizes
    · have hleft : leftover (totalFor sizes) ⟨headerSize, capacity - headerSize⟩ =
          some ⟨8 + totalFor sizes, capacity - 8 - totalFor sizes⟩ := if_pos hrest
      rw [hleft, if_pos (Or.inr hrest)]
      rfl
    · have hleft : leftover (totalFor sizes) ⟨headerSize, capacity - headerSize⟩ = none :=
        if_neg hrest
      rw [hleft, if_neg (not_or.2 ⟨hnil, hrest⟩)]
      rfl

/-- Three blocks of nine, eight and fourteen bytes in an arena that has 32 behind its header: the
last one takes the byte that is left. -/
theorem serves_all_of_totalFor_lt_of_three :
    totalFor [5, 1, 10] = 31 ∧
      ∃ list', (new 40).allocEach [5, 1, 10] = .ok ([some 12, some 21, some 29], list') ∧
        list'.nodes = [] :=
  ⟨by decide, serves_all_of_totalFor_lt (by decide) (by decide) (by decide)⟩

end New

end ElasticCache.FreeList
