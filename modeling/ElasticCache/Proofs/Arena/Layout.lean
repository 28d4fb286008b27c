import ElasticCache.Arena.FreeList
import Mathlib.Algebra.GroupWithZero.Nat
import Mathlib.Data.List.Chain

/-!
# Layouts of an arena

What an arena holds behind its header is a sequence of pieces, each a live block or a gap, that
stand one behind the other. This file is about such sequences alone: where the pieces lie, and that
the gaps of a coalesced layout are the maximal gaps between its blocks.
-/

namespace ElasticCache

/-- Sizes are summed up as any list of numbers is. -/
theorem sumSizes_eq_sum (sizes : List Nat) : sumSizes sizes = sizes.sum := rfl

/-- Some bytes of an arena. -/
structure Extent where
  offset : Nat
  size : Nat
  deriving DecidableEq, Repr

namespace Extent

/-- The first offset behind an extent. -/
def stop (e : Extent) : Nat := e.offset + e.size

/-- Offset of the payload when the extent is a block: the tag comes first. -/
def payload (e : Extent) : Nat := e.offset + FreeList.tagSize

end Extent

/-- A piece of an arena. -/
inductive Piece where
  /-- A live block, tag included. -/
  | block (e : Extent)
  /-- Bytes that belong to no block. -/
  | gap (e : Extent)
  deriving DecidableEq, Repr

namespace Piece

def extent : Piece → Extent
  | .block e => e
  | .gap e => e

def block? : Piece → Option Extent
  | .block e => some e
  | .gap _ => none

def gap? : Piece → Option Extent
  | .block _ => none
  | .gap e => some e

end Piece

/-- The live blocks of a layout, in ascending order. -/
def blocks (layout : List Piece) : List Extent := layout.filterMap Piece.block?

/-- The gaps of a layout, in ascending order. -/
def gaps (layout : List Piece) : List Extent := layout.filterMap Piece.gap?

/-- Extents that stand one behind the other from `start` to `stop`. -/
def Tiles : (start : Nat) → List Extent → (stop : Nat) → Prop
  | start, [], stop => start = stop
  | start, e :: rest, stop => e.offset = start ∧ Tiles e.stop rest stop

/-- No gap stands right behind another one. -/
def Coalesced (layout : List Piece) : Prop :=
  layout.IsChain fun p q => p.gap? = none ∨ q.gap? = none

/-- A maximal gap that live blocks leave between `start` and `stop`: it has bytes, none of them is
in a block, and at either end there is a block or the bound. -/
structure IsGap (live : List Extent) (start stop : Nat) (e : Extent) : Prop where
  size_pos : 0 < e.size
  start_le : start ≤ e.offset
  stop_le : e.stop ≤ stop
  apart : ∀ b ∈ live, b.stop ≤ e.offset ∨ e.stop ≤ b.offset
  begins : e.offset = start ∨ ∃ b ∈ live, b.stop = e.offset
  ends : e.stop = stop ∨ ∃ b ∈ live, b.offset = e.stop

section Pieces

variable {P S layout : List Piece} {e : Extent}

/-- The blocks of two layouts one behind the other are the blocks of both. -/
@[simp] theorem blocks_append : blocks (P ++ S) = blocks P ++ blocks S := List.filterMap_append

/-- The gaps of two layouts one behind the other are the gaps of both. -/
@[simp] theorem gaps_append : gaps (P ++ S) = gaps P ++ gaps S := List.filterMap_append

/-- An empty layout has no blocks. -/
@[simp] theorem blocks_nil : blocks [] = [] := rfl

/-- An empty layout has no gaps. -/
@[simp] theorem gaps_nil : gaps [] = [] := rfl

/-- A block at the start is the first block. -/
@[simp] theorem blocks_block : blocks (.block e :: S) = e :: blocks S := rfl

/-- A gap at the start is not among the blocks. -/
@[simp] theorem blocks_gap : blocks (.gap e :: S) = blocks S := rfl

/-- A block at the start is not among the gaps. -/
@[simp] theorem gaps_block : gaps (.block e :: S) = gaps S := rfl

/-- A gap at the start is the first gap. -/
@[simp] theorem gaps_gap : gaps (.gap e :: S) = e :: gaps S := rfl

/-- The blocks are those pieces that are blocks. -/
theorem mem_blocks : e ∈ blocks layout ↔ .block e ∈ layout := by
  simp only [blocks, List.mem_filterMap]
  constructor
  · rintro ⟨p, hp, hblock⟩
    cases p with
    | block b => rwa [← Option.some.inj hblock]
    | gap g => cases hblock
  · exact fun h => ⟨_, h, rfl⟩

/-- The gaps are those pieces that are gaps. -/
theorem mem_gaps : e ∈ gaps layout ↔ .gap e ∈ layout := by
  simp only [gaps, List.mem_filterMap]
  constructor
  · rintro ⟨p, hp, hgap⟩
    cases p with
    | block b => cases hgap
    | gap g => rwa [← Option.some.inj hgap]
  · exact fun h => ⟨_, h, rfl⟩

/-- A layout can be taken apart at each of its gaps. -/
theorem exists_of_gaps_eq {G H : List Extent} (h : gaps layout = G ++ e :: H) :
    ∃ P S, layout = P ++ .gap e :: S ∧ gaps P = G ∧ gaps S = H := by
  obtain ⟨P, rest, rfl, hP, hrest⟩ := List.filterMap_eq_append_iff.1 h
  obtain ⟨skipped, p, S, rfl, hskipped, hp, hS⟩ := List.filterMap_eq_cons_iff.1 hrest
  cases p with
  | block b => cases hp
  | gap g =>
    obtain rfl := Option.some.inj hp
    refine ⟨P ++ skipped, S, by rw [List.append_assoc], ?_, hS⟩
    have hnone : gaps skipped = [] := List.filterMap_eq_nil_iff.2 hskipped
    rw [gaps_append, hnone, List.append_nil]
    exact hP

/-- Blocks and gaps together are the extents of all pieces. -/
theorem blocks_append_gaps_perm (layout : List Piece) :
    (blocks layout ++ gaps layout).Perm (layout.map Piece.extent) := by
  induction layout with
  | nil => exact List.Perm.nil
  | cons p rest ih =>
    cases p with
    | block b => exact ih.cons b
    | gap g => exact List.perm_middle.trans (ih.cons g)

end Pieces

/-! ## Where the pieces lie -/

section Tiles

variable {start middle stop : Nat} {E F : List Extent}

/-- Two tilings make one when the second starts where the first one stops. -/
theorem Tiles.append (h : Tiles start E middle) (h' : Tiles middle F stop) :
    Tiles start (E ++ F) stop := by
  induction E generalizing start with
  | nil => rwa [show start = middle from h]
  | cons e rest ih => exact ⟨h.1, ih h.2⟩

/-- A tiling can be cut between any two of its extents. -/
theorem Tiles.of_append (h : Tiles start (E ++ F) stop) :
    ∃ middle, Tiles start E middle ∧ Tiles middle F stop := by
  induction E generalizing start with
  | nil => exact ⟨start, rfl, h⟩
  | cons e rest ih =>
    obtain ⟨middle, hrest, hF⟩ := ih h.2
    exact ⟨middle, ⟨h.1, hrest⟩, hF⟩

/-- A tiling does not stop before it starts. -/
theorem Tiles.start_le_stop (h : Tiles start E stop) : start ≤ stop := by
  induction E generalizing start with
  | nil => exact Nat.le_of_eq h
  | cons e rest ih =>
    have hrest := ih h.2
    have hoffset := h.1
    simp only [Extent.stop] at hrest
    omega

/-- Every extent of a tiling lies between its bounds. -/
theorem Tiles.bounds (h : Tiles start E stop) {e : Extent} (he : e ∈ E) :
    start ≤ e.offset ∧ e.stop ≤ stop := by
  obtain ⟨before, behind, rfl⟩ := List.append_of_mem he
  obtain ⟨middle, hbefore, hoffset, hbehind⟩ := h.of_append
  have hle := hbefore.start_le_stop
  exact ⟨by omega, hbehind.start_le_stop⟩

/-- The extents of a tiling add up to what it spans. -/
theorem Tiles.sum_sizes (h : Tiles start E stop) :
    start + (E.map (·.size)).sum = stop := by
  induction E generalizing start with
  | nil => exact h
  | cons e rest ih =>
    have hrest := ih h.2
    have hoffset := h.1
    simp only [Extent.stop] at hrest
    simp only [List.map_cons, List.sum_cons]
    omega

/-- Extents of a tiling stand in ascending order, each behind the one before. -/
theorem Tiles.pairwise (h : Tiles start E stop) : E.Pairwise fun e f => e.stop ≤ f.offset := by
  induction E generalizing start with
  | nil => exact List.Pairwise.nil
  | cons e rest ih => exact List.Pairwise.cons (fun f hf => (h.2.bounds hf).1) (ih h.2)

/-- Every byte that a tiling spans is in one of its extents. -/
theorem Tiles.exists_mem (h : Tiles start E stop) {i : Nat} (hstart : start ≤ i)
    (hstop : i < stop) :
    ∃ e ∈ E, e.offset ≤ i ∧ i < e.stop := by
  induction E generalizing start with
  | nil =>
    have heq : start = stop := h
    omega
  | cons e rest ih =>
    by_cases hi : i < e.stop
    · exact ⟨e, List.mem_cons_self, by have := h.1; omega, hi⟩
    · obtain ⟨f, hf, hbounds⟩ := ih h.2 (by omega)
      exact ⟨f, List.mem_cons_of_mem _ hf, hbounds⟩

end Tiles

/-! ## Coalesced layouts -/

section Coalesced

variable {P S : List Piece} {b e g : Extent}

/-- A block separates what stands on either side of it. -/
theorem coalesced_block_iff :
    Coalesced (P ++ .block b :: S) ↔ Coalesced P ∧ Coalesced S := by
  simp only [Coalesced, List.isChain_append, List.isChain_cons]
  constructor
  · rintro ⟨hP, ⟨_, hS⟩, _⟩
    exact ⟨hP, hS⟩
  · rintro ⟨hP, hS⟩
    refine ⟨hP, ⟨fun _ _ => .inl rfl, hS⟩, fun p _ q hq => .inr ?_⟩
    obtain rfl := Option.some.inj hq
    rfl

/-- It does not matter which bytes a gap has. -/
theorem Coalesced.replace_gap (h : Coalesced (P ++ .gap g :: S)) :
    Coalesced (P ++ .gap e :: S) := by
  simp only [Coalesced, List.isChain_append, List.isChain_cons] at *
  obtain ⟨hP, ⟨hhead, hS⟩, hseam⟩ := h
  have hhead' (q : Piece) (hq : q ∈ S.head?) : q.gap? = none :=
    (hhead q hq).resolve_left (Option.some_ne_none g)
  have hseam' (p : Piece) (hp : p ∈ P.getLast?) : p.gap? = none :=
    (hseam p hp (.gap g) rfl).resolve_right (Option.some_ne_none g)
  exact ⟨hP, ⟨fun q hq => .inr (hhead' q hq), hS⟩, fun p hp _ _ => .inl (hseam' p hp)⟩

/-- The pieces on either side of a gap are coalesced, also together with the gap. -/
theorem Coalesced.of_gap (h : Coalesced (P ++ .gap g :: S)) :
    Coalesced P ∧ Coalesced (.gap g :: S) ∧ Coalesced S := by
  have hboth := List.isChain_append.1 h
  exact ⟨hboth.1, hboth.2.1, (List.isChain_cons.1 hboth.2.1).2⟩

/-- A gap behind which no gap stands. -/
theorem Coalesced.cons_gap (h : Coalesced S) (hhead : ∀ c S', S ≠ .gap c :: S') :
    Coalesced (.gap e :: S) := by
  refine List.isChain_cons.2 ⟨fun p hp => .inr ?_, h⟩
  cases S with
  | nil => cases hp
  | cons q S' =>
    obtain rfl := Option.some.inj hp
    cases q with
    | block b => rfl
    | gap c => exact absurd rfl (hhead c S')

/-- A gap before which no gap stands. -/
theorem Coalesced.append_gap (h : Coalesced P) (hS : Coalesced (.gap e :: S))
    (hlast : ∀ P' a, P ≠ P' ++ [.gap a]) : Coalesced (P ++ .gap e :: S) := by
  refine List.isChain_append.2 ⟨h, hS, fun p hp q _ => .inl ?_⟩
  obtain ⟨P', rfl⟩ := List.getLast?_eq_some_iff.1 hp
  cases p with
  | block b => rfl
  | gap a => exact absurd rfl (hlast P' a)

end Coalesced

/-! ## Gaps of a coalesced layout -/

section Gaps

variable {start stop : Nat} {layout P S : List Piece} {e : Extent}

/-- A gap of a coalesced layout has a block or the bound on either side. Another gap there would
have been joined with it. -/
theorem isGap_of_mem_gaps (htiles : Tiles start (layout.map Piece.extent) stop)
    (hpos : ∀ p ∈ layout, 0 < p.extent.size) (hcoalesced : Coalesced layout)
    (he : e ∈ gaps layout) : IsGap (blocks layout) start stop e := by
  obtain ⟨P, S, rfl⟩ := List.append_of_mem (mem_gaps.1 he)
  rw [List.map_append] at htiles
  obtain ⟨middle, hP, hoffset, hS⟩ := htiles.of_append
  have hbefore := hP.start_le_stop
  have hbehind := hS.start_le_stop
  obtain ⟨_, hcoalescedS, hseam⟩ := List.isChain_append.1 hcoalesced
  refine ⟨hpos _ (List.mem_append_right _ List.mem_cons_self), ?_, hbehind, ?_, ?_, ?_⟩
  · have : e.offset = middle := hoffset
    omega
  · intro b hb
    rw [blocks_append, blocks_gap, List.mem_append, mem_blocks, mem_blocks] at hb
    rcases hb with hb | hb
    · left
      have hle := (hP.bounds (List.mem_map_of_mem hb)).2
      rwa [show middle = e.offset from hoffset.symm] at hle
    · right
      exact (hS.bounds (List.mem_map_of_mem hb)).1
  · rcases List.eq_nil_or_concat P with rfl | ⟨P', p, rfl⟩
    · left
      exact hoffset.trans (show start = middle from hP).symm
    · right
      rcases hseam p (by simp) (.gap e) rfl with hp | hp
      · cases p with
        | block b =>
          refine ⟨b, by simp, ?_⟩
          rw [List.concat_eq_append, List.map_append] at hP
          obtain ⟨_, _, _, hb⟩ := hP.of_append
          exact Eq.trans hb hoffset.symm
        | gap g => cases hp
      · cases hp
  · cases S with
    | nil =>
      left
      exact hS
    | cons p S' =>
      right
      rcases (List.isChain_cons_cons.1 hcoalescedS).1 with hp | hp
      · cases hp
      · cases p with
        | block b => exact ⟨b, by simp, hS.1⟩
        | gap g => cases hp

/-- A maximal gap between the blocks is a piece of the layout: it shares a byte with one, and
neither reaches beyond the other at either end, as a block that begins or ends inside the gap would
share a byte with it. -/
theorem mem_gaps_of_isGap (htiles : Tiles start (layout.map Piece.extent) stop)
    (hpos : ∀ p ∈ layout, 0 < p.extent.size) (hcoalesced : Coalesced layout)
    (he : IsGap (blocks layout) start stop e) : e ∈ gaps layout := by
  obtain ⟨hsize, hstart, hstop, hapart, hbegins, hends⟩ := he
  obtain ⟨_, hmem, hlow, hhigh⟩ := htiles.exists_mem hstart
    (show e.offset < stop by simp only [Extent.stop] at hstop; omega)
  obtain ⟨p, hp, rfl⟩ := List.mem_map.1 hmem
  cases p with
  | block b =>
    have hb := hapart b (mem_blocks.2 hp)
    simp only [Piece.extent, Extent.stop] at hlow hhigh hb
    omega
  | gap g =>
    have hg := mem_gaps.2 hp
    have hgap := isGap_of_mem_gaps htiles hpos hcoalesced hg
    have hclear := hgap.apart
    have hbounds := htiles.bounds hmem
    have hblock (b : Extent) (hb : b ∈ blocks layout) : 0 < b.size :=
      hpos _ (mem_blocks.1 hb)
    simp only [Piece.extent, Extent.stop] at hlow hhigh hbounds hstop hapart hbegins hends hclear
    have hoffset : g.offset = e.offset := by
      rcases hbegins with h | ⟨b, hb, h⟩
      · omega
      · have hbpos := hblock b hb
        have hbclear := hclear b hb
        omega
    have hle : g.offset + g.size ≤ e.offset + e.size := by
      rcases hends with h | ⟨b, hb, h⟩
      · omega
      · have hbpos := hblock b hb
        have hbclear := hclear b hb
        omega
    have hge : e.offset + e.size ≤ g.offset + g.size := by
      rcases hgap.ends with h | ⟨b, hb, h⟩
      · simp only [Extent.stop] at h
        omega
      · have hbpos := hblock b hb
        have hbapart := hapart b hb
        simp only [Extent.stop] at h
        omega
    have heq : g = e := by
      cases g
      cases e
      simp only [Extent.mk.injEq] at *
      omega
    rwa [← heq]

end Gaps

end ElasticCache
