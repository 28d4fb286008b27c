import ElasticCache.Arena.Slab

/-!
# The size of an arena

The allocator writes words inside its arena and nothing else, whatever these words are. So no
operation on a slab changes its size, and what its records take is never more than that.
-/

namespace ElasticCache

namespace FreeList

variable {list list' : FreeList} {offset size : Nat}

/-- A word that is written keeps the size of the arena. -/
theorem capacity_of_putWord {value : Nat} (h : list.putWord offset value = .ok list') :
    list'.capacity = list.capacity := by
  unfold putWord at h
  split at h
  next hle =>
    obtain rfl := Except.ok.inj h
    exact Bytes.size_splice hle
  next => cases h

/-- Writing a node keeps the capacity. -/
theorem capacity_of_putNode {next : Nat} (h : list.putNode offset size next = .ok list') :
    list'.capacity = list.capacity := by
  obtain ⟨list₁, hfirst, hsecond⟩ := bind_eq_ok_iff.1 h
  exact (capacity_of_putWord hsecond).trans (capacity_of_putWord hfirst)

/-- Merging two nodes keeps the size of the arena. -/
theorem capacity_of_mergeNodes {first second : Nat}
    (h : list.mergeNodes first size second = .ok list') : list'.capacity = list.capacity := by
  unfold mergeNodes at h
  split at h
  next => rw [Except.ok.inj h]
  next =>
    obtain ⟨endOfFirst, _, h⟩ := bind_eq_ok_iff.1 h
    split at h
    next =>
      obtain ⟨merged, _, h⟩ := bind_eq_ok_iff.1 h
      exact capacity_of_putNode h
    next => rw [Except.ok.inj h]

/-- The end of an allocation writes a link and a tag. -/
theorem capacity_of_linked {previous replacement block : Nat} {payload? : Option Nat}
    (h : (do
      let list ← list.putLink previous replacement
      let list ← list.putWord offset block
      let payload ← fitWord (offset + tagSize)
      return (some payload, list) : Except Fault (Option Nat × FreeList)) = .ok (payload?, list')) :
    list'.capacity = list.capacity := by
  obtain ⟨list₁, hlink, h⟩ := bind_eq_ok_iff.1 h
  obtain ⟨list₂, htag, h⟩ := bind_eq_ok_iff.1 h
  obtain ⟨payload, _, h⟩ := bind_eq_ok_iff.1 h
  obtain ⟨_, rfl⟩ := Prod.mk.inj (Except.ok.inj h)
  exact (capacity_of_putWord htag).trans (capacity_of_putWord hlink)

/-- An allocation keeps the size of the arena, whether it succeeds or not. -/
theorem capacity_of_alloc {payload? : Option Nat} (h : list.alloc size = .ok (payload?, list')) :
    list'.capacity = list.capacity := by
  unfold alloc at h
  split at h
  next => rw [(Prod.mk.inj (Except.ok.inj h)).2]
  next =>
    obtain ⟨_, _, h⟩ := bind_eq_ok_iff.1 h
    dsimp only at h
    split at h
    next => rw [(Prod.mk.inj (Except.ok.inj h)).2]
    next =>
      split at h
      next =>
        obtain ⟨split, _, h⟩ := bind_eq_ok_iff.1 h
        obtain ⟨list₁, hnode, h⟩ := bind_eq_ok_iff.1 h
        exact (capacity_of_linked h).trans (capacity_of_putNode hnode)
      next => exact capacity_of_linked h

/-- The end of a release writes a node, links it and joins it to its neighbours. -/
theorem capacity_of_joined {block previous next : Nat} {freed : Bool}
    (h : (do
      let list ← list.putNode block size next
      let list ← list.putLink previous block
      let list ← list.mergeNodes block size next
      let list ← list.mergeNodes previous (list.word previous) block
      return (true, list) : Except Fault (Bool × FreeList)) = .ok (freed, list')) :
    list'.capacity = list.capacity := by
  obtain ⟨list₁, hnode, h⟩ := bind_eq_ok_iff.1 h
  obtain ⟨list₂, hlink, h⟩ := bind_eq_ok_iff.1 h
  obtain ⟨list₃, hbehind, h⟩ := bind_eq_ok_iff.1 h
  obtain ⟨list₄, hbefore, h⟩ := bind_eq_ok_iff.1 h
  obtain ⟨_, rfl⟩ := Prod.mk.inj (Except.ok.inj h)
  calc list₄.capacity
    _ = list₃.capacity := capacity_of_mergeNodes hbefore
    _ = list₂.capacity := capacity_of_mergeNodes hbehind
    _ = list₁.capacity := capacity_of_putWord hlink
    _ = list.capacity := capacity_of_putNode hnode

/-- A release keeps the size of the arena, whether it is accepted or not. -/
theorem capacity_of_free {freed : Bool} (h : list.free offset = .ok (freed, list')) :
    list'.capacity = list.capacity := by
  unfold free at h
  split at h
  next => rw [(Prod.mk.inj (Except.ok.inj h)).2]
  dsimp only at h
  split at h
  next => rw [(Prod.mk.inj (Except.ok.inj h)).2]
  obtain ⟨before, _, h⟩ := bind_eq_ok_iff.1 h
  split at h
  next => rw [(Prod.mk.inj (Except.ok.inj h)).2]
  split at h
  next =>
    obtain ⟨endOfPrevious, _, h⟩ := bind_eq_ok_iff.1 h
    split at h
    next => rw [(Prod.mk.inj (Except.ok.inj h)).2]
    next => exact capacity_of_joined h
  next => exact capacity_of_joined h

/-- Bytes that are written keep the size of the arena. -/
theorem capacity_of_write? {part : ByteArray} (h : list.write? offset part = some list') :
    list'.capacity = list.capacity := by
  unfold write? at h
  split at h
  next hle =>
    obtain rfl := Option.some.inj h
    exact Bytes.size_splice hle
  next => cases h

/-- A new arena with room for a node has the size that was asked for. -/
theorem capacity_new (h : headerSize + nodeSize ≤ size) : (new size).capacity = size := by
  have hparts : (Bytes.ofWord size ++ Bytes.ofWord headerSize ++
      (Bytes.ofWord (size - headerSize) ++ Bytes.ofWord 0)).size = headerSize + nodeSize := by
    simp only [ByteArray.size_append, Bytes.size_ofWord, headerSize, nodeSize]
  unfold new
  rw [Nat.max_eq_left h, capacity, fresh, Bytes.size_splice, Bytes.size_zeros]
  rwa [Bytes.size_zeros, Nat.zero_add, hparts]

end FreeList

namespace Slab

variable {slab slab' : Slab} {key value : ByteArray} {offset : Nat}

/-- A slab that takes a record keeps its size. -/
theorem size_of_insert (h : slab.insert key value = some (offset, slab')) :
    slab'.size = slab.size := by
  rw [insert, Option.bind_eq_bind, Option.bind_eq_some_iff] at h
  obtain ⟨size, _, h⟩ := h
  split at h
  next payload arena₁ halloc =>
    obtain ⟨arena₂, hwrite, h⟩ := Option.bind_eq_some_iff.1 h
    obtain ⟨_, rfl⟩ := Prod.mk.inj (Option.some.inj h)
    exact (FreeList.capacity_of_write? hwrite).trans (FreeList.capacity_of_alloc halloc)
  next => cases h

/-- A removal keeps the size of its slab. -/
theorem size_remove (slab : Slab) (offset : Nat) : (slab.remove offset).2.size = slab.size := by
  unfold remove
  split
  next =>
    dsimp only
    split
    next freed arena hfree => exact FreeList.capacity_of_free hfree
    next => rfl
  next => rfl

/-- A new slab with room for a node has the size that was asked for. -/
theorem size_new (id : Nat) {size : Nat} (h : FreeList.headerSize + FreeList.nodeSize ≤ size) :
    (new id size).size = size := FreeList.capacity_new h

/-- A slab has no more bytes in use than it has. -/
theorem used_le_size (slab : Slab) : slab.used ≤ slab.size := by
  unfold used
  omega

end Slab

end ElasticCache
