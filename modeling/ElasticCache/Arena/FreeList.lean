import ElasticCache.Fault
import ElasticCache.Bytes

/-!
# A best-fit allocator inside one byte array

The arena starts with a header of two words, its capacity and the offset of the first free node.
Free nodes hold their size and the offset of the next one, in ascending order. An allocated block
starts with a tag that holds its size, and its payload follows the tag. Offset zero is the header,
so it names no block and ends the list.

Every word an operation writes must lie in the arena, every offset it computes must fit a word, and
a walk along the list must end; otherwise the operation is a fault. An arena that was written to
from outside may reach one.
-/

namespace ElasticCache

/-- An arena of bytes with its free list inside it. -/
structure FreeList where
  /-- All bytes, header included. -/
  arena : ByteArray

/-- A node of the free list as it stands in the arena. -/
structure FreeNode where
  offset : Nat
  size : Nat
  /-- Offset of the next node, zero at the end of the list. -/
  next : Nat
  deriving DecidableEq, Repr

/-- Whether the link of a node can be addressed, so that a walk can go on from it. -/
def FreeNode.leadsOn (node : FreeNode) : Bool := node.offset + 4 < wordLimit

namespace FreeList

/-- Bytes of the arena header. -/
def headerSize : Nat := 8

/-- Bytes of a free node, which is also the smallest block. -/
def nodeSize : Nat := 8

/-- Bytes of the tag in front of every payload. -/
def tagSize : Nat := 4

/-- Arena size in bytes. -/
def capacity (list : FreeList) : Nat := list.arena.size

/-- The word at an offset, zero outside the arena. -/
def word (list : FreeList) (offset : Nat) : Nat := (Bytes.word? list.arena offset).getD 0

/-- Offset of the first free node. -/
def head (list : FreeList) : Nat := list.word 4

/-- Writes a word that must lie in the arena. -/
def putWord (list : FreeList) (offset value : Nat) : Except Fault FreeList :=
  if offset + 4 ≤ list.capacity then
    .ok ⟨Bytes.splice list.arena offset (Bytes.ofWord value)⟩
  else .error .outOfBounds

/-- Writes the two words of a free node. -/
def putNode (list : FreeList) (offset size next : Nat) : Except Fault FreeList := do
  let list ← list.putWord offset size
  list.putWord (offset + 4) next

/-- Makes the node at `previous`, or the header when that is zero, point to `target`. -/
def putLink (list : FreeList) (previous target : Nat) : Except Fault FreeList :=
  list.putWord (previous + 4) target

/-- The free node stored at an offset. -/
def nodeAt (list : FreeList) (offset : Nat) : FreeNode :=
  ⟨offset, list.word offset, list.word (offset + 4)⟩

/-- The nodes reached from an offset along the links, at most `count` of them. -/
def nodesFrom (list : FreeList) : (count offset : Nat) → List FreeNode
  | 0, _ => []
  | count + 1, offset =>
    if offset = 0 then [] else
      let node := list.nodeAt offset
      node :: list.nodesFrom count node.next

/-- The free nodes in list order. Of a list that leads back into itself they are one node more than
the arena has bytes, and any other list is shorter. -/
def nodes (list : FreeList) : List FreeNode := list.nodesFrom (list.capacity + 1) list.head

/-- The nodes that a walk along the list passes before the first one that it stops at. The walk must
end, and it must be able to address the links on its way. -/
def passed (list : FreeList) (stops : FreeNode → Bool) : Except Fault (List FreeNode) := do
  let nodes := list.nodes.takeWhile (!stops ·)
  if !nodes.all (·.leadsOn) then throw .overflow
  if list.capacity < nodes.length then throw .endless
  return nodes

/-- An arena with one free node that spans everything behind the header. -/
def fresh (capacity : Nat) : FreeList :=
  let header := Bytes.ofWord capacity ++ Bytes.ofWord headerSize
  let node := Bytes.ofWord (capacity - headerSize) ++ Bytes.ofWord 0
  ⟨Bytes.splice (Bytes.zeros capacity) 0 (header ++ node)⟩

/-- A new arena. A capacity too small for the header and one node is rounded up. -/
def new (capacity : Nat) : FreeList := fresh (max capacity (headerSize + nodeSize))

/-- The arena zeroed, with one free node. -/
def clear (list : FreeList) : FreeList := fresh list.capacity

/-- Takes over an arena whose header describes it, and refuses any other. -/
def ofArena? (arena : ByteArray) : Option FreeList :=
  let list : FreeList := ⟨arena⟩
  let head := list.head
  if arena.size < headerSize + nodeSize ∨ wordLimit ≤ arena.size then none
  else if list.word 0 ≠ arena.size then none
  else if head ≠ 0 ∧ (head < headerSize ∨ arena.size ≤ head) then none
  else some list

/-- Block size that serves a payload of `size` bytes. -/
def blockSizeFor (size : Nat) : Nat := max (size + tagSize) nodeSize

/-- The first among the smallest nodes of at least `need` bytes, with the offset of the node
before it. -/
def bestFit (need previous : Nat) : List FreeNode → Option (Nat × FreeNode)
  | [] => none
  | node :: rest =>
    match bestFit need node.offset rest with
    | none => if need ≤ node.size then some (previous, node) else none
    | some (before, best) =>
      if need ≤ node.size ∧ node.size ≤ best.size then some (previous, node)
      else some (before, best)

/-- Allocates a payload and answers its offset. The nodes are walked until one fits exactly, and the
chosen node is split when more than a node's worth of bytes is left over. -/
def alloc (list : FreeList) (size : Nat) : Except Fault (Option Nat × FreeList) := do
  if wordLimit ≤ size + tagSize then return (none, list)
  else
    let need := blockSizeFor size
    let _ ← list.passed (·.size = need)
    match bestFit need 0 list.nodes with
    | none => return (none, list)
    | some (previous, node) =>
      let rest := node.size - need
      let (block, replacement, list) ←
        if nodeSize < rest then do
          let split ← fitWord (node.offset + need)
          let list ← list.putNode split rest node.next
          pure (need, split, list)
        else pure (node.size, node.next, list)
      let list ← list.putLink previous replacement
      let list ← list.putWord node.offset block
      let payload ← fitWord (node.offset + tagSize)
      return (some payload, list)

/-- Joins the node of `size` bytes at `first` with the node at `second` when they touch. -/
def mergeNodes (list : FreeList) (first size second : Nat) : Except Fault FreeList := do
  if first = 0 ∨ second = 0 then return list
  let endOfFirst ← fitWord (first + size)
  if endOfFirst = second then
    let merged ← fitWord (size + list.word second)
    list.putNode first merged (list.word (second + 4))
  else return list

/-- Releases the block whose payload starts at `offset`. Answers `false` and keeps the arena when
the tag there cannot be that of a block, or the block overlaps a free node. -/
def free (list : FreeList) (offset : Nat) : Except Fault (Bool × FreeList) := do
  if offset < headerSize + tagSize ∨ list.capacity ≤ offset then return (false, list)
  let block := offset - tagSize
  let size := list.word block
  if size < nodeSize ∨ list.capacity < block + size then return (false, list)
  let before ← list.passed (block ≤ ·.offset)
  let previous := before.getLast?.elim 0 (·.offset)
  let next := before.getLast?.elim list.head (·.next)
  if next ≠ 0 ∧ next < block + size then return (false, list)
  if previous ≠ 0 then
    let endOfPrevious ← fitWord (previous + list.word previous)
    if block < endOfPrevious then return (false, list)
  let list ← list.putNode block size next
  let list ← list.putLink previous block
  let list ← list.mergeNodes block size next
  let list ← list.mergeNodes previous (list.word previous) block
  return (true, list)

/-- Largest payload that one allocation can take now. -/
def maxAllocSize (list : FreeList) : Nat :=
  (list.nodes.map fun node => node.size - tagSize).foldl max 0

/-- Bytes in free nodes. -/
def remainingSize (list : FreeList) : Nat := sumSizes (list.nodes.map (·.size))

/-- Number of free nodes. -/
def freeNodes (list : FreeList) : Nat := list.nodes.length

/-- What a walk along the free list finds. -/
structure Survey where
  /-- Bytes in free nodes. -/
  remaining : Nat
  /-- Largest payload that one allocation can take. -/
  largest : Nat
  nodes : Nat
  deriving DecidableEq, Repr

/-- Walks along the free list to its end. The bytes found must fit a word. -/
def survey (list : FreeList) : Except Fault Survey := do
  let _ ← list.passed fun _ => false
  return ⟨← fitWord list.remainingSize, list.maxAllocSize, list.freeNodes⟩

/-- Payload bytes of the block whose payload starts at `offset`, read from its tag. -/
def blockSize? (list : FreeList) (offset : Nat) : Option Nat :=
  if offset < tagSize + headerSize then none
  else do
    let tag ← Bytes.word? list.arena (offset - tagSize)
    if tag < tagSize then none else some (tag - tagSize)

/-- The `len` bytes at `offset`. -/
def bytes? (list : FreeList) (offset len : Nat) : Option ByteArray :=
  Bytes.slice? list.arena offset len

/-- Overwrites the bytes at `offset`, or nothing when they do not all lie in the arena. -/
def write? (list : FreeList) (offset : Nat) (part : ByteArray) : Option FreeList :=
  if offset + part.size ≤ list.capacity then some ⟨Bytes.splice list.arena offset part⟩ else none

/-- A one-line summary of the arena. -/
def summary (list : FreeList) : Except Fault String := do
  let found ← list.survey
  return s!"FreeList \x7b capacity: {list.capacity}, remaining: {found.remaining}, " ++
    s!"free_nodes: {found.nodes} \x7d"

end FreeList

end ElasticCache
