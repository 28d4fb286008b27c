import ElasticCache.Bytes
import ElasticCache.Error
import ElasticCache.Fault

/-!
# Frames of the client protocol

A block is a length in four bytes, least significant first, and that many bytes. A request is a
letter and one or two blocks: `g` and a key, or `s`, a key and a value. The reply to a write is one
byte. The reply to a read is a block, empty when the key is absent.

Bytes arrive in pieces that need not end where frames do. What is read depends on the bytes alone.
A read that fails leaves nothing to be read.
-/

namespace ElasticCache

/-- What a client asks for. -/
inductive Request where
  | get (key : ByteArray)
  | set (key value : ByteArray)

/-- The key of a request. -/
def Request.key : Request → ByteArray
  | .get key => key
  | .set key _ => key

/-- The longest blocks that are accepted. -/
structure FrameLimits where
  maxKeySize : Nat
  maxValueSize : Nat
  deriving DecidableEq, Repr

namespace Wire

/-- First byte of a request to read. -/
def getLetter : UInt8 := 'g'.toUInt8

/-- First byte of a request to write. -/
def setLetter : UInt8 := 's'.toUInt8

/-! ## Writing -/

/-- A block. Its length must fit its four bytes. -/
def block (what : String) (bytes : ByteArray) : Except Error ByteArray :=
  if bytes.size < wordLimit then .ok (Bytes.ofWord bytes.size ++ bytes)
  else .error (.protocol s!"{what} of {bytes.size} bytes cannot be framed")

/-- The frame of a request. -/
def encode : Request → Except Error ByteArray
  | .get key => do return ByteArray.empty.push getLetter ++ (← block "Block" key)
  | .set key value => do
    return ByteArray.empty.push setLetter ++ (← block "Block" key) ++ (← block "Block" value)

/-- The reply to a write. -/
def setReply (stored : Bool) : ByteArray := ByteArray.empty.push (if stored then 1 else 0)

/-- The reply to a read. An absent key reads as an empty value. -/
def getReply (value? : Option ByteArray) : Except Error ByteArray :=
  block "Value" (value?.getD .empty)

/-! ## Pieces -/

/-- The bytes of a connection that were not read yet, in the pieces they arrive in. -/
abbrev Incoming := List (List UInt8)

/-- Takes `n` bytes, across pieces if need be. -/
def takeBytes (n : Nat) : Incoming → Option (List UInt8 × Incoming)
  | [] => if n = 0 then some ([], []) else none
  | piece :: pieces =>
    if n ≤ piece.length then some (piece.take n, piece.drop n :: pieces)
    else (takeBytes (n - piece.length) pieces).map fun (more, rest) => (piece ++ more, rest)

/-- What was taken and what is left are the bytes there were. -/
theorem flatten_takeBytes {n : Nat} {pieces rest : Incoming} {bytes : List UInt8}
    (h : takeBytes n pieces = some (bytes, rest)) :
    pieces.flatten = bytes ++ rest.flatten ∧ bytes.length = n := by
  induction pieces generalizing n bytes rest with
  | nil =>
    simp only [takeBytes] at h
    split at h <;> simp_all
  | cons piece pieces ih =>
    simp only [takeBytes] at h
    split at h
    next hle =>
      obtain ⟨rfl, rfl⟩ := by simpa using h
      simp [← List.append_assoc, hle]
    next hlt =>
      obtain ⟨⟨more, rest'⟩, htake, heq⟩ := Option.map_eq_some_iff.1 h
      obtain ⟨rfl, rfl⟩ := by simpa using heq
      obtain ⟨hflatten, hlength⟩ := ih htake
      simp only [List.flatten_cons, hflatten, List.append_assoc, List.length_append, hlength,
        true_and]
      omega

/-- Bytes can be taken exactly when there are enough. -/
theorem takeBytes_eq_none_iff {n : Nat} {pieces : Incoming} :
    takeBytes n pieces = none ↔ pieces.flatten.length < n := by
  induction pieces generalizing n with
  | nil =>
    simp only [takeBytes, List.flatten_nil, List.length_nil]
    split <;> simp <;> omega
  | cons piece pieces ih =>
    simp only [takeBytes, List.flatten_cons, List.length_append]
    split
    next hle =>
      simp only [reduceCtorEq, false_iff, Nat.not_lt]
      omega
    next hlt =>
      simp only [Option.map_eq_none_iff, ih]
      omega

/-! ## Reading -/

/-- A reader of the bytes of a connection. -/
abbrev Reading := StateT Incoming (Except Error)

/-- Reads `n` bytes. -/
def readBytes (n : Nat) : Reading (List UInt8) := fun pieces =>
  match takeBytes n pieces with
  | some result => .ok result
  | none => .error (.io .unexpectedEof)

/-- The number that bytes stand for, the least significant first. -/
def wordOf (bytes : List UInt8) : Nat := bytes.foldr (fun byte n => byte.toNat + 256 * n) 0

/-- Reads four bytes as a number. -/
def readWord : Reading Nat := wordOf <$> readBytes 4

/-- Reads a block of at most `max` bytes. A longer one is refused at its length. -/
def readBlock (max : Nat) (what : String) : Reading ByteArray := do
  let size ← readWord
  if max < size then throw (.protocol s!"{what} of {size} bytes exceeds the {max} byte limit")
  return ⟨⟨← readBytes size⟩⟩

/-- Two hexadecimal digits. -/
def hexByte (byte : UInt8) : String :=
  String.ofList [Nat.digitChar (byte.toNat / 16), Nat.digitChar (byte.toNat % 16)]

/-- Reads the blocks of a request with the given first byte. -/
def readBlocks (limits : FrameLimits) (letter : UInt8) : Reading Request := do
  if letter = getLetter then return .get (← readBlock limits.maxKeySize "Key")
  else if letter = setLetter then
    let key ← readBlock limits.maxKeySize "Key"
    return .set key (← readBlock limits.maxValueSize "Value")
  else throw (.protocol s!"Unknown opcode 0x{hexByte letter}")

/-- Reads a request. There is none at the end of the bytes. -/
def readRequest (limits : FrameLimits) : Reading (Option Request) := fun pieces =>
  match takeBytes 1 pieces with
  | some ([letter], rest) => (some <$> readBlocks limits letter) rest
  | _ => .ok (none, pieces)

/-- Reads the reply to a write. -/
def readSetReply : Reading Bool := do return (← readBytes 1) == [1]

/-- Reads the reply to a read. An empty value is an absent one. -/
def readGetReply : Reading (Option ByteArray) := do
  let size ← readWord
  if size = 0 then return none
  return some ⟨⟨← readBytes size⟩⟩

/-! ## Sequences of frames -/

/-- Whether a reader leaves at most the bytes it was given. -/
def NeverGrows {α : Type} (reading : Reading α) : Prop :=
  ∀ ⦃pieces rest : Incoming⦄ ⦃result : α⦄, reading pieces = .ok (result, rest) →
    rest.flatten.length ≤ pieces.flatten.length

/-- A result without reading leaves what there is to read. -/
theorem NeverGrows.pure {α : Type} (result : α) : NeverGrows (Pure.pure result) := by
  intro pieces rest result' h
  cases h
  exact Nat.le_refl _

/-- A failure reads nothing. -/
theorem NeverGrows.throw {α : Type} (e : Error) : NeverGrows (throw e : Reading α) := by
  intro pieces rest result h
  cases h

/-- Two readings one after the other leave no more than there was. -/
theorem NeverGrows.bind {α β : Type} {reading : Reading α} {next : α → Reading β}
    (hreading : NeverGrows reading) (hnext : ∀ a, NeverGrows (next a)) :
    NeverGrows (reading >>= next) := by
  intro pieces rest result h
  simp only [Bind.bind, StateT.bind, Except.bind] at h
  split at h
  next => contradiction
  next found hfound => exact Nat.le_trans (hnext _ h) (hreading hfound)

/-- Reading bytes leaves no more than there was. -/
theorem neverGrows_readBytes (n : Nat) : NeverGrows (readBytes n) := by
  intro pieces rest bytes h
  unfold readBytes at h
  split at h
  next result htake =>
    obtain rfl := Except.ok.inj h
    simp [(flatten_takeBytes htake).1]
  next => contradiction

/-- Nor does reading a block. -/
theorem neverGrows_readBlock (max : Nat) (what : String) : NeverGrows (readBlock max what) := by
  unfold readBlock readWord
  refine .bind (.bind (neverGrows_readBytes 4) fun _ => .pure _) fun size => ?_
  split
  · exact .bind (.throw _) fun _ => .bind (neverGrows_readBytes size) fun _ => .pure _
  · exact .bind (neverGrows_readBytes size) fun _ => .pure _

/-- Nor does reading the blocks of a request. -/
theorem neverGrows_readBlocks (limits : FrameLimits) (letter : UInt8) :
    NeverGrows (readBlocks limits letter) := by
  unfold readBlocks
  split
  · exact .bind (neverGrows_readBlock _ _) fun _ => .pure _
  · split
    · exact .bind (neverGrows_readBlock _ _) fun _ =>
        .bind (neverGrows_readBlock _ _) fun _ => .pure _
    · exact .throw _

/-- A request takes at least one byte. -/
theorem length_readRequest {limits : FrameLimits} {pieces rest : Incoming} {request : Request}
    (h : readRequest limits pieces = .ok (some request, rest)) :
    rest.flatten.length < pieces.flatten.length := by
  unfold readRequest at h
  split at h
  next letter rest' htake =>
    simp only [Functor.map, StateT.map, bind, Except.bind, pure, Except.pure] at h
    split at h
    next => contradiction
    next result hresult =>
      obtain ⟨_, rfl⟩ := by simpa using h
      have := neverGrows_readBlocks _ _ hresult
      have := (flatten_takeBytes htake).1
      simp only [this, List.length_append, List.length_singleton]
      omega
  next => simp at h

/-- The requests of a connection, and how they end: cleanly, or with the first frame that is refused
or incomplete. -/
def readRequests (limits : FrameLimits) (pieces : Incoming) : List Request × Except Error Unit :=
  match _h : readRequest limits pieces with
  | .error e => ([], .error e)
  | .ok (none, _) => ([], .ok ())
  | .ok (some request, rest) =>
    let (requests, ending) := readRequests limits rest
    (request :: requests, ending)
termination_by pieces.flatten.length
decreasing_by exact length_readRequest _h

/-- A reply of either kind. -/
inductive Reply where
  | stored (stored : Bool)
  | value (value? : Option ByteArray)

/-- Reads replies, each of the kind that its request calls for, and answers what is left. -/
def readReplies : (toWrites : List Bool) → Incoming → List (Except Error Reply) × Incoming
  | [], pieces => ([], pieces)
  | toWrite :: kinds, pieces =>
    let reading : Reading Reply :=
      if toWrite then Reply.stored <$> readSetReply else Reply.value <$> readGetReply
    let (reply, rest) : Except Error Reply × Incoming :=
      match reading pieces with
      | .ok (reply, rest) => (.ok reply, rest)
      | .error e => (.error e, [])
    let (replies, left) := readReplies kinds rest
    (reply :: replies, left)

end Wire

end ElasticCache
