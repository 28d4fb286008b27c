import ElasticCache.Wire.Frame

/-!
# What is read of frames

A reader takes the bytes of its frame and no others, however they arrive in pieces. A request that
is read is within the limits. A client that reads the replies to its requests one after the other
reads each of them as it was written, apart from an empty value, which it cannot tell from an absent
one.
-/

namespace ElasticCache.Wire

/-- A reader takes exactly these bytes, in whatever pieces they arrive, and answers a value. -/
def Reads {α : Type} (reading : Reading α) (bytes : List UInt8) (a : α) : Prop :=
  ∀ (pieces : Incoming) (more : List UInt8), pieces.flatten = bytes ++ more →
    ∃ rest, reading pieces = .ok (a, rest) ∧ rest.flatten = more

section Reads

variable {α β : Type} {reading : Reading α} {bytes bytes' : List UInt8} {a : α} {b : β}

/-- An answer without reading takes no bytes. -/
theorem Reads.pure (a : α) : Reads (pure a) [] a :=
  fun pieces _ hflatten => ⟨pieces, rfl, hflatten⟩

/-- Two readings one after the other take their bytes one behind the other. -/
theorem Reads.bind {next : α → Reading β} (h : Reads reading bytes a)
    (hnext : Reads (next a) bytes' b) : Reads (reading >>= next) (bytes ++ bytes') b := by
  intro pieces more hflatten
  rw [List.append_assoc] at hflatten
  obtain ⟨between, hread, hbetween⟩ := h pieces _ hflatten
  obtain ⟨rest, hread', hrest⟩ := hnext between more hbetween
  refine ⟨rest, ?_, hrest⟩
  change (do let result ← reading pieces; next result.1 result.2) = _
  rw [hread]
  exact hread'

/-- A change of the result takes the same bytes. -/
theorem Reads.map (h : Reads reading bytes a) (f : α → β) : Reads (f <$> reading) bytes (f a) := by
  intro pieces more hflatten
  obtain ⟨rest, hread, hrest⟩ := h pieces more hflatten
  refine ⟨rest, ?_, hrest⟩
  change (do let result ← reading pieces; Pure.pure (f result.1, result.2)) = _
  rw [hread]
  rfl

/-- As many bytes as are asked for are read. -/
theorem reads_readBytes (bytes : List UInt8) : Reads (readBytes bytes.length) bytes bytes := by
  intro pieces more hflatten
  cases htake : takeBytes bytes.length pieces with
  | none =>
    rw [takeBytes_eq_none_iff, hflatten, List.length_append] at htake
    omega
  | some result =>
    obtain ⟨taken, rest⟩ := result
    obtain ⟨htaken, hlength⟩ := flatten_takeBytes htake
    obtain ⟨rfl, rfl⟩ := List.append_inj (hflatten.symm.trans htaken) hlength.symm
    refine ⟨rest, ?_, rfl⟩
    rw [readBytes, htake]

/-- The four bytes of a word stand for it. -/
theorem wordOf_ofWord {n : Nat} (h : n < wordLimit) :
    wordOf (Bytes.ofWord n).data.toList = n := by
  simp only [wordLimit] at h
  simp only [wordOf, Bytes.ofWord, List.foldr_cons, List.foldr_nil, UInt8.toNat_ofNat']
  omega

/-- A word is read back. -/
theorem reads_readWord {n : Nat} (h : n < wordLimit) :
    Reads readWord (Bytes.ofWord n).data.toList n := by
  have hread := (reads_readBytes (Bytes.ofWord n).data.toList).map wordOf
  rw [wordOf_ofWord h] at hread
  exact hread

end Reads

/-! ## Requests -/

/-- The blocks of a request are within the limits. -/
def Accepts (limits : FrameLimits) : Request → Prop
  | .get key => key.size ≤ limits.maxKeySize
  | .set key value => key.size ≤ limits.maxKeySize ∧ value.size ≤ limits.maxValueSize

section Requests

variable {α β : Type} {pieces rest : Incoming}

/-- Two readings that succeed together do so one after the other. -/
theorem exists_of_bind {reading : Reading α} {next : α → Reading β} {b : β}
    (h : (reading >>= next) pieces = .ok (b, rest)) :
    ∃ a between, reading pieces = .ok (a, between) ∧ next a between = .ok (b, rest) := by
  obtain ⟨⟨a, between⟩, hread, hnext⟩ := bind_eq_ok_iff.1 h
  exact ⟨a, between, hread, hnext⟩

/-- A block that was read is within the limit. -/
theorem size_le_of_readBlock {max : Nat} {what : String} {bytes : ByteArray}
    (h : readBlock max what pieces = .ok (bytes, rest)) : bytes.size ≤ max := by
  obtain ⟨size, between, _, h⟩ := exists_of_bind h
  split at h
  next =>
    obtain ⟨_, _, hthrow, _⟩ := exists_of_bind h
    cases hthrow
  next hle =>
    obtain ⟨taken, rest', hread, h⟩ := exists_of_bind h
    obtain ⟨rfl, _⟩ := Prod.mk.inj (Except.ok.inj h)
    unfold readBytes at hread
    split at hread
    next result htake =>
      obtain rfl := Except.ok.inj hread
      obtain ⟨_, hlength⟩ := flatten_takeBytes htake
      change taken.length ≤ max
      omega
    next => cases hread

/-- A request that was read is within the limits. -/
theorem accepts_of_readBlocks {limits : FrameLimits} {letter : UInt8} {request : Request}
    (h : readBlocks limits letter pieces = .ok (request, rest)) : Accepts limits request := by
  unfold readBlocks at h
  split at h
  next =>
    obtain ⟨key, between, hkey, h⟩ := exists_of_bind h
    obtain ⟨rfl, _⟩ := Prod.mk.inj (Except.ok.inj h)
    exact size_le_of_readBlock hkey
  next =>
    split at h
    next =>
      obtain ⟨key, between, hkey, h⟩ := exists_of_bind h
      obtain ⟨value, between', hvalue, h⟩ := exists_of_bind h
      obtain ⟨rfl, _⟩ := Prod.mk.inj (Except.ok.inj h)
      exact ⟨size_le_of_readBlock hkey, size_le_of_readBlock hvalue⟩
    next => cases h

/-- A request that is read is within the limits. -/
theorem accepts_of_readRequest {limits : FrameLimits} {request : Request}
    (h : readRequest limits pieces = .ok (some request, rest)) : Accepts limits request := by
  unfold readRequest at h
  split at h
  next letter between _ =>
    obtain ⟨⟨found, rest'⟩, hblocks, h⟩ := bind_eq_ok_iff.1 h
    obtain ⟨hfound, _⟩ := Prod.mk.inj (Except.ok.inj h)
    obtain rfl := Option.some.inj hfound
    exact accepts_of_readBlocks hblocks
  next => cases h

/-- A first request that is read comes before the others. -/
theorem readRequests_of_some {limits : FrameLimits} {request : Request}
    (h : readRequest limits pieces = .ok (some request, rest)) :
    readRequests limits pieces =
      (request :: (readRequests limits rest).1, (readRequests limits rest).2) := by
  rw [readRequests]
  split <;> simp_all

/-- The requests end with what is not one. -/
theorem readRequests_of_none {limits : FrameLimits}
    (h : ∀ request rest, readRequest limits pieces ≠ .ok (some request, rest)) :
    (readRequests limits pieces).1 = [] := by
  rw [readRequests]
  split <;> simp_all

end Requests

/-! ## Replies -/

/-- The bytes of a reply. -/
def encodeReply : Reply → Except Error ByteArray
  | .stored stored => .ok (setReply stored)
  | .value value? => getReply value?

/-- The bytes of replies one after the other. -/
def encodeReplies (replies : List Reply) : Except Error ByteArray :=
  replies.foldlM (fun bytes reply => return bytes ++ (← encodeReply reply)) .empty

/-- A value as a client reads it. An empty one reads as an absent one. -/
def visible (value? : Option ByteArray) : Option ByteArray := value?.filter (·.size ≠ 0)

/-- The reader that a client has for the replies to writes, or to reads. -/
def readReply (toWrite : Bool) : Reading Reply :=
  if toWrite then Reply.stored <$> readSetReply else Reply.value <$> readGetReply

/-- Whether a reply is one to a write. -/
def Reply.toWrite : Reply → Bool
  | .stored _ => true
  | .value _ => false

/-- A reply as a client reads it. -/
def Reply.asRead : Reply → Reply
  | .stored accepted => .stored accepted
  | .value value? => .value (visible value?)

section Replies

variable {bytes : ByteArray} {value? : Option ByteArray}

/-- The reply to a write is read back. -/
theorem reads_setReply (stored : Bool) :
    Reads readSetReply (setReply stored).data.toList stored := by
  have hread := (reads_readBytes (setReply stored).data.toList).map (· == [1])
  cases stored <;> exact hread

/-- A value whose length fits four bytes can be answered. -/
theorem exists_getReply (h : ∀ value, value? = some value → value.size < wordLimit) :
    ∃ frame, getReply value? = .ok frame := by
  have hsmall : (value?.getD .empty).size < wordLimit := by
    cases value? with
    | none => decide
    | some value => exact h value rfl
  exact ⟨_, if_pos hsmall⟩

/-- The reply to a read is read back, as far as it can be told. -/
theorem reads_getReply (h : getReply value? = .ok bytes) :
    Reads readGetReply bytes.data.toList (visible value?) := by
  obtain ⟨value, hvalue⟩ : ∃ value, value?.getD .empty = value := ⟨_, rfl⟩
  unfold getReply block at h
  rw [hvalue] at h
  split at h
  next hsmall =>
    obtain rfl := Except.ok.inj h
    rw [ByteArray.data_append, Array.toList_append]
    apply (reads_readWord hsmall).bind
    split
    next hempty =>
      have hnone : visible value? = none := by
        cases value? with
        | none => rfl
        | some found =>
          obtain rfl : found = value := hvalue
          exact Option.filter_some_neg (by simpa using hempty)
      rw [hnone, Array.toList_eq_nil_iff.2 (Array.size_eq_zero_iff.1 hempty)]
      exact .pure none
    next hfull =>
      have hsome : visible value? = some value := by
        cases value? with
        | none => exact absurd (congrArg ByteArray.size hvalue.symm) hfull
        | some found =>
          obtain rfl : found = value := hvalue
          exact Option.filter_some_pos (by simpa using hfull)
      rw [hsome, ← List.append_nil value.data.toList]
      exact (reads_readBytes value.data.toList).bind (.pure _)
  next => cases h

/-- A reply of either kind is read back, as far as it can be told. -/
theorem reads_readReply {reply : Reply} (h : encodeReply reply = .ok bytes) :
    Reads (readReply reply.toWrite) bytes.data.toList reply.asRead := by
  cases reply with
  | stored accepted =>
    obtain rfl := Except.ok.inj h
    exact (reads_setReply accepted).map Reply.stored
  | value value? => exact (reads_getReply h).map Reply.value

/-- A further reply is written behind the others. -/
theorem encodeReplies_snoc {replies : List Reply} {reply : Reply} {frame : ByteArray}
    (h : encodeReplies replies = .ok bytes) (hframe : encodeReply reply = .ok frame) :
    encodeReplies (replies ++ [reply]) = .ok (bytes ++ frame) := by
  rw [encodeReplies] at h
  rw [encodeReplies, List.foldlM_append, h, ok_bind, List.foldlM_cons, hframe]
  rfl

/-- A first reply that is read comes before the others. -/
theorem readReplies_cons {toWrite : Bool} {kinds : List Bool} {pieces rest left : Incoming}
    {reply : Reply} {replies : List (Except Error Reply)}
    (hread : readReply toWrite pieces = .ok (reply, rest))
    (hrest : readReplies kinds rest = (replies, left)) :
    readReplies (toWrite :: kinds) pieces = (.ok reply :: replies, left) := by
  unfold readReply at hread
  rw [readReplies]
  simp only [hread, hrest]

/-- A client reads the replies to its requests, one after the other. -/
theorem readReplies_eq {replies : List Reply} {start bytes : ByteArray}
    (h : replies.foldlM (fun bytes reply => return bytes ++ (← encodeReply reply)) start =
      .ok bytes) :
    ∃ framed : List UInt8, bytes.data.toList = start.data.toList ++ framed ∧
      ∀ (pieces : Incoming) (more : List UInt8), pieces.flatten = framed ++ more →
        ∃ left, readReplies (replies.map Reply.toWrite) pieces =
          (replies.map fun reply => .ok reply.asRead, left) ∧ left.flatten = more := by
  induction replies generalizing start with
  | nil =>
    obtain rfl := Except.ok.inj h
    exact ⟨[], (List.append_nil _).symm, fun pieces more hflatten => ⟨pieces, rfl, hflatten⟩⟩
  | cons reply rest ih =>
    rw [List.foldlM_cons] at h
    obtain ⟨next, hfirst, hrest⟩ := bind_eq_ok_iff.1 h
    obtain ⟨frame, hframe, hfirst⟩ := bind_eq_ok_iff.1 hfirst
    obtain rfl := Except.ok.inj hfirst
    obtain ⟨framed, hbytes, hreads⟩ := ih hrest
    refine ⟨frame.data.toList ++ framed, ?_, ?_⟩
    · rw [hbytes, ByteArray.data_append, Array.toList_append, List.append_assoc]
    · intro pieces more hflatten
      rw [List.append_assoc] at hflatten
      obtain ⟨between, hread, hbetween⟩ := reads_readReply hframe pieces _ hflatten
      obtain ⟨left, hlater, hleft⟩ := hreads between more hbetween
      refine ⟨left, ?_, hleft⟩
      exact readReplies_cons hread hlater

end Replies

end ElasticCache.Wire
