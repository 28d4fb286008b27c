import ElasticCache.Proofs.Wire.Blocks

/-!
# The grammar of requests

Bytes are read as the frames of requests within the limits, one after the other, up to a rest that
does not start with such a frame. The rest is empty, or refused for what it starts with, or ends
before the frame that it announces. In the other direction requests are read as they were written,
in whatever pieces their frames arrive.
-/

namespace ElasticCache.Wire

/-- The frames of requests one after the other. -/
def encodeAll : List Request → Except Error ByteArray
  | [] => .ok .empty
  | request :: requests => return (← encode request) ++ (← encodeAll requests)

/-- Bytes are the frame of a request. -/
def IsFrame (request : Request) (bytes : List UInt8) : Prop :=
  ∃ frame, encode request = .ok frame ∧ frame.data.toList = bytes

/-- The blocks of a request have lengths that fit four bytes. -/
def Encodable : Request → Prop
  | .get key => key.size < wordLimit
  | .set key value => key.size < wordLimit ∧ value.size < wordLimit

/-- Bytes that no request within the limits starts with, and what is wrong with them: the letter is
unknown, or a length that they hold completely is above its limit. -/
inductive Refused (limits : FrameLimits) : List UInt8 → String → Prop
  | letter {letter : UInt8} {more : List UInt8} (notGet : letter ≠ getLetter)
      (notSet : letter ≠ setLetter) :
      Refused limits (letter :: more) s!"Unknown opcode 0x{hexByte letter}"
  | key {letter : UInt8} {field more : List UInt8}
      (known : letter = getLetter ∨ letter = setLetter) (complete : field.length = 4)
      (above : limits.maxKeySize < wordOf field) :
      Refused limits (letter :: (field ++ more))
        s!"Key of {wordOf field} bytes exceeds the {limits.maxKeySize} byte limit"
  | value {key framed : ByteArray} {field more : List UInt8}
      (framing : block "Block" key = .ok framed) (within : key.size ≤ limits.maxKeySize)
      (complete : field.length = 4) (above : limits.maxValueSize < wordOf field) :
      Refused limits (setLetter :: (framed.data.toList ++ (field ++ more)))
        s!"Value of {wordOf field} bytes exceeds the {limits.maxValueSize} byte limit"

/-- Bytes that end before the request that they announce: they start with a known letter, no length
that they hold completely is above its limit, and a frame goes on where they end. -/
structure Incomplete (limits : FrameLimits) (bytes : List UInt8) : Prop where
  known : ∃ letter more, bytes = letter :: more ∧ (letter = getLetter ∨ letter = setLetter)
  allowed : ∀ text, ¬Refused limits bytes text
  short : ∃ request missing, IsFrame request (bytes ++ missing) ∧ missing ≠ []

/-! ## One request -/

section Requests

variable {limits : FrameLimits} {letter : UInt8} {bytes more : List UInt8} {frame : ByteArray}
  {request : Request} {requests : List Request} {pieces rest : Incoming} {text : String}

/-- At the end of the input there is no request. -/
theorem readRequest_of_nil (h : pieces.flatten = []) :
    readRequest limits pieces = .ok (none, pieces) := by
  have hnone : takeBytes 1 pieces = none := by
    rw [takeBytes_eq_none_iff, h]
    exact Nat.zero_lt_one
  rw [readRequest, hnone]

/-- The letter of a request decides how the rest is read. -/
theorem exists_readRequest (limits : FrameLimits) (h : pieces.flatten = letter :: more) :
    ∃ between : Incoming, between.flatten = more ∧
      readRequest limits pieces = (some <$> readBlocks limits letter) between := by
  cases htake : takeBytes 1 pieces with
  | none =>
    rw [takeBytes_eq_none_iff, h, List.length_cons] at htake
    omega
  | some taken =>
    obtain ⟨first, between⟩ := taken
    obtain ⟨hflatten, hlength⟩ := flatten_takeBytes htake
    obtain ⟨first, rfl⟩ := List.length_eq_one_iff.1 hlength
    obtain ⟨rfl, rfl⟩ := List.cons.inj (h.symm.trans hflatten)
    exact ⟨between, rfl, by rw [readRequest, htake]⟩

/-- A read asks for a key. -/
theorem readBlocks_get :
    readBlocks limits getLetter = readBlock limits.maxKeySize "Key" >>= fun key =>
      pure (.get key) := if_pos rfl

/-- A write asks for a key and a value. -/
theorem readBlocks_set :
    readBlocks limits setLetter = readBlock limits.maxKeySize "Key" >>= fun key =>
      readBlock limits.maxValueSize "Value" >>= fun value => pure (.set key value) := by
  rw [readBlocks, if_neg (by decide), if_pos rfl]

/-- Any other letter is refused by its number. -/
theorem readBlocks_of_unknown (hget : letter ≠ getLetter) (hset : letter ≠ setLetter) :
    readBlocks limits letter = throw (.protocol s!"Unknown opcode 0x{hexByte letter}") := by
  rw [readBlocks, if_neg hget, if_neg hset]

/-- The frame of a read is its letter and the block of its key. -/
theorem isFrame_get_iff {key : ByteArray} : IsFrame (.get key) bytes ↔
    ∃ framed, block "Block" key = .ok framed ∧ bytes = getLetter :: framed.data.toList := by
  constructor
  · rintro ⟨frame, hencode, rfl⟩
    obtain ⟨framed, hframed, hframe⟩ := bind_eq_ok_iff.1 hencode
    rw [← Except.ok.inj hframe]
    exact ⟨framed, hframed, by rw [ByteArray.data_append, Array.toList_append]; rfl⟩
  · rintro ⟨framed, hframed, rfl⟩
    refine ⟨ByteArray.empty.push getLetter ++ framed, ?_, ?_⟩
    · rw [encode, hframed]
      rfl
    · rw [ByteArray.data_append, Array.toList_append]
      rfl

/-- The frame of a write is its letter and the blocks of key and value. -/
theorem isFrame_set_iff {key value : ByteArray} : IsFrame (.set key value) bytes ↔
    ∃ framed framed', block "Block" key = .ok framed ∧ block "Block" value = .ok framed' ∧
      bytes = setLetter :: (framed.data.toList ++ framed'.data.toList) := by
  constructor
  · rintro ⟨frame, hencode, rfl⟩
    obtain ⟨framed, hframed, hencode⟩ := bind_eq_ok_iff.1 hencode
    obtain ⟨framed', hframed', hframe⟩ := bind_eq_ok_iff.1 hencode
    rw [← Except.ok.inj hframe]
    refine ⟨framed, framed', hframed, hframed', ?_⟩
    simp only [ByteArray.data_append, Array.toList_append, List.append_assoc]
    rfl
  · rintro ⟨framed, framed', hframed, hframed', rfl⟩
    refine ⟨ByteArray.empty.push setLetter ++ framed ++ framed', ?_, ?_⟩
    · rw [encode, hframed, hframed']
      rfl
    · simp only [ByteArray.data_append, Array.toList_append, List.append_assoc]
      rfl

/-- Whatever the letter starts is read, or refused, as the blocks after it are. -/
theorem Reads.readRequest (h : Reads (readBlocks limits letter) bytes request) :
    Reads (readRequest limits) (letter :: bytes) (some request) := by
  intro pieces more hflatten
  obtain ⟨between, hbetween, hread⟩ := exists_readRequest limits hflatten
  obtain ⟨rest, hblocks, hrest⟩ := h between more hbetween
  exact ⟨rest, hread.trans (map_of_ok hblocks some), hrest⟩

/-- A request is refused when its blocks are. -/
theorem Rejects.readRequest {e : Error} (h : Rejects (readBlocks limits letter) bytes e) :
    Rejects (readRequest limits) (letter :: bytes) e := by
  intro pieces more hflatten
  obtain ⟨between, hbetween, hread⟩ := exists_readRequest limits hflatten
  exact hread.trans (map_of_error (h between more hbetween) some)

/-- A request within the limits is read as it was written. -/
theorem reads_readRequest (h : IsFrame request bytes) (haccepts : Accepts limits request) :
    Reads (readRequest limits) bytes (some request) := by
  cases request with
  | get key =>
    obtain ⟨framed, hframed, rfl⟩ := isFrame_get_iff.1 h
    apply Reads.readRequest
    rw [readBlocks_get, ← List.append_nil framed.data.toList]
    exact (reads_readBlock hframed haccepts).bind (.pure _)
  | set key value =>
    obtain ⟨framed, framed', hframed, hframed', rfl⟩ := isFrame_set_iff.1 h
    apply Reads.readRequest
    rw [readBlocks_set, ← List.append_nil framed'.data.toList]
    exact (reads_readBlock hframed haccepts.1).bind
      ((reads_readBlock hframed' haccepts.2).bind (.pure _))

/-- What is refused is not read. -/
theorem readRequest_of_refused (h : Refused limits pieces.flatten text) :
    readRequest limits pieces = .error (.protocol text) := by
  generalize hflatten : pieces.flatten = bytes at h
  cases h with
  | @letter letter more notGet notSet =>
    have hrejects : Rejects (readBlocks limits letter) []
        (.protocol s!"Unknown opcode 0x{hexByte letter}") := by
      rw [readBlocks_of_unknown notGet notSet]
      exact fun _ _ _ => rfl
    exact hrejects.readRequest pieces more hflatten
  | @key letter field more known complete above =>
    have hblock := rejects_readBlock "Key" complete above
    have hrejects : Rejects (readBlocks limits letter) field
        (.protocol s!"Key of {wordOf field} bytes exceeds the {limits.maxKeySize} byte limit") := by
      rcases known with rfl | rfl
      · rw [readBlocks_get]
        exact hblock.bind
      · rw [readBlocks_set]
        exact hblock.bind
    exact hrejects.readRequest pieces more hflatten
  | @value key framed field more framing within complete above =>
    have hblock := rejects_readBlock "Value" complete above
    have hrejects : Rejects (readBlocks limits setLetter) (framed.data.toList ++ field)
        (.protocol
          s!"Value of {wordOf field} bytes exceeds the {limits.maxValueSize} byte limit") := by
      rw [readBlocks_set]
      exact (reads_readBlock framing within).rejects hblock.bind
    refine hrejects.readRequest pieces more ?_
    rw [hflatten, List.cons_append, List.append_assoc]

/-- Bytes start with the frame of a request, and it is read. -/
def StartsRequest (limits : FrameLimits) (pieces : Incoming) : Prop :=
  ∃ request frame rest, readRequest limits pieces = .ok (some request, rest) ∧
    IsFrame request frame ∧ pieces.flatten = frame ++ rest.flatten

/-- Bytes end before their frame does, and no more is read. -/
def StopsShort (limits : FrameLimits) (pieces : Incoming) : Prop :=
  readRequest limits pieces = .error (.io .unexpectedEof) ∧
    ∃ request missing, IsFrame request (pieces.flatten ++ missing) ∧ missing ≠ []

/-- What starts like a read is a request, refused or too short. -/
theorem readRequest_get_cases (h : pieces.flatten = getLetter :: more) :
    StartsRequest limits pieces ∨
      (∃ text, readRequest limits pieces = .error (.protocol text) ∧
        Refused limits pieces.flatten text) ∨ StopsShort limits pieces := by
  obtain ⟨between, rfl, hread⟩ := exists_readRequest limits h
  rw [readBlocks_get] at hread
  rcases readBlock_cases limits.maxKeySize "Key" between with
    ⟨key, framed, rest, hblock, _, hframed, hflatten⟩ |
    ⟨field, more, hflatten, hfield, habove, hblock⟩ |
    ⟨hblock, key, framed, missing, hframed, hmissing, hne⟩
  · refine .inl ⟨.get key, _, rest, hread.trans (map_bind_of_ok hblock some),
      isFrame_get_iff.2 ⟨framed, hframed, rfl⟩, ?_⟩
    rw [h, hflatten]
    rfl
  · refine .inr (.inl ⟨_, hread.trans (map_of_error (bind_of_error hblock) some), ?_⟩)
    rw [h, hflatten]
    exact .key (.inl rfl) hfield habove
  · refine .inr (.inr ⟨hread.trans (map_of_error (bind_of_error hblock) some), .get key, missing,
      isFrame_get_iff.2 ⟨framed, hframed, ?_⟩, hne⟩)
    rw [h, hmissing]
    rfl

/-- What starts like a write is a request, refused or too short. When the key ends too early, the
frame of any value goes on from there. -/
theorem readRequest_set_cases (h : pieces.flatten = setLetter :: more) :
    StartsRequest limits pieces ∨
      (∃ text, readRequest limits pieces = .error (.protocol text) ∧
        Refused limits pieces.flatten text) ∨ StopsShort limits pieces := by
  obtain ⟨between, rfl, hread⟩ := exists_readRequest limits h
  rw [readBlocks_set] at hread
  rcases readBlock_cases limits.maxKeySize "Key" between with
    ⟨key, framed, between', hkey, hwithin, hframed, hflatten⟩ |
    ⟨field, more, hflatten, hfield, habove, hkey⟩ |
    ⟨hkey, key, framed, missing, hframed, hmissing, hne⟩
  · have hread := hread.trans (map_bind_of_ok hkey some)
    rcases readBlock_cases limits.maxValueSize "Value" between' with
      ⟨value, framed', rest, hvalue, _, hframed', hflatten'⟩ |
      ⟨field, more, hflatten', hfield, habove, hvalue⟩ |
      ⟨hvalue, value, framed', missing, hframed', hmissing, hne⟩
    · refine .inl ⟨.set key value, _, rest, hread.trans (map_bind_of_ok hvalue some),
        isFrame_set_iff.2 ⟨framed, framed', hframed, hframed', rfl⟩, ?_⟩
      rw [h, hflatten, hflatten', List.cons_append, List.append_assoc]
    · refine .inr (.inl ⟨_, hread.trans (map_of_error (bind_of_error hvalue) some), ?_⟩)
      rw [h, hflatten, hflatten']
      exact .value hframed hwithin hfield habove
    · refine .inr (.inr ⟨hread.trans (map_of_error (bind_of_error hvalue) some), .set key value,
        missing, isFrame_set_iff.2 ⟨framed, framed', hframed, hframed', ?_⟩, hne⟩)
      rw [h, hflatten, hmissing, List.cons_append, List.append_assoc]
  · refine .inr (.inl ⟨_, hread.trans (map_of_error (bind_of_error hkey) some), ?_⟩)
    rw [h, hflatten]
    exact .key (.inr rfl) hfield habove
  · obtain ⟨framed', hframed'⟩ : ∃ framed', block "Block" .empty = .ok framed' :=
      exists_block "Block" (by decide)
    refine .inr (.inr ⟨hread.trans (map_of_error (bind_of_error hkey) some), .set key .empty,
      missing ++ framed'.data.toList,
      isFrame_set_iff.2 ⟨framed, framed', hframed, hframed', ?_⟩, ?_⟩)
    · rw [h, hmissing, List.cons_append, List.append_assoc]
    · simp [hne]

/-- A request is read, or there is none, or the bytes are refused, or they end too early. -/
theorem readRequest_cases (limits : FrameLimits) (pieces : Incoming) :
    (pieces.flatten = [] ∧ readRequest limits pieces = .ok (none, pieces)) ∨
      StartsRequest limits pieces ∨
      (∃ text, readRequest limits pieces = .error (.protocol text) ∧
        Refused limits pieces.flatten text) ∨
      (readRequest limits pieces = .error (.io .unexpectedEof) ∧
        Incomplete limits pieces.flatten) := by
  have hincomplete {letter : UInt8} {more : List UInt8} (hflatten : pieces.flatten = letter :: more)
      (hknown : letter = getLetter ∨ letter = setLetter) (hstops : StopsShort limits pieces) :
      readRequest limits pieces = .error (.io .unexpectedEof) ∧
        Incomplete limits pieces.flatten := by
    obtain ⟨hread, hshort⟩ := hstops
    refine ⟨hread, ⟨letter, more, hflatten, hknown⟩, fun text hrefused => ?_, hshort⟩
    rw [readRequest_of_refused hrefused] at hread
    cases hread
  cases hflatten : pieces.flatten with
  | nil => exact .inl ⟨rfl, readRequest_of_nil hflatten⟩
  | cons letter more =>
    rw [← hflatten]
    by_cases hget : letter = getLetter
    · subst hget
      exact .inr ((readRequest_get_cases hflatten).imp_right
        (.imp_right (hincomplete hflatten (.inl rfl))))
    by_cases hset : letter = setLetter
    · subst hset
      exact .inr ((readRequest_set_cases hflatten).imp_right
        (.imp_right (hincomplete hflatten (.inr rfl))))
    have hrefused : Refused limits pieces.flatten s!"Unknown opcode 0x{hexByte letter}" := by
      rw [hflatten]
      exact .letter hget hset
    exact .inr (.inr (.inl ⟨_, readRequest_of_refused hrefused, hrefused⟩))

/-! ## Sequences of requests -/

/-- When there is no request, there are no more. -/
theorem readRequests_of_end (h : readRequest limits pieces = .ok (none, rest)) :
    readRequests limits pieces = ([], .ok ()) := by
  rw [readRequests]
  split <;> simp_all

/-- When a request fails, there are no more. -/
theorem readRequests_of_error {e : Error} (h : readRequest limits pieces = .error e) :
    readRequests limits pieces = ([], .error e) := by
  rw [readRequests]
  split <;> simp_all

/-- What is incomplete is not read. -/
theorem readRequest_of_incomplete
    (hnone : ∀ request rest, readRequest limits pieces ≠ .ok (some request, rest))
    (h : Incomplete limits pieces.flatten) :
    readRequest limits pieces = .error (.io .unexpectedEof) := by
  rcases readRequest_cases limits pieces with
    ⟨hnil, _⟩ | ⟨request, _, rest, hread, _⟩ | ⟨text, _, hrefused⟩ | ⟨hread, _⟩
  · obtain ⟨letter, more, hflatten, _⟩ := h.known
    rw [hnil] at hflatten
    cases hflatten
  · exact absurd hread (hnone request rest)
  · exact absurd hrefused (h.allowed text)
  · exact hread

/-- What is not a request ends the requests: it is nothing, or refused, or incomplete. -/
theorem ending_iff (hnone : ∀ request rest, readRequest limits pieces ≠ .ok (some request, rest)) :
    let ending := (readRequests limits pieces).2
    (ending = .ok () ↔ pieces.flatten = []) ∧
      (∀ text, ending = .error (.protocol text) ↔ Refused limits pieces.flatten text) ∧
      (ending = .error (.io .unexpectedEof) ↔ Incomplete limits pieces.flatten) ∧
      (pieces.flatten = [] ∨ (∃ text, Refused limits pieces.flatten text) ∨
        Incomplete limits pieces.flatten) := by
  intro ending
  have hnil (h : pieces.flatten = []) : ending = .ok () :=
    congrArg Prod.snd (readRequests_of_end (readRequest_of_nil h))
  have hrefused {text : String} (h : Refused limits pieces.flatten text) :
      ending = .error (.protocol text) :=
    congrArg Prod.snd (readRequests_of_error (readRequest_of_refused h))
  have hincomplete (h : Incomplete limits pieces.flatten) :
      ending = .error (.io .unexpectedEof) :=
    congrArg Prod.snd (readRequests_of_error (readRequest_of_incomplete hnone h))
  have hcases : pieces.flatten = [] ∨ (∃ text, Refused limits pieces.flatten text) ∨
      Incomplete limits pieces.flatten := by
    rcases readRequest_cases limits pieces with
      ⟨h, _⟩ | ⟨request, _, rest, hread, _⟩ | ⟨text, _, h⟩ | ⟨_, h⟩
    · exact .inl h
    · exact absurd hread (hnone request rest)
    · exact .inr (.inl ⟨text, h⟩)
    · exact .inr (.inr h)
  refine ⟨⟨fun hending => ?_, hnil⟩, fun text => ⟨fun hending => ?_, hrefused⟩,
    ⟨fun hending => ?_, hincomplete⟩, hcases⟩
  · rcases hcases with h | ⟨_, h⟩ | h
    · exact h
    · cases (hrefused h).symm.trans hending
    · cases (hincomplete h).symm.trans hending
  · rcases hcases with h | ⟨_, h⟩ | h
    · cases (hnil h).symm.trans hending
    · cases (hrefused h).symm.trans hending
      exact h
    · cases (hincomplete h).symm.trans hending
  · rcases hcases with h | ⟨_, h⟩ | h
    · cases (hnil h).symm.trans hending
    · cases (hrefused h).symm.trans hending
    · exact h

/-- A request that is read is what the bytes start with. -/
theorem isFrame_of_readRequest (h : readRequest limits pieces = .ok (some request, rest)) :
    ∃ bytes, IsFrame request bytes ∧ pieces.flatten = bytes ++ rest.flatten := by
  rcases readRequest_cases limits pieces with
    ⟨_, hread⟩ | ⟨request', bytes, rest', hread, hframe, hflatten⟩ | ⟨_, hread, _⟩ | ⟨hread, _⟩
  · cases h.symm.trans hread
  · cases h.symm.trans hread
    exact ⟨bytes, hframe, hflatten⟩
  · cases h.symm.trans hread
  · cases h.symm.trans hread

/-- A first request is written before the others. -/
theorem encodeAll_cons {framed : ByteArray} (hframe : encode request = .ok frame)
    (h : encodeAll requests = .ok framed) :
    encodeAll (request :: requests) = .ok (frame ++ framed) := by
  rw [encodeAll, hframe, h]
  rfl

/-- The requests that are read stand one after the other at the start of the bytes, and what is left
is not a request. -/
theorem exists_rest (limits : FrameLimits) (pieces : Incoming) :
    ∃ (framed : ByteArray) (left : Incoming),
      encodeAll (readRequests limits pieces).1 = .ok framed ∧
      pieces.flatten = framed.data.toList ++ left.flatten ∧
      (∀ request ∈ (readRequests limits pieces).1, Accepts limits request) ∧
      (∀ request rest, readRequest limits left ≠ .ok (some request, rest)) ∧
      (readRequests limits pieces).2 = (readRequests limits left).2 := by
  fun_induction readRequests limits pieces with
  | case1 pieces e h =>
    refine ⟨.empty, pieces, rfl, rfl, nofun, ?_, ?_⟩
    · simp [h]
    · rw [readRequests_of_error h]
  | case2 pieces rest h =>
    refine ⟨.empty, pieces, rfl, rfl, nofun, ?_, ?_⟩
    · simp [h]
    · rw [readRequests_of_end h]
  | case3 pieces request rest h requests ending heq ih =>
    rw [heq] at ih
    obtain ⟨framed, left, hframed, hflatten, haccepts, hnone, hending⟩ := ih
    obtain ⟨_, ⟨frame, hframe, rfl⟩, hpieces⟩ := isFrame_of_readRequest h
    refine ⟨frame ++ framed, left, encodeAll_cons hframe hframed, ?_, ?_, hnone, hending⟩
    · rw [hpieces, hflatten, ByteArray.data_append, Array.toList_append, List.append_assoc]
    · exact List.forall_mem_cons.2 ⟨accepts_of_readRequest h, haccepts⟩

/-- Where no request starts, none does in other pieces of the same bytes, and they end alike. -/
theorem readRequests_congr_of_none {pieces' : Incoming} (h : pieces'.flatten = pieces.flatten)
    (hnone : ∀ request rest, readRequest limits pieces ≠ .ok (some request, rest)) :
    readRequests limits pieces' = readRequests limits pieces := by
  have hnone' (request : Request) (rest : Incoming) :
      readRequest limits pieces' ≠ .ok (some request, rest) := by
    intro hread
    obtain ⟨bytes, hframe, hflatten⟩ := isFrame_of_readRequest hread
    obtain ⟨rest', hread', _⟩ := reads_readRequest hframe (accepts_of_readRequest hread) pieces _
      (h.symm.trans hflatten)
    exact hnone request rest' hread'
  obtain ⟨hclean, hrefused, hincomplete, hcases⟩ := ending_iff hnone
  obtain ⟨hclean', hrefused', hincomplete', _⟩ := ending_iff hnone'
  rw [h] at hclean' hrefused' hincomplete'
  apply Prod.ext
  · rw [readRequests_of_none hnone, readRequests_of_none hnone']
  · rcases hcases with hnil | ⟨text, htext⟩ | hshort
    · rw [hclean.2 hnil, hclean'.2 hnil]
    · rw [(hrefused text).2 htext, (hrefused' text).2 htext]
    · rw [hincomplete.2 hshort, hincomplete'.2 hshort]

/-- What is read depends on the bytes alone, not on the pieces that they arrive in. -/
theorem readRequests_congr (limits : FrameLimits) {pieces pieces' : Incoming}
    (h : pieces'.flatten = pieces.flatten) :
    readRequests limits pieces' = readRequests limits pieces := by
  fun_induction readRequests limits pieces generalizing pieces' with
  | case1 pieces e hread =>
    rw [readRequests_congr_of_none h (by simp [hread]), readRequests_of_error hread]
  | case2 pieces rest hread =>
    rw [readRequests_congr_of_none h (by simp [hread]), readRequests_of_end hread]
  | case3 pieces request rest hread requests ending heq ih =>
    obtain ⟨bytes, hframe, hflatten⟩ := isFrame_of_readRequest hread
    obtain ⟨rest', hread', hrest⟩ :=
      reads_readRequest hframe (accepts_of_readRequest hread) pieces' _ (h.trans hflatten)
    rw [readRequests_of_some hread', ih hrest, heq]

/-- Requests within the limits are read as they were written. -/
theorem readRequests_eq {framed : ByteArray} (h : encodeAll requests = .ok framed)
    (haccepts : ∀ request ∈ requests, Accepts limits request)
    (hflatten : pieces.flatten = framed.data.toList) :
    readRequests limits pieces = (requests, .ok ()) := by
  induction requests generalizing framed pieces with
  | nil =>
    obtain rfl := Except.ok.inj h
    exact readRequests_of_end (readRequest_of_nil hflatten)
  | cons request requests ih =>
    obtain ⟨frame, hframe, h⟩ := bind_eq_ok_iff.1 h
    obtain ⟨framed', hframed', h⟩ := bind_eq_ok_iff.1 h
    obtain rfl := Except.ok.inj h
    rw [ByteArray.data_append, Array.toList_append] at hflatten
    obtain ⟨hfirst, hlater⟩ := List.forall_mem_cons.1 haccepts
    obtain ⟨rest, hread, hrest⟩ :=
      reads_readRequest ⟨frame, hframe, rfl⟩ hfirst pieces _ hflatten
    rw [readRequests_of_some hread, ih hframed' hlater hrest]

/-- Requests that can be written each can be written together. -/
theorem exists_encodeAll (h : ∀ request ∈ requests, Encodable request) :
    ∃ framed, encodeAll requests = .ok framed := by
  induction requests with
  | nil => exact ⟨.empty, rfl⟩
  | cons request requests ih =>
    obtain ⟨hfirst, hlater⟩ := List.forall_mem_cons.1 h
    obtain ⟨framed, hframed⟩ := ih hlater
    obtain ⟨bytes, frame, hframe, _⟩ : ∃ bytes, IsFrame request bytes := by
      cases request with
      | get key =>
        obtain ⟨framed, hkey⟩ := exists_block "Block" hfirst
        exact ⟨_, isFrame_get_iff.2 ⟨framed, hkey, rfl⟩⟩
      | set key value =>
        obtain ⟨framed, hkey⟩ := exists_block "Block" hfirst.1
        obtain ⟨framed', hvalue⟩ := exists_block "Block" hfirst.2
        exact ⟨_, isFrame_set_iff.2 ⟨framed, framed', hkey, hvalue, rfl⟩⟩
    exact ⟨_, encodeAll_cons hframe hframed⟩

/-- **The decoder accepts exactly the frames and inverts the encoder.** -/
theorem readRequests_inverts_encode (limits : FrameLimits) :
    (∀ pieces : Incoming, ∃ (framed : ByteArray) (rest : List UInt8),
      let (requests, ending) := readRequests limits pieces
      encodeAll requests = .ok framed ∧ pieces.flatten = framed.data.toList ++ rest ∧
        (∀ request ∈ requests, Accepts limits request) ∧
        (ending = .ok () ↔ rest = []) ∧
        (∀ text, ending = .error (.protocol text) ↔ Refused limits rest text) ∧
        (ending = .error (.io .unexpectedEof) ↔ Incomplete limits rest) ∧
        (rest = [] ∨ (∃ text, Refused limits rest text) ∨ Incomplete limits rest) ∧
        ∀ pieces' : Incoming, pieces'.flatten = pieces.flatten →
          readRequests limits pieces' = (requests, ending)) ∧
    (∀ requests, (∀ request ∈ requests, Accepts limits request ∧ Encodable request) →
      ∃ framed, encodeAll requests = .ok framed ∧ ∀ pieces : Incoming,
        pieces.flatten = framed.data.toList → readRequests limits pieces = (requests, .ok ())) ∧
    ∀ reply bytes, encodeReply reply = .ok bytes →
      Reads (readReply reply.toWrite) bytes.data.toList reply.asRead := by
  refine ⟨fun pieces => ?_, fun requests hrequests => ?_, fun reply bytes => reads_readReply⟩
  · obtain ⟨framed, left, hframed, hflatten, haccepts, hnone, hending⟩ := exists_rest limits pieces
    obtain ⟨hclean, hrefused, hincomplete, hcases⟩ := ending_iff hnone
    rw [← hending] at hclean hrefused hincomplete
    exact ⟨framed, left.flatten, hframed, hflatten, haccepts, hclean, hrefused, hincomplete, hcases,
      fun _ => readRequests_congr limits⟩
  · obtain ⟨framed, hframed⟩ := exists_encodeAll fun request hmem => (hrequests request hmem).2
    exact ⟨framed, hframed, fun pieces =>
      readRequests_eq hframed fun request hmem => (hrequests request hmem).1⟩

/-- Two requests are read from the three pieces that their frames arrive in, and the reply to the
first one is read by its client. -/
theorem readRequests_inverts_encode_of_pair :
    let requests : List Request := [.get ⟨#[107]⟩, .set ⟨#[107]⟩ ⟨#[118]⟩]
    (∀ request ∈ requests, Accepts ⟨1, 1⟩ request ∧ Encodable request) ∧
      readRequests ⟨1, 1⟩ [[103, 1], [0, 0, 0, 107, 115, 1, 0, 0], [0, 107, 1, 0, 0, 0, 118]] =
        (requests, .ok ()) ∧
      encodeReply (.value (some ⟨#[118]⟩)) = .ok ⟨#[1, 0, 0, 0, 118]⟩ ∧
      ∃ rest, readReply false [[1, 0, 0], [0, 118]] = .ok (.value (some ⟨#[118]⟩), rest) := by
  intro requests
  have hword : 1 < wordLimit := by decide
  have hrequests : ∀ request ∈ requests, Accepts ⟨1, 1⟩ request ∧ Encodable request :=
    List.forall_mem_cons.2 ⟨⟨Nat.le_refl 1, hword⟩,
      List.forall_mem_singleton.2 ⟨⟨Nat.le_refl 1, Nat.le_refl 1⟩, hword, hword⟩⟩
  obtain ⟨_, hdecode, hreply⟩ := readRequests_inverts_encode ⟨1, 1⟩
  obtain ⟨framed, hframed, hread⟩ := hdecode requests hrequests
  obtain rfl := Except.ok.inj hframed
  have hencoded : encodeReply (.value (some ⟨#[118]⟩)) = .ok ⟨#[1, 0, 0, 0, 118]⟩ := rfl
  obtain ⟨rest, hrest, _⟩ := hreply _ _ hencoded [[1, 0, 0], [0, 118]] [] rfl
  exact ⟨hrequests, hread _ rfl, hencoded, rest, hrest⟩

end Requests

end ElasticCache.Wire
