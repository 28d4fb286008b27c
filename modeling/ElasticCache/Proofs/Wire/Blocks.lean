import ElasticCache.Proofs.Wire.Frames

/-!
# Blocks that are not read

A block is read, or refused as soon as its length is complete, or its bytes end before it does. A
reader that fails after some bytes fails in whatever pieces they arrive, and whatever follows them.
-/

namespace ElasticCache.Wire

/-! ## Readers that refuse -/

/-- A reader fails once it has read these bytes, in whatever pieces they arrive. -/
def Rejects {α : Type} (reading : Reading α) (bytes : List UInt8) (e : Error) : Prop :=
  ∀ (pieces : Incoming) (more : List UInt8), pieces.flatten = bytes ++ more →
    reading pieces = .error e

section Rejects

variable {α β : Type} {reading : Reading α} {next : α → Reading β} {bytes bytes' : List UInt8}
  {pieces rest : Incoming} {a : α} {e : Error}

/-- What follows a reader goes on from what it leaves. -/
theorem bind_of_ok (h : reading pieces = .ok (a, rest)) :
    (reading >>= next) pieces = next a rest := by
  change (do let result ← reading pieces; next result.1 result.2) = _
  rw [h]
  rfl

/-- What follows a reader that fails is not done. -/
theorem bind_of_error (h : reading pieces = .error e) : (reading >>= next) pieces = .error e := by
  change (do let result ← reading pieces; next result.1 result.2) = _
  rw [h]
  rfl

/-- A change of the result of a reading changes what it answers. -/
theorem map_of_ok (h : reading pieces = .ok (a, rest)) (f : α → β) :
    (f <$> reading) pieces = .ok (f a, rest) := by
  change (do let result ← reading pieces; pure (f result.1, result.2)) = _
  rw [h]
  rfl

/-- A change of the result of a reading leaves its failure. -/
theorem map_of_error (h : reading pieces = .error e) (f : α → β) :
    (f <$> reading) pieces = .error e := by
  change (do let result ← reading pieces; pure (f result.1, result.2)) = _
  rw [h]
  rfl

/-- A change of the result goes with the second of two readings. -/
theorem map_bind_of_ok {γ : Type} (h : reading pieces = .ok (a, rest)) (f : β → γ) :
    (f <$> (reading >>= next)) pieces = (f <$> next a) rest := by
  change (do let result ← (reading >>= next) pieces; pure (f result.1, result.2)) = _
  rw [bind_of_ok h]
  rfl

/-- A reading that rejects some bytes does so whatever was to follow. -/
theorem Rejects.bind (h : Rejects reading bytes e) : Rejects (reading >>= next) bytes e :=
  fun pieces more hflatten => bind_of_error (h pieces more hflatten)

/-- What follows a reading may reject the bytes behind its own. -/
theorem Reads.rejects (h : Reads reading bytes a) (hnext : Rejects (next a) bytes' e) :
    Rejects (reading >>= next) (bytes ++ bytes') e := by
  intro pieces more hflatten
  rw [List.append_assoc] at hflatten
  obtain ⟨between, hread, hbetween⟩ := h pieces _ hflatten
  exact (bind_of_ok hread).trans (hnext between more hbetween)

end Rejects

/-! ## Blocks -/

/-- Bytes end before the block does that they start. -/
def EndsInBlock (bytes : List UInt8) : Prop :=
  ∃ held framed missing, block "Block" held = .ok framed ∧
    framed.data.toList = bytes ++ missing ∧ missing ≠ []

section Blocks

variable {max : Nat} {what : String} {bytes field more : List UInt8} {held framed : ByteArray}
  {pieces : Incoming}

/-- Four bytes are those of the word that they stand for. -/
theorem ofWord_wordOf (h : field.length = 4) :
    wordOf field < wordLimit ∧ (Bytes.ofWord (wordOf field)).data.toList = field := by
  obtain ⟨a, b, c, d, rfl⟩ : ∃ a b c d, field = [a, b, c, d] := by
    match field, h with
    | [a, b, c, d], _ => exact ⟨a, b, c, d, rfl⟩
  have ha := a.toNat_lt
  have hb := b.toNat_lt
  have hc := c.toNat_lt
  have hd := d.toNat_lt
  simp only [wordOf, wordLimit, Bytes.ofWord, List.foldr_cons, List.foldr_nil, List.cons.injEq,
    and_true, ← UInt8.toNat_inj, UInt8.toNat_ofNat']
  omega

/-- A block whose length fits a word can be framed. -/
theorem exists_block (what : String) (h : held.size < wordLimit) :
    ∃ framed, block what held = .ok framed := ⟨_, if_pos h⟩

/-- The bytes of a block: its length and what it holds. -/
theorem toList_block (h : block what held = .ok framed) :
    held.size < wordLimit ∧
      framed.data.toList = (Bytes.ofWord held.size).data.toList ++ held.data.toList := by
  unfold block at h
  split at h
  next hsmall =>
    rw [← Except.ok.inj h, ByteArray.data_append, Array.toList_append]
    exact ⟨hsmall, rfl⟩
  next => cases h

/-- A block within the limit is read back. -/
theorem reads_readBlock (h : block "Block" held = .ok framed) (hsize : held.size ≤ max) :
    Reads (readBlock max what) framed.data.toList held := by
  obtain ⟨hsmall, hframed⟩ := toList_block h
  rw [hframed]
  apply (reads_readWord hsmall).bind
  rw [if_neg (Nat.not_lt.2 hsize), ← List.append_nil held.data.toList]
  exact (reads_readBytes held.data.toList).bind (.pure _)

/-- A block is refused at its length. -/
theorem rejects_readBlock (what : String) (hfield : field.length = 4)
    (habove : max < wordOf field) :
    Rejects (readBlock max what) field
      (.protocol s!"{what} of {wordOf field} bytes exceeds the {max} byte limit") := by
  obtain ⟨hsmall, hbytes⟩ := ofWord_wordOf hfield
  have hword := reads_readWord hsmall
  rw [hbytes] at hword
  intro pieces more hflatten
  obtain ⟨between, hread, _⟩ := hword pieces more hflatten
  refine (bind_of_ok hread).trans ?_
  rw [if_pos habove]
  rfl

/-- A length and as many bytes are a block. -/
theorem exists_block_of_field (hfield : field.length = 4) (hmore : more.length = wordOf field) :
    ∃ framed, block "Block" ⟨⟨more⟩⟩ = .ok framed ∧ framed.data.toList = field ++ more := by
  obtain ⟨hsmall, hbytes⟩ := ofWord_wordOf hfield
  have hsize : (⟨⟨more⟩⟩ : ByteArray).size = wordOf field := hmore
  rw [← hsize] at hsmall hbytes
  obtain ⟨framed, hframed⟩ := exists_block "Block" hsmall
  refine ⟨framed, hframed, ?_⟩
  rw [(toList_block hframed).2, hbytes]

/-- What is missing of a block is at most its length and what it holds. A length that is not
complete is continued by zeros, and so is what the block holds. -/
theorem endsInBlock_of_short (hshort : bytes.length < 4 ∨
    ∃ field more, bytes = field ++ more ∧ field.length = 4 ∧ more.length < wordOf field) :
    EndsInBlock bytes := by
  obtain ⟨field, more, missing, hfield, hflatten, hmissing, hlength⟩ :
      ∃ field more missing : List UInt8, field.length = 4 ∧ field ++ more = bytes ++ missing ∧
        missing ≠ [] ∧ more.length = wordOf field := by
    rcases hshort with hfew | ⟨field, more, hflatten, hfield, hfew⟩
    · let field := bytes ++ List.replicate (4 - bytes.length) 0
      refine ⟨field, List.replicate (wordOf field) 0, _, ?_, List.append_assoc .., ?_,
        List.length_replicate⟩
      · rw [List.length_append, List.length_replicate]
        omega
      · rw [ne_eq, List.append_eq_nil_iff, List.replicate_eq_nil_iff]
        omega
    · refine ⟨field, more ++ List.replicate (wordOf field - more.length) 0,
        List.replicate (wordOf field - more.length) 0, hfield, ?_, ?_, ?_⟩
      · rw [hflatten, List.append_assoc]
      · rw [ne_eq, List.replicate_eq_nil_iff]
        omega
      · rw [List.length_append, List.length_replicate]
        omega
  obtain ⟨framed, hframed, hbytes⟩ := exists_block_of_field hfield hlength
  exact ⟨⟨⟨more⟩⟩, framed, missing, hframed, hbytes.trans hflatten, hmissing⟩

/-- Bytes that are there are read. -/
theorem readBytes_of_some {n : Nat} {result : List UInt8 × Incoming}
    (h : takeBytes n pieces = some result) : readBytes n pieces = .ok result := by
  rw [readBytes, h]

/-- Bytes that are missing are the unexpected end of the input. -/
theorem readBytes_of_none {n : Nat} (h : takeBytes n pieces = none) :
    readBytes n pieces = .error (.io .unexpectedEof) := by
  rw [readBytes, h]

/-- A block is read, or refused at its length, or ends before it is complete. -/
theorem readBlock_cases (max : Nat) (what : String) (pieces : Incoming) :
    (∃ held framed rest, readBlock max what pieces = .ok (held, rest) ∧ held.size ≤ max ∧
        block "Block" held = .ok framed ∧
        pieces.flatten = framed.data.toList ++ rest.flatten) ∨
      (∃ field more, pieces.flatten = field ++ more ∧ field.length = 4 ∧ max < wordOf field ∧
        readBlock max what pieces =
          .error (.protocol s!"{what} of {wordOf field} bytes exceeds the {max} byte limit")) ∨
      (readBlock max what pieces = .error (.io .unexpectedEof) ∧ EndsInBlock pieces.flatten) := by
  cases htake : takeBytes 4 pieces with
  | none =>
    have hword : readWord pieces = .error (.io .unexpectedEof) :=
      map_of_error (readBytes_of_none htake) wordOf
    exact .inr (.inr ⟨bind_of_error hword,
      endsInBlock_of_short (.inl (takeBytes_eq_none_iff.1 htake))⟩)
  | some taken =>
    obtain ⟨field, between⟩ := taken
    obtain ⟨hflatten, hfield⟩ := flatten_takeBytes htake
    have hword : readWord pieces = .ok (wordOf field, between) :=
      map_of_ok (readBytes_of_some htake) wordOf
    by_cases habove : max < wordOf field
    · exact .inr (.inl ⟨field, _, hflatten, hfield, habove,
        rejects_readBlock what hfield habove pieces _ hflatten⟩)
    cases hmore : takeBytes (wordOf field) between with
    | none =>
      refine .inr (.inr ⟨(bind_of_ok hword).trans ?_, endsInBlock_of_short
        (.inr ⟨field, _, hflatten, hfield, takeBytes_eq_none_iff.1 hmore⟩)⟩)
      rw [if_neg habove]
      exact bind_of_error (readBytes_of_none hmore)
    | some taken =>
      obtain ⟨more, rest⟩ := taken
      obtain ⟨hflatten', hmore'⟩ := flatten_takeBytes hmore
      obtain ⟨framed, hframed, hbytes⟩ := exists_block_of_field hfield hmore'
      refine .inl ⟨⟨⟨more⟩⟩, framed, rest, (bind_of_ok hword).trans ?_, ?_, hframed, ?_⟩
      · rw [if_neg habove]
        exact bind_of_ok (readBytes_of_some hmore)
      · exact Nat.le_trans (Nat.le_of_eq hmore') (Nat.not_lt.1 habove)
      · rw [hbytes, hflatten, hflatten', List.append_assoc]

end Blocks

end ElasticCache.Wire
