import ElasticCache.Bytes
import ElasticCache.Fault

/-!
# Reading back what was written

A word or a slice depends on the bytes it covers and on nothing else. From this follow the laws of
reading after a replacement: the bytes written are read back, and whatever lies beside them is as
before.
-/

namespace ElasticCache.Bytes

/-- The test of byte arrays for equality decides it, so they can be keys of a map. -/
instance lawfulBEq : LawfulBEq ByteArray where
  eq_of_beq h := ByteArray.ext (@eq_of_beq (Array UInt8) _ _ _ _ h)
  rfl {bytes} := beq_self_eq_true bytes.data

/-- A word is put together from four bytes, and there is none when one of them is missing. -/
theorem word?_eq_bind (bytes : ByteArray) (offset : Nat) :
    word? bytes offset =
      bytes.data[offset]?.bind fun b₀ => bytes.data[offset + 1]?.bind fun b₁ =>
        bytes.data[offset + 2]?.bind fun b₂ => bytes.data[offset + 3]?.map fun b₃ =>
          b₀.toNat + 256 * b₁.toNat + 65536 * b₂.toNat + 16777216 * b₃.toNat := by
  unfold word?
  split
  next h =>
    have hsize : offset + 4 ≤ bytes.data.size := h
    rw [Array.getElem?_eq_getElem (by omega), Array.getElem?_eq_getElem (by omega),
      Array.getElem?_eq_getElem (by omega), Array.getElem?_eq_getElem (by omega)]
    rfl
  next h =>
    have hsize : bytes.data.size ≤ offset + 3 := by
      simp only [ByteArray.size] at h
      omega
    rw [Array.getElem?_eq_none hsize]
    cases bytes.data[offset]? <;> cases bytes.data[offset + 1]? <;>
      cases bytes.data[offset + 2]? <;> rfl

/-- Four equal bytes make equal words. -/
theorem word?_congr {a b : ByteArray} {i j : Nat}
    (h : ∀ k < 4, a.data[i + k]? = b.data[j + k]?) : word? a i = word? b j := by
  have h₀ := h 0 (by decide)
  have h₁ := h 1 (by decide)
  have h₂ := h 2 (by decide)
  have h₃ := h 3 (by decide)
  simp only [Nat.add_zero] at h₀
  rw [word?_eq_bind, word?_eq_bind, h₀, h₁, h₂, h₃]

/-- Equal bytes make equal slices, as long as both lie in their arrays. -/
theorem slice?_congr {a b : ByteArray} {i j len : Nat} (hi : i + len ≤ a.size)
    (hj : j + len ≤ b.size) (h : ∀ k < len, a.data[i + k]? = b.data[j + k]?) :
    slice? a i len = slice? b j len := by
  rw [slice?, slice?, if_pos hi, if_pos hj]
  congr 1
  refine ByteArray.ext (Array.ext_getElem? fun k => ?_)
  simp only [ByteArray.size] at hi hj
  simp only [ByteArray.data_extract, Array.getElem?_extract]
  by_cases hk : k < len
  · rw [if_pos (by omega), if_pos (by omega), h k hk]
  · rw [if_neg (by omega), if_neg (by omega)]

/-- There is a word wherever four bytes of the array are. -/
theorem word?_isSome_iff {bytes : ByteArray} {offset : Nat} :
    (word? bytes offset).isSome ↔ offset + 4 ≤ bytes.size := by
  unfold word?
  split
  next h => simp only [h, Option.isSome_some]
  next h => simp only [h, Option.isSome_none, Bool.false_eq_true]

/-- A slice is what the array holds between two offsets, both inside it. -/
theorem slice?_eq_some_iff {bytes part : ByteArray} {offset len : Nat} :
    slice? bytes offset len = some part ↔
      offset + len ≤ bytes.size ∧ bytes.extract offset (offset + len) = part := by
  unfold slice?
  split
  next h => simp only [h, true_and, Option.some.injEq]
  next h => simp only [h, false_and, reduceCtorEq]

/-- A slice has the length that was asked for. -/
theorem size_of_slice? {bytes part : ByteArray} {offset len : Nat}
    (h : slice? bytes offset len = some part) : part.size = len := by
  obtain ⟨hle, rfl⟩ := slice?_eq_some_iff.1 h
  rw [ByteArray.size_extract]
  omega

/-- The bytes of a slice are those of the array from its offset on. -/
theorem getElem?_of_slice? {bytes part : ByteArray} {offset len k : Nat}
    (h : slice? bytes offset len = some part) (hk : k < len) :
    bytes.data[offset + k]? = part.data[k]? := by
  obtain ⟨hle, rfl⟩ := slice?_eq_some_iff.1 h
  simp only [ByteArray.size] at hle
  rw [ByteArray.data_extract, Array.getElem?_extract, if_pos (by omega)]

/-- A word inside a slice is the word of the array at the place where the slice stands. -/
theorem word?_of_slice? {bytes part : ByteArray} {offset len k : Nat}
    (h : slice? bytes offset len = some part) (hk : k + 4 ≤ len) :
    word? bytes (offset + k) = word? part k := by
  refine word?_congr fun i hi => ?_
  rw [Nat.add_assoc]
  exact getElem?_of_slice? h (by omega)

/-- A slice of a slice is a slice of the array. -/
theorem slice?_of_slice? {bytes part : ByteArray} {offset len k n : Nat}
    (h : slice? bytes offset len = some part) (hk : k + n ≤ len) :
    slice? bytes (offset + k) n = slice? part k n := by
  have hsize := size_of_slice? h
  have hle := (slice?_eq_some_iff.1 h).1
  refine slice?_congr (by omega) (by omega) fun i hi => ?_
  rw [Nat.add_assoc]
  exact getElem?_of_slice? h (by omega)

/-! ## Words -/

/-- The bytes of a word are read back as the word. -/
theorem word?_ofWord {n : Nat} (h : n < wordLimit) : word? (ofWord n) 0 = some n := by
  simp only [wordLimit] at h
  rw [word?_eq_bind]
  simp only [ofWord, Nat.zero_add, List.getElem?_toArray, List.getElem?_cons_zero,
    List.getElem?_cons_succ, Option.bind_some, Option.map_some, UInt8.toNat_ofNat']
  congr 1
  omega

/-- Four bytes are those of the word that they stand for. -/
theorem ofWord_eq (b₀ b₁ b₂ b₃ : UInt8) :
    ofWord (b₀.toNat + 256 * b₁.toNat + 65536 * b₂.toNat + 16777216 * b₃.toNat) =
      ⟨#[b₀, b₁, b₂, b₃]⟩ := by
  have h₀ := b₀.toNat_lt
  have h₁ := b₁.toNat_lt
  have h₂ := b₂.toNat_lt
  have h₃ := b₃.toNat_lt
  simp only [ofWord, ByteArray.mk.injEq, Array.mk.injEq, List.cons.injEq, and_true,
    ← UInt8.toNat_inj, UInt8.toNat_ofNat']
  omega

/-- A word that is read is a word. -/
theorem lt_of_word?_eq_some {bytes : ByteArray} {offset n : Nat} (h : word? bytes offset = some n) :
    n < wordLimit := by
  unfold word? at h
  split at h
  next hle =>
    have hn := Option.some.inj h
    have h₀ := bytes[offset].toNat_lt
    have h₁ := bytes[offset + 1].toNat_lt
    have h₂ := bytes[offset + 2].toNat_lt
    have h₃ := bytes[offset + 3].toNat_lt
    simp only [wordLimit]
    omega
  next => cases h

/-! ## Concatenations -/

section Append

variable {a b : ByteArray} {i len : Nat}

/-- A byte of two arrays one behind the other is a byte of the one or of the other. -/
theorem getElem?_append (a b : ByteArray) (i : Nat) :
    (a ++ b).data[i]? = if i < a.size then a.data[i]? else b.data[i - a.size]? := by
  rw [ByteArray.data_append, Array.getElem?_append]
  rfl

/-- A word inside the first of two arrays is read there. -/
theorem word?_append_left (h : i + 4 ≤ a.size) : word? (a ++ b) i = word? a i := by
  refine word?_congr fun k hk => ?_
  rw [getElem?_append, if_pos (by omega)]

/-- A word behind the first of two arrays is read in the second. -/
theorem word?_append_right (h : a.size ≤ i) : word? (a ++ b) i = word? b (i - a.size) := by
  refine word?_congr fun k hk => ?_
  rw [getElem?_append, if_neg (by omega)]
  congr 1
  omega

/-- A slice of the first of two arrays is read there. -/
theorem slice?_append_left (h : i + len ≤ a.size) : slice? (a ++ b) i len = slice? a i len := by
  refine slice?_congr (by rw [ByteArray.size_append]; omega) h fun k hk => ?_
  rw [getElem?_append, if_pos (by omega)]

/-- A slice behind the first of two arrays is read in the second. -/
theorem slice?_append_right (h : a.size ≤ i) :
    slice? (a ++ b) i len = slice? b (i - a.size) len := by
  by_cases hle : i - a.size + len ≤ b.size
  · refine slice?_congr (by rw [ByteArray.size_append]; omega) hle fun k hk => ?_
    rw [getElem?_append, if_neg (by omega)]
    congr 1
    omega
  · rw [slice?, slice?, if_neg (by rw [ByteArray.size_append]; omega), if_neg hle]

/-- The slice of all bytes. -/
theorem slice?_self (bytes : ByteArray) : slice? bytes 0 bytes.size = some bytes := by
  rw [slice?_eq_some_iff, Nat.zero_add]
  exact ⟨Nat.le_refl _, ByteArray.extract_zero_size⟩

/-- A concatenation tells its two parts when it is known where the second one starts. -/
theorem append_inj {c d : ByteArray} (h : a ++ b = c ++ d) (hsize : a.size = c.size) :
    a = c ∧ b = d := by
  have hdata := congrArg ByteArray.data h
  rw [ByteArray.data_append, ByteArray.data_append] at hdata
  obtain ⟨hfront, hback⟩ := Array.append_inj hdata hsize
  exact ⟨ByteArray.ext hfront, ByteArray.ext hback⟩

/-- Two slices, the second right behind the first, make up one. -/
theorem slice?_add {bytes front back : ByteArray} {offset m n : Nat}
    (hfront : slice? bytes offset m = some front)
    (hback : slice? bytes (offset + m) n = some back) :
    slice? bytes offset (m + n) = some (front ++ back) := by
  obtain ⟨_, rfl⟩ := slice?_eq_some_iff.1 hfront
  obtain ⟨hle, rfl⟩ := slice?_eq_some_iff.1 hback
  rw [slice?_eq_some_iff, ← Nat.add_assoc]
  exact ⟨hle, ByteArray.extract_eq_extract_append_extract (offset + m) (by omega) (by omega)⟩

/-- The bytes that a word is read from are those of the word. -/
theorem slice?_of_word? {bytes : ByteArray} {offset n : Nat} (h : word? bytes offset = some n) :
    slice? bytes offset 4 = some (ofWord n) := by
  have hle := word?_isSome_iff.1 (Option.isSome_of_eq_some h)
  rw [word?, dif_pos hle] at h
  rw [← slice?_self (ofWord n), ← Option.some.inj h, ofWord_eq]
  refine slice?_congr hle (Nat.le_refl _) fun k hk => ?_
  have hget : bytes.data[offset + k]? = some bytes[offset + k] :=
    Array.getElem?_eq_getElem (Nat.lt_of_lt_of_le (Nat.add_lt_add_left hk _) hle)
  rw [hget, Nat.zero_add]
  match k, hk with
  | 0, _ | 1, _ | 2, _ | 3, _ => rfl

end Append

/-! ## Replacements -/

section Splice

variable {bytes part : ByteArray} {offset : Nat}

/-- A replacement keeps what stands before it and what stands behind it. -/
theorem data_splice :
    (splice bytes offset part).data = bytes.data.extract 0 offset ++ part.data ++
      bytes.data.extract (offset + part.data.size) bytes.data.size := by
  simp only [splice, ByteArray.copySlice, ByteArray.size, Nat.zero_add, Nat.sub_zero, Nat.min_self,
    Array.extract_size]

/-- A replacement changes the bytes it covers and no others. -/
theorem getElem?_splice (h : offset + part.size ≤ bytes.size) (i : Nat) :
    (splice bytes offset part).data[i]? =
      if offset ≤ i ∧ i < offset + part.size then part.data[i - offset]? else bytes.data[i]? := by
  simp only [ByteArray.size] at h ⊢
  have hsize : (bytes.data.extract 0 offset).size = offset := by
    rw [Array.size_extract]
    omega
  have hboth : (bytes.data.extract 0 offset ++ part.data).size = offset + part.data.size := by
    rw [Array.size_append, hsize]
  rw [data_splice, Array.getElem?_append, Array.getElem?_append, hboth, hsize]
  by_cases hbefore : i < offset
  · rw [if_pos (by omega), if_pos hbefore, if_neg (by omega), Array.getElem?_extract,
      if_pos (by omega), Nat.zero_add]
  by_cases hinside : i < offset + part.data.size
  · rw [if_pos hinside, if_neg hbefore, if_pos (by omega)]
  · rw [if_neg hinside, if_neg (by omega), Array.getElem?_extract]
    by_cases hend : i < bytes.data.size
    · rw [if_pos (by omega)]
      congr 1
      omega
    · rw [if_neg (by omega), Array.getElem?_eq_none (by omega)]

/-- The bytes that were written are read back as a slice. -/
theorem slice?_splice_self (h : offset + part.size ≤ bytes.size) :
    slice? (splice bytes offset part) offset part.size = some part := by
  have hsize := size_splice h
  rw [← slice?_self part]
  refine slice?_congr (by omega) (by omega) fun k hk => ?_
  rw [getElem?_splice h, if_pos (by omega), Nat.add_sub_cancel_left, Nat.zero_add]

/-- A word inside a replacement is that of the new bytes. -/
theorem word?_splice_of_inside (h : offset + part.size ≤ bytes.size) {i : Nat}
    (hi : offset ≤ i ∧ i + 4 ≤ offset + part.size) :
    word? (splice bytes offset part) i = word? part (i - offset) := by
  refine word?_congr fun k hk => ?_
  rw [getElem?_splice h, if_pos (by omega)]
  congr 1
  omega

/-- The word that was written is read back. -/
theorem word?_splice_ofWord {n : Nat} (h : offset + 4 ≤ bytes.size) (hn : n < wordLimit) :
    word? (splice bytes offset (ofWord n)) offset = some n := by
  have hfits : offset + (ofWord n).size ≤ bytes.size := h
  rw [word?_splice_of_inside hfits ⟨Nat.le_refl _, Nat.le_refl _⟩, Nat.sub_self, word?_ofWord hn]

end Splice

end ElasticCache.Bytes
