import ElasticCache.KeyHash
import Mathlib.Logic.Function.Basic

/-!
# Which keys share a hash

Every step of the hash can be undone. So the finalizer keeps apart what the fold of the bytes has
kept apart, and the fold keeps two states apart through any bytes that enter both of them. Keys that
differ in one byte therefore never share a hash, however long the part behind that byte is.
-/

namespace ElasticCache.KeyHash

/-! ## The finalizer -/

section Mix

/-- A second shift moves the copied bits out of the word, so combining them twice
changes nothing. -/
theorem foldHigh_involutive : Function.Involutive foldHigh := by
  intro h
  have hgone : h >>> 33 >>> 33 = 0 := by
    refine UInt64.toBitVec_inj.1 ?_
    rw [UInt64.toBitVec_shiftRight, UInt64.toBitVec_shiftRight, BitVec.ushiftRight_eq',
      BitVec.ushiftRight_eq', ← BitVec.shiftRight_add]
    exact BitVec.ushiftRight_eq_zero (by decide)
  calc foldHigh (foldHigh h)
    _ = h ^^^ h >>> 33 ^^^ (h >>> 33 ^^^ h >>> 33 >>> 33) := by
      rw [foldHigh, foldHigh, UInt64.shiftRight_xor]
    _ = h := by
      rw [hgone, UInt64.xor_zero, UInt64.xor_assoc, UInt64.xor_self, UInt64.xor_zero]

/-- Multiplication by a word that has an inverse keeps words apart. -/
theorem mul_injective_of_mul_eq_one {factor inverse : UInt64} (h : factor * inverse = 1) :
    Function.Injective fun word => word * factor := by
  intro g g' heq
  have hundone := congrArg (· * inverse) heq
  simpa only [UInt64.mul_assoc, h, UInt64.mul_one] using hundone

/-- The finalizer loses nothing. -/
theorem mix_injective : Function.Injective mix := by
  have hfirst : (0xff51afd7ed558ccd : UInt64) * 0x4f74430c22a54005 = 1 := by decide
  have hsecond : (0xc4ceb9fe1a85ec53 : UInt64) * 0x9cb4b2f8129337db = 1 := by decide
  have hfold := foldHigh_involutive.injective
  exact hfold.comp ((mul_injective_of_mul_eq_one hsecond).comp
    (hfold.comp ((mul_injective_of_mul_eq_one hfirst).comp hfold)))

end Mix

/-! ## One byte -/

section Step

/-- The rotation by two shifts is the one of bit vectors. -/
theorem toBitVec_rotate5 (h : UInt64) : (rotate5 h).toBitVec = h.toBitVec.rotateLeft 5 := by
  rw [BitVec.rotateLeft_def]
  rfl

/-- Every bit comes back to its place. -/
theorem rotateRight_rotateLeft (word : BitVec 64) : (word.rotateLeft 5).rotateRight 5 = word := by
  refine BitVec.eq_of_getLsbD_eq fun i hi => ?_
  rw [BitVec.getLsbD_rotateRight, BitVec.getLsbD_rotateLeft, BitVec.getLsbD_rotateLeft]
  grind

/-- The rotation loses nothing. -/
theorem rotate5_injective : Function.Injective rotate5 := by
  intro g h heq
  have hrotated := congrArg (·.toBitVec.rotateRight 5) heq
  simp only [toBitVec_rotate5, rotateRight_rotateLeft] at hrotated
  exact UInt64.toBitVec_inj.1 hrotated

/-- Multiplying by the seed loses nothing, since the seed is odd. -/
theorem mul_seed_injective : Function.Injective fun word => word * seed :=
  mul_injective_of_mul_eq_one (by decide : seed * 0x2040003d780970bd = 1)

/-- The same byte keeps two states apart. -/
theorem step_left_injective (byte : UInt8) : Function.Injective fun h => step h byte := by
  intro g h heq
  exact rotate5_injective ((UInt64.xor_left_inj _).1 (mul_seed_injective heq))

/-- Two bytes take one state to different ones. -/
theorem step_right_injective (h : UInt64) : Function.Injective (step h) := by
  intro a b heq
  exact UInt8.toUInt64_inj.1 ((UInt64.xor_right_inj _).1 (mul_seed_injective heq))

end Step

/-! ## All bytes of a key -/

section Fold

variable {front other back key : ByteArray} {a b : UInt8}

/-- A fold over the bytes from a place on is one over the rest of their list. -/
theorem foldlM_loop_eq {β : Type} (f : β → UInt8 → β) (bytes : ByteArray) (i : Nat) {rest : Nat}
    (start : β) (hend : i + rest = bytes.size) :
    ByteArray.foldlM.loop (m := Id) (fun b byte => pure (f b byte)) bytes bytes.size (Nat.le_refl _)
      rest i start = (bytes.data.toList.drop i).foldl f start := by
  induction rest generalizing i start with
  | zero =>
    have hnone : bytes.data.toList.drop i = [] :=
      List.drop_eq_nil_of_le (Nat.le_of_eq hend.symm)
    rw [ByteArray.foldlM.loop, dif_neg (by omega), hnone]
    rfl
  | succ rest ih =>
    have hlt : i < bytes.size := by omega
    rw [ByteArray.foldlM.loop, dif_pos hlt, List.drop_eq_getElem_cons hlt]
    exact ih (i + 1) (f start bytes[i]) (by omega)

/-- The loop over the bytes of a key is a fold over their list. -/
theorem fold_eq_foldl (key : ByteArray) : fold key = key.data.toList.foldl step seed := by
  rw [fold, ByteArray.foldl, ByteArray.foldlM, dif_pos (Nat.le_refl _)]
  exact foldlM_loop_eq step key 0 seed (Nat.zero_add _)

/-- The fold of a key goes on from that of its front. -/
theorem fold_append (front back : ByteArray) :
    fold (front ++ back) = back.data.toList.foldl step (fold front) := by
  rw [fold_eq_foldl, fold_eq_foldl, ByteArray.data_append, Array.toList_append, List.foldl_append]

/-- One more byte takes one more step. -/
theorem fold_push (front : ByteArray) (a : UInt8) : fold (front.push a) = step (fold front) a := by
  rw [fold_eq_foldl, fold_eq_foldl, ByteArray.data_push, Array.toList_push, List.foldl_append,
    List.foldl_cons, List.foldl_nil]

/-- Bytes that enter two states keep them apart, however many they are. -/
theorem foldl_step_injective (bytes : List UInt8) :
    Function.Injective fun h => bytes.foldl step h := by
  induction bytes with
  | nil => exact Function.injective_id
  | cons byte rest ih => exact ih.comp (step_left_injective byte)

/-- What two keys have in common at their ends does not decide whether their folds agree. -/
theorem fold_append_inj :
    fold (front ++ back) = fold (other ++ back) ↔ fold front = fold other := by
  rw [fold_append, fold_append]
  exact (foldl_step_injective _).eq_iff

/-- Of two keys that differ in the last byte at most, the folds are equal only if the bytes are. -/
theorem fold_push_inj : fold (front.push a) = fold (front.push b) ↔ a = b := by
  rw [fold_push, fold_push]
  exact (step_right_injective _).eq_iff

/-- The finalizer neither makes nor removes a collision. -/
theorem ofKey_eq_iff : ofKey key = ofKey other ↔ fold key = fold other := mix_injective.eq_iff

end Fold

/-- Keys that differ in one byte, with any bytes before and behind it, have different hashes. The
finalizer is injective on words, so two keys share a hash exactly when they share the fold of their
bytes. -/
theorem one_byte_changes_hash :
    (∀ (front back : ByteArray) (a b : UInt8),
      ofKey (front.push a ++ back) = ofKey (front.push b ++ back) ↔ a = b) ∧
    Function.Injective mix ∧
    ∀ key other : ByteArray, ofKey key = ofKey other ↔ fold key = fold other := by
  refine ⟨fun front back a b => ?_, mix_injective, fun key other => ofKey_eq_iff⟩
  rw [ofKey_eq_iff, fold_append_inj, fold_push_inj]

example : ofKey "user:42".toUTF8 ≠ ofKey "user:43".toUTF8 := by decide +kernel

end ElasticCache.KeyHash
