import ElasticCache.Record
import ElasticCache.Proofs.Bytes

/-!
# Records inside byte arrays

A record that stands somewhere in an array, be it an arena or a log, is read back by its two
lengths: the key right behind them, and the value behind the key.
-/

namespace ElasticCache.Record

/-- The stored form of a record stands at an offset. -/
def At (bytes : ByteArray) (offset : Nat) (record : Record) : Prop :=
  Bytes.slice? bytes offset record.size = some record.encode

section Reading

variable {bytes : ByteArray} {offset keyLength valueLength : Nat} {key value : ByteArray}
  {record : Record}

/-- The two lengths and a key, with some bytes behind them. -/
def stored (keyLength valueLength : Nat) (key value : ByteArray) : ByteArray :=
  Bytes.ofWord keyLength ++ Bytes.ofWord valueLength ++ key ++ value

/-- The stored form has the lengths of key and value for its words. -/
theorem encode_eq (record : Record) :
    record.encode = stored record.key.size record.value.size record.key record.value := rfl

/-- Stored bytes have the size of a record with such a key and value. -/
theorem size_stored : (stored keyLength valueLength key value).size =
    sizeOf key.size value.size := by
  simp only [stored, ByteArray.size_append, Bytes.size_ofWord, sizeOf, headerSize]

/-- The two lengths take eight bytes. -/
theorem size_lengths (keyLength valueLength : Nat) :
    (Bytes.ofWord keyLength ++ Bytes.ofWord valueLength).size = 8 := by
  rw [ByteArray.size_append, Bytes.size_ofWord, Bytes.size_ofWord]

/-- The first word read back is the length of the key. -/
theorem word?_stored_zero (h : keyLength < wordLimit) :
    Bytes.word? (stored keyLength valueLength key value) 0 = some keyLength := by
  have hlengths := size_lengths keyLength valueLength
  rw [stored, Bytes.word?_append_left (by rw [ByteArray.size_append, hlengths]; omega),
    Bytes.word?_append_left (by omega), Bytes.word?_append_left (Nat.le_refl 4),
    Bytes.word?_ofWord h]

/-- The second word read back is the length of the value. -/
theorem word?_stored_four (h : valueLength < wordLimit) :
    Bytes.word? (stored keyLength valueLength key value) 4 = some valueLength := by
  have hlengths := size_lengths keyLength valueLength
  rw [stored, Bytes.word?_append_left (by rw [ByteArray.size_append, hlengths]; omega),
    Bytes.word?_append_left (by omega), Bytes.word?_append_right (Nat.le_refl 4)]
  exact Bytes.word?_ofWord h

/-- The key is read back behind the lengths. -/
theorem slice?_stored_key :
    Bytes.slice? (stored keyLength valueLength key value) headerSize key.size = some key := by
  have hlengths := size_lengths keyLength valueLength
  rw [stored, headerSize,
    Bytes.slice?_append_left (Nat.le_of_eq (by rw [ByteArray.size_append, hlengths])),
    Bytes.slice?_append_right (Nat.le_of_eq hlengths), hlengths, Nat.sub_self, Bytes.slice?_self]

/-- The value is read back behind the key. -/
theorem slice?_stored_value :
    Bytes.slice? (stored keyLength valueLength key value) (headerSize + key.size) value.size =
      some value := by
  have hfront : (Bytes.ofWord keyLength ++ Bytes.ofWord valueLength ++ key).size =
      headerSize + key.size := by
    rw [ByteArray.size_append, size_lengths, headerSize]
  rw [stored, Bytes.slice?_append_right (Nat.le_of_eq hfront), hfront, Nat.sub_self,
    Bytes.slice?_self]

/-- Where a record stands, the length of its key is read. -/
theorem At.word?_key (h : At bytes offset record) (hkey : record.key.size < wordLimit) :
    Bytes.word? bytes offset = some record.key.size := by
  have hroom : 0 + 4 ≤ record.size := by simp only [size, sizeOf, headerSize]; omega
  have hword := Bytes.word?_of_slice? h hroom
  rw [Nat.add_zero] at hword
  rw [hword, encode_eq, word?_stored_zero hkey]

/-- Where a record stands, the length of its value is read. -/
theorem At.word?_value (h : At bytes offset record) (hvalue : record.value.size < wordLimit) :
    Bytes.word? bytes (offset + 4) = some record.value.size := by
  have hroom : 4 + 4 ≤ record.size := by simp only [size, sizeOf, headerSize]; omega
  rw [Bytes.word?_of_slice? h hroom, encode_eq, word?_stored_four hvalue]

/-- Where a record stands, its key is read. -/
theorem At.slice?_key (h : At bytes offset record) :
    Bytes.slice? bytes (offset + headerSize) record.key.size = some record.key := by
  rw [Bytes.slice?_of_slice? h (by simp only [size, sizeOf]; omega), encode_eq, slice?_stored_key]

/-- Where a record stands, its value is read. -/
theorem At.slice?_value (h : At bytes offset record) :
    Bytes.slice? bytes (offset + headerSize + record.key.size) record.value.size =
      some record.value := by
  rw [Nat.add_assoc, Bytes.slice?_of_slice? h (by simp only [size, sizeOf]; omega), encode_eq,
    slice?_stored_value]

end Reading

end ElasticCache.Record
