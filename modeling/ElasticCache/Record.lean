import ElasticCache.Bytes

/-!
# Records

A key with its value, in the one form that slabs and the disk log share: the two lengths as words,
then the key, then the value.
-/

namespace ElasticCache

/-- A key with its value. -/
structure Record where
  key : ByteArray
  value : ByteArray

namespace Record

/-- Bytes of the two lengths in front of a record. -/
def headerSize : Nat := 8

/-- Bytes of a record whose key and value have the given lengths. -/
def sizeOf (keyLength valueLength : Nat) : Nat := headerSize + keyLength + valueLength

/-- Bytes of a record. -/
def size (record : Record) : Nat := sizeOf record.key.size record.value.size

/-- The stored form of a record. -/
def encode (record : Record) : ByteArray :=
  Bytes.ofWord record.key.size ++ Bytes.ofWord record.value.size ++ record.key ++ record.value

/-- The stored form of a record has the size of the record. -/
theorem size_encode (record : Record) : record.encode.size = record.size := by
  simp only [encode, ByteArray.size_append, Bytes.size_ofWord, size, sizeOf, headerSize]

end Record

end ElasticCache
