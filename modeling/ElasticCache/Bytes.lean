/-!
# Words and slices of byte arrays

Little-endian 32-bit words inside byte arrays, and the two ways a region of an array is used: read
as a slice, or replaced by bytes of the same length. The lemmas say that a replacement keeps the
size of the array.
-/

namespace ElasticCache.Bytes

/-- An array of `n` zero bytes, put together from two halves. -/
def zeros (n : Nat) : ByteArray :=
  if n = 0 then .empty
  else
    let half := zeros (n / 2)
    if n % 2 = 0 then half ++ half else (half ++ half).push 0

/-- The `len` bytes from `offset` on, when the array holds them all. -/
def slice? (bytes : ByteArray) (offset len : Nat) : Option ByteArray :=
  if offset + len ≤ bytes.size then some (bytes.extract offset (offset + len)) else none

/-- The four little-endian bytes of a 32-bit word. -/
def ofWord (n : Nat) : ByteArray :=
  ⟨#[UInt8.ofNat n, UInt8.ofNat (n / 256), UInt8.ofNat (n / 65536), UInt8.ofNat (n / 16777216)]⟩

/-- The word at `offset`, when the array holds its four bytes. -/
def word? (bytes : ByteArray) (offset : Nat) : Option Nat :=
  if h : offset + 4 ≤ bytes.size then
    some (bytes[offset].toNat + 256 * bytes[offset + 1].toNat + 65536 * bytes[offset + 2].toNat +
      16777216 * bytes[offset + 3].toNat)
  else none

/-- The array with the bytes from `offset` on replaced by `part`. -/
def splice (bytes : ByteArray) (offset : Nat) (part : ByteArray) : ByteArray :=
  part.copySlice 0 bytes offset part.size

/-- The array consists of zeros alone. -/
theorem data_zeros (n : Nat) : (zeros n).data = Array.replicate n 0 := by
  fun_induction zeros n with
  | case1 => rfl
  | case2 n _ half heven ih =>
    have hn : n / 2 + n / 2 = n := by omega
    rw [ByteArray.data_append, ih, Array.replicate_append_replicate, hn]
  | case3 n _ half hodd ih =>
    have hn : n / 2 + n / 2 + 1 = n := by omega
    rw [ByteArray.data_push, ByteArray.data_append, ih, Array.replicate_append_replicate,
      ← Array.replicate_succ, hn]

/-- An array of zeros has as many bytes as were asked for. -/
theorem size_zeros (n : Nat) : (zeros n).size = n := by
  simp [ByteArray.size, data_zeros]

/-- A word takes four bytes. -/
theorem size_ofWord (n : Nat) : (ofWord n).size = 4 := rfl

/-- Replacing bytes inside an array keeps its size. -/
theorem size_splice {bytes part : ByteArray} {offset : Nat} (h : offset + part.size ≤ bytes.size) :
    (splice bytes offset part).size = bytes.size := by
  simp only [ByteArray.size] at h
  simp only [splice, ByteArray.copySlice, ByteArray.size, Array.size_append, Array.size_extract]
  omega

end ElasticCache.Bytes
