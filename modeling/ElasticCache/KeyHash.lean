/-!
# Key hashing

One 64-bit hash addresses a key everywhere: in the RAM index and in the fingerprint filter. It folds
the bytes of the key with a rotate-xor-multiply step and then spreads the entropy over all bits.
-/

namespace ElasticCache.KeyHash

/-- Start value and multiplier of the byte fold. -/
def seed : UInt64 := 0x517cc1b727220a95

/-- Rotation by five bits to the left. -/
def rotate5 (h : UInt64) : UInt64 := (h <<< 5) ||| (h >>> 59)

/-- One byte enters the hash: rotate, combine, multiply. -/
def step (h : UInt64) (byte : UInt8) : UInt64 := (rotate5 h ^^^ byte.toUInt64) * seed

/-- The fold of all bytes of a key. -/
def fold (key : ByteArray) : UInt64 := key.foldl step seed

/-- A shifted copy of the high bits is combined into the low ones. -/
def foldHigh (h : UInt64) : UInt64 := h ^^^ (h >>> 33)

/-- The finalizer that spreads the entropy of a word over all its bits. -/
def mix (h : UInt64) : UInt64 :=
  foldHigh (foldHigh (foldHigh h * 0xff51afd7ed558ccd) * 0xc4ceb9fe1a85ec53)

/-- The hash of a key. -/
def ofKey (key : ByteArray) : UInt64 := mix (fold key)

end ElasticCache.KeyHash
