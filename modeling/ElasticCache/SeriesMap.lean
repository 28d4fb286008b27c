import Std.Data.TreeMap

/-!
# Series by label

The series of a metric are told apart by a hash of their labels alone. Labels of one hash share a
series, which bears the label that opened it.
-/

namespace ElasticCache

/-- Series of values by label. -/
structure SeriesMap (α : Type) where
  /-- The series by the hash of their labels, each with the label it bears. -/
  series : Std.TreeMap UInt64 (String × α) := ∅

namespace SeriesMap

variable {α : Type}

/-- Start value of the hash. -/
def hashStart : UInt64 := 0xcbf29ce484222325

/-- Multiplier of the hash. -/
def hashFactor : UInt64 := 0x100000001b3

/-- One byte enters the hash: combine, multiply. -/
def hashStep (h : UInt64) (byte : UInt8) : UInt64 := (h ^^^ byte.toUInt64) * hashFactor

/-- The hash of a label. -/
def hash (label : String) : UInt64 := label.toUTF8.foldl hashStep hashStart

/-- The value of the series for a label. -/
def find? (map : SeriesMap α) (label : String) : Option α := map.series[hash label]?.map (·.2)

/-- Sets the value of the series for a label, and opens the series when there is none. -/
def insert (map : SeriesMap α) (label : String) (value : α) : SeriesMap α :=
  let borne := map.series[hash label]?.elim label (·.1)
  ⟨map.series.insert (hash label) (borne, value)⟩

/-- Drops the series for a label. -/
def erase (map : SeriesMap α) (label : String) : SeriesMap α := ⟨map.series.erase (hash label)⟩

/-- All series in ascending order of the labels they bear. -/
def toList (map : SeriesMap α) : List (String × α) :=
  (map.series.toList.map (·.2)).mergeSort fun a b => a.1 ≤ b.1

/-- A value is found under every label that shares the series it was set for. -/
theorem find?_insert (map : SeriesMap α) (label other : String) (value : α) :
    (map.insert label value).find? other =
      if hash label = hash other then some value else map.find? other := by
  by_cases h : hash label = hash other <;>
    simp [find?, insert, Std.TreeMap.getElem?_insert, h]

/-- Erasing a series takes out all labels of its hash and no others. -/
theorem find?_erase (map : SeriesMap α) (label other : String) :
    (map.erase label).find? other =
      if hash label = hash other then none else map.find? other := by
  by_cases h : hash label = hash other <;>
    simp [find?, erase, Std.TreeMap.getElem?_erase, h]

end SeriesMap

end ElasticCache
