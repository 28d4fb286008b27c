import ElasticCache.Proofs.WorkingSet.Buckets
import ElasticCache.WorkingSet.CuckooFilter
import Mathlib.Data.Finset.Sym

/-!
# A cuckoo filter by classes of keys

Keys with one tag and the same two buckets form a class. However items are moved between their
buckets, displaced or kept aside, every item stays with its class: an insertion adds an item to the
class of its key, an access exchanges one item of the class for one with one more access, and a
deletion takes one item of the class out.
-/

namespace ElasticCache

/-- What a filter knows of a key: a tag and two buckets, in either order. -/
abbrev KeyClass : Type := Nat × Sym2 Nat

namespace CuckooFilter

/-- The class of an item with a tag in a bucket. -/
def classAt (filter : CuckooFilter) (i tag : Nat) : KeyClass :=
  (tag, s(i, filter.otherBucket i tag))

/-- The class of a key. -/
def classOf (filter : CuckooFilter) (key : ByteArray) : KeyClass :=
  filter.classAt (filter.bucketOf (KeyHash.ofKey key)) (filter.tagOf (KeyHash.ofKey key))

/-- The victim, at its bucket. -/
def victimEntries (filter : CuckooFilter) : Multiset (Nat × Item) :=
  match filter.victim with
  | some v => {(v.bucket, v.item)}
  | none => 0

/-- All items, victim included, each with the bucket where it is looked for. -/
def stored (filter : CuckooFilter) : Multiset (Nat × Item) :=
  filter.table.entries + filter.victimEntries

/-- Size and number of accesses of an item. -/
def figures (item : Item) : Nat × Nat := (item.size, item.accesses)

/-- The figures of all items that have the tag of a class and are at one of its buckets. -/
def members (filter : CuckooFilter) (c : KeyClass) : Multiset (Nat × Nat) :=
  (filter.stored.filter fun entry => entry.2.tag = c.1 ∧ entry.1 ∈ c.2).map fun entry =>
    figures entry.2

/-- An item with the class that its tag and its bucket give it. -/
def label (filter : CuckooFilter) (entry : Nat × Item) : KeyClass × Item :=
  (filter.classAt entry.1 entry.2.tag, entry.2)

/-- All items, each with its class. -/
def labels (filter : CuckooFilter) : Multiset (KeyClass × Item) :=
  filter.stored.map filter.label

/-- The figures of the items that are labelled with a class. -/
def classMembers (labels : Multiset (KeyClass × Item)) (c : KeyClass) : Multiset (Nat × Nat) :=
  (labels.filter fun label => label.1 = c).map fun label => figures label.2

/-- A further item is a further member of its class alone. -/
theorem classMembers_cons (c c' : KeyClass) (item : Item) (labels : Multiset (KeyClass × Item)) :
    classMembers ((c', item) ::ₘ labels) c =
      if c' = c then figures item ::ₘ classMembers labels c else classMembers labels c := by
  simp only [classMembers, Multiset.filter_cons, Multiset.map_add]
  split
  next => rw [Multiset.map_singleton, Multiset.singleton_add]
  next => rw [Multiset.map_zero, zero_add]

/-- The number of buckets is a power of two, every bucket has four slots, the victim is an item at a
bucket of the table, and the items in the table are counted. -/
structure Sound (filter : CuckooFilter) : Prop where
  power : ∃ k, filter.table.size = 2 ^ k
  shape : filter.table.WellShaped
  victim : ∀ v, filter.victim = some v → v.bucket < filter.table.size ∧ v.item.isBlank = false
  placed : filter.placed = filter.table.entries.card

variable {filter filter' : CuckooFilter} {i tag : Nat} {key : ByteArray}

/-! ## The two buckets of an item -/

/-- The other bucket of a tag depends on the number of buckets alone. -/
theorem otherBucket_congr (h : filter'.table.size = filter.table.size) :
    filter'.otherBucket = filter.otherBucket := by
  funext i tag
  rw [otherBucket, otherBucket, h]

/-- The class of a tag at a bucket depends on the number of buckets alone. -/
theorem classAt_congr (h : filter'.table.size = filter.table.size) :
    filter'.classAt = filter.classAt := by
  funext i tag
  rw [classAt, classAt, otherBucket_congr h]

/-- The label of an entry depends on the number of buckets alone. -/
theorem label_congr (h : filter'.table.size = filter.table.size) :
    filter'.label = filter.label := by
  funext entry
  rw [label, label, classAt_congr h]

/-- The class of a key depends on the shape of the table alone. -/
theorem classOf_congr (h : filter.table.SameShape filter'.table) :
    filter'.classOf = filter.classOf := by
  funext key
  rw [classOf, classOf, classAt_congr h.size_eq, bucketOf, bucketOf, tagOf, tagOf, h.size_eq,
    h.tagMask_eq]

/-- No key has the tag of a blank item. -/
theorem tagOf_ne_zero (filter : CuckooFilter) (hash : UInt64) : filter.tagOf hash ≠ 0 := by
  rw [tagOf]
  split <;> omega

namespace Sound

/-- A sound filter has a bucket. -/
theorem size_pos (h : filter.Sound) : 0 < filter.table.size := by
  obtain ⟨k, hk⟩ := h.power
  rw [hk]
  exact Nat.two_pow_pos k

/-- The other bucket is one of the table. -/
theorem otherBucket_lt (h : filter.Sound) (i tag : Nat) :
    filter.otherBucket i tag < filter.table.size := Nat.mod_lt _ h.size_pos

/-- The bucket of a hash is one of the table. -/
theorem bucketOf_lt (h : filter.Sound) (hash : UInt64) :
    filter.bucketOf hash < filter.table.size := Nat.mod_lt _ h.size_pos

/-- Each of the two buckets is the other one of the other. -/
theorem otherBucket_otherBucket (h : filter.Sound) (hi : i < filter.table.size) :
    filter.otherBucket (filter.otherBucket i tag) tag = i := by
  obtain ⟨k, hk⟩ := h.power
  rw [hk] at hi
  simp only [otherBucket, hk, Nat.xor_mod_two_pow, Nat.mod_mod]
  rw [Nat.xor_assoc, Nat.xor_self, Nat.xor_zero, Nat.mod_eq_of_lt hi]

/-- Moving to the other bucket keeps the class. -/
theorem classAt_otherBucket (h : filter.Sound) (hi : i < filter.table.size) :
    filter.classAt (filter.otherBucket i tag) tag = filter.classAt i tag := by
  rw [classAt, classAt, h.otherBucket_otherBucket hi, Sym2.eq_swap]

/-- Every item is at a bucket of the table. -/
theorem lt_of_mem_stored (h : filter.Sound) {entry : Nat × Item} (hentry : entry ∈ filter.stored) :
    entry.1 < filter.table.size ∧ entry.2.isBlank = false := by
  rcases Multiset.mem_add.1 hentry with hmem | hmem
  · obtain ⟨hlt, _, hblank⟩ := FingerprintTable.mem_entries.1 hmem
    exact ⟨hlt, hblank⟩
  · cases hvictim : filter.victim with
    | none =>
      rw [victimEntries, hvictim] at hmem
      exact absurd hmem (Multiset.notMem_zero entry)
    | some v =>
      rw [victimEntries, hvictim, Multiset.mem_singleton] at hmem
      rw [hmem]
      exact h.victim v hvictim

/-- A sound filter counts the items that it stores. -/
theorem count_eq (h : filter.Sound) : filter.count = filter.stored.card := by
  rw [count, stored, Multiset.card_add, h.placed, victimEntries]
  cases filter.victim <;> rfl

/-- An item is in a class exactly when it has the tag of the class and is at one of its buckets. -/
theorem classAt_eq_iff (h : filter.Sound) {j : Nat} (hi : i < filter.table.size)
    (hj : j < filter.table.size) (other : Nat) :
    filter.classAt i other = filter.classAt j tag ↔
      other = (filter.classAt j tag).1 ∧ i ∈ (filter.classAt j tag).2 := by
  constructor
  · intro heq
    rw [← heq]
    exact ⟨rfl, Sym2.mem_mk_left _ _⟩
  · rintro ⟨rfl, hmem⟩
    rcases Sym2.mem_iff.1 hmem with rfl | rfl
    · rfl
    · exact h.classAt_otherBucket hj

/-- The members of the class of a key are the items that are labelled with it. -/
theorem members_classOf (h : filter.Sound) (key : ByteArray) :
    filter.members (filter.classOf key) = classMembers filter.labels (filter.classOf key) := by
  rw [members, classMembers, labels, Multiset.filter_map, Multiset.map_map]
  congr 1
  apply Multiset.filter_congr
  intro entry hentry
  exact (h.classAt_eq_iff (h.lt_of_mem_stored hentry).1 (h.bucketOf_lt _) entry.2.tag).symm

end Sound

/-! ## Placing an item -/

/-- Without a victim all items are in the table. -/
theorem labels_of_victim_eq_none (hnone : filter.victim = none) :
    filter.labels = filter.table.entries.map filter.label := by
  rw [labels, stored, victimEntries, hnone, add_zero]

/-- **Placing.** However many items are displaced, and whether or not one is left over as the
victim, the filter holds the items that it held and the new one, all with their classes. The search
goes on with an item of one bucket at the other bucket of that item. -/
theorem Sound.place (h : filter.Sound) (hnone : filter.victim = none) {item : Item}
    (hi : i < filter.table.size) (hitem : item.isBlank = false) (mayDisplace : Bool)
    (kicks : Nat) :
    (filter.place i item mayDisplace kicks).Sound ∧
      filter.table.SameShape (filter.place i item mayDisplace kicks).table ∧
      (filter.place i item mayDisplace kicks).labels =
        (filter.classAt i item.tag, item) ::ₘ filter.labels := by
  induction kicks generalizing filter i item mayDisplace with
  | zero =>
    refine ⟨⟨h.power, h.shape, ?_, h.placed⟩, .refl _, ?_⟩
    · intro v hv
      obtain rfl := Option.some.inj hv
      exact ⟨hi, hitem⟩
    · rw [labels_of_victim_eq_none hnone, labels, stored, Multiset.map_add, add_comm]
      rfl
  | succ kicks ih =>
    obtain ⟨table, draws, hshape, hput⟩ :=
      FingerprintTable.put_cases hi h.shape hitem mayDisplace filter.draws
    have hnext {placed : Nat} (hplaced : placed = table.entries.card) :
        ({ filter with table, draws, placed } : CuckooFilter).Sound :=
      ⟨hshape.size_eq ▸ h.power, hshape.wellShaped h.shape, by simp [hnone], hplaced⟩
    have hlabels (placed : Nat) : ({ filter with table, draws, placed } : CuckooFilter).labels =
        table.entries.map filter.label := by
      have hvictim : ({ filter with table, draws, placed } : CuckooFilter).victim = none := hnone
      rw [labels_of_victim_eq_none hvictim, label_congr hshape.size_eq]
    have hmoves {moved : Item} (hmoved : moved.isBlank = false)
        (hplaced : filter.placed = table.entries.card) :
        let next : CuckooFilter := { filter with table, draws }
        let after := next.place (next.otherBucket i moved.tag) moved true kicks
        after.Sound ∧ filter.table.SameShape after.table ∧
          after.labels = (filter.classAt i moved.tag, moved) ::ₘ
            table.entries.map filter.label := by
      intro next after
      have hother := (hnext hplaced).otherBucket_lt i moved.tag
      have hin : i < next.table.size := Nat.lt_of_lt_of_eq hi hshape.size_eq.symm
      obtain ⟨hsound, hshape', hafter⟩ := ih (hnext hplaced) hnone hother hmoved true
      refine ⟨hsound, hshape.trans hshape', hafter.trans ?_⟩
      rw [hlabels, (hnext hplaced).classAt_otherBucket hin, classAt_congr hshape.size_eq]
    rw [CuckooFilter.place]
    rcases hput with ⟨hput, hentries⟩ | ⟨other, rest, hput, hblank, hentries, hentries'⟩ |
      ⟨hput, rfl⟩
    · simp only [hput]
      have hplaced : filter.placed + 1 = table.entries.card := by
        rw [hentries, Multiset.card_cons, h.placed]
      refine ⟨hnext hplaced, hshape, ?_⟩
      rw [hlabels, hentries, Multiset.map_cons, labels_of_victim_eq_none hnone]
      rfl
    · simp only [hput]
      have hplaced : filter.placed = table.entries.card := by
        rw [h.placed, hentries, hentries', Multiset.card_cons, Multiset.card_cons]
      obtain ⟨hsound, hshape', hafter⟩ := hmoves hblank hplaced
      refine ⟨hsound, hshape', hafter.trans ?_⟩
      rw [hentries', labels_of_victim_eq_none hnone, hentries, Multiset.map_cons,
        Multiset.map_cons, Multiset.cons_swap]
      rfl
    · simp only [hput]
      obtain ⟨hsound, hshape', hafter⟩ := hmoves hitem h.placed
      refine ⟨hsound, hshape', hafter.trans ?_⟩
      rw [labels_of_victim_eq_none hnone]

/-! ## Looking a key up -/

/-- The bucket of a key and its other bucket give items with its tag the class of the key. -/
theorem Sound.label_eq (h : filter.Sound) {j : Nat} {item : Item}
    (htag : item.tag = filter.tagOf (KeyHash.ofKey key))
    (hj : j = filter.bucketOf (KeyHash.ofKey key) ∨
      j = filter.otherBucket (filter.bucketOf (KeyHash.ofKey key))
        (filter.tagOf (KeyHash.ofKey key))) :
    filter.label (j, item) = (filter.classOf key, item) := by
  rw [label, classOf, htag]
  rcases hj with rfl | rfl
  · rfl
  · rw [h.classAt_otherBucket (h.bucketOf_lt _)]

/-- The victim is found when it has the tag and is at one of the two buckets. -/
theorem victimAt_eq_some_iff {j : Nat} {v : Victim} :
    filter.victimAt i j tag = some v ↔
      filter.victim = some v ∧ v.item.tag = tag ∧ (v.bucket = i ∨ v.bucket = j) := by
  simp only [victimAt, Option.filter_eq_some_iff, Bool.and_eq_true, Bool.or_eq_true, beq_iff_eq]

/-- What is stored is in the table or the victim. -/
theorem mem_stored {entry : Nat × Item} :
    entry ∈ filter.stored ↔ entry ∈ filter.table.entries ∨
      ∃ v, filter.victim = some v ∧ entry = (v.bucket, v.item) := by
  rw [stored, Multiset.mem_add, victimEntries]
  cases filter.victim with
  | none => simp
  | some v => simp

/-- A class has members exactly when an item with its tag is at one of its buckets. -/
theorem members_ne_zero_iff {c : KeyClass} :
    filter.members c ≠ 0 ↔ ∃ entry ∈ filter.stored, entry.2.tag = c.1 ∧ entry.1 ∈ c.2 := by
  rw [members, ne_eq, Multiset.map_eq_zero, Multiset.filter_eq_nil]
  simp only [not_forall, not_not, exists_prop]

/-- A key may be in the filter exactly when its class has members. -/
theorem Sound.contains_iff (h : filter.Sound) :
    filter.contains key = true ↔ filter.members (filter.classOf key) ≠ 0 := by
  have htag := filter.tagOf_ne_zero (KeyHash.ofKey key)
  have hi := h.bucketOf_lt (KeyHash.ofKey key)
  have hj := h.otherBucket_lt (filter.bucketOf (KeyHash.ofKey key))
    (filter.tagOf (KeyHash.ofKey key))
  rw [members_ne_zero_iff, contains]
  simp only [Bool.or_eq_true, Option.isSome_iff_exists, victimAt_eq_some_iff,
    FingerprintTable.holds_iff hi htag, FingerprintTable.holds_iff hj htag, classOf, classAt,
    mem_stored, Sym2.mem_iff]
  constructor
  · rintro ((⟨v, hv, hvtag, hbucket⟩ | ⟨item, hmem, heq⟩) | ⟨item, hmem, heq⟩)
    · exact ⟨_, .inr ⟨v, hv, rfl⟩, hvtag, hbucket⟩
    · exact ⟨_, .inl hmem, heq, .inl rfl⟩
    · exact ⟨_, .inl hmem, heq, .inr rfl⟩
  · rintro ⟨⟨j, item⟩, hmem | ⟨v, hv, hentry⟩, heq, hbucket⟩
    · rcases hbucket with rfl | rfl
      · exact .inl (.inr ⟨item, hmem, heq⟩)
      · exact .inr ⟨item, hmem, heq⟩
    · obtain ⟨rfl, rfl⟩ := Prod.mk.inj hentry
      exact .inl (.inl ⟨v, hv, heq, hbucket⟩)

/-- A key is found exactly when it is contained. -/
theorem isSome_find (filter : CuckooFilter) (key : ByteArray) :
    (filter.find key).isSome = filter.contains key := by
  simp only [find, contains]
  cases filter.victimAt _ _ _ with
  | some v => simp only [Option.isSome_some, Bool.true_or]
  | none =>
    simp only [Option.isSome_map, Option.isSome_or, FingerprintTable.isSome_access,
      Option.isSome_none, Bool.false_or]

/-- A key is deleted exactly when it is contained. -/
theorem isSome_delete (filter : CuckooFilter) (key : ByteArray) :
    (filter.delete key).isSome = filter.contains key := by
  rw [delete, contains]
  generalize filter.otherBucket _ _ = j
  rw [Bool.or_assoc, ← FingerprintTable.isSome_take, ← FingerprintTable.isSome_take,
    ← Option.isSome_or, deleteAt]
  split
  next item table htaken =>
    rw [htaken, Option.isSome_some, Bool.or_true]
    cases filter.victim <;> rfl
  next htaken => rw [htaken, Option.isSome_map, Option.isSome_none, Bool.or_false]

/-- **Inserting.** An item for the key joins the class of the key. -/
theorem Sound.insert {size : Nat} {item : Item} (h : filter.Sound)
    (hinsert : filter.insert key size = some (item, filter')) :
    filter'.Sound ∧ filter.table.SameShape filter'.table ∧ figures item = (size, 0) ∧
      filter'.labels = (filter.classOf key, item) ::ₘ filter.labels := by
  unfold CuckooFilter.insert at hinsert
  split at hinsert
  next => cases hinsert
  next hvictim =>
    have hnone : filter.victim = none := Option.not_isSome_iff_eq_none.1 hvictim
    obtain ⟨rfl, rfl⟩ := Prod.mk.inj (Option.some.inj hinsert)
    have hblank : (⟨filter.tagOf (KeyHash.ofKey key), size, 0⟩ : Item).isBlank = false :=
      beq_false_of_ne (filter.tagOf_ne_zero _)
    obtain ⟨hsound, hshape, hlabels⟩ :=
      h.place hnone (h.bucketOf_lt (KeyHash.ofKey key)) hblank false maxKicks
    exact ⟨hsound, hshape, rfl, hlabels⟩

/-- The victim is stored besides the entries of the table. -/
theorem stored_of_victim {v : Victim} (h : filter.victim = some v) :
    filter.stored = (v.bucket, v.item) ::ₘ filter.table.entries := by
  rw [stored, victimEntries, h, add_comm, Multiset.singleton_add]

/-- **Finding.** One item of the class of the key is counted once more. -/
theorem Sound.find {item : Item} (h : filter.Sound)
    (hfind : filter.find key = some (item, filter')) :
    filter'.Sound ∧ filter.table.SameShape filter'.table ∧ ∃ old rest, item = old.access ∧
      filter.labels = (filter.classOf key, old) ::ₘ rest ∧
      filter'.labels = (filter.classOf key, item) ::ₘ rest := by
  have htag := filter.tagOf_ne_zero (KeyHash.ofKey key)
  have hi := h.bucketOf_lt (KeyHash.ofKey key)
  unfold CuckooFilter.find at hfind
  dsimp only at hfind
  split at hfind
  next v hvictim =>
    obtain ⟨hv, hvtag, hbucket⟩ := victimAt_eq_some_iff.1 hvictim
    obtain ⟨rfl, rfl⟩ := Prod.mk.inj (Option.some.inj hfind)
    let found : CuckooFilter := { filter with victim := some { v with item := v.item.access } }
    have hsound : found.Sound := by
      refine ⟨h.power, h.shape, ?_, h.placed⟩
      intro v' hv'
      obtain rfl := Option.some.inj hv'
      exact h.victim v hv
    have hvictim' : found.victim = some { v with item := v.item.access } := rfl
    have hlabel : found.label = filter.label := label_congr rfl
    refine ⟨hsound, .refl _, v.item, filter.table.entries.map filter.label, rfl, ?_, ?_⟩
    · rw [labels, stored_of_victim hv, Multiset.map_cons, h.label_eq hvtag hbucket]
    · have haccess : v.item.access.tag = filter.tagOf (KeyHash.ofKey key) := hvtag
      rw [labels, hlabel, stored_of_victim hvictim', Multiset.map_cons,
        h.label_eq haccess hbucket]
  next hvictim =>
    obtain ⟨⟨found, table⟩, haccess, heq⟩ := Option.map_eq_some_iff.1 hfind
    obtain ⟨rfl, rfl⟩ := Prod.mk.inj heq
    obtain ⟨j, hj, hlt, haccess⟩ : ∃ j, (j = filter.bucketOf (KeyHash.ofKey key) ∨
        j = filter.otherBucket (filter.bucketOf (KeyHash.ofKey key))
          (filter.tagOf (KeyHash.ofKey key))) ∧ j < filter.table.size ∧
        filter.table.access j (filter.tagOf (KeyHash.ofKey key)) = some (found, table) := by
      rcases Option.or_eq_some_iff.1 haccess with hfirst | ⟨_, hsecond⟩
      · exact ⟨_, .inl rfl, hi, hfirst⟩
      · exact ⟨_, .inr rfl, h.otherBucket_lt _ _, hsecond⟩
    obtain ⟨old, rest, hold, rfl, hentries, hentries', hshape⟩ :=
      FingerprintTable.exists_of_access hlt htag haccess
    have hplaced : filter.placed = table.entries.card := by
      rw [h.placed, hentries, hentries', Multiset.card_cons, Multiset.card_cons]
    let after : CuckooFilter := { filter with table }
    have hstored : after.stored = (j, old.access) ::ₘ (rest + filter.victimEntries) := by
      rw [← Multiset.cons_add, ← hentries']
      rfl
    have hlabel : after.label = filter.label := label_congr hshape.size_eq
    refine ⟨⟨hshape.size_eq ▸ h.power, hshape.wellShaped h.shape, ?_, hplaced⟩, hshape, old,
      (rest + filter.victimEntries).map filter.label, rfl, ?_, ?_⟩
    · intro v hv
      exact hshape.size_eq ▸ h.victim v hv
    · rw [labels, stored, hentries, Multiset.cons_add, Multiset.map_cons, h.label_eq hold hj]
    · have haccess : old.access.tag = filter.tagOf (KeyHash.ofKey key) := hold
      rw [labels, hlabel, hstored, Multiset.map_cons, h.label_eq haccess hj]

/-- What is taken out of the table comes out of one of two buckets, and no victim is left in the
meantime. -/
theorem Sound.take {j : Nat} {item : Item} {table : FingerprintTable} (h : filter.Sound)
    (hi : i < filter.table.size) (hj : j < filter.table.size) (htag : tag ≠ 0)
    (htake : (filter.table.take i tag).or (filter.table.take j tag) = some (item, table)) :
    let rest : CuckooFilter := { filter with table, placed := filter.placed - 1, victim := none }
    rest.Sound ∧ filter.table.SameShape table ∧ item.tag = tag ∧
      ∃ b, (b = i ∨ b = j) ∧ filter.table.entries = (b, item) ::ₘ table.entries := by
  obtain ⟨b, hb, hlt, htake⟩ : ∃ b, (b = i ∨ b = j) ∧ b < filter.table.size ∧
      filter.table.take b tag = some (item, table) := by
    rcases Option.or_eq_some_iff.1 htake with hfirst | ⟨_, hsecond⟩
    · exact ⟨i, .inl rfl, hi, hfirst⟩
    · exact ⟨j, .inr rfl, hj, hsecond⟩
  obtain ⟨hitem, hentries, hshape⟩ := FingerprintTable.exists_of_take hlt htag htake
  have hplaced : filter.placed - 1 = table.entries.card := by
    rw [h.placed, hentries, Multiset.card_cons, Nat.add_sub_cancel]
  refine ⟨⟨hshape.size_eq ▸ h.power, hshape.wellShaped h.shape, nofun, hplaced⟩, hshape, hitem, b,
    hb, hentries⟩

/-- **Deleting.** One item of the class of the key leaves, even when the victim moves up. -/
theorem Sound.delete {item : Item} (h : filter.Sound)
    (hdelete : filter.delete key = some (item, filter')) :
    filter'.Sound ∧ filter.table.SameShape filter'.table ∧
      filter.labels = (filter.classOf key, item) ::ₘ filter'.labels := by
  have htag := filter.tagOf_ne_zero (KeyHash.ofKey key)
  have hi := h.bucketOf_lt (KeyHash.ofKey key)
  have hj := h.otherBucket_lt (filter.bucketOf (KeyHash.ofKey key))
    (filter.tagOf (KeyHash.ofKey key))
  rw [CuckooFilter.delete, deleteAt] at hdelete
  split at hdelete
  next taken table htake =>
    obtain ⟨hrest, hshape, hitem, b, hb, hentries⟩ := h.take hi hj htag htake
    have hlabel := h.label_eq hitem hb
    let rest : CuckooFilter := { filter with table, placed := filter.placed - 1, victim := none }
    have hrestLabels : rest.labels = table.entries.map filter.label := by
      have hnone : rest.victim = none := rfl
      rw [labels_of_victim_eq_none hnone, label_congr hshape.size_eq]
    dsimp only at hdelete
    split at hdelete
    next hnone =>
      have hnone : filter.victim = none := hnone
      have hsame : ({ filter with table, placed := filter.placed - 1 } : CuckooFilter) = rest := by
        rw [hnone]
      rw [hsame] at hdelete
      obtain ⟨rfl, rfl⟩ := Prod.mk.inj (Option.some.inj hdelete)
      refine ⟨hrest, hshape, ?_⟩
      rw [hrestLabels, labels_of_victim_eq_none hnone, hentries, Multiset.map_cons, hlabel]
    next v hv =>
      obtain ⟨rfl, rfl⟩ := Prod.mk.inj (Option.some.inj hdelete)
      obtain ⟨hlt, hblank⟩ := h.victim v hv
      have hlt' : v.bucket < rest.table.size := Nat.lt_of_lt_of_eq hlt hshape.size_eq.symm
      obtain ⟨hsound, hshape', hlabels⟩ := hrest.place rfl hlt' hblank false maxKicks
      refine ⟨hsound, hshape.trans hshape', ?_⟩
      rw [hlabels, hrestLabels, classAt_congr hshape.size_eq, labels, stored_of_victim hv,
        Multiset.map_cons, hentries, Multiset.map_cons, hlabel, Multiset.cons_swap]
      rfl
  next htake =>
    obtain ⟨v, hvictim, heq⟩ := Option.map_eq_some_iff.1 hdelete
    obtain ⟨rfl, rfl⟩ := Prod.mk.inj heq
    obtain ⟨hv, hvtag, hbucket⟩ := victimAt_eq_some_iff.1 hvictim
    let rest : CuckooFilter := { filter with victim := none }
    have hnone : rest.victim = none := rfl
    have hlabel : rest.label = filter.label := label_congr rfl
    refine ⟨⟨h.power, h.shape, nofun, h.placed⟩, .refl _, ?_⟩
    rw [labels_of_victim_eq_none hnone, hlabel, labels, stored_of_victim hv, Multiset.map_cons,
      h.label_eq hvtag hbucket]

/-! ## New filters -/

/-- The number of buckets is a power of two, as the table requires. -/
theorem isPowerOfTwo_bucketsFor (maxKeys : Nat) : (bucketsFor maxKeys).isPowerOfTwo := by
  obtain ⟨k, hk⟩ := Nat.isPowerOfTwo_nextPowerOfTwo
    (max (maxKeys / FingerprintTable.slotsPerBucket) 1)
  simp only [bucketsFor, hk]
  split
  · exact ⟨k + 1, (Nat.pow_succ' ..).symm⟩
  · exact ⟨k, rfl⟩

/-- A filter can be built when its table is no larger than an object may be. -/
theorem exists_new {maxKeys : Nat}
    (hsize : bucketsFor maxKeys * FingerprintTable.bucketBytes < objectLimit) (seed : UInt64) :
    ∃ filter, new maxKeys seed = .ok filter := by
  obtain ⟨k, hk⟩ := isPowerOfTwo_bucketsFor maxKeys
  have hlog : ¬1 <<< (bucketsFor maxKeys).log2 ≠ bucketsFor maxKeys := by
    rw [hk, Nat.one_shiftLeft, Nat.log2_two_pow]
    exact fun hne => hne rfl
  rw [new, FingerprintTable.new, if_neg hlog, fitObject_eq_ok hsize]
  exact ⟨_, rfl⟩

/-- A new filter holds nothing. -/
theorem sound_of_new {maxKeys : Nat} {seed : UInt64} (h : new maxKeys seed = .ok filter) :
    filter.Sound ∧ filter.victim = none ∧ filter.stored = 0 := by
  obtain ⟨k, hk⟩ := isPowerOfTwo_bucketsFor maxKeys
  obtain ⟨table, htable, heq⟩ := bind_eq_ok_iff.1 h
  obtain ⟨hsize, hshape, hentries⟩ := FingerprintTable.of_new htable
  have hplaced : 0 = table.entries.card := by rw [hentries, Multiset.card_zero]
  rw [← Except.ok.inj heq]
  exact ⟨⟨⟨k, hsize.trans hk⟩, hshape, nofun, hplaced⟩, rfl,
    by simp [stored, hentries, victimEntries]⟩

end CuckooFilter

end ElasticCache
