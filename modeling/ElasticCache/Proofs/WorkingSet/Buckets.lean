import ElasticCache.WorkingSet.FingerprintTable
import Mathlib.Algebra.BigOperators.Group.Finset.Basic
import Mathlib.Algebra.Order.Group.Multiset

/-!
# What the buckets hold

A table holds a multiset of items, each in its bucket. Every change of a table exchanges the content
of one slot: an item is put into a free slot, takes the slot of another one, is counted once more,
or leaves its slot free.
-/

namespace ElasticCache

/-- The first item that satisfies a condition is exchanged, and the others stay. -/
theorem exists_of_replaceFirst {p : Item → Bool} {f : Item → Item} {items items' : List Item}
    {old : Item} (h : replaceFirst p f items = some (old, items')) :
    p old = true ∧ ∃ before after, items = before ++ old :: after ∧
      items' = before ++ f old :: after := by
  induction items generalizing items' with
  | nil => cases h
  | cons item rest ih =>
    rw [replaceFirst] at h
    split at h
    next hp =>
      obtain ⟨rfl, rfl⟩ := Prod.mk.inj (Option.some.inj h)
      exact ⟨hp, [], rest, rfl, rfl⟩
    next hp =>
      obtain ⟨⟨old', rest'⟩, hrest, heq⟩ := Option.map_eq_some_iff.1 h
      obtain ⟨rfl, rfl⟩ := Prod.mk.inj heq
      obtain ⟨hp', before, after, rfl, rfl⟩ := ih hrest
      exact ⟨hp', item :: before, after, rfl, rfl⟩

/-- Nothing is replaced exactly when no item matches. -/
theorem replaceFirst_eq_none_iff {p : Item → Bool} {f : Item → Item} {items : List Item} :
    replaceFirst p f items = none ↔ ∀ item ∈ items, p item = false := by
  induction items with
  | nil => exact ⟨nofun, fun _ => rfl⟩
  | cons item rest ih =>
    rw [replaceFirst, List.forall_mem_cons, ← ih]
    cases p item with
    | true => simp only [if_true, reduceCtorEq, Bool.true_eq_false, false_and]
    | false => simp only [Bool.false_eq_true, if_false, Option.map_eq_none_iff, true_and]

/-- A draw names one of the four slots of a bucket. -/
theorem Draws.slot_lt (draws : Draws) : draws.slot.1 < FingerprintTable.slotsPerBucket := by
  have hlt := (scramble (draws.state + 0x2d358dccaa6c78a5)).toNat_lt
  rw [Draws.slot, Nat.shiftRight_eq_div_pow]
  apply Nat.div_lt_of_lt_mul
  exact hlt

namespace FingerprintTable

/-- What a slot of a bucket holds: an item, or nothing. -/
def slotEntries (i : Nat) (item : Item) : Multiset (Nat × Item) :=
  if item.isBlank then 0 else {(i, item)}

/-- The items in the slots of a bucket, each with the bucket. -/
def bucketEntries (i : Nat) (items : List Item) : Multiset (Nat × Item) :=
  (items.map (slotEntries i)).sum

/-- All items of a table, each with its bucket. -/
def entries (table : FingerprintTable) : Multiset (Nat × Item) :=
  ∑ i ∈ Finset.range table.size, bucketEntries i (table.bucket i)

/-- Every bucket has four slots. -/
def WellShaped (table : FingerprintTable) : Prop :=
  ∀ i < table.size, (table.bucket i).length = slotsPerBucket

variable {table : FingerprintTable} {i : Nat} {items : List Item}

/-- A table keeps its number of buckets. -/
theorem size_setBucket (table : FingerprintTable) (i : Nat) (items : List Item) :
    (table.setBucket i items).size = table.size := by
  simp only [size, setBucket, Array.size_setIfInBounds]

/-- The bucket that is set has the new items, and the others are as before. -/
theorem bucket_setBucket (hi : i < table.size) (j : Nat) :
    (table.setBucket i items).bucket j = if i = j then items else table.bucket j := by
  simp only [bucket, setBucket, Array.getD_eq_getD_getElem?, Array.getElem?_setIfInBounds]
  split
  next heq =>
    have hin : i < table.buckets.size := hi
    rw [if_pos hin, Option.getD_some]
  next => rfl

/-- A slot has its item for an entry unless it is blank. -/
theorem mem_slotEntries {entry : Nat × Item} {item : Item} :
    entry ∈ slotEntries i item ↔ entry = (i, item) ∧ item.isBlank = false := by
  unfold slotEntries
  cases item.isBlank <;> simp

/-- The entries of a bucket are its items that are not blank. -/
theorem mem_bucketEntries {entry : Nat × Item} :
    entry ∈ bucketEntries i items ↔
      entry.1 = i ∧ entry.2 ∈ items ∧ entry.2.isBlank = false := by
  obtain ⟨j, item⟩ := entry
  induction items with
  | nil => simp [bucketEntries]
  | cons first rest ih =>
    rw [bucketEntries, List.map_cons, List.sum_cons, Multiset.mem_add, mem_slotEntries,
      ← bucketEntries, ih, List.mem_cons, Prod.mk.injEq]
    constructor
    · rintro (⟨⟨rfl, rfl⟩, hblank⟩ | ⟨rfl, hmem, hblank⟩)
      · exact ⟨rfl, .inl rfl, hblank⟩
      · exact ⟨rfl, .inr hmem, hblank⟩
    · rintro ⟨rfl, rfl | hmem, hblank⟩
      · exact .inl ⟨⟨rfl, rfl⟩, hblank⟩
      · exact .inr ⟨rfl, hmem, hblank⟩

/-- The entries of a table are the items of its buckets that are not blank. -/
theorem mem_entries {entry : Nat × Item} :
    entry ∈ table.entries ↔
      entry.1 < table.size ∧ entry.2 ∈ table.bucket entry.1 ∧ entry.2.isBlank = false := by
  rw [entries, Multiset.mem_sum]
  simp only [Finset.mem_range, mem_bucketEntries]
  constructor
  · rintro ⟨i, hi, rfl, hmem⟩
    exact ⟨hi, hmem⟩
  · rintro ⟨hi, hmem⟩
    exact ⟨entry.1, hi, rfl, hmem⟩

/-- Exchanging the content of a slot exchanges what it holds. -/
theorem exists_entries_setBucket (hi : i < table.size) {before after : List Item} {old : Item}
    (hitems : table.bucket i = before ++ old :: after) (new : Item) :
    ∃ rest, table.entries = slotEntries i old + rest ∧
      (table.setBucket i (before ++ new :: after)).entries = slotEntries i new + rest := by
  have hslot (item : Item) : bucketEntries i (before ++ item :: after) =
      slotEntries i item + (bucketEntries i before + bucketEntries i after) := by
    simp only [bucketEntries, List.map_append, List.map_cons, List.sum_append, List.sum_cons]
    exact add_left_comm _ _ _
  let others := ∑ j ∈ (Finset.range table.size).erase i, bucketEntries j (table.bucket j)
  refine ⟨bucketEntries i before + bucketEntries i after + others, ?_, ?_⟩
  · rw [entries, ← Finset.add_sum_erase _ _ (Finset.mem_range.2 hi), hitems, hslot, add_assoc]
  · rw [entries, size_setBucket, ← Finset.add_sum_erase _ _ (Finset.mem_range.2 hi),
      bucket_setBucket hi, if_pos rfl, hslot, add_assoc]
    have hothers : ∑ j ∈ (Finset.range table.size).erase i,
        bucketEntries j ((table.setBucket i (before ++ new :: after)).bucket j) = others := by
      apply Finset.sum_congr rfl
      intro j hj
      rw [bucket_setBucket hi, if_neg (Finset.ne_of_mem_erase hj).symm]
    rw [hothers]

/-- A new table has buckets of four free slots. -/
theorem of_new {buckets bits : Nat} (h : new buckets bits = .ok table) :
    table.size = buckets ∧ table.WellShaped ∧ table.entries = 0 := by
  unfold new at h
  split at h
  next => cases h
  next =>
    obtain ⟨_, _, h⟩ := bind_eq_ok_iff.1 h
    rw [← Except.ok.inj h]
    have hbucket {j : Nat} (hj : j < buckets) :
        (⟨Array.replicate buckets (List.replicate slotsPerBucket .blank),
          (1 <<< min bits 32) - 1⟩ : FingerprintTable).bucket j =
            List.replicate slotsPerBucket .blank := by
      simp only [bucket, Array.getD_eq_getD_getElem?, Array.getElem?_replicate, hj, if_true,
        Option.getD_some]
    have hsize : (Array.replicate buckets (List.replicate slotsPerBucket Item.blank)).size =
        buckets := Array.size_replicate
    refine ⟨hsize, ?_, ?_⟩
    · intro j hj
      rw [hbucket (Nat.lt_of_lt_of_eq hj hsize), List.length_replicate]
    · apply Multiset.eq_zero_of_forall_notMem
      intro entry hentry
      obtain ⟨hlt, hmem, hblank⟩ := mem_entries.1 hentry
      rw [hbucket (Nat.lt_of_lt_of_eq hlt hsize)] at hmem
      rw [List.eq_of_mem_replicate hmem] at hblank
      cases hblank

/-! ## Changes of a slot -/

/-- Two tables of one form: as many buckets with as many slots, and tags of as many bits. -/
structure SameShape (table table' : FingerprintTable) : Prop where
  size_eq : table'.size = table.size
  tagMask_eq : table'.tagMask = table.tagMask
  wellShaped : table.WellShaped → table'.WellShaped

/-- A table has its own shape. -/
theorem SameShape.refl (table : FingerprintTable) : table.SameShape table := ⟨rfl, rfl, id⟩

/-- A shape that is kept twice is kept. -/
theorem SameShape.trans {table' table'' : FingerprintTable} (h : table.SameShape table')
    (h' : table'.SameShape table'') : table.SameShape table'' :=
  ⟨h'.size_eq.trans h.size_eq, h'.tagMask_eq.trans h.tagMask_eq, h'.wellShaped ∘ h.wellShaped⟩

/-- A bucket of the same length keeps the shape. -/
theorem SameShape.setBucket (hi : i < table.size)
    (hlength : items.length = (table.bucket i).length) :
    table.SameShape (table.setBucket i items) := by
  refine ⟨size_setBucket table i items, rfl, fun hshape j hj => ?_⟩
  rw [size_setBucket] at hj
  rw [bucket_setBucket hi]
  split
  next => rw [hlength, hshape i hi]
  next => exact hshape j hj

/-- A slot whose item has a tag has one entry. -/
theorem slotEntries_of_tag {item : Item} {tag : Nat} (htag : tag ≠ 0) (h : item.tag = tag) :
    slotEntries i item = {(i, item)} := by
  refine if_neg ?_
  rw [Item.isBlank, h, beq_iff_eq]
  exact htag

/-- A bucket holds a tag when one of its entries has it. -/
theorem holds_iff {tag : Nat} (hi : i < table.size) (htag : tag ≠ 0) :
    table.holds i tag = true ↔ ∃ item, (i, item) ∈ table.entries ∧ item.tag = tag := by
  simp only [holds, List.any_eq_true, beq_iff_eq, mem_entries, hi, true_and]
  constructor
  · rintro ⟨item, hmem, rfl⟩
    exact ⟨item, ⟨hmem, beq_false_of_ne htag⟩, rfl⟩
  · rintro ⟨item, ⟨hmem, _⟩, heq⟩
    exact ⟨item, hmem, heq⟩

/-- An access finds what is held. -/
theorem isSome_access (table : FingerprintTable) (i tag : Nat) :
    (table.access i tag).isSome = table.holds i tag := by
  rw [access, Option.isSome_map, holds, Bool.eq_iff_iff, Option.isSome_iff_ne_none, ne_eq,
    replaceFirst_eq_none_iff, List.any_eq_true]
  simp only [not_forall, Bool.not_eq_false, exists_prop]

/-- What is held can be taken. -/
theorem isSome_take (table : FingerprintTable) (i tag : Nat) :
    (table.take i tag).isSome = table.holds i tag := by
  rw [take, Option.isSome_map, holds, Bool.eq_iff_iff, Option.isSome_iff_ne_none, ne_eq,
    replaceFirst_eq_none_iff, List.any_eq_true]
  simp only [not_forall, Bool.not_eq_false, exists_prop]

/-- An access exchanges an item with the tag for one with one more access. -/
theorem exists_of_access {tag : Nat} {item : Item} {table' : FingerprintTable}
    (hi : i < table.size) (htag : tag ≠ 0) (h : table.access i tag = some (item, table')) :
    ∃ old rest, old.tag = tag ∧ item = old.access ∧ table.entries = (i, old) ::ₘ rest ∧
      table'.entries = (i, item) ::ₘ rest ∧ table.SameShape table' := by
  obtain ⟨⟨old, items⟩, hreplace, heq⟩ := Option.map_eq_some_iff.1 h
  obtain ⟨rfl, rfl⟩ := Prod.mk.inj heq
  obtain ⟨hold, before, after, hitems, rfl⟩ := exists_of_replaceFirst hreplace
  have hold := beq_iff_eq.1 hold
  obtain ⟨rest, hentries, hentries'⟩ := exists_entries_setBucket hi hitems old.access
  rw [slotEntries_of_tag htag hold, Multiset.singleton_add] at hentries
  rw [slotEntries_of_tag htag (show old.access.tag = tag from hold),
    Multiset.singleton_add] at hentries'
  refine ⟨old, rest, hold, rfl, hentries, hentries', SameShape.setBucket hi ?_⟩
  simp only [hitems, List.length_append, List.length_cons]

/-- Taking an item out frees the slot of one with the tag. -/
theorem exists_of_take {tag : Nat} {item : Item} {table' : FingerprintTable}
    (hi : i < table.size) (htag : tag ≠ 0) (h : table.take i tag = some (item, table')) :
    item.tag = tag ∧ table.entries = (i, item) ::ₘ table'.entries ∧ table.SameShape table' := by
  obtain ⟨⟨old, items⟩, hreplace, heq⟩ := Option.map_eq_some_iff.1 h
  obtain ⟨rfl, rfl⟩ := Prod.mk.inj heq
  obtain ⟨hold, before, after, hitems, rfl⟩ := exists_of_replaceFirst hreplace
  have hold := beq_iff_eq.1 hold
  obtain ⟨rest, hentries, hentries'⟩ := exists_entries_setBucket hi hitems .blank
  rw [slotEntries_of_tag htag hold, Multiset.singleton_add] at hentries
  have hblank : slotEntries i .blank = 0 := rfl
  rw [hblank, zero_add] at hentries'
  refine ⟨hold, by rw [hentries, hentries'], SameShape.setBucket hi ?_⟩
  simp only [hitems, List.length_append, List.length_cons]

/-- What becomes of an item that is put into a bucket: it takes a free slot, it takes the slot of
another item, or the bucket is full and stays as it is. The slot that is drawn holds an item when no
slot of the bucket is free. -/
theorem put_cases {item : Item} (hi : i < table.size) (hshape : table.WellShaped)
    (hitem : item.isBlank = false) (mayDisplace : Bool) (draws : Draws) :
    ∃ table' draws', table.SameShape table' ∧
      ((table.put i item mayDisplace draws = (.placed, table', draws') ∧
          table'.entries = (i, item) ::ₘ table.entries) ∨
        (∃ other rest, table.put i item mayDisplace draws = (.displaced other, table', draws') ∧
          other.isBlank = false ∧ table.entries = (i, other) ::ₘ rest ∧
          table'.entries = (i, item) ::ₘ rest) ∨
        (table.put i item mayDisplace draws = (.full, table', draws') ∧ table' = table)) := by
  have hslot {stored : Item} (hstored : stored.isBlank = false) :
      slotEntries i stored = {(i, stored)} := by
    rw [slotEntries, hstored, if_neg Bool.false_ne_true]
  cases hfree : replaceFirst Item.isBlank (fun _ => item) (table.bucket i) with
  | some found =>
    obtain ⟨old, items⟩ := found
    obtain ⟨hblank, before, after, hitems, rfl⟩ := exists_of_replaceFirst hfree
    obtain ⟨rest, hentries, hentries'⟩ := exists_entries_setBucket hi hitems item
    have hempty : slotEntries i old = 0 := if_pos hblank
    rw [hempty, zero_add] at hentries
    rw [hslot hitem, Multiset.singleton_add, ← hentries] at hentries'
    refine ⟨_, draws, SameShape.setBucket hi ?_, .inl ⟨?_, hentries'⟩⟩
    · simp only [hitems, List.length_append, List.length_cons]
    · simp only [put, hfree]
  | none =>
    cases mayDisplace with
    | false => exact ⟨table, draws, .refl table, .inr (.inr ⟨by simp [put, hfree], rfl⟩)⟩
    | true =>
      have hlt : draws.slot.1 < (table.bucket i).length := by
        rw [hshape i hi]
        exact draws.slot_lt
      let other := (table.bucket i)[draws.slot.1]
      have hother : other.isBlank = false :=
        replaceFirst_eq_none_iff.1 hfree other (List.getElem_mem hlt)
      have hitems : table.bucket i = (table.bucket i).take draws.slot.1 ++
          other :: (table.bucket i).drop (draws.slot.1 + 1) := by
        rw [List.getElem_cons_drop, List.take_append_drop]
      obtain ⟨rest, hentries, hentries'⟩ := exists_entries_setBucket hi hitems item
      rw [hslot hother, Multiset.singleton_add] at hentries
      rw [← List.set_eq_take_cons_drop item hlt, hslot hitem, Multiset.singleton_add] at hentries'
      refine ⟨_, draws.slot.2, SameShape.setBucket hi ?_,
        .inr (.inl ⟨other, rest, ?_, hother, hentries, hentries'⟩)⟩
      · rw [List.length_set]
      · simp only [put, hfree, if_true]
        rw [List.getD_eq_getElem?_getD, List.getElem?_eq_getElem hlt, Option.getD_some]

end FingerprintTable

end ElasticCache
