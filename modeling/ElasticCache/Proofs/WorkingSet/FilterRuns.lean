import ElasticCache.Bytes
import ElasticCache.Proofs.WorkingSet.FilterClasses

/-!
# Runs of a cuckoo filter

A filter answers as if it kept, for each class of keys, the sizes and the numbers of accesses of all
keys of the class, whatever was displaced on the way. This holds for every sequence of insertions,
look-ups and deletions, of keys that were inserted or not, and for every seed.
-/

namespace ElasticCache

/-- A change of a filter, with the figures of the item that was answered. -/
inductive FilterChange where
  | inserted (key : ByteArray) (size : Nat)
  | found (key : ByteArray) (size accesses : Nat)
  | deleted (key : ByteArray) (size accesses : Nat)

namespace FilterChange

/-- The key that was asked for. -/
def key : FilterChange → ByteArray
  | .inserted key _ => key
  | .found key _ _ => key
  | .deleted key _ _ => key

def isInsertion : FilterChange → Bool
  | .inserted _ _ => true
  | .found _ _ _ => false
  | .deleted _ _ _ => false

def isDeletion : FilterChange → Bool
  | .inserted _ _ => false
  | .found _ _ _ => false
  | .deleted _ _ _ => true

/-- Number of insertions into a class. -/
def insertions (classOf : ByteArray → KeyClass) (c : KeyClass)
    (history : List FilterChange) : Nat :=
  history.countP fun change => change.isInsertion && classOf change.key == c

/-- Number of deletions from a class. -/
def deletions (classOf : ByteArray → KeyClass) (c : KeyClass) (history : List FilterChange) : Nat :=
  history.countP fun change => change.isDeletion && classOf change.key == c

/-- The multisets that a history, latest change first, can make of a class: an insertion adds a
member that was not accessed, finding a key counts an access to one member, deleting a key takes one
member out, and a key of another class changes nothing. -/
inductive Obtained (classOf : ByteArray → KeyClass) (c : KeyClass) :
    List FilterChange → Multiset (Nat × Nat) → Prop
  | empty : Obtained classOf c [] 0
  | inserted {key : ByteArray} {size : Nat} {history : List FilterChange}
      {members : Multiset (Nat × Nat)} (same : classOf key = c)
      (before : Obtained classOf c history members) :
    Obtained classOf c (.inserted key size :: history) ((size, 0) ::ₘ members)
  | found {key : ByteArray} {size accesses : Nat} {history : List FilterChange}
      {members : Multiset (Nat × Nat)} (same : classOf key = c)
      (before : Obtained classOf c history ((size, accesses) ::ₘ members)) :
    Obtained classOf c (.found key size (min (accesses + 1) Item.maxAccesses) :: history)
      ((size, min (accesses + 1) Item.maxAccesses) ::ₘ members)
  | deleted {key : ByteArray} {size accesses : Nat} {history : List FilterChange}
      {members : Multiset (Nat × Nat)} (same : classOf key = c)
      (before : Obtained classOf c history ((size, accesses) ::ₘ members)) :
    Obtained classOf c (.deleted key size accesses :: history) members
  | elsewhere {change : FilterChange} {history : List FilterChange}
      {members : Multiset (Nat × Nat)} (other : classOf change.key ≠ c)
      (before : Obtained classOf c history members) :
    Obtained classOf c (change :: history) members

section Counting

variable {classOf : ByteArray → KeyClass} {c : KeyClass} {history : List FilterChange}

/-- A further change is one more insertion when it is one into the class. -/
theorem insertions_cons (change : FilterChange) : insertions classOf c (change :: history) =
    insertions classOf c history + if change.isInsertion && classOf change.key == c then 1 else 0 :=
  List.countP_cons

/-- A further change is one more deletion when it is one from the class. -/
theorem deletions_cons (change : FilterChange) : deletions classOf c (change :: history) =
    deletions classOf c history + if change.isDeletion && classOf change.key == c then 1 else 0 :=
  List.countP_cons

/-- Whatever a class obtained was inserted and not deleted. -/
theorem Obtained.insertions_eq {members : Multiset (Nat × Nat)}
    (h : Obtained classOf c history members) :
    insertions classOf c history = deletions classOf c history + members.card := by
  induction h with
  | empty => rfl
  | @inserted key size history members same before ih =>
    have hclass : (classOf (FilterChange.inserted key size).key == c) = true := beq_iff_eq.2 same
    simp only [insertions_cons, deletions_cons, isInsertion, isDeletion, hclass, Bool.and_self,
      Bool.false_and, Bool.false_eq_true, if_true, if_false, Multiset.card_cons]
    omega
  | @found key size accesses history members same before ih =>
    simp only [insertions_cons, deletions_cons, isInsertion, isDeletion, Bool.false_and,
      Bool.false_eq_true, if_false, Multiset.card_cons] at ih ⊢
    exact ih
  | @deleted key size accesses history members same before ih =>
    have hclass : (classOf (FilterChange.deleted key size accesses).key == c) = true :=
      beq_iff_eq.2 same
    simp only [insertions_cons, deletions_cons, isInsertion, isDeletion, hclass, Bool.and_self,
      Bool.false_and, Bool.false_eq_true, if_true, if_false, Multiset.card_cons] at ih ⊢
    omega
  | @elsewhere change history members other before ih =>
    simp only [insertions_cons, deletions_cons, beq_false_of_ne other, Bool.and_false,
      Bool.false_eq_true, if_false]
    exact ih

/-- An insertion into a class is one of a key of the class. -/
theorem exists_of_insertions (h : 0 < insertions classOf c history) :
    ∃ key size, .inserted key size ∈ history ∧ classOf key = c := by
  obtain ⟨change, hmem, hchange⟩ := List.countP_pos_iff.1 h
  obtain ⟨hinsertion, hclass⟩ := Bool.and_eq_true_iff.1 hchange
  cases change with
  | inserted key size => exact ⟨key, size, hmem, beq_iff_eq.1 hclass⟩
  | found key size accesses => cases hinsertion
  | deleted key size accesses => cases hinsertion

/-- A key that is inserted becomes the one member of its class. -/
theorem Obtained.eq_of_inserted {key : ByteArray} {size : Nat} {members : Multiset (Nat × Nat)}
    (h : Obtained classOf (classOf key) [.inserted key size] members) :
    members = {(size, 0)} := by
  cases h with
  | inserted same before =>
    cases before
    rfl
  | elsewhere other before => exact absurd rfl other

/-- A key that is looked up after that has one access. -/
theorem Obtained.eq_of_found {key : ByteArray} {size found accesses : Nat}
    {members : Multiset (Nat × Nat)}
    (h : Obtained classOf (classOf key) [.found key found accesses, .inserted key size] members) :
    found = size ∧ accesses = 1 ∧ members = {(size, 1)} := by
  cases h with
  | @found _ _ before _ rest same h =>
    obtain ⟨heq, rfl⟩ := (Multiset.singleton_eq_cons_iff _).1 h.eq_of_inserted.symm
    obtain ⟨rfl, rfl⟩ := Prod.mk.inj heq
    exact ⟨rfl, rfl, rfl⟩
  | elsewhere other before => exact absurd rfl other

end Counting

end FilterChange

namespace CuckooFilter

/-- The filters that a new one becomes, with the changes that were made, the latest first. What is
refused or not found makes no change. -/
inductive Run (maxKeys : Nat) (seed : UInt64) : List FilterChange → CuckooFilter → Prop
  | created {filter : CuckooFilter} (created : CuckooFilter.new maxKeys seed = .ok filter) :
    Run maxKeys seed [] filter
  | inserted {history : List FilterChange} {filter filter' : CuckooFilter} {key : ByteArray}
      {size : Nat} {item : Item} (run : Run maxKeys seed history filter)
      (insert : filter.insert key size = some (item, filter')) :
    Run maxKeys seed (.inserted key size :: history) filter'
  | found {history : List FilterChange} {filter filter' : CuckooFilter} {key : ByteArray}
      {item : Item} (run : Run maxKeys seed history filter)
      (find : filter.find key = some (item, filter')) :
    Run maxKeys seed (.found key item.size item.accesses :: history) filter'
  | deleted {history : List FilterChange} {filter filter' : CuckooFilter} {key : ByteArray}
      {item : Item} (run : Run maxKeys seed history filter)
      (delete : filter.delete key = some (item, filter')) :
    Run maxKeys seed (.deleted key item.size item.accesses :: history) filter'

namespace Run

variable {maxKeys : Nat} {seed : UInt64} {history : List FilterChange} {filter : CuckooFilter}

/-- The items that are labelled with a class are what the history makes of the class. -/
theorem obtained (run : Run maxKeys seed history filter) :
    filter.Sound ∧ ∀ c, FilterChange.Obtained filter.classOf c history
      (classMembers filter.labels c) := by
  induction run with
  | created created =>
    obtain ⟨hsound, _, hstored⟩ := sound_of_new created
    refine ⟨hsound, fun c => ?_⟩
    rw [labels, hstored]
    exact .empty
  | @inserted history filter filter' key size item run insert ih =>
    obtain ⟨hsound, hmembers⟩ := ih
    obtain ⟨hsound', hshape, hfigures, hlabels⟩ := hsound.insert insert
    refine ⟨hsound', fun c => ?_⟩
    rw [hlabels, classMembers_cons, hfigures, classOf_congr hshape]
    split
    next hsame => exact .inserted hsame (hmembers c)
    next hother => exact .elsewhere hother (hmembers c)
  | @found history filter filter' key item run find ih =>
    obtain ⟨hsound, hmembers⟩ := ih
    obtain ⟨hsound', hshape, old, rest, rfl, hlabels, hlabels'⟩ := hsound.find find
    refine ⟨hsound', fun c => ?_⟩
    have hbefore := hmembers c
    rw [hlabels, classMembers_cons] at hbefore
    rw [hlabels', classMembers_cons, classOf_congr hshape]
    split at hbefore
    next hsame =>
      rw [if_pos hsame]
      exact .found hsame hbefore
    next hother =>
      rw [if_neg hother]
      exact .elsewhere hother hbefore
  | @deleted history filter filter' key item run delete ih =>
    obtain ⟨hsound, hmembers⟩ := ih
    obtain ⟨hsound', hshape, hlabels⟩ := hsound.delete delete
    refine ⟨hsound', fun c => ?_⟩
    have hbefore := hmembers c
    rw [hlabels, classMembers_cons] at hbefore
    rw [classOf_congr hshape]
    split at hbefore
    next hsame => exact .deleted hsame hbefore
    next hother => exact .elsewhere hother hbefore

/-- Every item was inserted, under a key whose class it still has. -/
theorem exists_insertion (run : Run maxKeys seed history filter) {label : KeyClass × Item}
    (hlabel : label ∈ filter.labels) :
    ∃ key size, .inserted key size ∈ history ∧ label.1 = filter.classOf key := by
  obtain ⟨_, hmembers⟩ := run.obtained
  have hcard : 0 < (classMembers filter.labels label.1).card := by
    rw [classMembers, Multiset.card_map, Multiset.card_pos_iff_exists_mem]
    exact ⟨label, Multiset.mem_filter.2 ⟨hlabel, rfl⟩⟩
  have hinsertions : 0 < FilterChange.insertions filter.classOf label.1 history := by
    rw [(hmembers label.1).insertions_eq]
    omega
  obtain ⟨key, size, hmem, hclass⟩ := FilterChange.exists_of_insertions hinsertions
  exact ⟨key, size, hmem, hclass.symm⟩

/-- **A filter is a multiset for each class of keys.** -/
theorem refines_classes (run : Run maxKeys seed history filter) :
    (∀ key, FilterChange.Obtained filter.classOf (filter.classOf key) history
      (filter.members (filter.classOf key))) ∧
      (∀ entry ∈ filter.stored, ∃ key size, .inserted key size ∈ history ∧
        entry.2.tag = (filter.classOf key).1 ∧ entry.1 ∈ (filter.classOf key).2) ∧
      (∀ key size, filter.insert key size = none ↔ filter.victim.isSome) ∧
      (∀ key, ((filter.find key).isSome ↔ filter.members (filter.classOf key) ≠ 0) ∧
        (filter.contains key ↔ filter.members (filter.classOf key) ≠ 0) ∧
        ((filter.delete key).isSome ↔ filter.members (filter.classOf key) ≠ 0)) ∧
      filter.count = ∑ c ∈ (history.map fun change => filter.classOf change.key).toFinset,
        (filter.members c).card ∧
      ∀ key, FilterChange.deletions filter.classOf (filter.classOf key) history <
        FilterChange.insertions filter.classOf (filter.classOf key) history →
        filter.contains key := by
  obtain ⟨hsound, hmembers⟩ := run.obtained
  have hobtained (key : ByteArray) : FilterChange.Obtained filter.classOf (filter.classOf key)
      history (filter.members (filter.classOf key)) := by
    rw [hsound.members_classOf]
    exact hmembers _
  have hcontains (key : ByteArray) :
      filter.contains key = true ↔ filter.members (filter.classOf key) ≠ 0 := hsound.contains_iff
  refine ⟨hobtained, ?_, ?_, ?_, ?_, ?_⟩
  · intro entry hentry
    obtain ⟨key, size, hmem, hclass⟩ := run.exists_insertion (Multiset.mem_map_of_mem _ hentry)
    have hlt := (hsound.lt_of_mem_stored hentry).1
    exact ⟨key, size, hmem, (hsound.classAt_eq_iff hlt (hsound.bucketOf_lt _) _).1 hclass⟩
  · intro key size
    rw [CuckooFilter.insert]
    split
    next hvictim => simp only [hvictim]
    next hvictim => simp only [hvictim, reduceCtorEq]
  · intro key
    rw [isSome_find, isSome_delete]
    exact ⟨hcontains key, hcontains key, hcontains key⟩
  · have hall : ∀ c ∈ filter.labels.map Prod.fst,
        c ∈ (history.map fun change => filter.classOf change.key).toFinset := by
      intro c hc
      obtain ⟨label, hlabel, rfl⟩ := Multiset.mem_map.1 hc
      obtain ⟨key, size, hmem, hclass⟩ := run.exists_insertion hlabel
      rw [List.mem_toFinset, List.mem_map, hclass]
      exact ⟨_, hmem, rfl⟩
    have hcount : filter.count = (filter.labels.map Prod.fst).card := by
      rw [hsound.count_eq, labels, Multiset.card_map, Multiset.card_map]
    rw [hcount, ← Multiset.sum_count_eq_card hall]
    apply Finset.sum_congr rfl
    intro c hc
    obtain ⟨change, _, rfl⟩ := List.mem_map.1 (List.mem_toFinset.1 hc)
    rw [hsound.members_classOf, classMembers, Multiset.card_map, Multiset.count_map]
    simp only [eq_comm]
  · intro key hmore
    rw [hcontains, ← Multiset.card_pos]
    have hcard := (hobtained key).insertions_eq
    omega

/-- A key that is inserted with 5 bytes into a filter of one bucket and then looked up leaves one
member with one access. -/
theorem refines_classes_of_found :
    let key : ByteArray := ⟨#[1]⟩
    ∃ filter, Run 0 9 [.found key 5 1, .inserted key 5] filter ∧
      filter.members (filter.classOf key) = {(5, 1)} := by
  intro key
  have hsize : bucketsFor 0 * FingerprintTable.bucketBytes < objectLimit := by decide +kernel
  obtain ⟨empty, hcreated⟩ := exists_new hsize 9
  have hempty : Run 0 9 [] empty := .created hcreated
  obtain ⟨_, hvictim, _⟩ := sound_of_new hcreated
  obtain ⟨_, _, hrefused, _⟩ := hempty.refines_classes
  have haccepted : empty.insert key 5 ≠ none := by
    rw [ne_eq, hrefused, hvictim]
    exact Bool.false_ne_true
  obtain ⟨⟨item, single⟩, hinsert⟩ := Option.ne_none_iff_exists'.1 haccepted
  have hsingle : Run 0 9 [.inserted key 5] single := hempty.inserted hinsert
  obtain ⟨hobtained, _, _, hfound, _⟩ := hsingle.refines_classes
  have hmembers := (hobtained key).eq_of_inserted
  have hisSome : (single.find key).isSome := by
    rw [(hfound key).1, hmembers]
    exact Multiset.singleton_ne_zero _
  obtain ⟨⟨⟨tag, size, accesses⟩, filter⟩, hfind⟩ := Option.isSome_iff_exists.1 hisSome
  have hrun : Run 0 9 [.found key size accesses, .inserted key 5] filter := hsingle.found hfind
  obtain ⟨hobtained, _⟩ := hrun.refines_classes
  obtain ⟨rfl, rfl, hmembers⟩ := (hobtained key).eq_of_found
  exact ⟨filter, hrun, hmembers⟩

end Run

end CuckooFilter

end ElasticCache
