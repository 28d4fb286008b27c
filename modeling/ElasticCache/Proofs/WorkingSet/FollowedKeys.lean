import ElasticCache.Proofs.Bytes
import ElasticCache.Proofs.WorkingSet.StageTallies
import Mathlib

/-!
# The keys of a working set

A filter knows classes of keys. As long as no two keys that are used share a class, a working set
follows keys: each one that it accepted and did not forget has one item, with its size and the
number of times it was read.
-/

namespace ElasticCache

/-- The class and the figures of an item. -/
def CuckooFilter.profile (label : KeyClass × Item) : KeyClass × Nat × Nat :=
  (label.1, figures label.2)

namespace WorkingSet

/-- A working set follows these keys and no others, each with its size and its accesses. -/
structure Follows (set : WorkingSet) (keys : Finset ByteArray)
    (figures : ByteArray → Nat × Nat) : Prop where
  exact : set.Exact
  profiles : set.filter.labels.map CuckooFilter.profile =
    keys.val.map fun key => (set.filter.classOf key, figures key)

/-- No other one of these keys has the class of a key. -/
def Apart (set : WorkingSet) (keys : Finset ByteArray) (key : ByteArray) : Prop :=
  ∀ other ∈ keys, set.filter.classOf other = set.filter.classOf key → other = key

variable {set set' : WorkingSet} {keys : Finset ByteArray}
  {figures figures' : ByteArray → Nat × Nat} {key : ByteArray} {size : Nat} {item : Item}

/-- The class of a key stays what it is. -/
theorem Exact.classOf_after (h : set.Exact) (call : Call) :
    (set.after call).filter.classOf = set.filter.classOf := by
  cases call with
  | insert key size =>
    rw [WorkingSet.after]
    cases hinsert : set.insert key size with
    | none => rfl
    | some answer =>
      obtain ⟨_, hshape, _⟩ := h.sound.insert (of_insert hinsert).1
      exact CuckooFilter.classOf_congr hshape
  | find key =>
    rw [WorkingSet.after]
    cases hfind : set.find key with
    | none => rfl
    | some answer =>
      obtain ⟨_, hshape, _⟩ := h.sound.find (of_find hfind).1
      exact CuckooFilter.classOf_congr hshape
  | remove key =>
    rw [WorkingSet.after]
    cases hremove : set.remove key with
    | none => rfl
    | some answer =>
      obtain ⟨_, hshape, _⟩ := h.sound.delete (of_remove hremove).1
      exact CuckooFilter.classOf_congr hshape

/-- No call changes the class of a key. -/
theorem Exact.classOf_foldl_after (h : set.Exact) (calls : List Call) :
    (calls.foldl WorkingSet.after set).filter.classOf = set.filter.classOf := by
  induction calls generalizing set with
  | nil => rfl
  | cons call calls ih => exact (ih (h.after call)).trans (h.classOf_after call)

/-- A new working set takes any key. -/
theorem isSome_insert_of_new {maxKeys : Nat} {seed : UInt64} (h : new maxKeys seed = .ok set)
    (key : ByteArray) (size : Nat) : (set.insert key size).isSome := by
  obtain ⟨filter, hfilter, heq⟩ := bind_eq_ok_iff.1 h
  obtain ⟨_, hvictim, _⟩ := CuckooFilter.sound_of_new hfilter
  rw [← Except.ok.inj heq, insert, CuckooFilter.insert, hvictim]
  rfl

namespace Follows

/-- Only the figures of the keys that are followed count. -/
theorem congr (h : set.Follows keys figures) (hfigures : ∀ key ∈ keys, figures' key = figures key) :
    set.Follows keys figures' := by
  refine ⟨h.exact, h.profiles.trans (Multiset.map_congr rfl fun key hkey => ?_)⟩
  rw [hfigures key hkey]

/-- A new working set follows no key. -/
theorem of_new {maxKeys : Nat} {seed : UInt64} (h : new maxKeys seed = .ok set)
    (figures : ByteArray → Nat × Nat) : set.Follows ∅ figures := by
  refine ⟨.of_new h, ?_⟩
  obtain ⟨filter, hfilter, heq⟩ := bind_eq_ok_iff.1 h
  obtain ⟨_, _, hstored⟩ := CuckooFilter.sound_of_new hfilter
  rw [← Except.ok.inj heq, CuckooFilter.labels, hstored]
  rfl

/-- An item with the class of a key is the one of the key. -/
theorem of_mem (h : set.Follows keys figures) (hapart : set.Apart keys key)
    (hitem : (set.filter.classOf key, item) ∈ set.filter.labels) :
    key ∈ keys ∧ figures key = CuckooFilter.figures item := by
  have hprofile := Multiset.mem_map_of_mem CuckooFilter.profile hitem
  rw [h.profiles] at hprofile
  obtain ⟨other, hother, heq⟩ := Multiset.mem_map.1 hprofile
  obtain ⟨hclass, hfigures⟩ := Prod.mk.inj heq
  obtain rfl := hapart other hother hclass
  exact ⟨hother, hfigures⟩

/-- A key that is followed is found in the filter. -/
theorem contains (h : set.Follows keys figures) (hkey : key ∈ keys) :
    set.filter.contains key = true := by
  have hprofile : (set.filter.classOf key, figures key) ∈
      set.filter.labels.map CuckooFilter.profile := by
    rw [h.profiles]
    exact Multiset.mem_map_of_mem _ hkey
  obtain ⟨label, hlabel, heq⟩ := Multiset.mem_map.1 hprofile
  rw [h.exact.sound.contains_iff, h.exact.sound.members_classOf, CuckooFilter.classMembers, ne_eq,
    Multiset.map_eq_zero, Multiset.filter_eq_nil]
  exact fun hnone => hnone label hlabel (Prod.mk.inj heq).1

/-- Without the item of one key there are those of the other keys. -/
theorem rest (h : set.Follows keys figures) (hkey : key ∈ keys)
    (hfigures : figures key = CuckooFilter.figures item) {labels : Multiset (KeyClass × Item)}
    (hlabels : set.filter.labels = (set.filter.classOf key, item) ::ₘ labels) :
    labels.map CuckooFilter.profile =
      (keys.erase key).val.map fun other => (set.filter.classOf other, figures other) := by
  have hprofiles := h.profiles
  rw [hlabels, Multiset.map_cons, ← Finset.insert_erase hkey,
    Finset.insert_val_of_notMem (Finset.notMem_erase key keys), Multiset.map_cons, hfigures]
    at hprofiles
  exact (Multiset.cons_inj_right _).1 hprofiles

/-- A key that was not followed is followed from now on, if the filter takes it. -/
theorem insert (h : set.Follows keys figures) (hkey : key ∉ keys) (size : Nat) :
    (set.after (.insert key size)).Follows
      (if (set.insert key size).isSome then Insert.insert key keys else keys)
      (Function.update figures key (size, 0)) := by
  have hothers : ∀ other ∈ keys, Function.update figures key (size, 0) other = figures other := by
    intro other hother
    exact Function.update_of_ne (ne_of_mem_of_not_mem hother hkey) ..
  rw [after]
  cases hinsert : set.insert key size with
  | none => exact h.congr hothers
  | some answer =>
    obtain ⟨item, set'⟩ := answer
    obtain ⟨_, hshape, hfigures, hlabels⟩ := h.exact.sound.insert (of_insert hinsert).1
    refine ⟨h.exact.insert hinsert, ?_⟩
    have hothers' := (h.congr hothers).profiles
    simp only [Option.map_some, Option.getD_some, Option.isSome_some, if_true, hlabels,
      Multiset.map_cons, CuckooFilter.profile, hfigures, CuckooFilter.classOf_congr hshape,
      Finset.insert_val_of_notMem hkey, Function.update_self]
    exact congrArg _ hothers'

/-- A key that is followed is read once more. -/
theorem find (h : set.Follows keys figures) (hapart : set.Apart keys key) :
    (set.after (.find key)).Follows keys (Function.update figures key
      ((figures key).1, min ((figures key).2 + 1) Item.maxAccesses)) := by
  rw [after]
  cases hfind : set.find key with
  | none =>
    refine h.congr fun other hother => Function.update_of_ne ?_ ..
    rintro rfl
    have hfound : (set.filter.find other).isSome := by
      rw [CuckooFilter.isSome_find]
      exact h.contains hother
    obtain ⟨⟨item, filter⟩, hfilter⟩ := Option.isSome_iff_exists.1 hfound
    rw [WorkingSet.find, hfilter] at hfind
    cases hfind
  | some answer =>
    obtain ⟨item, set'⟩ := answer
    obtain ⟨_, hshape, old, labels, rfl, hlabels, hlabels'⟩ :=
      h.exact.sound.find (of_find hfind).1
    have hmem : (set.filter.classOf key, old) ∈ set.filter.labels := by
      rw [hlabels]
      exact Multiset.mem_cons_self ..
    obtain ⟨hkey, hfigures⟩ := h.of_mem hapart hmem
    refine ⟨(h.exact.find hfind).1, ?_⟩
    have hrest := h.rest hkey hfigures hlabels
    have hothers : ∀ other ∈ (keys.erase key).val, (set.filter.classOf other, figures other) =
        (set.filter.classOf other, Function.update figures key
          ((figures key).1, min ((figures key).2 + 1) Item.maxAccesses) other) := by
      intro other hother
      rw [Function.update_of_ne (Finset.ne_of_mem_erase hother)]
    rw [Multiset.map_congr rfl hothers] at hrest
    conv_rhs => rw [← Finset.insert_erase hkey]
    simp only [Option.map_some, Option.getD_some, hlabels', Multiset.map_cons, hrest,
      CuckooFilter.classOf_congr hshape, Finset.insert_val_of_notMem (Finset.notMem_erase key keys),
      Function.update_self, hfigures]
    rfl

/-- A key that is removed is not followed any more. -/
theorem remove (h : set.Follows keys figures) (hapart : set.Apart keys key) :
    (set.after (.remove key)).Follows (keys.erase key) figures := by
  rw [after]
  cases hremove : set.remove key with
  | none =>
    have hkey : key ∉ keys := by
      intro hkey
      have hdeleted : (set.filter.delete key).isSome := by
        rw [CuckooFilter.isSome_delete]
        exact h.contains hkey
      obtain ⟨⟨item, filter⟩, hfilter⟩ := Option.isSome_iff_exists.1 hdeleted
      rw [WorkingSet.remove, hfilter] at hremove
      cases hremove
    rwa [Finset.erase_eq_of_notMem hkey]
  | some answer =>
    obtain ⟨item, set'⟩ := answer
    obtain ⟨_, hshape, hlabels⟩ := h.exact.sound.delete (of_remove hremove).1
    have hmem : (set.filter.classOf key, item) ∈ set.filter.labels := by
      rw [hlabels]
      exact Multiset.mem_cons_self ..
    obtain ⟨hkey, hfigures⟩ := h.of_mem hapart hmem
    refine ⟨(h.exact.remove hremove).1, (h.rest hkey hfigures hlabels).trans ?_⟩
    exact congrArg (fun classOf => (keys.erase key).val.map fun other =>
      (classOf other, figures other)) (CuckooFilter.classOf_congr hshape).symm

/-- Keys that are removed one after the other are not followed any more. -/
theorem remove_all (h : set.Follows keys figures) {gone : List ByteArray}
    (hapart : ∀ key ∈ gone, set.Apart keys key) :
    ((gone.map .remove).foldl after set).Follows (keys.filter (· ∉ gone)) figures := by
  induction gone generalizing set keys with
  | nil =>
    rw [Finset.filter_true_of_mem fun key _ => List.not_mem_nil]
    exact h
  | cons key gone ih =>
    have herase : (keys.erase key).filter (· ∉ gone) = keys.filter (· ∉ key :: gone) := by
      ext other
      simp only [Finset.mem_filter, Finset.mem_erase, List.mem_cons, not_or]
      tauto
    rw [← herase]
    refine ih (h.remove (hapart key List.mem_cons_self)) fun other hother => ?_
    rw [Apart, h.exact.classOf_after]
    intro third hthird
    exact hapart other (List.mem_cons_of_mem _ hother) third (Finset.mem_of_mem_erase hthird)

/-- The totals are sums over the keys that are followed. -/
theorem totals (h : set.Follows keys figures) :
    set.trackedSize = ∑ key ∈ keys, (figures key).1 ∧
      set.workingSetSize = ∑ key ∈ keys with 0 < (figures key).2, (figures key).1 := by
  obtain ⟨_, htracked, hread⟩ := h.exact.totals
  have hfigures : set.filter.items.map CuckooFilter.figures = keys.val.map figures := by
    have hsecond := congrArg (Multiset.map Prod.snd) h.profiles
    rw [Multiset.map_map, Multiset.map_map] at hsecond
    rw [CuckooFilter.items_eq, Multiset.map_map]
    exact hsecond
  constructor
  · have hsizes := congrArg (fun all => (all.map Prod.fst).sum) hfigures
    simp only [Multiset.map_map] at hsizes
    exact htracked.trans hsizes
  · have hsizes := congrArg (fun all => ((all.filter fun one => 0 < one.2).map Prod.fst).sum)
      hfigures
    simp only [Multiset.filter_map, Multiset.map_map] at hsizes
    exact hread.trans hsizes

end Follows

end WorkingSet

end ElasticCache
