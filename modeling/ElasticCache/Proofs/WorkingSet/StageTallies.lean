import ElasticCache.Proofs.WorkingSet.FilterClasses
import ElasticCache.WorkingSet.Estimate
import Mathlib.Algebra.GroupWithZero.Nat

/-!
# The tallies of a working set

A working set adds to its tallies, and takes from them, what the filter answers about one item at a
time. Whatever is displaced, kept aside or found under another key of its class, the tally of a
stage is at any time the number and the total size of the items in that stage, so that nothing is
ever taken from a tally that does not hold it.
-/

namespace ElasticCache

/-! ## Stages and tallies -/

namespace Stage

variable {accesses : Nat}

/-- Ten reads make a key hot. -/
theorem ofAccesses_eq_hot (h : 10 ≤ accesses) : ofAccesses accesses = .hot := if_pos h

/-- One read makes a key warm, and up to nine leave it so. -/
theorem ofAccesses_eq_warm (hpos : 0 < accesses) (hlt : accesses < 10) :
    ofAccesses accesses = .warm := (if_neg (Nat.not_le.2 hlt)).trans (if_pos hpos)

/-- An item has left the first stage once it was accessed. -/
theorem ofAccesses_ne_unread_iff : ofAccesses accesses ≠ .unread ↔ 0 < accesses := by
  constructor
  · intro hstage
    by_contra hzero
    obtain rfl : accesses = 0 := Nat.eq_zero_of_not_pos hzero
    exact hstage rfl
  · intro hpos
    by_cases hhot : 10 ≤ accesses
    · rw [ofAccesses_eq_hot hhot]
      nofun
    · rw [ofAccesses_eq_warm hpos (Nat.not_le.1 hhot)]
      nofun

end Stage

namespace Tally

/-- A key of this size can be taken from a tally. -/
def Covers (tally : Tally) (size : Nat) : Prop := 0 < tally.count ∧ size ≤ tally.totalSize

variable {tally : Tally} {size : Nat}

/-- A tally covers an item that was just added. -/
theorem covers_add : (tally.add size).Covers size :=
  ⟨Nat.succ_pos tally.count, Nat.le_add_left size tally.totalSize⟩

/-- Taking away what was added last leaves what was there before. -/
theorem sub_add : (tally.add size).sub size = tally := by
  rw [add, sub, Nat.add_sub_cancel, Nat.add_sub_cancel]

end Tally

/-- A change of one tally leaves the others. -/
theorem Tallies.get_modify (tallies : Tallies) (stage other : Stage) (f : Tally → Tally) :
    (tallies.modify stage f).get other =
      if stage = other then f (tallies.get other) else tallies.get other := by
  cases stage <;> cases other <;> rfl

/-! ## Items in a stage -/

/-- The items of a filter, victim included. -/
def CuckooFilter.items (filter : CuckooFilter) : Multiset Item := filter.stored.map Prod.snd

/-- The items of a filter are those under its labels. -/
theorem CuckooFilter.items_eq (filter : CuckooFilter) :
    filter.items = filter.labels.map Prod.snd := by
  rw [items, labels, Multiset.map_map]
  rfl

/-- Number and total size of the items in a stage. -/
def tallyOf (items : Multiset Item) (stage : Stage) : Tally :=
  let members := items.filter fun item => Stage.ofAccesses item.accesses = stage
  ⟨members.card, (members.map Item.size).sum⟩

/-- A further item is counted in its stage alone. -/
theorem tallyOf_cons (item : Item) (items : Multiset Item) (stage : Stage) :
    tallyOf (item ::ₘ items) stage =
      if Stage.ofAccesses item.accesses = stage then (tallyOf items stage).add item.size
      else tallyOf items stage := by
  rw [tallyOf, Multiset.filter_cons]
  split
  next =>
    rw [Multiset.singleton_add, Multiset.card_cons, Multiset.map_cons, Multiset.sum_cons,
      Nat.add_comm item.size]
    rfl
  next =>
    rw [Multiset.zero_add]
    rfl

/-- Every item is in one of the stages. -/
theorem sum_tallyOf (items : Multiset Item) :
    (Stage.all.map fun stage => (tallyOf items stage).count).sum = items.card ∧
      (Stage.all.map fun stage => (tallyOf items stage).totalSize).sum =
        (items.map Item.size).sum ∧
      (tallyOf items .warm).totalSize + (tallyOf items .hot).totalSize =
        ((items.filter fun item => 0 < item.accesses).map Item.size).sum := by
  simp only [Stage.all, List.map_cons, List.map_nil, List.sum_cons, List.sum_nil]
  induction items using Multiset.induction_on with
  | empty => exact ⟨rfl, rfl, rfl⟩
  | cons item items ih =>
    obtain ⟨hcount, hsize, hread⟩ := ih
    have hread' : ((item ::ₘ items).filter fun item => 0 < item.accesses).map Item.size =
        (if Stage.ofAccesses item.accesses ≠ .unread then {item.size} else 0) +
          (items.filter fun item => 0 < item.accesses).map Item.size := by
      rw [Multiset.filter_cons, Multiset.map_add]
      simp only [Stage.ofAccesses_ne_unread_iff]
      split <;> rfl
    rw [hread', Multiset.sum_add, ← hread, Multiset.card_cons, Multiset.map_cons,
      Multiset.sum_cons, ← hcount, ← hsize]
    simp only [tallyOf_cons]
    cases Stage.ofAccesses item.accesses <;>
      simp only [reduceCtorEq, if_true, if_false, Tally.add, ne_eq, not_true_eq_false,
        not_false_eq_true, Multiset.sum_singleton, Multiset.sum_zero] <;> omega

namespace WorkingSet

/-! ## Calls -/

/-- A call of a working set. -/
inductive Call where
  | insert (key : ByteArray) (size : Nat)
  | find (key : ByteArray)
  | remove (key : ByteArray)

/-- The set after a call. A key that is refused or not found changes nothing. -/
def after (set : WorkingSet) : Call → WorkingSet
  | .insert key size => ((set.insert key size).map Prod.snd).getD set
  | .find key => ((set.find key).map Prod.snd).getD set
  | .remove key => ((set.remove key).map Prod.snd).getD set

/-- The filter is sound, and every tally is that of the items in its stage. -/
structure Exact (set : WorkingSet) : Prop where
  sound : set.filter.Sound
  tally : ∀ stage, set.tallies.get stage = tallyOf set.filter.items stage

variable {set set' : WorkingSet} {key : ByteArray} {size : Nat} {item : Item}

/-- A key that is followed is inserted in the filter and counted as unread. -/
theorem of_insert (h : set.insert key size = some (item, set')) :
    set.filter.insert key size = some (item, set'.filter) ∧
      set'.tallies = set.tallies.modify .unread (·.add item.size) := by
  obtain ⟨⟨found, filter⟩, hinsert, heq⟩ := Option.bind_eq_some_iff.1 h
  obtain ⟨rfl, rfl⟩ := Prod.mk.inj (Option.some.inj heq)
  exact ⟨hinsert, rfl⟩

/-- A key that is read is found in the filter and promoted. -/
theorem of_find (h : set.find key = some (item, set')) :
    set.filter.find key = some (item, set'.filter) ∧ set'.tallies = promote set.tallies item := by
  obtain ⟨⟨found, filter⟩, hfind, heq⟩ := Option.bind_eq_some_iff.1 h
  obtain ⟨rfl, rfl⟩ := Prod.mk.inj (Option.some.inj heq)
  exact ⟨hfind, rfl⟩

/-- A key that is no longer followed is deleted from the filter and taken from its tally. -/
theorem of_remove (h : set.remove key = some (item, set')) :
    set.filter.delete key = some (item, set'.filter) ∧
      set'.tallies = set.tallies.modify (.ofAccesses item.accesses) (·.sub item.size) := by
  obtain ⟨⟨found, filter⟩, hdelete, heq⟩ := Option.bind_eq_some_iff.1 h
  obtain ⟨rfl, rfl⟩ := Prod.mk.inj (Option.some.inj heq)
  exact ⟨hdelete, rfl⟩

/-- An access moves an item from the tally of its stage to that of the next one, or leaves it in its
stage, at the largest number of accesses too. The stage changes at the first access and at the tenth
one, and nowhere else. -/
theorem promote_access (tallies : Tallies) (old : Item) :
    promote tallies old.access =
      if Stage.ofAccesses old.access.accesses = .ofAccesses old.accesses then tallies
      else (tallies.modify (.ofAccesses old.accesses) (·.sub old.size)).modify
        (.ofAccesses old.access.accesses) (·.add old.size) := by
  have haccess : old.access.accesses = min (old.accesses + 1) 65535 := rfl
  have hsize : old.access.size = old.size := rfl
  simp only [promote, Stage.threshold, hsize]
  obtain hfirst | htenth | ⟨hpos, hlt⟩ | hhot : old.accesses = 0 ∨ old.accesses = 9 ∨
      (0 < old.accesses ∧ old.accesses < 9) ∨ 10 ≤ old.accesses := by omega
  · rw [haccess, hfirst]
    rfl
  · rw [haccess, htenth]
    rfl
  · rw [if_neg (by omega), if_neg (by omega), Stage.ofAccesses_eq_warm (by omega) (by omega),
      Stage.ofAccesses_eq_warm hpos (by omega), if_pos rfl]
  · rw [if_neg (by omega), if_neg (by omega), Stage.ofAccesses_eq_hot (by omega),
      Stage.ofAccesses_eq_hot hhot, if_pos rfl]

namespace Exact

/-- A tally covers every item that is in its stage. -/
theorem covers {items : Multiset Item} (h : set.Exact)
    (hitems : set.filter.items = item ::ₘ items) :
    (set.tallies.get (.ofAccesses item.accesses)).Covers item.size := by
  rw [h.tally, hitems, tallyOf_cons, if_pos rfl]
  exact Tally.covers_add

/-- A new working set is exact. -/
theorem of_new {maxKeys : Nat} {seed : UInt64} (h : new maxKeys seed = .ok set) : set.Exact := by
  obtain ⟨filter, hfilter, heq⟩ := bind_eq_ok_iff.1 h
  obtain ⟨hsound, _, hstored⟩ := CuckooFilter.sound_of_new hfilter
  rw [← Except.ok.inj heq]
  refine ⟨hsound, fun stage => ?_⟩
  rw [CuckooFilter.items, hstored]
  cases stage <;> rfl

/-- An insertion keeps the tallies exact. -/
theorem insert (h : set.Exact) (hinsert : set.insert key size = some (item, set')) :
    set'.Exact := by
  obtain ⟨hfilter, htallies⟩ := of_insert hinsert
  obtain ⟨hsound, _, hfigures, hlabels⟩ := h.sound.insert hfilter
  obtain ⟨_, haccesses⟩ := Prod.mk.inj hfigures
  refine ⟨hsound, fun stage => ?_⟩
  rw [htallies, Tallies.get_modify, h.tally, set'.filter.items_eq, hlabels, Multiset.map_cons,
    tallyOf_cons, haccesses, ← CuckooFilter.items_eq]
  rfl

/-- What an access exchanges in the filter, it exchanges in the tallies. -/
theorem find (h : set.Exact) (hfind : set.find key = some (item, set')) :
    set'.Exact ∧ ∃ old items, item = old.access ∧ set.filter.items = old ::ₘ items := by
  obtain ⟨hfilter, htallies⟩ := of_find hfind
  obtain ⟨hsound, _, old, rest, rfl, hlabels, hlabels'⟩ := h.sound.find hfilter
  have hitems : set.filter.items = old ::ₘ rest.map Prod.snd := by
    rw [CuckooFilter.items_eq, hlabels, Multiset.map_cons]
  refine ⟨⟨hsound, fun stage => ?_⟩, old, _, rfl, hitems⟩
  have hbefore := h.tally stage
  rw [hitems, tallyOf_cons] at hbefore
  rw [htallies, promote_access, CuckooFilter.items_eq, hlabels', Multiset.map_cons, tallyOf_cons]
  have hsize : old.access.size = old.size := rfl
  split
  next hsame => rw [hbefore, hsame, hsize]
  next hcrossed =>
    rw [Tallies.get_modify, Tallies.get_modify, hbefore, hsize]
    by_cases hstage : Stage.ofAccesses old.accesses = stage
    · rw [if_pos hstage, if_pos hstage, if_neg (hstage ▸ hcrossed), if_neg (hstage ▸ hcrossed),
        Tally.sub_add]
    · rw [if_neg hstage, if_neg hstage]

/-- A removal keeps the tallies exact and takes one item out. -/
theorem remove (h : set.Exact) (hremove : set.remove key = some (item, set')) :
    set'.Exact ∧ set.filter.items = item ::ₘ set'.filter.items := by
  obtain ⟨hfilter, htallies⟩ := of_remove hremove
  obtain ⟨hsound, _, hlabels⟩ := h.sound.delete hfilter
  have hitems : set.filter.items = item ::ₘ set'.filter.items := by
    rw [CuckooFilter.items_eq, hlabels, Multiset.map_cons, ← CuckooFilter.items_eq]
  refine ⟨⟨hsound, fun stage => ?_⟩, hitems⟩
  have hbefore := h.tally stage
  rw [hitems, tallyOf_cons] at hbefore
  rw [htallies, Tallies.get_modify, hbefore]
  split
  next hstage => exact Tally.sub_add
  next hstage => rfl

/-- Every call keeps the tallies exact. -/
theorem after (h : set.Exact) (call : Call) : (set.after call).Exact := by
  cases call with
  | insert key size =>
    rw [WorkingSet.after]
    cases hinsert : set.insert key size with
    | none => exact h
    | some answer => exact h.insert hinsert
  | find key =>
    rw [WorkingSet.after]
    cases hfind : set.find key with
    | none => exact h
    | some answer => exact (h.find hfind).1
  | remove key =>
    rw [WorkingSet.after]
    cases hremove : set.remove key with
    | none => exact h
    | some answer => exact (h.remove hremove).1

/-- After any calls the tallies are still exact. -/
theorem foldl_after (h : set.Exact) (calls : List Call) :
    (calls.foldl WorkingSet.after set).Exact := by
  induction calls generalizing set with
  | nil => exact h
  | cons call calls ih => exact ih (h.after call)

/-- The totals of an exact working set are those of its items. -/
theorem totals (h : set.Exact) :
    set.count = set.filter.items.card ∧ set.trackedSize = (set.filter.items.map Item.size).sum ∧
      set.workingSetSize =
        ((set.filter.items.filter fun item => 0 < item.accesses).map Item.size).sum := by
  obtain ⟨_, hsize, hread⟩ := sum_tallyOf set.filter.items
  refine ⟨?_, ?_, ?_⟩
  · rw [count, h.sound.count_eq, CuckooFilter.items, Multiset.card_map]
  · rw [← hsize, trackedSize]
    simp only [h.tally]
    rfl
  · rw [← hread, ← h.tally, ← h.tally]
    rfl

end Exact

/-- **The tallies are those of the items.** After any calls, whatever they met in the filter, every
tally counts and sums up the items in its stage; the totals are those of all items; and the next
call takes from a tally only what is in it. -/
theorem tallies_exact {maxKeys : Nat} {seed : UInt64} (h : new maxKeys seed = .ok set)
    (calls : List Call) :
    let reached := calls.foldl after set
    let items := reached.filter.items
    (∀ stage, (reached.tallies.get stage).count =
        (items.filter fun item => Stage.ofAccesses item.accesses = stage).card ∧
      (reached.tallies.get stage).totalSize =
        ((items.filter fun item => Stage.ofAccesses item.accesses = stage).map Item.size).sum) ∧
      reached.count = (Stage.all.map fun stage => (reached.tallies.get stage).count).sum ∧
      reached.count = items.card ∧
      reached.trackedSize = (items.map Item.size).sum ∧
      reached.workingSetSize = ((items.filter fun item => 0 < item.accesses).map Item.size).sum ∧
      (∀ key item next, reached.find key = some (item, next) →
        (item.accesses = Stage.warm.threshold → reached.tallies.unread.Covers item.size) ∧
          (item.accesses = Stage.hot.threshold → reached.tallies.warm.Covers item.size)) ∧
      ∀ key item next, reached.remove key = some (item, next) →
        (reached.tallies.get (.ofAccesses item.accesses)).Covers item.size := by
  intro reached items
  have hexact : reached.Exact := (Exact.of_new h).foldl_after calls
  obtain ⟨hcount, htracked, hread⟩ := hexact.totals
  refine ⟨?_, ?_, hcount, htracked, hread, ?_, ?_⟩
  · intro stage
    rw [hexact.tally stage]
    exact ⟨rfl, rfl⟩
  · rw [hcount, ← (sum_tallyOf items).1]
    simp only [hexact.tally]
    rfl
  · intro key item next hfind
    obtain ⟨_, old, rest, rfl, hitems⟩ := hexact.find hfind
    have hcovers := hexact.covers hitems
    have haccess : old.access.accesses = min (old.accesses + 1) 65535 := rfl
    constructor
    · intro hfirst
      have hold : old.accesses = 0 := by
        rw [haccess, Stage.threshold] at hfirst
        omega
      rw [hold] at hcovers
      exact hcovers
    · intro htenth
      have hold : old.accesses = 9 := by
        rw [haccess, Stage.threshold] at htenth
        omega
      rw [hold] at hcovers
      exact hcovers
  · intro key item next hremove
    exact hexact.covers (hexact.remove hremove).2

/-- A key that is written, read and written once more is two items of the filter, one of them read;
a key that was never written is not removed. -/
theorem tallies_exact_of_rewrite :
    let calls : List Call :=
      [.insert ⟨#[1]⟩ 5, .find ⟨#[1]⟩, .insert ⟨#[1]⟩ 7, .remove ⟨#[2]⟩]
    ∃ set, new 0 9 = .ok set ∧
      let items := (calls.foldl after set).filter.items
      items.card = 2 ∧ (items.map Item.size).sum = 12 ∧
        ((items.filter fun item => 0 < item.accesses).map Item.size).sum = 5 := by
  intro calls
  have hrun : ((new 0 9).map fun set =>
      let reached := calls.foldl after set
      (reached.count, reached.trackedSize, reached.workingSetSize)) = .ok (2, 12, 5) := by
    decide +kernel
  cases hnew : new 0 9 with
  | error fault =>
    rw [hnew] at hrun
    cases hrun
  | ok set =>
    rw [hnew] at hrun
    obtain ⟨hcount, hsizes⟩ := Prod.mk.inj (Except.ok.inj hrun)
    obtain ⟨htracked, hread⟩ := Prod.mk.inj hsizes
    obtain ⟨_, _, hcard, hall, hwarm, _⟩ := tallies_exact hnew calls
    exact ⟨set, rfl, hcard.symm.trans hcount, hall.symm.trans htracked, hwarm.symm.trans hread⟩

end WorkingSet

end ElasticCache
