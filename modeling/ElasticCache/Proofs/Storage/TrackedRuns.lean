import ElasticCache.Proofs.Storage.BudgetRuns
import ElasticCache.Proofs.WorkingSet.FollowedKeys

/-!
# The working set of a store

A store tells its working set of every value that is written, read or lost. When no two keys share a
class of the filter, the figures of the working set are sums over the values that are stored: of all
that the filter took, and of those among them that were read. A key that moves between the tiers
stays in the sums, and one that is no longer stored has left them.
-/

namespace ElasticCache.TieredStore

/-! ## What happened to a key -/

/-- What a working set should know of a run. -/
inductive Visit where
  /-- A value was stored under a key, which the filter took or refused. -/
  | written (key : ByteArray) (accepted : Bool)
  /-- A value was read. -/
  | read (key : ByteArray)

namespace Visit

/-- Whether the filter took a key when it was written last. The latest visit comes first. -/
def followed (key : ByteArray) : List Visit → Bool
  | [] => false
  | .written other accepted :: visits => if other = key then accepted else followed key visits
  | .read _ :: visits => followed key visits

/-- How often a key was read since it was written last. -/
def readsSince (key : ByteArray) : List Visit → Nat
  | [] => 0
  | .written other _ :: visits => if other = key then 0 else readsSince key visits
  | .read other :: visits =>
    if other = key then readsSince key visits + 1 else readsSince key visits

/-- A key was written. -/
def Wrote (visits : List Visit) (key : ByteArray) : Prop :=
  ∃ accepted, .written key accepted ∈ visits

/-- No two keys that were written share a class. -/
def Distinct (classOf : ByteArray → KeyClass) (visits : List Visit) : Prop :=
  ∀ key other, Wrote visits key → Wrote visits other → classOf key = classOf other → key = other

/-- A read writes no key. -/
theorem wrote_read_iff {visits : List Visit} {key read : ByteArray} :
    Wrote (.read read :: visits) key ↔ Wrote visits key := by
  simp only [Wrote, List.mem_cons, reduceCtorEq, false_or]

/-- A read has no part in whether the keys written are apart. -/
theorem distinct_read_iff {classOf : ByteArray → KeyClass} {visits : List Visit}
    {read : ByteArray} : Distinct classOf (.read read :: visits) ↔ Distinct classOf visits := by
  simp only [Distinct, wrote_read_iff]

/-- A key that was written stays so. -/
theorem Wrote.cons {visits : List Visit} {key : ByteArray} (h : Wrote visits key) (visit : Visit) :
    Wrote (visit :: visits) key := by
  obtain ⟨accepted, hmem⟩ := h
  exact ⟨accepted, List.mem_cons_of_mem visit hmem⟩

/-- Keys that are apart were so before the last visit. -/
theorem Distinct.of_cons {classOf : ByteArray → KeyClass} {visit : Visit} {visits : List Visit}
    (h : Distinct classOf (visit :: visits)) : Distinct classOf visits :=
  fun key other hkey hother => h key other (hkey.cons visit) (hother.cons visit)

end Visit

/-- An operation that neither writes a value nor reads one. -/
inductive Idles (store store' : TieredStore) : Prop
  | refused {key value : ByteArray} {e : Error} (h : Fails (insert key value) store e store')
  | missed {key : ByteArray} (h : Yields (find key) store none store')
  | removed {key : ByteArray} {answer : Bool} (h : Yields (remove key) store answer store')
  | evicted {answer : Bool} (h : Yields evictOne store answer store')
  | resized {slabs left : Nat} (h : Yields (resize slabs) store left store')
  | resizedBytes {bytes left : Nat} (h : Yields (resizeBytes bytes) store left store')
  | ticked {stale : Nat} (h : Yields tick store stale store')

/-- The stores that a sequence of operations leads to from an empty directory, with the number of
slabs opened on the way and the visits that the working set should know of. Whether the filter takes
a key is asked when its value has found a place. -/
inductive TrackedRun (config : StoreConfig) : Nat → List Visit → TieredStore → Prop
  | started {store : TieredStore} (h : (openIn config .empty).run = .ok (.ok store)) :
      TrackedRun config 0 [] store
  | written {opened : Nat} {visits : List Visit} {store middle store' : TieredStore}
      {key value : ByteArray} {tier : Tier} (run : TrackedRun config opened visits store)
      (small : value.size < wordLimit) (placed : Yields (place key value) store tier middle)
      (h : Yields (insert key value) store tier store') :
      TrackedRun config (opened + RamTier.opens store.ram store'.ram)
        (.written key (middle.workingSet.insert key value.size).isSome :: visits) store'
  | read {opened : Nat} {visits : List Visit} {store store' : TieredStore} {key : ByteArray}
      {found : Found} (run : TrackedRun config opened visits store)
      (h : Yields (find key) store (some found) store') :
      TrackedRun config (opened + RamTier.opens store.ram store'.ram) (.read key :: visits) store'
  | idled {opened : Nat} {visits : List Visit} {store store' : TieredStore}
      (run : TrackedRun config opened visits store) (h : store.Idles store') :
      TrackedRun config (opened + RamTier.opens store.ram store'.ram) visits store'

/-! ## What is lost is forgotten -/

section Losses

variable {store store' : TieredStore} {config : StoreConfig} {opened : Nat}
  {held : ByteArray → Option ByteArray} {key value : ByteArray}

/-- A key that is dropped is lost if it was held, and then it is forgotten. -/
theorem exists_forgets (held : ByteArray → Option ByteArray) (key : ByteArray) :
    ∃ gone : List ByteArray, (∀ other ∈ gone, (held other).isSome) ∧
      without held gone = Function.update held key none ∧
      forgets (held key).isSome key = gone.map .remove := by
  cases hkey : held key with
  | none =>
    refine ⟨[], nofun, ?_, rfl⟩
    rw [without_nil, ← hkey, Function.update_eq_self]
  | some value =>
    refine ⟨[key], fun other hother => ?_, ?_, rfl⟩
    · rw [List.mem_singleton.1 hother, hkey, Option.isSome_some]
    · funext other
      by_cases hother : other = key
      · rw [hother, without, if_pos List.mem_cons_self, Function.update_self]
      · rw [without, if_neg (mt List.mem_singleton.1 hother), Function.update_of_ne hother]

/-- Before a value finds a place, its key and the keys that have to leave for it are forgotten. -/
theorem Keeps.exists_placed (h : store.Keeps config [[]] opened held) (hopened : opened < wordLimit)
    (hkey : key.size ≤ config.maxKeySize) (hvalue : value.size ≤ config.maxValueSize) :
    ∃ (outcome : Except Error Tier) (store' : TieredStore) (gone : List ByteArray),
      Runs (place key value) store outcome store' ∧ (∀ other ∈ gone, (held other).isSome) ∧
      store.Tracks (gone.map .remove) store' ∧ without held gone key = none ∧
      ((∃ tier, outcome = .ok tier ∧
          store'.Keeps config [[]] (opened + RamTier.opens store.ram store'.ram)
            (Function.update (without held gone) key (some value))) ∨
        (∃ e, outcome = .error e ∧
          store'.Keeps config [[]] (opened + RamTier.opens store.ram store'.ram)
            (without held gone))) := by
  obtain ⟨outcome, store', now, lost, hplace, hinserted, hkeeps, hlost, _, htracks⟩ :=
    h.exists_place hopened hkey hvalue
  obtain ⟨gone, hgone, hwithout, hforgets⟩ := exists_forgets held key
  have hkept : key ∉ lost := fun hmem => (hlost key hmem).1 rfl
  have hheld : without held (gone ++ lost) = Function.update (without held lost) key none := by
    rw [← without_without, hwithout, update_without hkept]
  refine ⟨outcome, store', gone ++ lost, hplace, ?_, ?_, ?_, ?_⟩
  · intro other hother
    rcases List.mem_append.1 hother with hother | hother
    · exact hgone other hother
    · exact h.isSome_of_contains (hlost other hother).2
  · rw [List.map_append, ← hforgets]
    exact htracks h.not_blocked
  · rw [hheld, Function.update_self]
  · cases hinserted with
    | stored tier =>
      rw [hheld, Function.update_idem]
      exact .inl ⟨tier, rfl, hkeeps⟩
    | refused size =>
      rw [hheld]
      exact .inr ⟨_, rfl, hkeeps⟩
    | failed _ hblocked => exact absurd hblocked hkeeps.not_blocked

/-- A value that is placed takes the place of any earlier one, and the keys that are gone for it are
no longer followed. -/
theorem Keeps.exists_gone_of_place (h : store.Keeps config [[]] opened held)
    (hopened : opened < wordLimit) {tier : Tier}
    (hplace : Yields (place key value) store tier store') :
    ∃ gone : List ByteArray, (∀ other ∈ gone, (held other).isSome) ∧
      store.Tracks (gone.map .remove) store' ∧ without held gone key = none ∧
      store'.Keeps config [[]] (opened + RamTier.opens store.ram store'.ram)
        (Function.update (without held gone) key (some value)) := by
  have hlimits : key.size ≤ config.maxKeySize ∧ value.size ≤ config.maxValueSize := by
    by_contra hlarge
    rw [not_and_or, Nat.not_le, Nat.not_le] at hlarge
    obtain ⟨_, hfails, _⟩ := h.exists_refusal hlarge
    obtain ⟨_, hinsert, _⟩ := exists_insert_of_place hplace
    exact hinsert.not_fails hfails
  obtain ⟨_, _, gone, hrun, hgone, htracks, hnone, hplaced⟩ :=
    h.exists_placed hopened hlimits.1 hlimits.2
  obtain ⟨rfl, rfl⟩ := Runs.unique hrun hplace
  obtain ⟨_, _, hkeeps⟩ | ⟨_, heq, _⟩ := hplaced
  · exact ⟨gone, hgone, htracks, hnone, hkeeps⟩
  · cases heq

/-- A value that is read is in the store, and the keys that have to leave for it are forgotten. -/
theorem Keeps.exists_read (h : store.Keeps config [[]] opened held) (hopened : opened < wordLimit)
    {found : Option Found} (hfind : Yields (find key) store found store') :
    ∃ gone : List ByteArray, (∀ other ∈ gone, (held other).isSome) ∧ key ∉ gone ∧
      found.isSome = (held key).isSome ∧
      store.Tracks (reads (held key).isSome key ++ gone.map .remove) store' ∧
      store'.Keeps config [[]] (opened + RamTier.opens store.ram store'.ram)
        (without held gone) := by
  obtain ⟨_, _, lost, hrun, hkeeps, hkept, hlost, _, houtcome, htracks⟩ :=
    h.exists_find hopened key
  obtain ⟨rfl, rfl⟩ := Runs.unique hrun hfind
  obtain ⟨_, heq, hvalue⟩ | ⟨_, hblocked⟩ := houtcome
  · obtain rfl := Except.ok.inj heq
    refine ⟨lost, fun other hother => h.isSome_of_contains (hlost other hother), hkept, ?_,
      htracks h.not_stuck, hkeeps⟩
    rw [← hvalue, Option.isSome_map]
  · exact absurd hblocked h.not_blocked

/-- The keys that are gone for a new ceiling are no longer followed. -/
theorem Keeps.exists_gone_of_resize (h : store.Keeps config [[]] opened held) {slabs left : Nat}
    (hresize : Yields (resize slabs) store left store') :
    ∃ gone : List ByteArray, (∀ key ∈ gone, (held key).isSome) ∧
      store.Tracks (gone.map .remove) store' ∧
      store'.Keeps config [[]] (opened + RamTier.opens store.ram store'.ram)
        (without held gone) := by
  obtain ⟨_, _, lost, hrun, hnext, hkeeps, hlost, hsheds⟩ := h.exists_resize slabs
  obtain ⟨_, rfl⟩ := Runs.unique hrun hresize
  obtain ⟨_, _, _, htracks⟩ := hsheds h.not_stuck
  refine ⟨lost, hlost, htracks, ?_⟩
  rwa [RamTier.opens_of_eq hnext]

/-- Whatever it idles, a store forgets the keys that it loses and no others. -/
theorem Idles.exists_gone (h : store.Idles store') (hkeeps : store.Keeps config [[]] opened held)
    (hopened : opened < wordLimit) :
    ∃ gone : List ByteArray, (∀ key ∈ gone, (held key).isSome) ∧
      store.Tracks (gone.map .remove) store' ∧
      store'.Keeps config [[]] (opened + RamTier.opens store.ram store'.ram)
        (without held gone) := by
  cases h with
  | @refused key value e h =>
    by_cases hlarge : config.maxKeySize < key.size ∨ config.maxValueSize < value.size
    · obtain ⟨_, hfails, _⟩ := hkeeps.exists_refusal hlarge
      obtain ⟨_, rfl⟩ := Runs.unique hfails h
      rw [RamTier.opens_self]
      exact ⟨[], nofun, rfl, by rwa [without_nil]⟩
    · obtain ⟨hkey, hvalue⟩ := not_or.1 hlarge
      obtain ⟨outcome, _, gone, hplace, hgone, htracks, _, ⟨tier, rfl, _⟩ | ⟨e', rfl, hkeeps'⟩⟩ :=
        hkeeps.exists_placed hopened (Nat.not_lt.1 hkey) (Nat.not_lt.1 hvalue)
      · obtain ⟨_, hinsert, _⟩ := exists_insert_of_place hplace
        exact absurd h hinsert.not_fails
      · obtain ⟨_, rfl⟩ := Runs.unique (fails_insert_of_place hplace) h
        exact ⟨gone, hgone, htracks, hkeeps'⟩
  | @missed key h =>
    obtain ⟨gone, hgone, _, hnone, htracks, hkeeps'⟩ := hkeeps.exists_read hopened h
    rw [← hnone] at htracks
    exact ⟨gone, hgone, htracks, hkeeps'⟩
  | @removed key answer h =>
    obtain ⟨gone, hgone, hwithout, hforgets⟩ := exists_forgets held key
    obtain ⟨_, _, hremove, hnext, hkeeps', houtcome⟩ := hkeeps.exists_remove key
    obtain ⟨_, htracks⟩ := houtcome.resolve_right fun hfails => hkeeps.not_blocked hfails.2
    obtain ⟨_, rfl⟩ := Runs.unique hremove h
    rw [hforgets] at htracks
    refine ⟨gone, hgone, htracks, ?_⟩
    rwa [RamTier.opens_of_eq hnext, hwithout]
  | evicted h =>
    obtain ⟨_, _, lost, hevict, hnext, hkeeps', hlost, _, _, htracks⟩ := hkeeps.exists_evictOne
    obtain ⟨_, rfl⟩ := Runs.unique hevict h
    refine ⟨lost, fun key hkey => hkeeps.isSome_of_contains (hlost key hkey),
      htracks hkeeps.not_stuck, ?_⟩
    rwa [RamTier.opens_of_eq hnext]
  | @resized slabs left h => exact hkeeps.exists_gone_of_resize h
  | @resizedBytes bytes left h => exact hkeeps.exists_gone_of_resize h
  | ticked h =>
    obtain ⟨_, _, htick, hnext, hkeeps', htracks⟩ := hkeeps.exists_tick
    obtain ⟨_, rfl⟩ := Runs.unique htick h
    refine ⟨[], nofun, htracks, ?_⟩
    rwa [RamTier.opens_of_eq hnext, without_nil]

end Losses

/-! ## What the working set follows -/

/-- Bytes of the value of a key. -/
def valueSize (held : ByteArray → Option ByteArray) (key : ByteArray) : Nat :=
  (held key).elim 0 ByteArray.size

/-- The working set of a store that holds a map follows the held keys that its filter took. -/
structure Tends (store : TieredStore) (visits : List Visit)
    (held : ByteArray → Option ByteArray) (keys : Finset ByteArray) : Prop where
  mem_iff : ∀ key, key ∈ keys ↔ (held key).isSome ∧ Visit.followed key visits
  wrote : ∀ key, (held key).isSome → Visit.Wrote visits key
  follows : store.workingSet.Follows keys fun key =>
    (valueSize held key, min (Visit.readsSince key visits) Item.maxAccesses)

/-- The working set of a store sums up these keys: all of them, and those that were read since they
were written. -/
structure Shows (store : TieredStore) (visits : List Visit) (keys : Finset ByteArray)
    (size : ByteArray → Nat) : Prop where
  tracked : store.workingSet.trackedSize = ∑ key ∈ keys, size key
  read : store.workingSet.workingSetSize =
    ∑ key ∈ keys with 0 < Visit.readsSince key visits, size key

section Tending

variable {store store' : TieredStore} {visits : List Visit}
  {held : ByteArray → Option ByteArray} {keys : Finset ByteArray} {key value : ByteArray}

/-- Calls keep the tallies exact and the classes of the keys. -/
theorem Tracks.exact {calls : List WorkingSet.Call} (h : store.Tracks calls store')
    (hexact : store.workingSet.Exact) : store'.workingSet.Exact ∧
      store'.workingSet.filter.classOf = store.workingSet.filter.classOf := by
  rw [h]
  exact ⟨hexact.foldl_after calls, hexact.classOf_foldl_after calls⟩

/-- The working set shows what is held of the keys that it tends. -/
theorem Tends.shows (h : store.Tends visits held keys) :
    store.Shows visits keys (valueSize held) := by
  obtain ⟨htracked, hread⟩ := h.follows.totals
  refine ⟨htracked,
    hread.trans (Finset.sum_congr (Finset.filter_congr fun key _ => ?_) fun _ _ => rfl)⟩
  rw [Item.maxAccesses]
  omega

/-- The sums depend on the sizes of the keys in them alone. -/
theorem Shows.congr {size size' : ByteArray → Nat} (h : store.Shows visits keys size)
    (hsize : ∀ key ∈ keys, size' key = size key) : store.Shows visits keys size' := by
  refine ⟨h.tracked.trans (Finset.sum_congr rfl fun key hkey => (hsize key hkey).symm), ?_⟩
  exact h.read.trans
    (Finset.sum_congr rfl fun key hkey => (hsize key (Finset.mem_of_mem_filter key hkey)).symm)

/-- Keys that are held are told apart when no two that were written share a class. -/
theorem Tends.apart (h : store.Tends visits held keys)
    (hdistinct : Visit.Distinct store.workingSet.filter.classOf visits) (hkey : (held key).isSome) :
    store.workingSet.Apart keys key :=
  fun other hother =>
    hdistinct other key (h.wrote other ((h.mem_iff other).1 hother).1) (h.wrote key hkey)

/-- A key that is not gone has a value of the same size. -/
theorem valueSize_without {gone : List ByteArray} (hkey : key ∉ gone) :
    valueSize (without held gone) key = valueSize held key := by
  rw [valueSize, without, if_neg hkey, valueSize]

/-- Keys that are lost leave the working set. -/
theorem Tends.lose (h : store.Tends visits held keys) {gone : List ByteArray}
    (hdistinct : Visit.Distinct store.workingSet.filter.classOf visits)
    (hgone : ∀ key ∈ gone, (held key).isSome)
    (htracks : store.Tracks (gone.map .remove) store') :
    store'.Tends visits (without held gone) (keys.filter (· ∉ gone)) := by
  have hapart (key : ByteArray) (hkey : key ∈ gone) : store.workingSet.Apart keys key :=
    h.apart hdistinct (hgone key hkey)
  refine ⟨fun key => ?_, fun key hkey => h.wrote key (of_isSome_without hkey).2, ?_⟩
  · rw [Finset.mem_filter, h.mem_iff, without]
    split
    next hgone => simp only [hgone, not_true_eq_false, and_false, Option.isSome_none,
      Bool.false_eq_true, false_and]
    next hkept => simp only [hkept, not_false_eq_true, and_true]
  · rw [htracks]
    exact (h.follows.remove_all hapart).congr fun key hkey => by
      rw [valueSize_without (Finset.mem_filter.1 hkey).2]

/-- What is left of a map has the sizes that it had. -/
theorem Tends.shows_left {gone : List ByteArray}
    (h : store.Tends visits (without held gone) (keys.filter (· ∉ gone))) :
    store.Shows visits (keys.filter (· ∉ gone)) (valueSize held) :=
  h.shows.congr fun _ hkey => (valueSize_without (Finset.mem_filter.1 hkey).2).symm

/-- A key that is read is read once more since it was written. -/
theorem Tends.read (h : store.Tends visits held keys) (hapart : store.workingSet.Apart keys key)
    (htracks : store.Tracks [.find key] store') :
    store'.Tends (.read key :: visits) held keys := by
  refine ⟨h.mem_iff, fun other hother => (h.wrote other hother).cons _, ?_⟩
  rw [htracks]
  refine (h.follows.find hapart).congr fun other hother => ?_
  by_cases heq : other = key
  · rw [heq, Function.update_self, Visit.readsSince, if_pos rfl, Item.maxAccesses]
    exact Prod.ext rfl (by omega)
  · rw [Function.update_of_ne heq, Visit.readsSince, if_neg (Ne.symm heq)]

/-- Keys may be lost as a value that was read moves to RAM. -/
theorem Tends.read_and_lose (h : store.Tends visits held keys) {gone : List ByteArray}
    (hdistinct : Visit.Distinct store.workingSet.filter.classOf visits)
    (hkey : (held key).isSome) (hgone : ∀ key ∈ gone, (held key).isSome)
    (htracks : store.Tracks ([.find key] ++ gone.map .remove) store') :
    store'.Tends (.read key :: visits) (without held gone) (keys.filter (· ∉ gone)) := by
  obtain ⟨between, htracks₁, htracks₂⟩ := htracks.exists_between
  refine (h.read (h.apart hdistinct hkey) htracks₁).lose ?_ hgone htracks₂
  rw [Visit.distinct_read_iff, (htracks₁.exact h.follows.exact).2]
  exact hdistinct

/-- A key that is written is followed from now on, if the filter takes it. -/
theorem Tends.write (h : store.Tends visits held keys) (hnone : held key = none)
    (htracks : store.Tracks [.insert key value.size] store') :
    store'.Tends (.written key (store.workingSet.insert key value.size).isSome :: visits)
      (Function.update held key (some value))
      (if (store.workingSet.insert key value.size).isSome then Insert.insert key keys
        else keys) := by
  have hkey : key ∉ keys := by
    rw [h.mem_iff, hnone]
    exact fun hheld => absurd hheld.1 Bool.false_ne_true
  refine ⟨fun other => ?_, fun other hother => ?_, ?_⟩
  · by_cases heq : other = key
    · rw [heq, Function.update_self, Visit.followed, if_pos rfl]
      split
      next haccepted => simp only [Finset.mem_insert_self, Option.isSome_some, haccepted, and_self]
      next hrefused => simp only [hkey, hrefused, Bool.false_eq_true, and_false]
    · rw [Function.update_of_ne heq, Visit.followed, if_neg (Ne.symm heq), ← h.mem_iff]
      split
      next => rw [Finset.mem_insert, or_iff_right heq]
      next => rfl
  · by_cases heq : other = key
    · rw [heq]
      exact ⟨_, List.mem_cons_self⟩
    · rw [Function.update_of_ne heq] at hother
      exact (h.wrote other hother).cons _
  · rw [htracks]
    refine (h.follows.insert hkey value.size).congr fun other hother => ?_
    by_cases heq : other = key
    · rw [heq, valueSize, Function.update_self, Function.update_self, Visit.readsSince, if_pos rfl]
      rfl
    · rw [Function.update_of_ne heq, valueSize, Function.update_of_ne heq, Visit.readsSince,
        if_neg (Ne.symm heq), valueSize]

end Tending

/-! ## Runs -/

section Runs

variable {config : StoreConfig} {opened : Nat} {visits : List Visit} {store store' : TieredStore}

/-- After any run the store keeps a map, and its working set follows the keys of the map when no two
keys that were written share a class. The classes of the keys stay what they are, so that they were
distinct before each step. -/
theorem TrackedRun.exists_tends (run : TrackedRun config opened visits store)
    (hsmall : config.slabSize < wordLimit) (hopened : opened < wordLimit) :
    store.workingSet.Exact ∧ ∃ held, store.Keeps config [[]] opened held ∧
      (Visit.Distinct store.workingSet.filter.classOf visits →
        ∃ keys, store.Tends visits held keys) := by
  induction run with
  | started h =>
    obtain ⟨_, workingSet, _, hset, hstore⟩ := exists_of_openIn h
    refine ⟨?_, _, keeps_of_openIn hsmall h, fun _ => ⟨∅, fun key => ?_, nofun, ?_⟩⟩
    · rw [hstore]
      exact .of_new hset
    · simp only [Finset.notMem_empty, Option.isSome_none, Bool.false_eq_true, false_and]
    · rw [hstore]
      exact .of_new hset _
  | @written opened visits store middle store' key value tier run small placed h ih =>
    obtain ⟨hexact, held, hkeeps, htends⟩ := ih (by omega)
    obtain ⟨gone, hgone, htracks, hnone, hkeeps₁⟩ := hkeeps.exists_gone_of_place (by omega) placed
    obtain ⟨_, hinsert, hsame, _, htracks'⟩ := exists_insert_of_place placed
    obtain ⟨_, rfl⟩ := Runs.unique hinsert h
    rw [Nat.mod_eq_of_lt small] at htracks'
    obtain ⟨hexact₁, hclass₁⟩ := htracks.exact hexact
    obtain ⟨hexact', hclass'⟩ := htracks'.exact hexact₁
    rw [hsame.ram_eq]
    refine ⟨hexact', _, hkeeps₁.congr hsame, fun hdistinct => ?_⟩
    rw [hclass', hclass₁] at hdistinct
    obtain ⟨keys, hkeys⟩ := htends hdistinct.of_cons
    exact ⟨_, (hkeys.lose hdistinct.of_cons hgone htracks).write hnone htracks'⟩
  | @read opened visits store store' key found run h ih =>
    obtain ⟨hexact, held, hkeeps, htends⟩ := ih (by omega)
    obtain ⟨gone, hgone, _, hsome, htracks, hkeeps'⟩ := hkeeps.exists_read (by omega) h
    rw [← hsome] at htracks
    obtain ⟨hexact', hclass⟩ := htracks.exact hexact
    refine ⟨hexact', _, hkeeps', fun hdistinct => ?_⟩
    rw [hclass, Visit.distinct_read_iff] at hdistinct
    obtain ⟨keys, hkeys⟩ := htends hdistinct
    exact ⟨_, hkeys.read_and_lose hdistinct hsome.symm hgone htracks⟩
  | @idled opened visits store store' run h ih =>
    obtain ⟨hexact, held, hkeeps, htends⟩ := ih (by omega)
    obtain ⟨gone, hgone, htracks, hkeeps'⟩ := h.exists_gone hkeeps (by omega)
    obtain ⟨hexact', hclass⟩ := htracks.exact hexact
    refine ⟨hexact', _, hkeeps', fun hdistinct => ?_⟩
    rw [hclass] at hdistinct
    obtain ⟨keys, hkeys⟩ := htends hdistinct
    exact ⟨_, hkeys.lose hdistinct hgone htracks⟩

/-- **The figures follow the contents.** After any run in which no two keys that were written share
a class, the tracked size is the sum of the sizes of the stored values whose latest insertion the
filter took, and the working-set size that of those among them that were read since. An operation
that writes and reads nothing takes the keys that it loses out of both sums and leaves the others
in them, whichever tiers they are in then. So does one that reads a value, which counts as read from
then on. A value that is written is followed when its key has left both sums. -/
theorem TrackedRun.figures_follow_contents (hsmall : config.slabSize < wordLimit)
    (run : TrackedRun config opened visits store) (hopened : opened < wordLimit)
    (hdistinct : Visit.Distinct store.workingSet.filter.classOf visits) :
    ∃ keys : Finset ByteArray,
      (∀ key, key ∈ keys ↔ (store.peek key).isSome ∧ Visit.followed key visits) ∧
      store.Shows visits keys (valueSize store.peek) ∧
      (∀ store', store.Idles store' → ∃ gone, store.Loses store' gone ∧
        store'.Shows visits (keys.filter (· ∉ gone)) (valueSize store.peek)) ∧
      (∀ key found store', Yields (find key) store (some found) store' →
        ∃ gone, store.Loses store' gone ∧ key ∉ gone ∧
          store'.Shows (.read key :: visits) (keys.filter (· ∉ gone)) (valueSize store.peek)) ∧
      ∀ key value tier store', Yields (place key value) store tier store' →
        ∃ gone, store'.peek = Function.update (without store.peek gone) key (some value) ∧
          without store.peek gone key = none ∧
          store'.Shows visits (keys.filter (· ∉ gone)) (valueSize store.peek) := by
  obtain ⟨_, held, hkeeps, htends⟩ := run.exists_tends hsmall hopened
  obtain ⟨keys, hkeys⟩ := htends hdistinct
  have hpeek := hkeeps.peek_eq
  refine ⟨keys, ?_, ?_, ?_, ?_, ?_⟩
  · rw [hpeek]
    exact hkeys.mem_iff
  · rw [hpeek]
    exact hkeys.shows
  · intro store' hidles
    obtain ⟨gone, hgone, htracks, hkeeps'⟩ := hidles.exists_gone hkeeps hopened
    rw [hpeek]
    exact ⟨gone, hkeeps.loses hkeeps' hgone, (hkeys.lose hdistinct hgone htracks).shows_left⟩
  · intro key found store' hfind
    obtain ⟨gone, hgone, hkept, hsome, htracks, hkeeps'⟩ := hkeeps.exists_read hopened hfind
    rw [← hsome] at htracks
    rw [hpeek]
    exact ⟨gone, hkeeps.loses hkeeps' hgone, hkept,
      (hkeys.read_and_lose hdistinct hsome.symm hgone htracks).shows_left⟩
  · intro key value tier store' hplace
    obtain ⟨gone, hgone, htracks, hnone, hkeeps'⟩ := hkeeps.exists_gone_of_place hopened hplace
    rw [hpeek]
    exact ⟨gone, hkeeps'.peek_eq, hnone, (hkeys.lose hdistinct hgone htracks).shows_left⟩

/-- A value of one byte that is stored and read is the whole working set. Nothing is held before
that could be lost for it. -/
theorem TrackedRun.figures_follow_contents_of_read :
    ∃ opened store,
      TrackedRun { trackedKeys := 1 } opened [.read ⟨#[1]⟩, .written ⟨#[1]⟩ true] store ∧
      store.workingSet.trackedSize = 1 ∧ store.workingSet.workingSetSize = 1 := by
  have hconfig : StoreConfig.Lossless { trackedKeys := 1 } :=
    ⟨by decide, by decide, by decide, rfl⟩
  obtain ⟨store, hopen⟩ := exists_openIn { trackedKeys := 1 } (by decide) (by decide +kernel)
  have hkeeps := keeps_of_openIn hconfig.slabSize_lt hopen
  have hintact : store.Intact { trackedKeys := 1 } 0 fun _ => none := ⟨rfl, hkeeps⟩
  let key : ByteArray := ⟨#[1]⟩
  let value : ByteArray := ⟨#[2]⟩
  have hkey : key.size ≤ 512 := by decide
  have hvalue : value.size ≤ 1024 * 1024 := by decide
  obtain ⟨tier, store₁, hinsert, _, hintact₁⟩ :=
    hintact.exists_insert hconfig (by decide) hkey hvalue
  obtain ⟨outcome, middle, gone, hplace, hgone, htracks, _⟩ :=
    hkeeps.exists_placed (by decide) hkey hvalue
  obtain rfl : gone = [] := List.eq_nil_iff_forall_not_mem.2 fun other hother => by
    cases hgone other hother
  obtain rfl : outcome = .ok tier := by
    cases outcome with
    | ok tier' =>
      obtain ⟨_, hinsert', _⟩ := exists_insert_of_place hplace
      exact congrArg _ (hinsert.unique hinsert').1
    | error e => exact absurd (fails_insert_of_place hplace) hinsert.not_fails
  have haccepted : (middle.workingSet.insert key value.size).isSome = true := by
    obtain ⟨_, workingSet, _, hset, rfl⟩ := exists_of_openIn hopen
    rw [htracks]
    exact WorkingSet.isSome_insert_of_new hset key value.size
  have run₁ := (TrackedRun.started hopen).written (by decide) hplace hinsert
  rw [haccepted] at run₁
  have hopened₁ : 0 + RamTier.opens store.ram store₁.ram < wordLimit := by
    rw [RamTier.opens]
    split <;> decide
  obtain ⟨found, store₂, hfind, hfound, hintact₂⟩ := hintact₁.exists_find hopened₁ key
  rw [Function.update_self] at hfound
  obtain ⟨found, rfl, _⟩ := Option.map_eq_some_iff.1 hfound
  have run₂ := run₁.read hfind
  have hopened₂ : 0 + RamTier.opens store.ram store₁.ram + RamTier.opens store₁.ram store₂.ram <
      wordLimit := by
    rw [RamTier.opens, RamTier.opens]
    split <;> split <;> decide
  have hwrote (other : ByteArray)
      (hother : Visit.Wrote [.read key, .written key true] other) : other = key := by
    obtain ⟨accepted, hmem⟩ := Visit.wrote_read_iff.1 hother
    cases List.mem_singleton.1 hmem
    rfl
  obtain ⟨keys, hkeys, ⟨htracked, hread⟩, _⟩ :=
    run₂.figures_follow_contents hconfig.slabSize_lt hopened₂ fun one other hone hother _ =>
      (hwrote one hone).trans (hwrote other hother).symm
  rw [hintact₂.keeps.peek_eq] at hkeys htracked hread
  obtain rfl : keys = {key} := by
    ext other
    rw [hkeys, Finset.mem_singleton]
    constructor
    · rintro ⟨hheld, _⟩
      by_contra hne
      rw [Function.update_of_ne hne] at hheld
      cases hheld
    · rintro rfl
      rw [Function.update_self]
      exact ⟨rfl, rfl⟩
  have hsize : valueSize (Function.update (fun _ => none) key (some value)) key = 1 := by
    rw [valueSize, Function.update_self]
    rfl
  refine ⟨_, store₂, run₂, ?_, ?_⟩
  · rw [htracked, Finset.sum_singleton, hsize]
  · rw [hread, Finset.sum_filter, Finset.sum_singleton, if_pos (by decide), hsize]

end Runs

end ElasticCache.TieredStore
