import ElasticCache.Proofs.Storage.Shedding

/-!
# Runs of the tiered store

A run starts with an empty directory and takes one operation after the other. Whatever moved between
the tiers on the way, the store holds the last value of every key, in one tier each.
-/

namespace ElasticCache.TieredStore

/-! ## What a store shows of its map -/

section Showing

variable {store : TieredStore} {config : StoreConfig} {directories : List Path} {opened : Nat}
  {held : ByteArray → Option ByteArray}

/-- The value that a lookup of a key reads. -/
def peek (store : TieredStore) (key : ByteArray) : Option ByteArray :=
  match store.ram.find key with
  | some (value, _) => some value
  | none => (store.disk.find key).toOption.join

/-- What is kept can be looked at without a read. -/
theorem Keeps.peek_eq (h : store.Keeps config directories opened held) : store.peek = held := by
  obtain ⟨ramHeld, diskHeld, h, hdivides⟩ := h
  funext key
  rw [peek, hdivides.held_eq]
  cases hram : ramHeld key with
  | some value =>
    obtain ⟨ram, hfind, _⟩ := h.ram.exists_find hram
    rw [hfind, Option.some_or]
  | none =>
    rw [h.ram.find_eq_none hram, h.disk.find_eq]
    rfl

/-- A key is in at most one tier, and in one exactly when it is held. -/
theorem Keeps.in_one_tier (h : store.Keeps config directories opened held)
    (key : ByteArray) :
    ¬(store.ram.contains key ∧ store.disk.contains key) ∧
      ((held key).isSome ↔ (store.ram.contains key ∨ store.disk.contains key)) := by
  obtain ⟨ramHeld, diskHeld, h, hdivides⟩ := h
  rw [h.ram.contains_eq, h.disk.contains_eq, hdivides.held_eq, Option.isSome_or, Bool.or_eq_true]
  refine ⟨?_, Iff.rfl⟩
  intro hboth
  rcases hdivides.apart key with hram | hdisk
  · rw [hram] at hboth
    cases hboth.1
  · rw [hdisk] at hboth
    cases hboth.2

/-- The tiers together count the keys that are held. -/
theorem Keeps.exists_keys (h : store.Keeps config directories opened held) :
    ∃ keys : List ByteArray, keys.Nodup ∧ (∀ key, key ∈ keys ↔ (held key).isSome) ∧
      store.ram.count + store.disk.count = keys.length := by
  obtain ⟨ramHeld, diskHeld, h, hdivides⟩ := h
  have hdisk (key : ByteArray) : key ∈ store.disk.index.places.keys ↔ (diskHeld key).isSome :=
    Std.HashMap.mem_keys.trans (LogIndex.Describes.mem_places_iff h.disk)
  refine ⟨store.ram.keys ++ store.disk.index.places.keys, ?_, ?_, ?_⟩
  · refine List.nodup_append'.2 ⟨h.ram.nodup_keys, Std.HashMap.nodup_keys, ?_⟩
    intro key hkey hkey'
    rw [h.ram.mem_keys_iff] at hkey
    rw [hdisk] at hkey'
    rcases hdivides.apart key with hnone | hnone
    · rw [hnone] at hkey
      cases hkey
    · rw [hnone] at hkey'
      cases hkey'
  · intro key
    rw [List.mem_append, h.ram.mem_keys_iff, hdisk, hdivides.held_eq, Option.isSome_or,
      Bool.or_eq_true]
  · rw [List.length_append, Std.HashMap.length_keys, h.ram.count_eq, DiskTier.count]

/-- A disk where no compaction fails is ready, unless sums of bytes could reach the
largest budget. -/
theorem Keeps.ready (h : store.Keeps config directories opened held)
    (hfree : ¬store.disk.Stuck)
    (hcounts : config.disk.maxBytes < longMax ∨ store.disk.liveBytes < objectLimit) :
    store.Ready := by
  refine ⟨hfree, ?_⟩
  obtain ⟨ramHeld, diskHeld, hholds, _⟩ := h
  rw [DiskTier.Counts, hholds.disk_config_eq]
  exact hcounts

/-- Without a budget, a store is ready unless its disk is stuck. -/
theorem Keeps.ready_of_unlimited (h : store.Keeps config directories opened held)
    (hunlimited : config.disk.maxBytes = 0) (hfree : ¬store.disk.Stuck) : store.Ready := by
  refine h.ready hfree (.inl ?_)
  rw [hunlimited]
  decide

end Showing

/-! ## A disk without a budget -/

/-- A store keeps a map over a disk without a budget, in a directory for the log alone. -/
structure Intact (store : TieredStore) (config : StoreConfig) (opened : Nat)
    (held : ByteArray → Option ByteArray) : Prop where
  unlimited : config.disk.maxBytes = 0
  keeps : store.Keeps config [[]] opened held

section Intact

variable {store : TieredStore} {config : StoreConfig} {opened : Nat}
  {held : ByteArray → Option ByteArray} {key value : ByteArray}

/-- In a directory for the log alone nothing stands in the way of a compaction. -/
theorem Keeps.not_blocked (h : store.Keeps config [[]] opened held) : ¬store.disk.Blocked := by
  obtain ⟨ramHeld, diskHeld, h, _⟩ := h
  rw [DiskTier.Blocked, Directory.isDirectory, h.directories_eq]
  decide

/-- Without directories in the way, the disk is not stuck. -/
theorem Keeps.not_stuck (h : store.Keeps config [[]] opened held) : ¬store.disk.Stuck :=
  fun hstuck => h.not_blocked hstuck.1

/-- An intact store is ready. -/
theorem Intact.ready (h : store.Intact config opened held) : store.Ready :=
  h.keeps.ready_of_unlimited h.unlimited h.keeps.not_stuck

/-- A record within the limits is stored in the tier that is answered. -/
theorem Intact.exists_insert (h : store.Intact config opened held) (hconfig : config.Lossless)
    (hopened : opened < wordLimit) (hkey : key.size ≤ config.maxKeySize)
    (hvalue : value.size ≤ config.maxValueSize) :
    ∃ tier store', Yields (insert key value) store tier store' ∧
      store'.tierOf key = some tier ∧
      store'.Intact config (opened + RamTier.opens store.ram store'.ram)
        (Function.update held key (some value)) := by
  obtain ⟨outcome, store', now, lost, hinsert, hinserted, hkeeps, _, hsafe⟩ :=
    h.keeps.exists_insert hopened hkey hvalue
  rw [(hsafe h.ready).1, without_nil] at hkeeps
  cases hinserted with
  | stored tier htier => exact ⟨tier, store', hinsert, htier, h.unlimited, hkeeps⟩
  | refused size hrefuses =>
    obtain ⟨_, _, hholds, _⟩ := hkeeps
    rw [DiskTier.Refuses, hholds.disk_config_eq, h.unlimited] at hrefuses
    have hkeyLimit := hconfig.maxKeySize_lt
    have hvalueLimit := hconfig.maxValueSize_lt
    rw [tombstoneMark] at hkeyLimit hvalueLimit hrefuses
    omega
  | failed _ hblocked => exact absurd hblocked hkeeps.not_blocked

/-- A record above the limits is refused and changes nothing. -/
theorem Intact.exists_refusal (h : store.Intact config opened held)
    (hlarge : config.maxKeySize < key.size ∨ config.maxValueSize < value.size) :
    ∃ e, Fails (insert key value) store e store := by
  obtain ⟨e, hfails, _⟩ := h.keeps.exists_refusal hlarge
  exact ⟨e, hfails⟩

/-- A lookup answers the value of its key and keeps all values. -/
theorem Intact.exists_find (h : store.Intact config opened held) (hopened : opened < wordLimit)
    (key : ByteArray) :
    ∃ found store', Yields (find key) store found store' ∧ found.map (·.value) = held key ∧
      store'.Intact config (opened + RamTier.opens store.ram store'.ram) held := by
  obtain ⟨outcome, store', lost, hfind, hkeeps, _, _, hsafe, houtcome, _⟩ :=
    h.keeps.exists_find hopened key
  rw [(hsafe h.ready).1, without_nil] at hkeeps
  obtain ⟨found, rfl, hvalue⟩ :=
    houtcome.resolve_right fun hfails => h.keeps.not_blocked hfails.2
  exact ⟨found, store', hfind, hvalue, h.unlimited, hkeeps⟩

/-- A removal drops the key and answers whether it was held. -/
theorem Intact.exists_remove (h : store.Intact config opened held) (key : ByteArray) :
    ∃ store', Yields (remove key) store (held key).isSome store' ∧
      store'.ram.nextId = store.ram.nextId ∧
      store'.Intact config opened (Function.update held key none) := by
  obtain ⟨outcome, store', hremove, hnext, hkeeps, houtcome⟩ := h.keeps.exists_remove key
  obtain ⟨rfl, _⟩ := houtcome.resolve_right fun hfails => h.keeps.not_blocked hfails.2
  exact ⟨store', hremove, hnext, h.unlimited, hkeeps⟩

/-- Evicting a slab moves keys to disk and loses none. -/
theorem Intact.exists_evictOne (h : store.Intact config opened held) :
    ∃ evicted store', Yields evictOne store evicted store' ∧
      store'.ram.nextId = store.ram.nextId ∧ store'.Intact config opened held := by
  obtain ⟨outcome, store', lost, hevict, hnext, hkeeps, _, hsheds, hlost, _⟩ :=
    h.keeps.exists_evictOne
  obtain ⟨⟨evicted, rfl⟩, _⟩ := hsheds h.keeps.not_stuck
  rw [hlost h.unlimited, DiskTier.lostBy_eq_nil h.keeps.not_stuck, List.map_nil,
    without_nil] at hkeeps
  exact ⟨evicted, store', hevict, hnext, h.unlimited, hkeeps⟩

/-- A new ceiling loses nothing. -/
theorem Intact.exists_resize (h : store.Intact config opened held) (slabs : Nat) :
    ∃ left store', Yields (resize slabs) store left store' ∧
      store'.ram.nextId = store.ram.nextId ∧ store'.Intact config opened held := by
  obtain ⟨outcome, store', lost, hresize, hnext, hkeeps, _, hsheds⟩ := h.keeps.exists_resize slabs
  obtain ⟨⟨left, rfl⟩, _, hlost, _⟩ := hsheds h.keeps.not_stuck
  rw [hlost h.unlimited, without_nil] at hkeeps
  exact ⟨left, store', hresize, hnext, h.unlimited, hkeeps⟩

/-- A new ceiling in bytes loses nothing. -/
theorem Intact.exists_resizeBytes (h : store.Intact config opened held) (bytes : Nat) :
    ∃ left store', Yields (resizeBytes bytes) store left store' ∧
      store'.ram.nextId = store.ram.nextId ∧ store'.Intact config opened held := by
  obtain ⟨left, store', hresize, hrest⟩ := h.exists_resize (bytes / store.config.slabSize)
  exact ⟨left, store', (yields_get store).bind hresize, hrest⟩

/-- A tick loses nothing. -/
theorem Intact.exists_tick (h : store.Intact config opened held) :
    ∃ stale store', Yields tick store stale store' ∧
      store'.ram.nextId = store.ram.nextId ∧ store'.Intact config opened held := by
  obtain ⟨stale, store', htick, hnext, hkeeps, _⟩ := h.keeps.exists_tick
  exact ⟨stale, store', htick, hnext, h.unlimited, hkeeps⟩

/-- Every key that is held is in one tier alone. -/
theorem Intact.in_one_tier (h : store.Intact config opened held) (key : ByteArray) :
    ¬(store.ram.contains key ∧ store.disk.contains key) ∧
      ((held key).isSome ↔ (store.ram.contains key ∨ store.disk.contains key)) :=
  h.keeps.in_one_tier key

/-- The two tiers count the keys that are held. -/
theorem Intact.exists_keys (h : store.Intact config opened held) :
    ∃ keys : List ByteArray, keys.Nodup ∧ (∀ key, key ∈ keys ↔ (held key).isSome) ∧
      store.ram.count + store.disk.count = keys.length := h.keeps.exists_keys

end Intact

/-! ## Runs -/

/-- The stores that a sequence of operations leads to from an empty directory, with the number of
slabs opened on the way and the changes made by the operations that succeeded. -/
inductive Run (config : StoreConfig) : Nat → List MapChange → TieredStore → Prop
  | started {store : TieredStore} (h : (openIn config .empty).run = .ok (.ok store)) :
      Run config 0 [] store
  | inserted {opened : Nat} {changes : List MapChange} {store store' : TieredStore}
      {key value : ByteArray} {tier : Tier} (run : Run config opened changes store)
      (h : Yields (insert key value) store tier store') :
      Run config (opened + RamTier.opens store.ram store'.ram) (.put key value :: changes) store'
  | refused {opened : Nat} {changes : List MapChange} {store store' : TieredStore}
      {key value : ByteArray} {e : Error} (run : Run config opened changes store)
      (h : Fails (insert key value) store e store') :
      Run config (opened + RamTier.opens store.ram store'.ram) changes store'
  | found {opened : Nat} {changes : List MapChange} {store store' : TieredStore}
      {key : ByteArray} {found : Option Found} (run : Run config opened changes store)
      (h : Yields (find key) store found store') :
      Run config (opened + RamTier.opens store.ram store'.ram) changes store'
  | removed {opened : Nat} {changes : List MapChange} {store store' : TieredStore}
      {key : ByteArray} {answer : Bool} (run : Run config opened changes store)
      (h : Yields (remove key) store answer store') :
      Run config (opened + RamTier.opens store.ram store'.ram) (.drop key :: changes) store'
  | evicted {opened : Nat} {changes : List MapChange} {store store' : TieredStore}
      {answer : Bool} (run : Run config opened changes store)
      (h : Yields evictOne store answer store') :
      Run config (opened + RamTier.opens store.ram store'.ram) changes store'
  | resized {opened : Nat} {changes : List MapChange} {store store' : TieredStore}
      {slabs left : Nat} (run : Run config opened changes store)
      (h : Yields (resize slabs) store left store') :
      Run config (opened + RamTier.opens store.ram store'.ram) changes store'
  | resizedBytes {opened : Nat} {changes : List MapChange} {store store' : TieredStore}
      {bytes left : Nat} (run : Run config opened changes store)
      (h : Yields (resizeBytes bytes) store left store') :
      Run config (opened + RamTier.opens store.ram store'.ram) changes store'
  | ticked {opened : Nat} {changes : List MapChange} {store store' : TieredStore}
      {stale : Nat} (run : Run config opened changes store)
      (h : Yields tick store stale store') :
      Run config (opened + RamTier.opens store.ram store'.ram) changes store'

section Run

variable {config : StoreConfig} {opened : Nat} {changes : List MapChange}
  {store store' : TieredStore} {held : ByteArray → Option ByteArray}

/-- A step that opens no slab and keeps the map keeps it with the number of slabs opened so far. -/
theorem Intact.of_yields {α : Type} {m : StoreM α} {a : α} (h : Yields m store a store')
    (hspec : ∃ a' store₁, Yields m store a' store₁ ∧ store₁.ram.nextId = store.ram.nextId ∧
      store₁.Intact config opened held) :
    store'.Intact config (opened + RamTier.opens store.ram store'.ram) held := by
  obtain ⟨a', store₁, hyields, hnext, hkeeps⟩ := hspec
  obtain ⟨_, rfl⟩ := hyields.unique h
  rwa [RamTier.opens_of_eq hnext]

/-- As long as the numbers of slabs do not wrap around, the store keeps the last values. -/
theorem Run.keeps (run : Run config opened changes store) (hconfig : config.Lossless)
    (hopened : opened < wordLimit) : store.Intact config opened (lastValue changes) := by
  induction run with
  | started h => exact ⟨hconfig.unlimited, keeps_of_openIn hconfig.slabSize_lt h⟩
  | @inserted opened changes store store' key value tier run h ih =>
    have hbefore : opened < wordLimit := by omega
    have hkeeps := ih hbefore
    by_cases hlarge : config.maxKeySize < key.size ∨ config.maxValueSize < value.size
    · obtain ⟨e, hfails⟩ := hkeeps.exists_refusal hlarge
      exact (h.not_fails hfails).elim
    · obtain ⟨hkey, hvalue⟩ := not_or.1 hlarge
      obtain ⟨tier', store₁, hinsert, _, hkeeps₁⟩ := hkeeps.exists_insert hconfig hbefore
        (Nat.not_lt.1 hkey) (Nat.not_lt.1 hvalue)
      obtain ⟨_, rfl⟩ := hinsert.unique h
      rwa [lastValue_put]
  | @refused opened changes store store' key value e run h ih =>
    have hbefore : opened < wordLimit := by omega
    have hkeeps := ih hbefore
    by_cases hlarge : config.maxKeySize < key.size ∨ config.maxValueSize < value.size
    · obtain ⟨e', hfails⟩ := hkeeps.exists_refusal hlarge
      obtain rfl := (Prod.mk.inj (h.symm.trans hfails)).2
      rwa [RamTier.opens_self]
    · obtain ⟨hkey, hvalue⟩ := not_or.1 hlarge
      obtain ⟨tier', store₁, hinsert, _⟩ := hkeeps.exists_insert hconfig hbefore
        (Nat.not_lt.1 hkey) (Nat.not_lt.1 hvalue)
      exact (hinsert.not_fails h).elim
  | @found opened changes store store' key found run h ih =>
    have hbefore : opened < wordLimit := by omega
    obtain ⟨found', store₁, hfind, _, hkeeps₁⟩ := (ih hbefore).exists_find hbefore key
    obtain ⟨_, rfl⟩ := hfind.unique h
    exact hkeeps₁
  | @removed opened changes store store' key answer run h ih =>
    obtain ⟨store₁, hremove⟩ := (ih (by omega)).exists_remove key
    rw [lastValue_drop]
    exact Intact.of_yields h ⟨_, store₁, hremove⟩
  | evicted run h ih => exact Intact.of_yields h (ih (by omega)).exists_evictOne
  | resized run h ih => exact Intact.of_yields h ((ih (by omega)).exists_resize _)
  | resizedBytes run h ih => exact Intact.of_yields h ((ih (by omega)).exists_resizeBytes _)
  | ticked run h ih => exact Intact.of_yields h (ih (by omega)).exists_tick

/-- The tiered store is a map. After any run that opened fewer slabs than a word can number, a
record within the limits is stored in the tier that is answered and any other is refused with no
change; a lookup answers the last value of its key, and a removal whether there is one;
evictions, resizes and ticks succeed. Each key that is held is in one tier, and the tiers count
the keys together. As a run may take any of these steps next, none of them changes the value of
another key. -/
theorem Run.refines_map_across_tiers (hconfig : config.Lossless)
    (run : Run config opened changes store) (hopened : opened < wordLimit) :
    (∀ key value, key.size ≤ config.maxKeySize → value.size ≤ config.maxValueSize →
      ∃ tier store', Yields (insert key value) store tier store' ∧
        store'.tierOf key = some tier) ∧
    (∀ key value, config.maxKeySize < key.size ∨ config.maxValueSize < value.size →
      ∃ e, Fails (insert key value) store e store) ∧
    (∀ key, ∃ found store', Yields (find key) store found store' ∧
      found.map (·.value) = lastValue changes key) ∧
    (∀ key, ∃ store', Yields (remove key) store (lastValue changes key).isSome store') ∧
    (∃ evicted store', Yields evictOne store evicted store') ∧
    (∀ slabs, ∃ left store', Yields (resize slabs) store left store') ∧
    (∀ bytes, ∃ left store', Yields (resizeBytes bytes) store left store') ∧
    (∃ stale store', Yields tick store stale store') ∧
    (∀ key, ¬(store.ram.contains key ∧ store.disk.contains key) ∧
      ((lastValue changes key).isSome ↔ (store.ram.contains key ∨ store.disk.contains key))) ∧
    ∃ keys : List ByteArray, keys.Nodup ∧
      (∀ key, key ∈ keys ↔ (lastValue changes key).isSome) ∧
      store.ram.count + store.disk.count = keys.length := by
  have hkeeps := run.keeps hconfig hopened
  refine ⟨?_, fun key value hlarge => hkeeps.exists_refusal hlarge, ?_, ?_, ?_, ?_, ?_, ?_,
    hkeeps.in_one_tier, hkeeps.exists_keys⟩
  · intro key value hkey hvalue
    obtain ⟨tier, store', hinsert, htier, _⟩ := hkeeps.exists_insert hconfig hopened hkey hvalue
    exact ⟨tier, store', hinsert, htier⟩
  · intro key
    obtain ⟨found, store', hfind, hvalue, _⟩ := hkeeps.exists_find hopened key
    exact ⟨found, store', hfind, hvalue⟩
  · intro key
    obtain ⟨store', hremove, _⟩ := hkeeps.exists_remove key
    exact ⟨store', hremove⟩
  · obtain ⟨evicted, store', hevict, _⟩ := hkeeps.exists_evictOne
    exact ⟨evicted, store', hevict⟩
  · intro slabs
    obtain ⟨left, store', hresize, _⟩ := hkeeps.exists_resize slabs
    exact ⟨left, store', hresize⟩
  · intro bytes
    obtain ⟨left, store', hresize, _⟩ := hkeeps.exists_resizeBytes bytes
    exact ⟨left, store', hresize⟩
  · obtain ⟨stale, store', htick, _⟩ := hkeeps.exists_tick
    exact ⟨stale, store', htick⟩

/-- A value that was stored and pushed out of RAM is found. -/
theorem Run.refines_map_across_tiers_of_evicted :
    ∃ opened store, Run { trackedKeys := 1 } opened [.put ⟨#[1]⟩ ⟨#[2]⟩] store ∧
      ∃ found store', Yields (find ⟨#[1]⟩) store found store' ∧
        found.map (·.value) = some ⟨#[2]⟩ := by
  have hconfig : StoreConfig.Lossless { trackedKeys := 1 } :=
    ⟨by decide, by decide, by decide, rfl⟩
  obtain ⟨store, hopen⟩ := exists_openIn { trackedKeys := 1 } (by decide) (by decide +kernel)
  have started := Run.started hopen
  obtain ⟨tier, store₁, hinsert, _⟩ :=
    (started.refines_map_across_tiers hconfig (by decide)).1 ⟨#[1]⟩ ⟨#[2]⟩ (by decide) (by decide)
  have inserted := started.inserted hinsert
  have hopened₁ : 0 + RamTier.opens store.ram store₁.ram < wordLimit := by
    rw [RamTier.opens]
    split <;> decide
  obtain ⟨evicted, store₂, hevict⟩ :=
    (inserted.refines_map_across_tiers hconfig hopened₁).2.2.2.2.1
  have evicted := inserted.evicted hevict
  have hopened₂ : 0 + RamTier.opens store.ram store₁.ram + RamTier.opens store₁.ram store₂.ram <
      wordLimit := by
    rw [RamTier.opens, RamTier.opens]
    split <;> split <;> decide
  obtain ⟨found, store₃, hfind, hvalue⟩ :=
    (evicted.refines_map_across_tiers hconfig hopened₂).2.2.1 ⟨#[1]⟩
  refine ⟨_, store₂, evicted, found, store₃, hfind, hvalue.trans ?_⟩
  rw [lastValue, if_pos rfl]

end Run

end ElasticCache.TieredStore
