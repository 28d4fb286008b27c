import ElasticCache.Proofs.Storage.TieredMap

/-!
# Shrinking RAM

Slabs that leave RAM take their records to disk, and the counters say how many got there and how
many were dropped. Over several slabs the counts add up, since a key that was lost once is no longer
held. After any operation, however it ends, the store keeps some map.
-/

namespace ElasticCache.TieredStore

/-- The counters account for the records that left RAM: some were demoted, and the lost ones are
counted as dropped. -/
structure Sheds (store store' : TieredStore) (lost : List ByteArray) : Prop where
  nodup : lost.Nodup
  dropped_eq : store'.stats.dropped = store.stats.dropped + lost.length
  count_eq : store'.ram.count + store'.stats.demotions + store'.stats.dropped =
    store.ram.count + store.stats.demotions + store.stats.dropped

section Shedding

variable {store store' store'' : TieredStore} {config : StoreConfig} {directories : List Path}
  {opened : Nat} {held : ByteArray → Option ByteArray} {key : ByteArray}
  {lost lost' : List ByteArray}

/-- Without a step, nothing is shed. -/
theorem Sheds.refl (store : TieredStore) : store.Sheds store [] := ⟨List.nodup_nil, rfl, rfl⟩

/-- What is shed in two steps is shed in both together. -/
theorem Sheds.trans (h : store.Sheds store' lost) (h' : store'.Sheds store'' lost')
    (hapart : ∀ key ∈ lost', key ∉ lost) : store.Sheds store'' (lost ++ lost') := by
  refine ⟨List.nodup_append'.2 ⟨h.nodup, h'.nodup, fun key hkey hkey' => hapart key hkey' hkey⟩, ?_,
    h'.count_eq.trans h.count_eq⟩
  rw [h'.dropped_eq, h.dropped_eq, List.length_append, Nat.add_assoc]

/-- What RAM contains is held. -/
theorem Keeps.isSome_of_contains (h : store.Keeps config directories opened held)
    (hkey : store.ram.contains key) : (held key).isSome := by
  obtain ⟨ramHeld, diskHeld, h, hdivides⟩ := h
  rw [h.ram.contains_eq] at hkey
  rw [hdivides.held_eq, Option.isSome_or, hkey, Bool.true_or]

/-- Evicting a slab loses keys of RAM. On a disk that is not stuck they are counted as dropped, and
without a budget they are those that a failing compaction loses. -/
theorem Keeps.exists_evictOne (h : store.Keeps config directories opened held) :
    ∃ (outcome : Except Error Bool) (store' : TieredStore) (lost : List ByteArray),
      Runs evictOne store outcome store' ∧ store'.ram.nextId = store.ram.nextId ∧
      store'.Keeps config directories opened (without held lost) ∧
      (∀ key ∈ lost, store.ram.contains key) ∧
      (¬store.disk.Stuck → (∃ evicted, outcome = .ok evicted) ∧ ¬store'.disk.Stuck ∧
        store.Sheds store' lost) ∧
      (config.disk.maxBytes = 0 →
        lost = (store.disk.lostBy store.ram.victimRecords).map (·.key)) ∧
      (¬store.disk.Stuck → store.Tracks (lost.map .remove) store') := by
  obtain ⟨ramHeld, diskHeld, h, hdivides⟩ := h
  obtain ⟨outcome, store', lost, ramHeld', diskHeld', hevict, hnext, hcount, hdemotes, h', hnodup,
    hfared⟩ := h.exists_evictOne hdivides.apart
  refine ⟨outcome, store', lost, hevict, hnext, ⟨_, _, h', hdemotes.divides hdivides⟩, ?_, ?_, ?_,
    hfared.tracked⟩
  · intro key hkey
    rw [h.ram.contains_eq]
    exact hdemotes.isSome_of_mem hkey
  · intro hfree
    obtain ⟨houtcome, hfree'⟩ := hfared.settled hfree
    obtain ⟨hdropped, hdemotions⟩ := hfared.counted hfree
    refine ⟨?_, hfree', hnodup, hdropped, by omega⟩
    cases outcome with
    | ok evicted => exact ⟨evicted, rfl⟩
    | error e => cases houtcome
  · intro hunlimited
    exact hfared.lost_eq (by rw [h.disk_config_eq]; exact hunlimited)

/-- Shrinking evicts slab after slab. What one of them loses is not held any more, so that no later
one loses it again. -/
theorem Keeps.exists_shrink (h : store.Keeps config directories opened held) (slabs rounds : Nat) :
    ∃ (outcome : Except Error Nat) (store' : TieredStore) (lost : List ByteArray),
      Runs (shrink slabs rounds) store outcome store' ∧ store'.ram.nextId = store.ram.nextId ∧
      store'.Keeps config directories opened (without held lost) ∧
      (∀ key ∈ lost, (held key).isSome) ∧
      (¬store.disk.Stuck → (∃ left, outcome = .ok left) ∧ store.Sheds store' lost ∧
        (config.disk.maxBytes = 0 → lost = []) ∧ store.Tracks (lost.map .remove) store') := by
  induction rounds generalizing store held with
  | zero =>
    exact ⟨.ok 0, store, [], rfl, rfl, by rwa [without_nil], nofun,
      fun _ => ⟨⟨0, rfl⟩, .refl store, fun _ => rfl, rfl⟩⟩
  | succ rounds ih =>
    by_cases hmet : store.ram.loadedSlabs ≤ slabs
    · refine ⟨.ok 0, store, [], (yields_get store).bind ?_, rfl, by rwa [without_nil], nofun,
        fun _ => ⟨⟨0, rfl⟩, .refl store, fun _ => rfl, rfl⟩⟩
      rw [if_pos hmet]
      rfl
    obtain ⟨outcome, store₁, lost, hevict, hnext, h₁, hlost, hsheds, hkept, htracked⟩ :=
      h.exists_evictOne
    have hheld (key : ByteArray) (hkey : key ∈ lost) : (held key).isSome :=
      h.isSome_of_contains (hlost key hkey)
    have hrun {result : Except Error Nat} {store' : TieredStore} (hrest : Runs (do
        if ← evictOne then return (← shrink slabs rounds) + 1
        return 0) store result store') : Runs (shrink slabs (rounds + 1)) store result store' := by
      refine (yields_get store).bind ?_
      rw [if_neg hmet]
      exact hrest
    have hnone (hfree : ¬store.disk.Stuck) (hunlimited : config.disk.maxBytes = 0) : lost = [] := by
      rw [hkept hunlimited, DiskTier.lostBy_eq_nil hfree, List.map_nil]
    rcases outcome with e | _ | _
    · refine ⟨.error e, store₁, lost, hrun (Fails.bind hevict), hnext, h₁, hheld, fun hfree => ?_⟩
      obtain ⟨⟨evicted, hok⟩, _⟩ := hsheds hfree
      cases hok
    · exact ⟨.ok 0, store₁, lost, hrun (Yields.bind hevict rfl), hnext, h₁, hheld,
        fun hfree => ⟨⟨0, rfl⟩, (hsheds hfree).2.2, hnone hfree, htracked hfree⟩⟩
    · obtain ⟨outcome, store₂, lost₂, hshrink, hnext₂, h₂, hheld₂, hsheds₂⟩ := ih h₁
      have hapart (key : ByteArray) (hkey : key ∈ lost₂) : key ∉ lost ∧ (held key).isSome :=
        of_isSome_without (hheld₂ key hkey)
      refine ⟨outcome.map (· + 1), store₂, lost ++ lost₂, hrun (Yields.bind hevict ?_),
        hnext₂.trans hnext, by rwa [← without_without], ?_, fun hfree => ?_⟩
      · cases outcome with
        | error e => exact Fails.bind hshrink
        | ok left => exact Yields.bind hshrink rfl
      · intro key hkey
        rcases List.mem_append.1 hkey with hkey | hkey
        · exact hheld key hkey
        · exact (hapart key hkey).2
      · obtain ⟨_, hfree₁, hsheds₁⟩ := hsheds hfree
        obtain ⟨⟨left, hleft⟩, hsheds₂, hnone₂, htracks₂⟩ := hsheds₂ hfree₁
        refine ⟨⟨left + 1, by rw [hleft]; rfl⟩,
          hsheds₁.trans hsheds₂ fun key hkey => (hapart key hkey).1, fun hunlimited => ?_, ?_⟩
        · rw [hnone hfree hunlimited, hnone₂ hunlimited, List.append_nil]
        · rw [List.map_append]
          exact (htracked hfree).trans htracks₂

/-- A new ceiling loses some keys at most. Unless the disk is stuck, it succeeds, counts what it
sheds, and loses nothing without a budget. -/
theorem Keeps.exists_resize (h : store.Keeps config directories opened held) (slabs : Nat) :
    ∃ (outcome : Except Error Nat) (store' : TieredStore) (lost : List ByteArray),
      Runs (resize slabs) store outcome store' ∧ store'.ram.nextId = store.ram.nextId ∧
      store'.Keeps config directories opened (without held lost) ∧
      (∀ key ∈ lost, (held key).isSome) ∧
      (¬store.disk.Stuck → (∃ left, outcome = .ok left) ∧ store.Sheds store' lost ∧
        (config.disk.maxBytes = 0 → lost = []) ∧ store.Tracks (lost.map .remove) store') := by
  obtain ⟨ramHeld, diskHeld, h, hdivides⟩ := h
  let store₁ : TieredStore := { store with ram := { store.ram with maxSlabs := slabs } }
  have h₁ : store₁.Keeps config directories opened held :=
    ⟨ramHeld, diskHeld, h.with_ram (h.ram.congr rfl rfl rfl rfl), hdivides⟩
  obtain ⟨outcome, store₂, lost, hshrink, hnext, h₂, hheld, hsheds⟩ :=
    h₁.exists_shrink slabs store.ram.loadedSlabs
  have hmodify : Yields
      (modify fun store => { store with ram := { store.ram with maxSlabs := slabs } })
      store () store₁ := rfl
  refine ⟨outcome, store₂, lost, hmodify.bind ((yields_get store₁).bind hshrink), hnext, h₂, hheld,
    fun hfree => ?_⟩
  obtain ⟨hleft, ⟨hnodup, hdropped, hcount⟩, hnone, htracks⟩ := hsheds hfree
  exact ⟨hleft, ⟨hnodup, hdropped, hcount⟩, hnone, htracks⟩

/-- A ceiling in bytes is one in slabs. -/
theorem runs_resizeBytes {bytes : Nat} {outcome : Except Error Nat}
    (h : Runs (resize (bytes / store.config.slabSize)) store outcome store') :
    Runs (resizeBytes bytes) store outcome store' := (yields_get store).bind h

/-- A tick changes nothing that is held. -/
theorem Keeps.exists_tick (h : store.Keeps config directories opened held) :
    ∃ stale store', Yields tick store stale store' ∧
      store'.ram.nextId = store.ram.nextId ∧ store'.Keeps config directories opened held ∧
      store.Tracks [] store' := by
  obtain ⟨ramHeld, diskHeld, h, hdivides⟩ := h
  have hsame : (store.ram.tick.2.slabSize = store.ram.slabSize ∧
      store.ram.tick.2.slabs = store.ram.slabs) ∧ store.ram.tick.2.index = store.ram.index ∧
      store.ram.tick.2.nextId = store.ram.nextId := by
    rw [RamTier.tick]
    split <;> exact ⟨⟨rfl, rfl⟩, rfl, rfl⟩
  obtain ⟨⟨hsize, hslabs⟩, hindex, hnext⟩ := hsame
  exact ⟨_, _, yields_onRam RamTier.tick store, hnext,
    ⟨ramHeld, diskHeld, h.with_ram (h.ram.congr hsize hslabs hindex hnext), hdivides⟩, rfl⟩

/-! ## Whatever the outcome -/

/-- A store serves an operation, however this ends. -/
inductive Serves (store store' : TieredStore) : Prop
  | inserted {key value : ByteArray} {outcome : Except Error Tier}
      (h : Runs (insert key value) store outcome store')
  | found {key : ByteArray} {outcome : Except Error (Option Found)}
      (h : Runs (find key) store outcome store')
  | removed {key : ByteArray} {outcome : Except Error Bool}
      (h : Runs (remove key) store outcome store')
  | evicted {outcome : Except Error Bool} (h : Runs evictOne store outcome store')
  | resized {slabs : Nat} {outcome : Except Error Nat}
      (h : Runs (resize slabs) store outcome store')
  | resizedBytes {bytes : Nat} {outcome : Except Error Nat}
      (h : Runs (resizeBytes bytes) store outcome store')
  | ticked {outcome : Except Error Nat} (h : Runs tick store outcome store')

/-- Whatever comes of an insertion, a map is kept. -/
theorem Keeps.of_insert {value : ByteArray} {outcome : Except Error Tier}
    (h : store.Keeps config directories opened held) (hopened : opened < wordLimit)
    (hrun : Runs (insert key value) store outcome store') :
    ∃ held', store'.Keeps config directories (opened + RamTier.opens store.ram store'.ram)
      held' := by
  by_cases hlarge : config.maxKeySize < key.size ∨ config.maxValueSize < value.size
  · obtain ⟨e, hfails, _⟩ := h.exists_refusal hlarge
    obtain ⟨_, rfl⟩ := Runs.unique hfails hrun
    rw [RamTier.opens_self]
    exact ⟨held, h⟩
  · obtain ⟨hkey, hvalue⟩ := not_or.1 hlarge
    obtain ⟨_, _, _, _, hinsert, _, hkeeps, _⟩ :=
      h.exists_insert hopened (Nat.not_lt.1 hkey) (Nat.not_lt.1 hvalue)
    obtain ⟨_, rfl⟩ := Runs.unique hinsert hrun
    exact ⟨_, hkeeps⟩

/-- Whatever comes of a read, a map is kept. -/
theorem Keeps.of_find {outcome : Except Error (Option Found)}
    (h : store.Keeps config directories opened held) (hopened : opened < wordLimit)
    (hrun : Runs (find key) store outcome store') :
    ∃ held', store'.Keeps config directories (opened + RamTier.opens store.ram store'.ram)
      held' := by
  obtain ⟨_, _, _, hfind, hkeeps, _⟩ := h.exists_find hopened key
  obtain ⟨_, rfl⟩ := Runs.unique hfind hrun
  exact ⟨_, hkeeps⟩

/-- A step that opens no slab keeps the number of slabs opened so far. -/
theorem Keeps.of_runs {α : Type} {m : StoreM α} {outcome : Except Error α}
    (hrun : Runs m store outcome store')
    (hspec : ∃ outcome' store₁ held', Runs m store outcome' store₁ ∧
      store₁.ram.nextId = store.ram.nextId ∧ store₁.Keeps config directories opened held') :
    ∃ held', store'.Keeps config directories (opened + RamTier.opens store.ram store'.ram)
      held' := by
  obtain ⟨_, _, held', hruns, hnext, hkeeps⟩ := hspec
  obtain ⟨_, rfl⟩ := hruns.unique hrun
  rw [RamTier.opens_of_eq hnext]
  exact ⟨held', hkeeps⟩

/-- Whatever comes of a removal, a map is kept. -/
theorem Keeps.of_remove {outcome : Except Error Bool}
    (h : store.Keeps config directories opened held)
    (hrun : Runs (remove key) store outcome store') :
    ∃ held', store'.Keeps config directories (opened + RamTier.opens store.ram store'.ram)
      held' := by
  obtain ⟨_, _, hremove, hnext, hkeeps, _⟩ := h.exists_remove key
  exact Keeps.of_runs hrun ⟨_, _, _, hremove, hnext, hkeeps⟩

/-- Whatever comes of an eviction, a map is kept. -/
theorem Keeps.of_evictOne {outcome : Except Error Bool}
    (h : store.Keeps config directories opened held)
    (hrun : Runs evictOne store outcome store') :
    ∃ held', store'.Keeps config directories (opened + RamTier.opens store.ram store'.ram)
      held' := by
  obtain ⟨_, _, _, hevict, hnext, hkeeps, _⟩ := h.exists_evictOne
  exact Keeps.of_runs hrun ⟨_, _, _, hevict, hnext, hkeeps⟩

/-- Whatever comes of a new ceiling, a map is kept. -/
theorem Keeps.of_resize {slabs : Nat} {outcome : Except Error Nat}
    (h : store.Keeps config directories opened held)
    (hrun : Runs (resize slabs) store outcome store') :
    ∃ held', store'.Keeps config directories (opened + RamTier.opens store.ram store'.ram)
      held' := by
  obtain ⟨_, _, _, hresize, hnext, hkeeps, _⟩ := h.exists_resize slabs
  exact Keeps.of_runs hrun ⟨_, _, _, hresize, hnext, hkeeps⟩

/-- A tick keeps a map. -/
theorem Keeps.of_tick {outcome : Except Error Nat}
    (h : store.Keeps config directories opened held) (hrun : Runs tick store outcome store') :
    ∃ held', store'.Keeps config directories (opened + RamTier.opens store.ram store'.ram)
      held' := by
  obtain ⟨_, _, htick, hnext, hkeeps, _⟩ := h.exists_tick
  exact Keeps.of_runs hrun ⟨_, _, _, htick, hnext, hkeeps⟩

/-- Whatever it serves, a store that keeps a map keeps one. -/
theorem Serves.exists_keeps (h : store.Serves store')
    (hkeeps : ∃ held, store.Keeps config directories opened held) (hopened : opened < wordLimit) :
    ∃ held', store'.Keeps config directories (opened + RamTier.opens store.ram store'.ram)
      held' := by
  obtain ⟨held, hkeeps⟩ := hkeeps
  cases h with
  | inserted h => exact hkeeps.of_insert hopened h
  | found h => exact hkeeps.of_find hopened h
  | removed h => exact hkeeps.of_remove h
  | evicted h => exact hkeeps.of_evictOne h
  | resized h => exact hkeeps.of_resize h
  | resizedBytes h => exact hkeeps.of_resize h
  | ticked h => exact hkeeps.of_tick h

end Shedding

end ElasticCache.TieredStore
