import ElasticCache.Proofs.Storage.TieredRuns

/-!
# Runs over a disk with a budget

A budget may run out, so that a store does not hold the last value of every key. But what it holds
is lost only as RAM shrinks: insertions and lookups evict a slab only when the disk has room for all
of its records, which are the ones that the check for room added up.
-/

namespace ElasticCache.TieredStore

/-- Between two stores exactly the given keys disappear, and no other value changes. -/
structure Loses (store store' : TieredStore) (lost : List ByteArray) : Prop where
  stored : ∀ key ∈ lost, (store.peek key).isSome
  peek_eq : store'.peek = without store.peek lost

section Budget

variable {store store' : TieredStore} {config : StoreConfig} {opened : Nat}
  {changes : List MapChange} {held : ByteArray → Option ByteArray} {key value : ByteArray}

/-- What is held without some keys is what was held but for these. -/
theorem Keeps.loses {directories directories' : List Path} {opened' : Nat} {lost : List ByteArray}
    (h : store.Keeps config directories opened held)
    (h' : store'.Keeps config directories' opened' (without held lost))
    (hlost : ∀ key ∈ lost, (held key).isSome) : store.Loses store' lost := by
  rw [← h.peek_eq] at hlost h'
  exact ⟨hlost, h'.peek_eq⟩

/-- Any run leads to a store that keeps a map. -/
theorem Run.exists_keeps (run : Run config opened changes store)
    (hsmall : config.slabSize < wordLimit) (hopened : opened < wordLimit) :
    ∃ held, store.Keeps config [[]] opened held := by
  induction run with
  | started h => exact ⟨_, keeps_of_openIn hsmall h⟩
  | inserted run h ih => exact (Serves.inserted h).exists_keeps (ih (by omega)) (by omega)
  | refused run h ih => exact (Serves.inserted h).exists_keeps (ih (by omega)) (by omega)
  | found run h ih => exact (Serves.found h).exists_keeps (ih (by omega)) (by omega)
  | removed run h ih => exact (Serves.removed h).exists_keeps (ih (by omega)) (by omega)
  | evicted run h ih => exact (Serves.evicted h).exists_keeps (ih (by omega)) (by omega)
  | resized run h ih => exact (Serves.resized h).exists_keeps (ih (by omega)) (by omega)
  | resizedBytes run h ih => exact (Serves.resizedBytes h).exists_keeps (ih (by omega)) (by omega)
  | ticked run h ih => exact (Serves.ticked h).exists_keeps (ih (by omega)) (by omega)

/-- An insertion into a ready store changes its own key alone. -/
theorem Keeps.exists_inserted (h : store.Keeps config [[]] opened held)
    (hopened : opened < wordLimit) (hready : store.Ready) (key value : ByteArray) :
    ∃ outcome store', Runs (insert key value) store outcome store' ∧
      (∀ other, other ≠ key → store'.peek other = store.peek other) ∧
      store'.stats.dropped = store.stats.dropped ∧
      (∀ tier, outcome = .ok tier → store'.peek key = some value) ∧
      (∀ size, outcome = .error (.capacity size) → store'.peek key = none) := by
  by_cases hlarge : config.maxKeySize < key.size ∨ config.maxValueSize < value.size
  · obtain ⟨e, hfails, hother⟩ := h.exists_refusal hlarge
    exact ⟨.error e, store, hfails, fun _ _ => rfl, rfl, nofun,
      fun size heq => absurd (Except.error.inj heq) (hother size)⟩
  · obtain ⟨hkey, hvalue⟩ := not_or.1 hlarge
    obtain ⟨outcome, store', now, lost, hinsert, hinserted, hkeeps, _, hsafe⟩ :=
      h.exists_insert hopened (Nat.not_lt.1 hkey) (Nat.not_lt.1 hvalue)
    obtain ⟨hlost, hdropped⟩ := hsafe hready
    rw [hlost, without_nil] at hkeeps
    refine ⟨outcome, store', hinsert, fun other hne => ?_, hdropped, ?_, ?_⟩
    · rw [hkeeps.peek_eq, h.peek_eq, Function.update_of_ne hne]
    · rintro tier rfl
      cases hinserted
      rw [hkeeps.peek_eq, Function.update_self]
    · rintro size rfl
      cases hinserted
      rw [hkeeps.peek_eq, Function.update_self]

/-- A lookup in a ready store changes no value. -/
theorem Keeps.exists_found (h : store.Keeps config [[]] opened held) (hopened : opened < wordLimit)
    (hready : store.Ready) (key : ByteArray) :
    ∃ found store', Yields (find key) store found store' ∧ store'.peek = store.peek ∧
      store'.stats.dropped = store.stats.dropped := by
  obtain ⟨outcome, store', lost, hfind, hkeeps, _, _, hsafe, houtcome, _⟩ :=
    h.exists_find hopened key
  obtain ⟨hlost, hdropped⟩ := hsafe hready
  obtain ⟨found, rfl, _⟩ := houtcome.resolve_right fun hfails => h.not_blocked hfails.2
  rw [hlost, without_nil] at hkeeps
  exact ⟨found, store', hfind, hkeeps.peek_eq.trans h.peek_eq.symm, hdropped⟩

/-- Slabs that leave RAM lose what the counters say. -/
theorem Keeps.exists_evicted (h : store.Keeps config [[]] opened held) :
    ∃ evicted store' lost, Yields evictOne store evicted store' ∧ store.Sheds store' lost ∧
      store.Loses store' lost := by
  obtain ⟨outcome, store', lost, hevict, _, hkeeps, hlost, hsheds, _⟩ := h.exists_evictOne
  obtain ⟨⟨evicted, rfl⟩, _, hsheds⟩ := hsheds h.not_stuck
  exact ⟨evicted, store', lost, hevict, hsheds,
    h.loses hkeeps fun key hkey => h.isSome_of_contains (hlost key hkey)⟩

/-- A new ceiling loses exactly the values of the keys that it sheds. -/
theorem Keeps.exists_resized (h : store.Keeps config [[]] opened held) (slabs : Nat) :
    ∃ left store' lost, Yields (resize slabs) store left store' ∧ store.Sheds store' lost ∧
      store.Loses store' lost := by
  obtain ⟨outcome, store', lost, hresize, _, hkeeps, hlost, hsheds⟩ := h.exists_resize slabs
  obtain ⟨⟨left, rfl⟩, hsheds, _⟩ := hsheds h.not_stuck
  exact ⟨left, store', lost, hresize, hsheds, h.loses hkeeps hlost⟩

/-- The live bytes of the disk stay within its budget. -/
theorem Keeps.liveBytes_le {directories : List Path}
    (h : store.Keeps config directories opened held) (hbudget : 0 < config.disk.maxBytes) :
    store.disk.liveBytes ≤ config.disk.maxBytes := by
  obtain ⟨_, _, hholds, _⟩ := h
  have hwithin := hholds.within
  rw [DiskTier.Fits, hholds.disk_config_eq] at hwithin
  omega

/-- Only a shrink loses data. After any run on a disk with any budget, an insertion, whether it
succeeds or is refused, and a lookup leave the values of all other keys and the count of dropped
records as they are, and a value that does not fit the budget leaves its key absent. An eviction and
a change of the ceiling lose as many keys as they count as dropped and change no other; RAM then
holds fewer keys by those demoted and those dropped. The live bytes on disk are within the budget.
Under the largest budget there is, they are assumed to be no more than a file can have, so that the
sum in the check for room does not run into its limit. -/
theorem Run.loses_only_by_shrinking (hsmall : config.slabSize < wordLimit)
    (run : Run config opened changes store) (hopened : opened < wordLimit)
    (hcounts : config.disk.maxBytes < longMax ∨ store.disk.liveBytes < objectLimit) :
    (∀ key value, ∃ outcome store', Runs (insert key value) store outcome store' ∧
      (∀ other, other ≠ key → store'.peek other = store.peek other) ∧
      store'.stats.dropped = store.stats.dropped ∧
      (∀ tier, outcome = .ok tier → store'.peek key = some value) ∧
      (∀ size, outcome = .error (.capacity size) → store'.peek key = none)) ∧
    (∀ key, ∃ found store', Yields (find key) store found store' ∧ store'.peek = store.peek ∧
      store'.stats.dropped = store.stats.dropped) ∧
    (∃ evicted store' lost, Yields evictOne store evicted store' ∧ store.Sheds store' lost ∧
      store.Loses store' lost) ∧
    (∀ slabs, ∃ left store' lost, Yields (resize slabs) store left store' ∧
      store.Sheds store' lost ∧ store.Loses store' lost) ∧
    (∀ bytes, ∃ left store' lost, Yields (resizeBytes bytes) store left store' ∧
      store.Sheds store' lost ∧ store.Loses store' lost) ∧
    (0 < config.disk.maxBytes → store.disk.liveBytes ≤ config.disk.maxBytes) := by
  obtain ⟨held, hkeeps⟩ := run.exists_keeps hsmall hopened
  have hready := hkeeps.ready hkeeps.not_stuck hcounts
  refine ⟨hkeeps.exists_inserted hopened hready, hkeeps.exists_found hopened hready,
    hkeeps.exists_evicted, hkeeps.exists_resized, fun bytes => ?_, hkeeps.liveBytes_le⟩
  obtain ⟨left, store', lost, hresize, hlosses⟩ :=
    hkeeps.exists_resized (bytes / store.config.slabSize)
  exact ⟨left, store', lost, runs_resizeBytes hresize, hlosses⟩

/-- Over a budget for a few records, a second insertion leaves the first key as it was. -/
theorem Run.loses_only_by_shrinking_of_budget :
    ∃ opened changes store,
      Run { trackedKeys := 1, disk := { maxBytes := 64 } } opened changes store ∧
      store.disk.liveBytes ≤ 64 ∧
      ∃ outcome store', Runs (insert ⟨#[3]⟩ ⟨#[4]⟩) store outcome store' ∧
        store'.peek ⟨#[1]⟩ = store.peek ⟨#[1]⟩ := by
  obtain ⟨store, hopen⟩ := exists_openIn { trackedKeys := 1, disk := { maxBytes := 64 } }
    (by decide) (by decide +kernel)
  have started := Run.started hopen
  obtain ⟨outcome, store₁, hinsert, _⟩ :=
    (started.loses_only_by_shrinking (by decide) (by decide) (.inl (by decide))).1 ⟨#[1]⟩ ⟨#[2]⟩
  have hopened : 0 + RamTier.opens store.ram store₁.ram < wordLimit := by
    rw [RamTier.opens]
    split <;> decide
  obtain ⟨changes, run⟩ : ∃ changes, Run { trackedKeys := 1, disk := { maxBytes := 64 } }
      (0 + RamTier.opens store.ram store₁.ram) changes store₁ := by
    cases outcome with
    | ok tier => exact ⟨_, started.inserted hinsert⟩
    | error e => exact ⟨_, started.refused hinsert⟩
  obtain ⟨hinserts, _, _, _, _, hwithin⟩ :=
    run.loses_only_by_shrinking (by decide) hopened (.inl (by decide))
  obtain ⟨outcome₂, store₂, hinsert₂, hothers, _⟩ := hinserts ⟨#[3]⟩ ⟨#[4]⟩
  exact ⟨_, changes, store₁, run, hwithin (by decide), outcome₂, store₂, hinsert₂,
    hothers _ (by decide)⟩

end Budget

end ElasticCache.TieredStore
