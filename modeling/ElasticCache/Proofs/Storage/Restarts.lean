import ElasticCache.Proofs.Storage.RamCeiling
import ElasticCache.Proofs.Storage.TieredRuns

/-!
# Closing a store and opening it again

A store that is closed leaves behind its log alone. What is opened on it again are the keys that
were on disk, since a tombstone or a newer record follows whatever record of a key is out of date.
Over any number of restarts the value of a key is the last one given to it or none.
-/

namespace ElasticCache.TieredStore

/-- A map holds no value but the last ones. -/
def Recalls (held : ByteArray → Option ByteArray) (changes : List MapChange) : Prop :=
  ∀ key, held key = none ∨ held key = lastValue changes key

section Recalls

variable {held : ByteArray → Option ByteArray} {changes : List MapChange} {key value : ByteArray}

/-- What is held without some keys is still recalled. -/
theorem Recalls.lose (h : Recalls held changes) (lost : List ByteArray) :
    Recalls (without held lost) changes := by
  intro key
  unfold without
  split
  · exact .inl rfl
  · exact h key

/-- What is held without one key is still recalled. -/
theorem Recalls.forget (h : Recalls held changes) (key : ByteArray) :
    Recalls (Function.update held key none) changes := by
  intro other
  rw [Function.update_apply]
  split
  · exact .inl rfl
  · exact h other

/-- A value that is put is recalled. -/
theorem Recalls.put (h : Recalls held changes) (key value : ByteArray) :
    Recalls (Function.update held key (some value)) (.put key value :: changes) := by
  intro other
  rw [lastValue_put, Function.update_apply, Function.update_apply]
  split
  · exact .inr rfl
  · exact h other

/-- A key that is dropped is recalled as such. -/
theorem Recalls.drop (h : Recalls held changes) (key : ByteArray) :
    Recalls (Function.update held key none) (.drop key :: changes) := by
  intro other
  rw [lastValue_drop, Function.update_apply, Function.update_apply]
  split
  · exact .inl rfl
  · exact h other

end Recalls

/-! ## Sessions -/

/-- A store performs an operation, with the changes that this makes when it succeeds. -/
inductive Performs (store store' : TieredStore) : List MapChange → Prop
  | inserted {key value : ByteArray} {tier : Tier}
      (h : Yields (insert key value) store tier store') :
      Performs store store' [.put key value]
  | refused {key value : ByteArray} {e : Error} (h : Fails (insert key value) store e store') :
      Performs store store' []
  | found {key : ByteArray} {found : Option Found} (h : Yields (find key) store found store') :
      Performs store store' []
  | removed {key : ByteArray} {answer : Bool} (h : Yields (remove key) store answer store') :
      Performs store store' [.drop key]
  | evicted {answer : Bool} (h : Yields evictOne store answer store') : Performs store store' []
  | resized {slabs left : Nat} (h : Yields (resize slabs) store left store') :
      Performs store store' []
  | resizedBytes {bytes left : Nat} (h : Yields (resizeBytes bytes) store left store') :
      Performs store store' []
  | ticked {stale : Nat} (h : Yields tick store stale store') : Performs store store' []

/-- The stores that operations lead to from an empty directory, with the number of slabs opened
since the store was. In between, the store may be closed and opened again, with any configuration of
the same budget. -/
inductive SessionRun : StoreConfig → Nat → List MapChange → TieredStore → Prop
  | started {config : StoreConfig} {store : TieredStore} (hsmall : config.slabSize < wordLimit)
      (h : (openIn config .empty).run = .ok (.ok store)) : SessionRun config 0 [] store
  | performed {config : StoreConfig} {opened : Nat} {changes new : List MapChange}
      {store store' : TieredStore} (run : SessionRun config opened changes store)
      (h : store.Performs store' new) :
      SessionRun config (opened + RamTier.opens store.ram store'.ram) (new ++ changes) store'
  | reopened {config config' : StoreConfig} {opened : Nat} {changes : List MapChange}
      {store store' : TieredStore} (run : SessionRun config opened changes store)
      (hopened : opened < wordLimit) (hsmall : config'.slabSize < wordLimit)
      (hbudget : config'.disk.maxBytes = config.disk.maxBytes)
      (h : (openIn config' store.disk.dir).run = .ok (.ok store')) :
      SessionRun config' 0 changes store'

section Sessions

variable {store store' : TieredStore} {config config' : StoreConfig} {opened : Nat}
  {changes new : List MapChange} {held ramHeld diskHeld : ByteArray → Option ByteArray}

/-- A step that opens no slab and loses some keys leaves nothing but last values. -/
theorem Recalls.of_runs {α : Type} {m : StoreM α} {outcome : Except Error α}
    (h : Recalls held changes) (hrun : Runs m store outcome store')
    (hspec : ∃ outcome' store₁ lost, Runs m store outcome' store₁ ∧
      store₁.ram.nextId = store.ram.nextId ∧
      store₁.Keeps config [[]] opened (without held lost)) :
    ∃ held', store'.Keeps config [[]] (opened + RamTier.opens store.ram store'.ram) held' ∧
      Recalls held' changes := by
  obtain ⟨_, _, lost, hruns, hnext, hkeeps⟩ := hspec
  obtain ⟨_, rfl⟩ := hruns.unique hrun
  rw [RamTier.opens_of_eq hnext]
  exact ⟨_, hkeeps, h.lose lost⟩

/-- An insertion puts its value under the key, or fails and at most drops the key. -/
theorem Recalls.of_insert {key value : ByteArray} {outcome : Except Error Tier}
    (h : Recalls held changes) (hkeeps : store.Keeps config [[]] opened held)
    (hopened : opened < wordLimit) (hrun : Runs (insert key value) store outcome store') :
    ∃ held', store'.Keeps config [[]] (opened + RamTier.opens store.ram store'.ram) held' ∧
      ((∃ tier, outcome = .ok tier) ∧ Recalls held' (.put key value :: changes) ∨
        (∃ e, outcome = .error e) ∧ Recalls held' changes) := by
  by_cases hlarge : config.maxKeySize < key.size ∨ config.maxValueSize < value.size
  · obtain ⟨e, hfails, _⟩ := hkeeps.exists_refusal hlarge
    obtain ⟨rfl, rfl⟩ := Runs.unique hfails hrun
    rw [RamTier.opens_self]
    exact ⟨held, hkeeps, .inr ⟨⟨e, rfl⟩, h⟩⟩
  · obtain ⟨hkey, hvalue⟩ := not_or.1 hlarge
    obtain ⟨outcome', store₁, now, lost, hinsert, hinserted, hkeeps', _⟩ :=
      hkeeps.exists_insert hopened (Nat.not_lt.1 hkey) (Nat.not_lt.1 hvalue)
    obtain ⟨rfl, rfl⟩ := Runs.unique hinsert hrun
    refine ⟨_, hkeeps', ?_⟩
    cases hinserted with
    | stored tier => exact .inl ⟨⟨tier, rfl⟩, (h.lose lost).put key value⟩
    | refused size => exact .inr ⟨⟨_, rfl⟩, (h.lose lost).forget key⟩
    | failed _ hblocked => exact absurd hblocked hkeeps'.not_blocked

/-- Whatever is performed, a store that keeps last values alone keeps such values. -/
theorem Performs.exists_keeps (h : store.Performs store' new)
    (hkeeps : store.Keeps config [[]] opened held) (hrecalls : Recalls held changes)
    (hopened : opened < wordLimit) :
    ∃ held', store'.Keeps config [[]] (opened + RamTier.opens store.ram store'.ram) held' ∧
      Recalls held' (new ++ changes) := by
  cases h with
  | inserted h =>
    obtain ⟨held', hkeeps', ⟨_, hrecalls'⟩ | ⟨⟨e, hfails⟩, _⟩⟩ :=
      hrecalls.of_insert hkeeps hopened h
    · exact ⟨held', hkeeps', hrecalls'⟩
    · cases hfails
  | refused h =>
    obtain ⟨held', hkeeps', ⟨⟨tier, hyields⟩, _⟩ | ⟨_, hrecalls'⟩⟩ :=
      hrecalls.of_insert hkeeps hopened h
    · cases hyields
    · exact ⟨held', hkeeps', hrecalls'⟩
  | @found key found h =>
    obtain ⟨_, _, lost, hfind, hkeeps', _⟩ := hkeeps.exists_find hopened key
    obtain ⟨_, rfl⟩ := Runs.unique hfind h
    exact ⟨_, hkeeps', hrecalls.lose lost⟩
  | @removed key answer h =>
    obtain ⟨_, store₁, hremove, hnext, hkeeps', _⟩ := hkeeps.exists_remove key
    obtain ⟨_, rfl⟩ := Runs.unique hremove h
    rw [RamTier.opens_of_eq hnext]
    exact ⟨_, hkeeps', hrecalls.drop key⟩
  | evicted h =>
    obtain ⟨_, _, lost, hevict, hnext, hkeeps', _⟩ := hkeeps.exists_evictOne
    exact hrecalls.of_runs h ⟨_, _, lost, hevict, hnext, hkeeps'⟩
  | @resized slabs left h =>
    obtain ⟨_, _, lost, hresize, hnext, hkeeps', _⟩ := hkeeps.exists_resize slabs
    exact hrecalls.of_runs h ⟨_, _, lost, hresize, hnext, hkeeps'⟩
  | @resizedBytes bytes left h =>
    obtain ⟨_, _, lost, hresize, hnext, hkeeps', _⟩ :=
      hkeeps.exists_resize (bytes / store.config.slabSize)
    exact hrecalls.of_runs h ⟨_, _, lost, runs_resizeBytes hresize, hnext, hkeeps'⟩
  | ticked h =>
    obtain ⟨_, _, htick, hnext, hkeeps', _⟩ := hkeeps.exists_tick
    exact hrecalls.of_runs h ⟨_, _, [], htick, hnext, by rwa [without_nil]⟩

/-- What is opened on the log of a store holds what that store held on disk. -/
theorem Holds.reopen (h : store.Holds config [[]] opened ramHeld diskHeld)
    (hsmall : config'.slabSize < wordLimit)
    (hbudget : config'.disk.maxBytes = config.disk.maxBytes)
    (hopen : (openIn config' store.disk.dir).run = .ok (.ok store')) :
    store'.Holds config' [[]] 0 (fun _ => none) diskHeld := by
  have hwithin := h.within
  rw [DiskTier.Fits, h.disk_config_eq, Nat.add_zero, ← hbudget] at hwithin
  have hensure : store.disk.dir.ensure.directories = [[]] := by
    rw [Directory.ensure, h.directories_eq]
    exact h.directories_eq
  have hholds := holds_of_openIn_log hsmall hopen h.disk hwithin
  rwa [hensure] at hholds

/-- What the disk alone holds is recalled when both tiers together are. -/
theorem Recalls.of_disk (h : Recalls held changes) (hdivides : Divides ramHeld diskHeld held) :
    Recalls diskHeld changes := by
  intro key
  rcases hdivides.apart key with hnone | hnone
  · have hheld := hdivides.held_eq key
    rw [hnone, Option.none_or] at hheld
    rw [← hheld]
    exact h key
  · exact .inl hnone

/-- Over any number of restarts a store keeps last values alone. -/
theorem SessionRun.exists_keeps (run : SessionRun config opened changes store)
    (hopened : opened < wordLimit) :
    ∃ held, store.Keeps config [[]] opened held ∧ Recalls held changes := by
  induction run with
  | started hsmall h => exact ⟨_, keeps_of_openIn hsmall h, fun _ => .inl rfl⟩
  | performed run h ih =>
    obtain ⟨held, hkeeps, hrecalls⟩ := ih (by omega)
    exact h.exists_keeps hkeeps hrecalls (by omega)
  | reopened run hbefore hsmall hbudget h ih =>
    obtain ⟨held, ⟨ramHeld, diskHeld, hholds, hdivides⟩, hrecalls⟩ := ih hbefore
    exact ⟨diskHeld, (hholds.reopen hsmall hbudget h).keeps_of_disk, hrecalls.of_disk hdivides⟩

/-- A configuration that opened a store opens one on any log that can be opened. -/
theorem exists_openIn_of_openIn {dir dir' : Directory} {disk : DiskTier}
    (hopen : (openIn config dir).run = .ok (.ok store))
    (hlog : DiskTier.openLog config.disk dir' = .ok disk) :
    ∃ store', (openIn config dir').run = .ok (.ok store') := by
  obtain ⟨disk₀, _, hlog₀, _⟩ := exists_of_openIn hopen
  rw [openIn] at hopen ⊢
  split at hopen
  next => cases hopen
  next hslab =>
    rw [if_neg hslab, hlog]
    rw [hlog₀] at hopen
    cases hset : WorkingSet.new config.trackedKeys config.seed with
    | error fault =>
      rw [hset] at hopen
      cases hopen
    | ok workingSet => exact ⟨_, rfl⟩

/-- The configuration of a session opened a store. -/
theorem SessionRun.exists_opened (run : SessionRun config opened changes store) :
    ∃ dir store', (openIn config dir).run = .ok (.ok store') := by
  induction run with
  | started _ h => exact ⟨_, _, h⟩
  | performed _ _ ih => exact ih
  | reopened _ _ _ _ h _ => exact ⟨_, _, h⟩

/-- A store closes and opens again on what it left. -/
theorem SessionRun.exists_reopen (run : SessionRun config opened changes store)
    (hopened : opened < wordLimit) :
    ∃ store', (openIn config store.disk.dir).run = .ok (.ok store') := by
  obtain ⟨_, _, hopen⟩ := run.exists_opened
  obtain ⟨_, ⟨_, diskHeld, hholds, _⟩, _⟩ := run.exists_keeps hopened
  obtain ⟨disk, hlog, _⟩ :=
    DiskTier.exists_openLog config.disk hholds.directories_eq hholds.disk
  exact exists_openIn_of_openIn hopen hlog

/-- A lookup over a disk that can be compacted reads the value of its key. -/
theorem Keeps.yields_find (h : store.Keeps config [[]] opened held) (hopened : opened < wordLimit)
    (key : ByteArray) :
    ∃ found store', Yields (find key) store found store' ∧ found.map (·.value) = held key := by
  obtain ⟨_, store', _, hfind, _, _, _, _, houtcome, _⟩ := h.exists_find hopened key
  obtain ⟨found, rfl, hvalue⟩ := houtcome.resolve_right fun hfails => h.not_blocked hfails.2
  exact ⟨found, store', hfind, hvalue⟩

/-- The keys on disk are those that the disk tier holds. -/
theorem Holds.tierOf_eq_disk_iff (h : store.Holds config [[]] opened ramHeld diskHeld)
    (hdivides : Divides ramHeld diskHeld held) (key : ByteArray) :
    store.tierOf key = some .disk ↔ (diskHeld key).isSome := by
  rw [h.tierOf_eq]
  cases hdisk : diskHeld key with
  | none => split <;> simp
  | some value =>
    have hram : ramHeld key = none := (hdivides.apart key).resolve_right (by simp [hdisk])
    simp [hram]

/-- A restart brings back what was on disk and nothing else. A store that is closed opens again with
the same configuration, and whatever opens on its log, under the same budget, has on disk the keys
that were there before and none in RAM. Each is found with the value that a lookup finds before, the
last one given to it; any other key is not found, nor is one that was removed. -/
theorem SessionRun.restart_keeps_disk_tier (run : SessionRun config opened changes store)
    (hopened : opened < wordLimit) :
    (∃ store', (openIn config store.disk.dir).run = .ok (.ok store')) ∧
    ∀ config' store', config'.slabSize < wordLimit →
      config'.disk.maxBytes = config.disk.maxBytes →
      (openIn config' store.disk.dir).run = .ok (.ok store') →
      (∀ key, (store'.tierOf key = some .disk ↔ store.tierOf key = some .disk) ∧
        store'.tierOf key ≠ some .ram) ∧
      (∀ key, store.tierOf key = some .disk → ∃ value, lastValue changes key = some value ∧
        (∃ found after, Yields (find key) store (some found) after ∧ found.value = value) ∧
        ∃ found after, Yields (find key) store' (some found) after ∧ found.value = value) ∧
      ∀ key, store.tierOf key ≠ some .disk ∨ lastValue changes key = none →
        ∃ after, Yields (find key) store' none after := by
  refine ⟨run.exists_reopen hopened, fun config' store' hsmall hbudget hopen => ?_⟩
  obtain ⟨held, ⟨ramHeld, diskHeld, hholds, hdivides⟩, hrecalls⟩ := run.exists_keeps hopened
  have hholds' := hholds.reopen hsmall hbudget hopen
  have hkeeps : store.Keeps config [[]] opened held := ⟨ramHeld, diskHeld, hholds, hdivides⟩
  have hkeeps' := hholds'.keeps_of_disk
  have hfind (key : ByteArray) := hkeeps'.yields_find (by decide) key
  have hdisk := hholds.tierOf_eq_disk_iff hdivides
  refine ⟨?_, ?_, ?_⟩
  · intro key
    rw [hdisk, hholds'.tierOf_eq]
    cases diskHeld key <;> simp
  · intro key hkey
    obtain ⟨value, hvalue⟩ := Option.isSome_iff_exists.1 ((hdisk key).1 hkey)
    have hram : ramHeld key = none := (hdivides.apart key).resolve_right (by simp [hvalue])
    have hheld : held key = some value := by
      rw [hdivides.held_eq, hram, hvalue, Option.none_or]
    have hlast := (hrecalls key).resolve_left (by simp [hheld])
    obtain ⟨found, after, hfound, heq⟩ := hkeeps.yields_find hopened key
    obtain ⟨found', after', hfound', heq'⟩ := hfind key
    obtain ⟨f, rfl, hf⟩ := Option.map_eq_some_iff.1 (heq.trans hheld)
    obtain ⟨f', rfl, hf'⟩ := Option.map_eq_some_iff.1 (heq'.trans hvalue)
    exact ⟨value, hlast.symm.trans hheld, ⟨f, after, hfound, hf⟩, f', after', hfound', hf'⟩
  · intro key hkey
    have hnone : diskHeld key = none := by
      rcases hkey with hkey | hkey
      · rwa [Ne, hdisk, Option.not_isSome_iff_eq_none] at hkey
      · exact ((hrecalls.of_disk hdivides) key).elim id fun hlast => hlast.trans hkey
    obtain ⟨found, after, hfound, heq⟩ := hfind key
    obtain rfl := Option.map_eq_none_iff.1 (heq.trans hnone)
    exact ⟨after, hfound⟩

/-- A value that left RAM before the store was closed is found when it is opened again. With nothing
left in RAM, its key was on disk. -/
theorem SessionRun.restart_keeps_disk_tier_of_emptied :
    ∃ opened store store', opened < wordLimit ∧
      SessionRun { trackedKeys := 1 } opened [.put ⟨#[1]⟩ ⟨#[2]⟩] store ∧
      (openIn { trackedKeys := 1 } store.disk.dir).run = .ok (.ok store') ∧
      (∃ found after, Yields (find ⟨#[1]⟩) store' (some found) after ∧ found.value = ⟨#[2]⟩) ∧
      ∃ after, Yields (find ⟨#[3]⟩) store' none after := by
  have hconfig : StoreConfig.Lossless { trackedKeys := 1 } :=
    ⟨by decide, by decide, by decide, rfl⟩
  obtain ⟨store, hopen⟩ := exists_openIn { trackedKeys := 1 } (by decide) (by decide +kernel)
  have hintact : store.Intact { trackedKeys := 1 } 0 fun _ => none :=
    ⟨rfl, keeps_of_openIn hconfig.slabSize_lt hopen⟩
  have hcapped : store.ram.Capped (4 * 1024 * 1024) 16 := by
    obtain ⟨_, _, _, _, rfl⟩ := exists_of_openIn hopen
    exact RamTier.capped_new (by decide) 16 0
  have hkey : ByteArray.size ⟨#[1]⟩ ≤ 512 := by decide
  have hvalue : ByteArray.size ⟨#[2]⟩ ≤ 1024 * 1024 := by decide
  obtain ⟨tier, store₁, hinsert, _, hintact₁⟩ :=
    hintact.exists_insert hconfig (by decide) hkey hvalue
  obtain ⟨left, store₂, hresize, hnext, hintact₂⟩ := hintact₁.exists_resize 0
  have run := ((SessionRun.started (by decide) hopen).performed (.inserted hinsert)).performed
    (.resized hresize)
  have hopened : 0 + RamTier.opens store.ram store₁.ram + RamTier.opens store₁.ram store₂.ram <
      wordLimit := by
    rw [RamTier.opens_of_eq hnext, RamTier.opens]
    split <;> decide
  obtain ⟨hcapped₁, _⟩ := Runs.ramIs hinsert (lasting_within.maintains_insert _ _) hcapped
  obtain ⟨⟨_, hempty⟩, _⟩ := Runs.capped_of_resize hresize hcapped₁.regular
  have hram := RamTier.contains_eq_false (Nat.le_zero.1 hempty) ⟨#[1]⟩
  have htier : store₂.tierOf ⟨#[1]⟩ = some .disk := by
    have hheld := (hintact₂.in_one_tier ⟨#[1]⟩).2.1 (by rw [Function.update_self]; rfl)
    rw [tierOf, hram, hheld.resolve_left (by rw [hram]; exact Bool.false_ne_true)]
    rfl
  obtain ⟨⟨store', hreopen⟩, hrestart⟩ := run.restart_keeps_disk_tier hopened
  obtain ⟨_, hfound, hmissing⟩ := hrestart _ store' (by decide) rfl hreopen
  obtain ⟨value, hlast, _, hfind⟩ := hfound ⟨#[1]⟩ htier
  rw [List.nil_append, List.singleton_append, lastValue, if_pos rfl] at hlast
  obtain rfl := Option.some.inj hlast
  exact ⟨_, store₂, store', hopened, run, hreopen, hfind, hmissing ⟨#[3]⟩ (.inr (by decide))⟩

end Sessions

end ElasticCache.TieredStore
