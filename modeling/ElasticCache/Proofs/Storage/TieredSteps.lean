import ElasticCache.Storage.TieredStore
import ElasticCache.Proofs.Operations
import ElasticCache.Proofs.Storage.DiskMap
import ElasticCache.Proofs.Storage.RamMap
import ElasticCache.Proofs.WorkingSet.StageTallies

/-!
# Steps of the tiered store

Each tier holds a map of its own. A slab that leaves RAM takes its records to disk. Some of them are
lost on the way when the budget refuses them, or when the disk is due for a compaction that cannot
be done: then the move ends with the record that was just written.
-/

namespace ElasticCache

/-- Without a step, no slab is opened. -/
theorem RamTier.opens_self (tier : RamTier) : opens tier tier = 0 := opens_of_eq rfl

/-- Slabs are not opened on the way to a tier with the same next number. -/
theorem RamTier.opens_congr {tier tier₁ tier' : RamTier} (h : tier₁.nextId = tier.nextId) :
    opens tier tier' = opens tier₁ tier' := by rw [opens, opens, h]

namespace TieredStore

/-! ## Outcomes of steps -/

/-- A step has an outcome and leads from one store to another. -/
def Runs {α : Type} (m : StoreM α) (store : TieredStore) (outcome : Except Error α)
    (store' : TieredStore) : Prop :=
  Id.run (m.run.run store) = (outcome, store')

/-- A step answers a value and leads from one store to another. -/
def Yields {α : Type} (m : StoreM α) (store : TieredStore) (a : α) (store' : TieredStore) : Prop :=
  Id.run (m.run.run store) = (.ok a, store')

/-- A step fails and leaves a store behind. -/
def Fails {α : Type} (m : StoreM α) (store : TieredStore) (e : Error) (store' : TieredStore) :
    Prop :=
  Id.run (m.run.run store) = (.error e, store')

section Outcomes

variable {α β : Type} {m : StoreM α} {f : α → StoreM β} {a : α} {e : Error}
  {outcome outcome' : Except Error α} {result : Except Error β}
  {store store' store'' : TieredStore}

/-- What follows an answer goes on from the store that came with it. -/
theorem Yields.bind (hm : Yields m store a store') (hf : Runs (f a) store' result store'') :
    Runs (m >>= f) store result store'' :=
  (run_bind_of_ok hm).trans hf

/-- What follows a failure is not done. -/
theorem Fails.bind (hm : Fails m store e store') : Fails (m >>= f) store e store' :=
  run_bind_of_error hm

/-- A step has one outcome. -/
theorem Runs.unique (hm : Runs m store outcome store') (hm' : Runs m store outcome' store'') :
    outcome' = outcome ∧ store'' = store' := Prod.mk.inj (hm'.symm.trans hm)

/-- A step does not both succeed and fail. -/
theorem Yields.not_fails (hm : Yields m store a store') : ¬Fails m store e store'' := by
  intro hfails
  cases (Runs.unique hm hfails).1

/-- A step answers one value and leads to one store. -/
theorem Yields.unique {a' : α} (hm : Yields m store a store') (hm' : Yields m store a' store'') :
    a' = a ∧ store'' = store' := by
  obtain ⟨hanswer, hstore⟩ := Runs.unique hm hm'
  exact ⟨Except.ok.inj hanswer, hstore⟩

/-- What succeeds is not handled. -/
theorem Yields.tryCatch {handler : Error → StoreM α} (hm : Yields m store a store') :
    Yields (MonadExcept.tryCatch m handler) store a store' :=
  run_tryCatch_of_ok hm

/-- What fails is handled. -/
theorem Fails.tryCatch {handler : Error → StoreM α} (hm : Fails m store e store')
    (hhandler : Runs (handler e) store' outcome store'') :
    Runs (MonadExcept.tryCatch m handler) store outcome store'' :=
  (run_tryCatch_of_error hm).trans hhandler

/-- Reading the state answers the store. -/
theorem yields_get (store : TieredStore) : Yields get store store store := rfl

/-- A step of RAM answers what RAM does. -/
theorem yields_onRam (f : RamTier → α × RamTier) (store : TieredStore) :
    Yields (onRam f) store (f store.ram).1 { store with ram := (f store.ram).2 } := rfl

/-- A step of the disk ends as the disk does. -/
theorem runs_onDisk {f : DiskTier → Except Error α × DiskTier} {disk : DiskTier}
    (h : f store.disk = (outcome, disk)) : Runs (onDisk f) store outcome { store with disk } := by
  have hrun : Id.run ((onDisk f).run.run store) =
      ((f store.disk).1, { store with disk := (f store.disk).2 }) := rfl
  rw [Runs, hrun, h]

end Outcomes

/-! ## What the tiers hold -/

/-- Two stores that differ in counters and in the working set alone. -/
structure SameTiers (store store' : TieredStore) : Prop where
  config_eq : store'.config = store.config
  ram_eq : store'.ram = store.ram
  disk_eq : store'.disk = store.disk

/-- Each tier of a store holds a map, and the disk is within its budget, with the given directories
around its log. -/
structure Holds (store : TieredStore) (config : StoreConfig) (directories : List Path)
    (opened : Nat) (ramHeld diskHeld : ByteArray → Option ByteArray) : Prop where
  config_eq : store.config = config
  disk_config_eq : store.disk.config = config.disk
  directories_eq : store.disk.dir.directories = directories
  ram : store.ram.Holds opened ramHeld
  disk : store.disk.Records diskHeld
  within : store.disk.Fits 0

section Frame

variable {store store' store'' : TieredStore} {config : StoreConfig} {directories : List Path}
  {opened opened' : Nat} {ram : RamTier} {disk : DiskTier}
  {ramHeld diskHeld ramHeld' diskHeld' : ByteArray → Option ByteArray}

/-- The counters and the working set have no part in what the tiers hold. -/
theorem Holds.congr (h : store.Holds config directories opened ramHeld diskHeld)
    (hsame : store.SameTiers store') :
    store'.Holds config directories opened ramHeld diskHeld := by
  refine ⟨hsame.config_eq.trans h.config_eq, ?_, ?_, ?_, ?_, ?_⟩
  · rw [hsame.disk_eq]
    exact h.disk_config_eq
  · rw [hsame.disk_eq]
    exact h.directories_eq
  · rw [hsame.ram_eq]
    exact h.ram
  · rw [hsame.disk_eq]
    exact h.disk
  · rw [hsame.disk_eq]
    exact h.within

/-- The directories decide whether the log can be compacted. -/
theorem Holds.blocked_iff (h : store.Holds config directories opened ramHeld diskHeld)
    (h' : store'.Holds config directories opened' ramHeld' diskHeld') :
    store.disk.Blocked ↔ store'.disk.Blocked :=
  DiskTier.SameSetting.blocked_iff ⟨h.disk_config_eq.trans h'.disk_config_eq.symm,
    h.directories_eq.trans h'.directories_eq.symm⟩

/-- A step of RAM leaves the disk as it is. -/
theorem Holds.with_ram (h : store.Holds config directories opened ramHeld diskHeld)
    (hram : ram.Holds opened' ramHeld') :
    TieredStore.Holds { store with ram } config directories opened' ramHeld' diskHeld :=
  ⟨h.config_eq, h.disk_config_eq, h.directories_eq, hram, h.disk, h.within⟩

/-- A step of the disk leaves RAM as it is. -/
theorem Holds.with_disk (h : store.Holds config directories opened ramHeld diskHeld)
    (hsetting : store.disk.SameSetting disk) (hdisk : disk.Records diskHeld')
    (hwithin : disk.Fits 0) :
    TieredStore.Holds { store with disk } config directories opened ramHeld diskHeld' :=
  ⟨h.config_eq, hsetting.config_eq.trans h.disk_config_eq,
    hsetting.directories_eq.trans h.directories_eq, h.ram, hdisk, hwithin⟩

/-- Tiers that stay the same twice stay the same. -/
theorem SameTiers.trans (h : store.SameTiers store') (h' : store'.SameTiers store'') :
    store.SameTiers store'' :=
  ⟨h'.config_eq.trans h.config_eq, h'.ram_eq.trans h.ram_eq, h'.disk_eq.trans h.disk_eq⟩

/-- Counting changes the counters alone. -/
theorem exists_count (f : StoreStats → StoreStats) (store : TieredStore) :
    ∃ store', Yields (count f) store () store' ∧ store.SameTiers store' ∧
      store'.stats = f store.stats :=
  ⟨{ store with stats := f store.stats }, rfl, ⟨rfl, rfl, rfl⟩, rfl⟩

/-- Following keys does not touch the tiers. -/
theorem exists_modify {f : TieredStore → TieredStore}
    (hf : ∀ store, SameTiers store (f store) ∧ (f store).stats = store.stats)
    (store : TieredStore) :
    ∃ store', Yields (modify f) store () store' ∧ store.SameTiers store' ∧
      store'.stats = store.stats :=
  ⟨f store, rfl, hf store⟩

/-- Starting to follow a key changes the working set alone. -/
theorem exists_track (key : ByteArray) (size : Nat) (store : TieredStore) :
    ∃ store', Yields (track key size) store () store' ∧ store.SameTiers store' ∧
      store'.stats = store.stats := by
  refine exists_modify (fun store => ?_) store
  split <;> exact ⟨⟨rfl, rfl, rfl⟩, rfl⟩

/-- Counting a read of a key changes the working set alone. -/
theorem exists_trackRead (key : ByteArray) (store : TieredStore) :
    ∃ store', Yields (trackRead key) store () store' ∧ store.SameTiers store' ∧
      store'.stats = store.stats := by
  refine exists_modify (fun store => ?_) store
  split <;> exact ⟨⟨rfl, rfl, rfl⟩, rfl⟩

/-- Stopping to follow a key changes the working set alone. -/
theorem exists_untrack (key : ByteArray) (store : TieredStore) :
    ∃ store', Yields (untrack key) store () store' ∧ store.SameTiers store' ∧
      store'.stats = store.stats := by
  refine exists_modify (fun store => ?_) store
  split <;> exact ⟨⟨rfl, rfl, rfl⟩, rfl⟩

end Frame

/-! ## What the working set is told -/

/-- The working set takes these calls on the way from one store to another. -/
def Tracks (store : TieredStore) (calls : List WorkingSet.Call) (store' : TieredStore) : Prop :=
  store'.workingSet = calls.foldl WorkingSet.after store.workingSet

section Tracking

variable {store store' store'' : TieredStore} {calls calls' : List WorkingSet.Call}
  {key : ByteArray} {size : Nat}

/-- The calls on the working set of two steps are those of both. -/
theorem Tracks.trans (h : store.Tracks calls store') (h' : store'.Tracks calls' store'') :
    store.Tracks (calls ++ calls') store'' := by
  rw [Tracks, List.foldl_append, ← h]
  exact h'

/-- Between some calls and those after them there is a store. -/
theorem Tracks.exists_between (h : store.Tracks (calls ++ calls') store') :
    ∃ between : TieredStore, store.Tracks calls between ∧ between.Tracks calls' store' := by
  rw [Tracks, List.foldl_append] at h
  exact ⟨{ store with workingSet := calls.foldl WorkingSet.after store.workingSet }, rfl, h⟩

/-- Steps of the tiers leave the working set alone. -/
theorem Tracks.congr {store₁ : TieredStore} (h : store₁.Tracks calls store')
    (hset : store₁.workingSet = store.workingSet) : store.Tracks calls store' := by
  rw [Tracks, ← hset]
  exact h

/-- A modification leads nowhere else. -/
theorem eq_of_modify {f : TieredStore → TieredStore} (h : Yields (modify f) store () store') :
    store' = f store := by
  have hmodify : Yields (modify f) store () (f store) := rfl
  exact (hmodify.unique h).2

/-- Counting makes no call on the working set. -/
theorem tracks_of_count {f : StoreStats → StoreStats} (h : Yields (count f) store () store') :
    store.Tracks [] store' := by
  have hstore := eq_of_modify h
  rw [Tracks, hstore, List.foldl_nil]

/-- Starting to follow a key inserts it in the working set. -/
theorem tracks_of_track (h : Yields (track key size) store () store') :
    store.Tracks [.insert key size] store' := by
  have hstore := eq_of_modify h
  rw [Tracks, hstore, List.foldl_cons, List.foldl_nil, WorkingSet.after]
  cases store.workingSet.insert key size <;> rfl

/-- Counting a read of a key finds it in the working set. -/
theorem tracks_of_trackRead (h : Yields (trackRead key) store () store') :
    store.Tracks [.find key] store' := by
  have hstore := eq_of_modify h
  rw [Tracks, hstore, List.foldl_cons, List.foldl_nil, WorkingSet.after]
  cases store.workingSet.find key <;> rfl

/-- Stopping to follow a key removes it from the working set. -/
theorem tracks_of_untrack (h : Yields (untrack key) store () store') :
    store.Tracks [.remove key] store' := by
  have hstore := eq_of_modify h
  rw [Tracks, hstore, List.foldl_cons, List.foldl_nil, WorkingSet.after]
  cases store.workingSet.remove key <;> rfl

end Tracking

/-! ## Steps of one tier -/

section Steps

variable {store store' : TieredStore} {config : StoreConfig} {directories : List Path}
  {opened : Nat} {ramHeld diskHeld : ByteArray → Option ByteArray} {key value : ByteArray}

/-- A record that the disk does not refuse is written there, whether the step succeeds or not. -/
theorem Holds.disk_insert_cases (h : store.Holds config directories opened ramHeld diskHeld)
    (hkey : diskHeld key = none) (value : ByteArray) :
    (store.disk.Refuses key value ∧
        ∃ size, Fails (onDisk (·.insert key value)) store (.capacity size) store) ∨
      (¬store.disk.Refuses key value ∧
        ∃ disk : DiskTier, disk.config = store.disk.config ∧
          disk.liveBytes = store.disk.liveBytes + Record.sizeOf key.size value.size ∧
          TieredStore.Holds { store with disk } config directories opened ramHeld
            (Function.update diskHeld key (some value)) ∧
          ((¬store.disk.StuckAfter (Record.sizeOf key.size value.size) ∧ ¬disk.Stuck ∧
              Yields (onDisk (·.insert key value)) store () { store with disk }) ∨
            (store.disk.StuckAfter (Record.sizeOf key.size value.size) ∧
              Fails (onDisk (·.insert key value)) store (.io .isADirectory)
                { store with disk }))) := by
  by_cases hrefuses : store.disk.Refuses key value
  · obtain ⟨size, hinsert⟩ := DiskTier.insert_eq_refused hrefuses
    exact .inl ⟨hrefuses, size, runs_onDisk hinsert⟩
  · obtain ⟨disk, hsetting, hlive, hrecords, hinsert⟩ := h.disk.exists_insert_new hkey hrefuses
    have hwithin : disk.Fits 0 := by
      rw [DiskTier.Refuses, h.disk.liveSize_eq_zero hkey] at hrefuses
      rw [DiskTier.Fits, hsetting.config_eq, hlive]
      omega
    refine .inr ⟨hrefuses, disk, hsetting.config_eq, hlive,
      h.with_disk hsetting hrecords hwithin, ?_⟩
    rcases hinsert with ⟨hfree, hfree', hinsert⟩ | ⟨hstuck, hinsert⟩
    · exact .inl ⟨hfree, hfree', runs_onDisk hinsert⟩
    · exact .inr ⟨hstuck, runs_onDisk hinsert⟩

/-- A key is dropped from the disk, whether the step succeeds or not. -/
theorem Holds.exists_disk_remove (h : store.Holds config directories opened ramHeld diskHeld)
    (key : ByteArray) :
    ∃ disk : DiskTier, disk.config = store.disk.config ∧
      disk.liveBytes ≤ store.disk.liveBytes ∧
      TieredStore.Holds { store with disk } config directories opened ramHeld
        (Function.update diskHeld key none) ∧
      ((Yields (onDisk (·.remove key)) store (diskHeld key).isSome { store with disk } ∧
          (disk.Stuck → store.disk.Stuck)) ∨
        (Fails (onDisk (·.remove key)) store (.io .isADirectory) { store with disk } ∧
          store.disk.Blocked)) := by
  obtain ⟨outcome, disk, hremove, hsetting, hlive, hrecords, houtcome⟩ := h.disk.exists_remove key
  have hwithin : disk.Fits 0 := by
    have hbefore := h.within
    rw [DiskTier.Fits] at hbefore ⊢
    rw [hsetting.config_eq]
    omega
  refine ⟨disk, hsetting.config_eq, hlive, h.with_disk hsetting hrecords hwithin, ?_⟩
  rcases houtcome with ⟨rfl, hstuck⟩ | ⟨rfl, hblocked⟩
  · exact .inl ⟨runs_onDisk hremove, hstuck⟩
  · exact .inr ⟨runs_onDisk hremove, hblocked⟩

/-- The disk answers the value that it holds. -/
theorem Holds.yields_disk_find (h : store.Holds config directories opened ramHeld diskHeld)
    (key : ByteArray) :
    Yields (onDisk fun disk => (disk.find key, disk)) store (diskHeld key) store :=
  runs_onDisk (by rw [h.disk.find_eq])

/-- A removal from RAM drops the key and answers whether RAM held it. -/
theorem Holds.exists_ram_remove (h : store.Holds config directories opened ramHeld diskHeld)
    (key : ByteArray) :
    ∃ ram : RamTier, Yields (onRam (·.remove key)) store (ramHeld key).isSome { store with ram } ∧
      ram.nextId = store.ram.nextId ∧
      TieredStore.Holds { store with ram } config directories opened
        (Function.update ramHeld key none) diskHeld := by
  obtain ⟨ram, hremove, hnext, hram⟩ := h.ram.exists_remove key
  have hyields := yields_onRam (·.remove key) store
  rw [hremove] at hyields
  exact ⟨ram, hyields, hnext, h.with_ram hram⟩

/-- RAM takes a record, or refuses it with no change. -/
theorem Holds.ram_insert_cases (h : store.Holds config directories opened ramHeld diskHeld)
    (hkey : ramHeld key = none) (value : ByteArray) (hopened : opened < wordLimit) :
    Yields (onRam (·.insert key value)) store false store ∨
      ∃ ram : RamTier, Yields (onRam (·.insert key value)) store true { store with ram } ∧
        TieredStore.Holds { store with ram } config directories
          (opened + RamTier.opens store.ram ram) (Function.update ramHeld key (some value))
          diskHeld := by
  have hyields := yields_onRam (·.insert key value) store
  rcases h.ram.insert_cases hkey value hopened with hinsert | ⟨ram, hinsert, hram⟩
  · rw [hinsert] at hyields
    exact .inl hyields
  · rw [hinsert] at hyields
    exact .inr ⟨ram, hyields, h.with_ram hram⟩

end Steps

end TieredStore

end ElasticCache
