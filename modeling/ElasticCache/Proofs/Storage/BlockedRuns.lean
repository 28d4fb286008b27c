import ElasticCache.Proofs.Storage.TieredRuns

/-!
# Runs past compactions that fail

A directory that stands where a compaction writes the new log makes every compaction fail. The
operation that was to compact fails after its own write, and a compaction may stay due for long.
Values that are stored survive this, except that of a slab that leaves RAM while a compaction is due
only the first record gets to disk.
-/

namespace ElasticCache.TieredStore

/-- The stores without a budget that operations lead to, however these end, with the number of slabs
opened since the store was. In between, directories are made and removed behind its back, which
leaves the files as they are, and the store may be closed and opened again in what is there. -/
inductive FaultRun : StoreConfig → Nat → TieredStore → Prop
  | started {config : StoreConfig} {store : TieredStore} (hsmall : config.slabSize < wordLimit)
      (hunlimited : config.disk.maxBytes = 0) (h : (openIn config .empty).run = .ok (.ok store)) :
      FaultRun config 0 store
  | served {config : StoreConfig} {opened : Nat} {store store' : TieredStore}
      (run : FaultRun config opened store) (h : store.Serves store') :
      FaultRun config (opened + RamTier.opens store.ram store'.ram) store'
  | disturbed {config : StoreConfig} {opened : Nat} {store : TieredStore} {dir : Directory}
      (run : FaultRun config opened store) (h : dir.files = store.disk.dir.files) :
      FaultRun config opened { store with disk := { store.disk with dir } }
  | reopened {config config' : StoreConfig} {opened : Nat} {store store' : TieredStore}
      (run : FaultRun config opened store) (hopened : opened < wordLimit)
      (hsmall : config'.slabSize < wordLimit) (hunlimited : config'.disk.maxBytes = 0)
      (h : (openIn config' store.disk.dir).run = .ok (.ok store')) : FaultRun config' 0 store'

/-- A key keeps its value, or it is lost from RAM as a compaction is due that cannot be done. -/
def Spares (store store' : TieredStore) (key : ByteArray) : Prop :=
  store'.peek key = store.peek key ∨
    (store.disk.Stuck ∧ store.ram.contains key ∧ store'.peek key = none)

section Fault

variable {store store' : TieredStore} {config : StoreConfig} {directories : List Path}
  {opened opened' : Nat} {held held' : ByteArray → Option ByteArray} {key value : ByteArray}

/-- Directories around the log have no part in what a store keeps. -/
theorem Keeps.disturb {dir : Directory} (h : store.Keeps config directories opened held)
    (hfiles : dir.files = store.disk.dir.files) :
    Keeps { store with disk := { store.disk with dir } } config dir.directories opened held := by
  obtain ⟨ramHeld, diskHeld, h, hdivides⟩ := h
  have hlog : dir.log = store.disk.dir.log := by
    rw [Directory.log, Directory.log, Directory.content?, Directory.content?, hfiles]
  refine ⟨ramHeld, diskHeld, ⟨h.config_eq, h.disk_config_eq, rfl, h.ram, ?_, h.within⟩, hdivides⟩
  rw [DiskTier.Records, hlog]
  exact h.disk

/-- Opened again, a store keeps what was on disk. -/
theorem Keeps.reopen {config' : StoreConfig} (h : store.Keeps config directories opened held)
    (hsmall : config'.slabSize < wordLimit) (hunlimited : config'.disk.maxBytes = 0)
    (hopen : (openIn config' store.disk.dir).run = .ok (.ok store')) :
    ∃ directories' held', store'.Keeps config' directories' 0 held' := by
  obtain ⟨_, diskHeld, h, _⟩ := h
  exact ⟨_, diskHeld, keeps_of_openIn_log hsmall hopen h.disk (.inl hunlimited)⟩

/-- Through all faults the store has no budget and keeps some map. -/
theorem FaultRun.exists_keeps (run : FaultRun config opened store) (hopened : opened < wordLimit) :
    config.disk.maxBytes = 0 ∧ ∃ directories held, store.Keeps config directories opened held := by
  induction run with
  | started hsmall hunlimited h => exact ⟨hunlimited, [[]], _, keeps_of_openIn hsmall h⟩
  | served run h ih =>
    obtain ⟨hunlimited, directories, held, hkeeps⟩ := ih (by omega)
    exact ⟨hunlimited, directories, h.exists_keeps ⟨held, hkeeps⟩ (by omega)⟩
  | disturbed run h ih =>
    obtain ⟨hunlimited, _, held, hkeeps⟩ := ih hopened
    exact ⟨hunlimited, _, held, hkeeps.disturb h⟩
  | reopened run hbefore hsmall hunlimited h ih =>
    obtain ⟨_, _, _, hkeeps⟩ := ih hbefore
    exact ⟨hunlimited, hkeeps.reopen hsmall hunlimited h⟩

/-- Where lost keys come from RAM, and none are lost as long as the disk is ready, other keys are
spared. -/
theorem Keeps.spares {lost : List ByteArray} (h : store.Keeps config directories opened held)
    (h' : store'.Keeps config directories opened' held') (hunlimited : config.disk.maxBytes = 0)
    (hlost : ∀ key ∈ lost, store.ram.contains key) (hsafe : store.Ready → lost = [])
    (hkey : held' key = without held lost key) : store.Spares store' key := by
  rw [Spares, h'.peek_eq, h.peek_eq, hkey, without]
  by_cases hmem : key ∈ lost
  · have hstuck : store.disk.Stuck := by
      by_contra hfree
      rw [hsafe (h.ready_of_unlimited hunlimited hfree)] at hmem
      cases hmem
    rw [if_pos hmem]
    exact .inr ⟨hstuck, hlost key hmem, rfl⟩
  · rw [if_neg hmem]
    exact .inl rfl

/-! ## A store that cannot be compacted -/

/-- A removal of the only key on disk leaves a compaction due, when there is no threshold and it
cannot be done. -/
theorem Holds.exists_remove_stuck {ramHeld : ByteArray → Option ByteArray}
    (h : store.Holds config directories opened ramHeld
      (Function.update (fun _ => none) key (some value)))
    (hram : ramHeld key = none) (hblocked : store.disk.Blocked)
    (hthreshold : config.disk.compactionThreshold = 0) :
    ∃ store', Fails (remove key) store (.io .isADirectory) store' ∧ store'.ram = store.ram ∧
      store'.Holds config directories opened ramHeld (fun _ => none) ∧
      ∀ added ≤ store.disk.liveBytes, store'.disk.StuckAfter added := by
  obtain ⟨disk, hremove, hsetting, hrecords, hstuck⟩ :=
    h.disk.exists_remove_stuck hblocked (by rw [h.disk_config_eq, hthreshold])
  have hwithin : disk.Fits 0 := by
    have hbefore := h.within
    rw [DiskTier.Fits] at hbefore ⊢
    rw [hsetting.config_eq, hrecords.liveBytes_eq_zero]
    omega
  have hfromRam := yields_onRam (·.remove key) store
  rw [h.ram.remove_eq_false hram] at hfromRam
  have hfromDisk : Fails (onDisk (·.remove key)) store (.io .isADirectory) { store with disk } :=
    runs_onDisk hremove
  exact ⟨{ store with disk }, hfromRam.bind hfromDisk.bind, rfl,
    h.with_disk hsetting hrecords hwithin, hstuck⟩

/-- One small slab in RAM over a disk that is compacted as soon as garbage outweighs its records. -/
def eagerConfig : StoreConfig :=
  { slabSize := 64, maxSlabs := 1, trackedKeys := 1, disk := { compactionThreshold := 0 } }

/-- RAM as it is when a store of this configuration opens. -/
def eagerRam : RamTier := .new eagerConfig.slabSize eagerConfig.maxSlabs eagerConfig.staleAfter

/-- A store opens on an empty directory, where something then blocks compactions. -/
theorem FaultRun.exists_blocked :
    ∃ store directories, FaultRun eagerConfig 0 store ∧ store.disk.Blocked ∧
      store.disk.garbageBytes = 0 ∧ store.ram = eagerRam ∧
      store.Holds eagerConfig directories 0 (fun _ => none) (fun _ => none) := by
  obtain ⟨store, hopen⟩ := exists_openIn eagerConfig (by decide) (by decide +kernel)
  have started := FaultRun.started (by decide) rfl hopen
  obtain ⟨disk, workingSet, hdisk, _, rfl⟩ := exists_of_openIn hopen
  obtain ⟨hconfig, hindex, _, _, hrecords⟩ :=
    DiskTier.records_of_openLog hdisk LogIndex.describes_log_empty
  let dir : Directory := { disk.dir with directories := [[], [Directory.draftName]] }
  have hfiles : dir.files = disk.dir.files := rfl
  refine ⟨_, _, started.disturbed hfiles, ?_, ?_, rfl, rfl, hconfig, rfl,
    RamTier.holds_new (by decide) .., hrecords, .inl ?_⟩
  · show [[], [Directory.draftName]].contains [Directory.draftName] = true
    decide
  · show disk.index.garbageBytes = 0
    rw [hindex]
    rfl
  · show disk.config.maxBytes = 0
    rw [hconfig]
    rfl

/-- A record that is too large for a slab goes to disk. -/
theorem FaultRun.exists_large :
    ∃ store directories, FaultRun eagerConfig 0 store ∧ store.disk.Blocked ∧ store.ram = eagerRam ∧
      Record.sizeOf 1 0 ≤ store.disk.liveBytes ∧
      store.Holds eagerConfig directories 0 (fun _ => none)
        (Function.update (fun _ => none) ⟨#[1]⟩ (some (Bytes.zeros 60))) := by
  obtain ⟨store, directories, blocked, hblocked, hclean, hram, h⟩ := FaultRun.exists_blocked
  have hsize : (Bytes.zeros 60).size = 60 := Bytes.size_zeros 60
  have haccepts : ¬store.disk.Refuses ⟨#[1]⟩ (Bytes.zeros 60) := by
    rw [h.disk.refuses_iff rfl (by rw [hsize]; decide), not_not]
    exact .inl (by rw [h.disk_config_eq]; rfl)
  have hfree : ¬store.disk.StuckAfter (Record.sizeOf 1 (Bytes.zeros 60).size) := by
    rintro ⟨_, _, hgarbage⟩
    rw [hclean] at hgarbage
    exact Nat.not_lt_zero _ hgarbage
  obtain ⟨store', hinsert, hram', hlive, h'⟩ := h.exists_insert_disk rfl rfl (by decide)
    (by rw [hsize]; decide) (by decide) (by rw [hram]; decide +kernel)
    (by rw [hram]; decide +kernel) haccepts hfree
  have inserted := blocked.served (.inserted hinsert)
  rw [hram', RamTier.opens_self] at inserted
  refine ⟨store', directories, inserted, (h.blocked_iff h').1 hblocked, hram'.trans hram, ?_, h'⟩
  rw [hlive, hsize]
  exact Nat.le_add_left_of_le (by decide)

/-- Once that record was removed, a compaction is due, and RAM is still empty. -/
theorem FaultRun.exists_stuck :
    ∃ store directories, FaultRun eagerConfig 0 store ∧ store.ram = eagerRam ∧
      store.Holds eagerConfig directories 0 (fun _ => none) (fun _ => none) ∧
      store.disk.StuckAfter (Record.sizeOf 1 0) := by
  obtain ⟨store, directories, inserted, hblocked, hram, hlive, h⟩ := FaultRun.exists_large
  obtain ⟨store', hremove, hram', h', hstuck⟩ :=
    h.exists_remove_stuck rfl hblocked rfl
  have removed := inserted.served (.removed hremove)
  rw [hram', RamTier.opens_self] at removed
  exact ⟨store', directories, removed, hram'.trans hram, h', hstuck _ hlive⟩

/-- RAM takes two records while the compaction stays due, which is to lose the second one. -/
theorem FaultRun.exists_two :
    ∃ store directories opened held, FaultRun eagerConfig opened store ∧ opened < wordLimit ∧
      store.Keeps eagerConfig directories opened held ∧ held ⟨#[2]⟩ = some .empty ∧
      store.disk.lostBy store.ram.victimRecords = [⟨⟨#[2]⟩, .empty⟩] := by
  obtain ⟨store, directories, stuck, hram, h, hstuck⟩ := FaultRun.exists_stuck
  have hroom₁ : (store.ram.insert ⟨#[1]⟩ .empty).1 = true := by rw [hram]; decide +kernel
  obtain ⟨store₁, hinsert₁, hram₁, hdisk₁, h₁⟩ :=
    h.exists_insert_ram rfl rfl (by decide) (by decide) (by decide) hroom₁
  have hopened₁ : 0 + RamTier.opens store.ram store₁.ram < wordLimit := by
    rw [RamTier.opens]
    split <;> decide
  have hroom₂ : (store₁.ram.insert ⟨#[2]⟩ .empty).1 = true := by rw [hram₁, hram]; decide +kernel
  obtain ⟨store₂, hinsert₂, hram₂, hdisk₂, h₂⟩ :=
    h₁.exists_insert_ram (Function.update_of_ne (by decide) ..) rfl (by decide) (by decide)
      hopened₁ hroom₂
  have hopened₂ : 0 + RamTier.opens store.ram store₁.ram + RamTier.opens store₁.ram store₂.ram <
      wordLimit := by
    rw [RamTier.opens, RamTier.opens]
    split <;> split <;> decide
  have hvictims : store₂.ram.victimRecords.map (fun record => (record.key, record.value)) =
      [(⟨#[1]⟩, .empty), (⟨#[2]⟩, .empty)] := by
    rw [hram₂, hram₁, hram]
    decide +kernel
  have hrecords : store₂.ram.victimRecords = [⟨⟨#[1]⟩, .empty⟩, ⟨⟨#[2]⟩, .empty⟩] := by
    refine List.map_injective_iff.2 (fun record record' heq => ?_) hvictims
    cases record
    cases record'
    cases heq
    rfl
  refine ⟨store₂, directories, _, _,
    (stuck.served (.inserted hinsert₁)).served (.inserted hinsert₂), hopened₂,
    ⟨_, _, h₂, fun _ => .inr rfl, fun _ => Option.or_none.symm⟩, Function.update_self .., ?_⟩
  rw [hrecords, hdisk₂, hdisk₁]
  exact if_pos hstuck

/-- A compaction that fails loses data only when it is due before an operation starts. A lookup
keeps the value of its key and answers it, unless the key cannot be dropped from the disk. It and an
insertion spare all other keys, and an eviction loses the records of its slab after the first one,
if the compaction is due in spite of that one. -/
theorem FaultRun.loses_only_when_stuck (run : FaultRun config opened store)
    (hopened : opened < wordLimit) :
    (∀ key, ∃ outcome store', Runs (find key) store outcome store' ∧
      store'.peek key = store.peek key ∧ (∀ other, store.Spares store' other) ∧
      ((∃ found, outcome = .ok found ∧ found.map (·.value) = store.peek key) ∨
        (outcome = .error (.io .isADirectory) ∧ store.disk.Blocked))) ∧
    (∀ key value, ∃ outcome store', Runs (insert key value) store outcome store' ∧
      ∀ other, other ≠ key → store.Spares store' other) ∧
    (∃ outcome store', Runs evictOne store outcome store' ∧
      store'.peek = without store.peek
        ((store.disk.lostBy store.ram.victimRecords).map (·.key))) := by
  obtain ⟨hunlimited, directories, held, hkeeps⟩ := run.exists_keeps hopened
  refine ⟨fun key => ?_, fun key value => ?_, ?_⟩
  · obtain ⟨outcome, store', lost, hfind, hkeeps', hkept, hlost, hsafe, houtcome, _⟩ :=
      hkeeps.exists_find hopened key
    refine ⟨outcome, store', hfind, ?_, fun other => ?_, ?_⟩
    · rw [hkeeps'.peek_eq, hkeeps.peek_eq, without, if_neg hkept]
    · exact hkeeps.spares hkeeps' hunlimited hlost (fun hready => (hsafe hready).1) rfl
    · rw [hkeeps.peek_eq]
      exact houtcome
  · by_cases hlarge : config.maxKeySize < key.size ∨ config.maxValueSize < value.size
    · obtain ⟨e, hfails, _⟩ := hkeeps.exists_refusal hlarge
      exact ⟨.error e, store, hfails, fun _ _ => .inl rfl⟩
    · obtain ⟨hkey, hvalue⟩ := not_or.1 hlarge
      obtain ⟨outcome, store', now, lost, hinsert, _, hkeeps', hlost, hsafe⟩ :=
        hkeeps.exists_insert hopened (Nat.not_lt.1 hkey) (Nat.not_lt.1 hvalue)
      refine ⟨outcome, store', hinsert, fun other hne => ?_⟩
      exact hkeeps.spares hkeeps' hunlimited hlost (fun hready => (hsafe hready).1)
        (Function.update_of_ne hne ..)
  · obtain ⟨outcome, store', lost, hevict, _, hkeeps', _, _, hlost, _⟩ := hkeeps.exists_evictOne
    rw [hlost hunlimited] at hkeeps'
    exact ⟨outcome, store', hevict, by rw [hkeeps'.peek_eq, hkeeps.peek_eq]⟩

/-- Of two records that leave RAM as a compaction is due, the second one is lost and no
other key. -/
theorem FaultRun.loses_only_when_stuck_of_two :
    ∃ config opened store, FaultRun config opened store ∧ opened < wordLimit ∧
      ∃ outcome store', Runs evictOne store outcome store' ∧
        store'.peek = without store.peek [⟨#[2]⟩] := by
  obtain ⟨store, _, opened, _, run, hopened, _, _, hlost⟩ := FaultRun.exists_two
  obtain ⟨_, _, outcome, store', hevict, hpeek⟩ := run.loses_only_when_stuck hopened
  rw [hlost] at hpeek
  exact ⟨eagerConfig, opened, store, run, hopened, outcome, store', hevict, hpeek⟩

/-- That record was stored until it was lost to an eviction without any budget. -/
theorem FaultRun.loses_when_stuck :
    ∃ config opened store outcome store' key, FaultRun config opened store ∧ opened < wordLimit ∧
      Runs evictOne store outcome store' ∧ (store.peek key).isSome ∧ store'.peek key = none := by
  obtain ⟨store, directories, opened, held, run, hopened, hkeeps, hheld, htwo⟩ :=
    FaultRun.exists_two
  obtain ⟨outcome, store', lost, hevict, _, hkeeps', _, _, hlost, _⟩ := hkeeps.exists_evictOne
  rw [hlost rfl, htwo] at hkeeps'
  refine ⟨eagerConfig, opened, store, outcome, store', ⟨#[2]⟩, run, hopened, hevict, ?_, ?_⟩
  · rw [hkeeps.peek_eq, hheld, Option.isSome_some]
  · rw [hkeeps'.peek_eq]
    exact if_pos List.mem_cons_self

end Fault

end ElasticCache.TieredStore
