import ElasticCache.Proofs.Storage.FailedCompactions
import ElasticCache.Proofs.Storage.Placement
import ElasticCache.Proofs.Storage.Shedding

/-!
# Changes of the RAM ceiling

Where nothing stands in the way of a compaction, the disk either takes a record or refuses it for
its budget, and no eviction fails. So a lower ceiling is met by as many evictions as there are slabs
above it, the slabs that stay are not touched, and RAM is within its ceiling after every operation.
-/

namespace ElasticCache

namespace DiskTier

/-- The log holds some map, and nothing stands in the way of a compaction. -/
structure Usable (tier : DiskTier) : Prop where
  recorded : ∃ held, tier.Records held
  free : ¬tier.Blocked

section Usable

variable {tier : DiskTier} {config : DiskConfig} {dir : Directory}

/-- Whatever the log was, a tier that was just opened on it is usable. -/
theorem usable_of_openLog (hfree : dir.isDirectory Directory.draftName = false)
    (hopen : openLog config dir = .ok tier) : tier.Usable := by
  obtain ⟨changes, torn, hfits, hlog, htorn⟩ := exists_logOf_append_torn dir.log
  have hwhole : WholeRecords dir.log changes := hlog ▸ wholeRecords_of_torn hfits htorn
  refine ⟨⟨_, records_of_wholeRecords hwhole hopen⟩, ?_⟩
  rw [openLog] at hopen
  split at hopen
  next => cases hopen
  next =>
    obtain rfl := Except.ok.inj hopen
    rw [Blocked, Directory.isDirectory_putLog, Directory.isDirectory_ensure, hfree]
    exact Bool.false_ne_true

/-- A disk in the setting of a usable one is usable when its log holds a map. -/
theorem Usable.of_setting {tier' : DiskTier} {held : ByteArray → Option ByteArray}
    (h : tier.Usable) (hsetting : tier.SameSetting tier') (hrecords : tier'.Records held) :
    tier'.Usable := ⟨⟨held, hrecords⟩, mt hsetting.blocked_iff.1 h.free⟩

/-- A record is refused for its size, or it is stored. -/
theorem Usable.insert_cases (h : tier.Usable) (key value : ByteArray) :
    (∃ size, tier.insert key value = (.error (.capacity size), tier)) ∨
      ∃ tier', tier.insert key value = (.ok (), tier') ∧ tier'.Usable ∧
        tier'.contains key = true := by
  by_cases hrefuses : tier.Refuses key value
  · exact .inl (insert_eq_refused hrefuses)
  · obtain ⟨held, hrecords⟩ := h.recorded
    obtain ⟨tier', hinsert, hsetting, _, hrecords', _⟩ := hrecords.exists_insert hrefuses
    have hsettled :
        (tier.appendEntry (.stored key value.size) (Record.encode ⟨key, value⟩)).settled = .ok () :=
      if_neg fun hstuck => h.free hstuck.1
    refine .inr ⟨tier', ?_, h.of_setting hsetting hrecords', ?_⟩
    · rw [hinsert, hsettled]
    · rw [hrecords'.contains_eq, Function.update_self, Option.isSome_some]

/-- A removal from a usable disk succeeds and leaves it usable. -/
theorem Usable.exists_remove (h : tier.Usable) (key : ByteArray) :
    ∃ removed tier', tier.remove key = (.ok removed, tier') ∧ tier'.Usable := by
  obtain ⟨held, hrecords⟩ := h.recorded
  obtain ⟨outcome, tier', hremove, hsetting, _, hrecords', houtcome⟩ := hrecords.exists_remove key
  obtain ⟨rfl, _⟩ := houtcome.resolve_right fun hfails => h.free hfails.2
  exact ⟨_, tier', hremove, h.of_setting hsetting hrecords'⟩

end Usable

end DiskTier

namespace RamTier

/-- The slabs of a tier are slabs of an earlier one, with the records, the use and the places in the
index that they had there. -/
structure Retains (earlier tier : RamTier) : Prop where
  slab_eq : ∀ id ∈ tier.slabs, tier.slabs[id]? = earlier.slabs[id]?
  usage_eq : ∀ id ∈ tier.slabs, tier.usage[id]? = earlier.usage[id]?
  listed_iff : ∀ id ∈ tier.slabs, ∀ hash offset,
    Listed tier.index hash id offset ↔ Listed earlier.index hash id offset

section Retaining

variable {tier tier' tier'' : RamTier} {id : Nat} {records : List Record}

/-- A tier retains its own slabs. -/
theorem Retains.refl (tier : RamTier) : tier.Retains tier :=
  ⟨fun _ _ => rfl, fun _ _ => rfl, fun _ _ _ _ => Iff.rfl⟩

/-- A slab that is retained was loaded before. -/
theorem Retains.mem (h : tier.Retains tier') (hid : id ∈ tier'.slabs) : id ∈ tier.slabs := by
  rw [Std.TreeMap.mem_iff_isSome_getElem?] at hid ⊢
  rwa [← h.slab_eq id (Std.TreeMap.mem_iff_isSome_getElem?.2 hid)]

/-- What is retained twice is retained. -/
theorem Retains.trans (h : tier.Retains tier') (h' : tier'.Retains tier'') :
    tier.Retains tier'' := by
  constructor
  · exact fun id hid => (h'.slab_eq id hid).trans (h.slab_eq id (h'.mem hid))
  · exact fun id hid => (h'.usage_eq id hid).trans (h.usage_eq id (h'.mem hid))
  · exact fun id hid hash offset =>
      (h'.listed_iff id hid hash offset).trans (h.listed_iff id (h'.mem hid) hash offset)

/-- A slab that leaves has no part in the others. -/
theorem retains_of_evictSlab (hevict : tier.evictSlab id = some (records, tier')) :
    tier.Retains tier' := by
  cases hslab : tier.slabs[id]? with
  | none => simp [evictSlab, hslab] at hevict
  | some slab =>
    rw [evictSlab_eq hslab] at hevict
    obtain ⟨_, rfl⟩ := Prod.mk.inj (Option.some.inj hevict)
    have hne (other : Nat) (hother : other ∈ tier.slabs.erase id) : ¬compare id other = .eq :=
      (Std.TreeMap.mem_erase.1 hother).1
    constructor
    · intro other hother
      exact Std.TreeMap.getElem?_erase.trans (if_neg (hne other hother))
    · intro other hother
      exact Std.TreeMap.getElem?_erase.trans (if_neg (hne other hother))
    · intro other hother hash offset
      rw [listed_foldl_unindexSlab_iff]
      exact and_iff_left fun hleft => hne other hother (Nat.compare_eq_eq.2 hleft.1)

end Retaining

end RamTier

namespace TieredStore

/-! ## Evictions that do not fail -/

/-- The slabs of RAM are in order, be they within the ceiling or not, and the disk is usable. -/
structure Orderly (store : TieredStore) (config : StoreConfig) : Prop where
  config_eq : store.config = config
  small : config.slabSize < wordLimit
  regular : store.ram.Regular config.slabSize store.ram.maxSlabs
  sound : store.ram.Sound
  usable : store.disk.Usable

/-- A step on a usable disk that leaves RAM alone. -/
structure SparesRam (store store' : TieredStore) : Prop where
  config_eq : store'.config = store.config
  ram_eq : store'.ram = store.ram
  evictedSlabs_eq : store'.stats.evictedSlabs = store.stats.evictedSlabs
  usable : store'.disk.Usable

section Evicting

variable {store store' store'' : TieredStore} {config : StoreConfig} {ram : RamTier}

/-- Two steps that spare RAM do so together. -/
theorem SparesRam.trans (h : store.SparesRam store') (h' : store'.SparesRam store'') :
    store.SparesRam store'' :=
  ⟨h'.config_eq.trans h.config_eq, h'.ram_eq.trans h.ram_eq,
    h'.evictedSlabs_eq.trans h.evictedSlabs_eq, h'.usable⟩

/-- The disk takes a record from RAM, or it is dropped. -/
theorem exists_demote (husable : store.disk.Usable) (record : Record) :
    ∃ store', Yields (demote record) store () store' ∧ store.SparesRam store' := by
  rcases husable.insert_cases record.key record.value with
    ⟨size, hinsert⟩ | ⟨disk, hinsert, husable', _⟩
  · obtain ⟨store₁, huntrack, hsame₁, hstats₁⟩ := exists_untrack record.key store
    obtain ⟨store₂, hcount, hsame₂, hstats₂⟩ :=
      exists_count (fun s => { s with dropped := s.dropped + 1 }) store₁
    have hsame := hsame₁.trans hsame₂
    have hrefused :
        Fails (onDisk (·.insert record.key record.value)) store (.capacity size) store :=
      runs_onDisk hinsert
    refine ⟨store₂, hrefused.bind.tryCatch (huntrack.bind hcount), hsame.config_eq, hsame.ram_eq,
      ?_, ?_⟩
    · rw [hstats₂, hstats₁]
    · rwa [hsame.disk_eq]
  · have htaken : Yields (onDisk (·.insert record.key record.value)) store () { store with disk } :=
      runs_onDisk hinsert
    obtain ⟨store₁, hcount, hsame, hstats⟩ := exists_count
      (fun s => { s with demotions := s.demotions + 1 }) { store with disk }
    refine ⟨store₁, Yields.tryCatch (htaken.bind hcount), hsame.config_eq, hsame.ram_eq, ?_, ?_⟩
    · rw [hstats]
    · rwa [hsame.disk_eq]

/-- Moving records to a usable disk, whatever the budget drops of them, spares RAM. -/
theorem exists_demotes (husable : store.disk.Usable) (records : List Record) :
    ∃ store', Yields (records.forM demote) store () store' ∧ store.SparesRam store' := by
  induction records generalizing store with
  | nil => exact ⟨store, rfl, rfl, rfl, rfl, husable⟩
  | cons record rest ih =>
    obtain ⟨store₁, hdemote, hspares₁⟩ := exists_demote husable record
    obtain ⟨store₂, hrest, hspares₂⟩ := ih hspares₁.usable
    exact ⟨store₂, hdemote.bind hrest, hspares₁.trans hspares₂⟩

/-- A store is orderly with any RAM that is regular and in order. -/
theorem Orderly.with_ram (h : store.Orderly config) {maxSlabs : Nat}
    (hregular : ram.Regular config.slabSize maxSlabs) (hsound : ram.Sound) :
    Orderly { store with ram } config :=
  ⟨h.config_eq, h.small, hregular.maxSlabs_eq.symm ▸ hregular, hsound, h.usable⟩

/-- A step that spares RAM leaves the store orderly. -/
theorem Orderly.of_sparesRam (h : store.Orderly config) (hspares : store.SparesRam store') :
    store'.Orderly config := by
  obtain ⟨hconfig, hram, _, husable⟩ := hspares
  exact ⟨hconfig.trans h.config_eq, h.small, hram.symm ▸ h.regular, hram.symm ▸ h.sound, husable⟩

/-- The slab that is to leave next leaves unless there is none. -/
theorem Orderly.evictOne_cases (h : store.Orderly config) :
    (store.ram.evictOne = none ∧ store.ram.loadedSlabs = 0 ∧ Yields evictOne store false store) ∨
      ∃ records ram store', store.ram.evictOne = some (records, ram) ∧
        Yields evictOne store true store' ∧ store'.ram = ram ∧ store'.Orderly config ∧
        ram.maxSlabs = store.ram.maxSlabs ∧ ram.loadedSlabs + 1 = store.ram.loadedSlabs ∧
        store.ram.Retains ram ∧ store'.stats.evictedSlabs = store.stats.evictedSlabs + 1 := by
  rcases h.regular.evictOne_cases with ⟨hevict, hzero⟩ | ⟨records, ram, hevict, hregular, hcount⟩
  · refine .inl ⟨hevict, hzero, (yields_onRam _ store).bind ?_⟩
    simp only [hevict]
    rfl
  · obtain ⟨id, hevictSlab⟩ := RamTier.exists_evictSlab_of_evictOne hevict
    obtain ⟨store₁, hcounted, hsame, hstats⟩ := exists_count
      (fun s => { s with evictedSlabs := s.evictedSlabs + 1 }) { store with ram }
    have husable : store₁.disk.Usable := by
      rw [hsame.disk_eq]
      exact h.usable
    obtain ⟨store₂, hdemotes, hspares⟩ := exists_demotes husable records
    have horderly₁ : store₁.Orderly config := by
      obtain ⟨hconfig, hram, hdisk⟩ := hsame
      have hleft := h.with_ram hregular (h.sound.evictSlab hevictSlab)
      exact ⟨hconfig.trans hleft.config_eq, hleft.small, hram.symm ▸ hleft.regular,
        hram.symm ▸ hleft.sound, husable⟩
    refine .inr ⟨records, ram, store₂, hevict, ?_, hspares.ram_eq.trans hsame.ram_eq,
      horderly₁.of_sparesRam hspares, hregular.maxSlabs_eq, hcount,
      RamTier.retains_of_evictSlab hevictSlab, ?_⟩
    · refine (yields_onRam _ store).bind ?_
      simp only [hevict]
      exact hcounted.bind (hdemotes.bind rfl)
    · rw [hspares.evictedSlabs_eq, hstats]

/-- Slabs leave until the ceiling is met. The loop ends by itself then, so that the number of rounds
has no part in where it leads as long as it suffices. -/
theorem Orderly.exists_shrink (h : store.Orderly config) (slabs : Nat) :
    ∃ store', (∀ rounds, store.ram.loadedSlabs ≤ slabs + rounds →
        Yields (shrink slabs rounds) store (store.ram.loadedSlabs - slabs) store') ∧
      store'.Orderly config ∧ store'.ram.maxSlabs = store.ram.maxSlabs ∧
      store'.ram.loadedSlabs = min store.ram.loadedSlabs slabs ∧
      store.ram.Retains store'.ram ∧ store'.stats.evictedSlabs =
        store.stats.evictedSlabs + (store.ram.loadedSlabs - slabs) := by
  induction hover : store.ram.loadedSlabs - slabs generalizing store with
  | zero =>
    have hmet : store.ram.loadedSlabs ≤ slabs := Nat.sub_eq_zero_iff_le.1 hover
    refine ⟨store, fun rounds _ => ?_, h, rfl, (Nat.min_eq_left hmet).symm, .refl _, rfl⟩
    cases rounds with
    | zero => rfl
    | succ rounds =>
      refine (yields_get store).bind ?_
      rw [if_pos hmet]
      rfl
  | succ above ih =>
    rcases h.evictOne_cases with
      ⟨_, hzero, _⟩ | ⟨_, ram, store₁, _, hevict, hram, h₁, hceiling, hcount, hretains, hstats⟩
    · omega
    · subst hram
      obtain ⟨store₂, hshrink, h₂, hceiling₂, hloaded, hretains₂, hstats₂⟩ := ih h₁ (by omega)
      refine ⟨store₂, fun rounds hrounds => ?_, h₂, hceiling₂.trans hceiling, by omega,
        hretains.trans hretains₂, by omega⟩
      obtain ⟨rounds, rfl⟩ : ∃ rest, rounds = rest + 1 := ⟨rounds - 1, by omega⟩
      refine (yields_get store).bind ?_
      rw [if_neg (by omega : ¬store.ram.loadedSlabs ≤ slabs)]
      exact Yields.bind hevict (Yields.bind (hshrink rounds (by omega)) rfl)

/-- The store with another ceiling, before any slab has left. -/
def withCeiling (store : TieredStore) (slabs : Nat) : TieredStore :=
  { store with ram := { store.ram with maxSlabs := slabs } }

/-- What a change of the ceiling comes to. -/
structure Resized (store store' : TieredStore) (slabs : Nat) : Prop where
  maxSlabs_eq : store'.ram.maxSlabs = slabs
  loadedSlabs_eq : store'.ram.loadedSlabs = min store.ram.loadedSlabs slabs
  retains : store.ram.Retains store'.ram
  evictedSlabs_eq : store'.stats.evictedSlabs =
    store.stats.evictedSlabs + (store.ram.loadedSlabs - slabs)
  /-- The loop that evicts slabs ends by itself. -/
  ends : ∀ rounds, store.ram.loadedSlabs ≤ slabs + rounds →
    Yields (shrink slabs rounds) (store.withCeiling slabs) (store.ram.loadedSlabs - slabs) store'

/-- A new ceiling leaves the store orderly. -/
theorem Orderly.withCeiling (h : store.Orderly config) (slabs : Nat) :
    (store.withCeiling slabs).Orderly config :=
  ⟨h.config_eq, h.small, ⟨h.regular.room, h.regular.slabSize_eq, rfl, h.regular.sizes,
    h.regular.known⟩, h.sound, h.usable⟩

/-- A change of the ceiling evicts as many slabs as there are above it. -/
theorem Orderly.exists_resize (h : store.Orderly config) (slabs : Nat) :
    ∃ store', Yields (resize slabs) store (store.ram.loadedSlabs - slabs) store' ∧
      store'.Orderly config ∧ store.Resized store' slabs := by
  have hmodify : Yields
      (modify fun store => { store with ram := { store.ram with maxSlabs := slabs } })
      store () (store.withCeiling slabs) := rfl
  obtain ⟨store', hshrink, h', hceiling, hloaded, hretains, hstats⟩ :=
    (h.withCeiling slabs).exists_shrink slabs
  refine ⟨store', hmodify.bind ((yields_get (store.withCeiling slabs)).bind ?_), h', hceiling,
    hloaded, ⟨hretains.slab_eq, hretains.usage_eq, hretains.listed_iff⟩, hstats, hshrink⟩
  exact hshrink _ (Nat.le_add_left ..)

end Evicting

/-! ## Stores that operations lead to -/

/-- An orderly store with RAM within its ceiling. -/
structure Firm (store : TieredStore) (config : StoreConfig) : Prop extends
    store.Orderly config where
  within : store.ram.loadedSlabs ≤ store.ram.maxSlabs

/-- The stores that operations lead to from one that was opened, whatever was in its log and
whatever its budget, where no directory stands in the way of a compaction. The log that such a store
leaves behind can be opened again in turn. -/
inductive Reached (config : StoreConfig) : TieredStore → Prop
  | opened {dir : Directory} {store : TieredStore} (hsmall : config.slabSize < wordLimit)
      (hfree : dir.isDirectory Directory.draftName = false)
      (h : (openIn config dir).run = .ok (.ok store)) : Reached config store
  | served {store store' : TieredStore} (run : Reached config store) (h : store.Serves store') :
      Reached config store'

section Reaching

variable {store store' : TieredStore} {config : StoreConfig} {dir : Directory} {ram : RamTier}
  {disk : DiskTier} {maxSlabs : Nat}

/-- A firm store has its RAM within the ceiling. -/
theorem Firm.capped (h : store.Firm config) :
    store.ram.Capped config.slabSize store.ram.maxSlabs := ⟨h.regular, h.within⟩

/-- The slab size of a firm store is a word. -/
theorem Firm.ram_small (h : store.Firm config) : store.ram.slabSize < wordLimit :=
  h.regular.slabSize_eq ▸ h.small

/-- A store is firm with any RAM that is within a ceiling and in order. -/
theorem Firm.with_ram (h : store.Firm config) (hcapped : ram.Capped config.slabSize maxSlabs)
    (hsound : ram.Sound) : Firm { store with ram } config :=
  ⟨h.toOrderly.with_ram hcapped.regular hsound, hcapped.regular.maxSlabs_eq.symm ▸ hcapped.within⟩

/-- A store is firm with any usable disk. -/
theorem Firm.with_disk (h : store.Firm config) (husable : disk.Usable) :
    Firm { store with disk } config :=
  ⟨⟨h.config_eq, h.small, h.regular, h.sound, husable⟩, h.within⟩

/-- The counters and the working set have no part in whether a store is firm. -/
theorem Firm.congr (h : store.Firm config) (hsame : store.SameTiers store') :
    store'.Firm config := by
  obtain ⟨hconfig, hram, hdisk⟩ := hsame
  exact ⟨⟨hconfig.trans h.config_eq, h.small, hram.symm ▸ h.regular, hram.symm ▸ h.sound,
    hdisk.symm ▸ h.usable⟩, hram.symm ▸ h.within⟩

/-- A store that was just opened has no slabs. -/
theorem firm_of_openIn (hsmall : config.slabSize < wordLimit)
    (hfree : dir.isDirectory Directory.draftName = false)
    (hopen : (openIn config dir).run = .ok (.ok store)) : store.Firm config := by
  have hroom : FreeList.headerSize + FreeList.nodeSize ≤ config.slabSize :=
    le_trans (by decide) (minSlabSize_le_of_openIn hopen)
  obtain ⟨disk, workingSet, hdisk, _, rfl⟩ := exists_of_openIn hopen
  have hcapped := RamTier.capped_new hroom config.maxSlabs config.staleAfter
  refine ⟨⟨rfl, hsmall, hcapped.regular, ?_, DiskTier.usable_of_openLog hfree hdisk⟩,
    hcapped.within⟩
  exact fun id slab hslab => nomatch hslab

/-- Every step on a tier keeps a store firm. -/
theorem lasting_firm (config : StoreConfig) : Lasting (Firm · config) where
  congr _ _ hsame h := h.congr hsame
  ram_insert key value _ h := h.with_ram (h.capped.insert key value)
    (h.sound.insert h.ram_small key value)
  ram_remove key _ h := h.with_ram (h.capped.remove key) (h.sound.remove key)
  ram_find _ _ _ _ hfind h := h.with_ram (h.capped.find hfind) (h.sound.find hfind)
  ram_evictOne _ _ _ hevict h := by
    obtain ⟨_, hevictSlab⟩ := RamTier.exists_evictSlab_of_evictOne hevict
    exact h.with_ram (h.capped.evictOne hevict) (h.sound.evictSlab hevictSlab)
  disk_insert key value store h := by
    rcases h.usable.insert_cases key value with ⟨_, hinsert⟩ | ⟨_, hinsert, husable, _⟩
    · rw [runs_onDisk hinsert]
      exact h
    · rw [runs_onDisk hinsert]
      exact h.with_disk husable
  disk_remove key store h := by
    obtain ⟨_, _, hremove, husable⟩ := h.usable.exists_remove key
    rw [runs_onDisk hremove]
    exact h.with_disk husable

/-- A change of the ceiling is met. -/
theorem Firm.exists_resize (h : store.Firm config) (slabs : Nat) :
    ∃ store', Yields (resize slabs) store (store.ram.loadedSlabs - slabs) store' ∧
      store'.Firm config ∧ store.Resized store' slabs := by
  obtain ⟨store', hresize, h', hresized⟩ := h.toOrderly.exists_resize slabs
  refine ⟨store', hresize, ⟨h', ?_⟩, hresized⟩
  rw [hresized.loadedSlabs_eq, hresized.maxSlabs_eq]
  exact Nat.min_le_right ..

/-- Whatever it serves, a firm store is firm. -/
theorem Serves.firm (hserves : store.Serves store') (h : store.Firm config) :
    store'.Firm config := by
  have hresized {slabs : Nat} {outcome : Except Error Nat}
      (hrun : Runs (resize slabs) store outcome store') : store'.Firm config := by
    obtain ⟨_, hresize, h', _⟩ := h.exists_resize slabs
    obtain ⟨_, rfl⟩ := Runs.unique hresize hrun
    exact h'
  cases hserves with
  | inserted hrun => exact hrun.of_maintains ((lasting_firm config).maintains_insert _ _) h
  | found hrun => exact hrun.of_maintains ((lasting_firm config).maintains_find _) h
  | removed hrun => exact hrun.of_maintains ((lasting_firm config).maintains_remove _) h
  | evicted hrun => exact hrun.of_maintains (lasting_firm config).maintains_evictOne h
  | resized hrun => exact hresized hrun
  | resizedBytes hrun => exact hresized hrun
  | ticked hrun =>
    obtain ⟨_, rfl⟩ := Prod.mk.inj hrun
    have hslabs : store.ram.tick.2.slabs = store.ram.slabs := by
      rw [RamTier.tick]
      split <;> rfl
    exact h.with_ram h.capped.tick (h.sound.congr hslabs)

/-- Every store that operations lead to is firm. -/
theorem Reached.firm (run : Reached config store) : store.Firm config := by
  induction run with
  | opened hsmall hfree h => exact firm_of_openIn hsmall hfree h
  | served _ h ih => exact h.firm ih

/-! ## The ceiling in bytes -/

/-- The ceiling in bytes is that in slabs, when it fits a long word. -/
theorem Firm.memorySize_eq (h : store.Firm config) :
    store.ram.memorySize = fitLong (store.ram.maxSlabs * config.slabSize) := by
  rw [RamTier.memorySize, h.regular.slabSize_eq]

/-- What is in use is within the ceiling in bytes. -/
theorem Firm.memoryUsage_le (h : store.Firm config) :
    store.ram.memoryUsage ≤ store.ram.maxSlabs * config.slabSize :=
  h.regular.memoryUsage_le.trans (Nat.mul_le_mul_right _ h.within)

/-- A ceiling in bytes is met by the most slabs that it has room for. -/
theorem Firm.exists_resizeBytes (h : store.Firm config) {bytes : Nat} (hbytes : bytes < longLimit) :
    ∃ store' size, Yields (resizeBytes bytes) store
        (store.ram.loadedSlabs - bytes / config.slabSize) store' ∧
      store.Resized store' (bytes / config.slabSize) ∧ store'.ram.memorySize = .ok size ∧
      size ≤ bytes ∧ bytes < size + config.slabSize := by
  obtain ⟨store', hresize, h', hresized⟩ := h.exists_resize (bytes / config.slabSize)
  have hpos : 0 < config.slabSize := Nat.lt_of_lt_of_le (by decide) h.regular.room
  have hle : bytes / config.slabSize * config.slabSize ≤ bytes := Nat.div_mul_le_self ..
  refine ⟨store', _, runs_resizeBytes ?_, hresized, ?_, hle, Nat.lt_div_mul_add hpos⟩
  · rw [h.config_eq]
    exact hresize
  · rw [h'.memorySize_eq, hresized.maxSlabs_eq]
    exact fitLong_eq_ok (Nat.lt_of_le_of_lt hle hbytes)

/-- A change of the ceiling reaches its target with as few evictions as there can be. In every store
that operations lead to from an opened one, whatever the log, the budget and the outcomes, RAM is
within its ceiling, in slabs and in bytes as long as these fit a long word. A new ceiling in slabs
is met and evicts as many slabs as there are above it; the loop ends by itself, and the slabs that
stay have the records, the use and the places in the index that they had. A new ceiling in bytes is
rounded down to whole slabs. -/
theorem Reached.meets_ceiling (run : Reached config store) :
    store.ram.loadedSlabs ≤ store.ram.maxSlabs ∧
    (store.ram.maxSlabs * config.slabSize < longLimit →
      ∃ size, store.ram.memorySize = .ok size ∧ store.ram.memoryUsage ≤ size) ∧
    (∀ slabs, ∃ store', Yields (resize slabs) store (store.ram.loadedSlabs - slabs) store' ∧
      store.Resized store' slabs) ∧
    ∀ bytes < longLimit, ∃ store' size, Yields (resizeBytes bytes) store
        (store.ram.loadedSlabs - bytes / config.slabSize) store' ∧
      store.Resized store' (bytes / config.slabSize) ∧ store'.ram.memorySize = .ok size ∧
      size ≤ bytes ∧ bytes < size + config.slabSize := by
  have h := run.firm
  refine ⟨h.within, fun hfits => ?_, fun slabs => ?_, fun _ => h.exists_resizeBytes⟩
  · exact ⟨_, h.memorySize_eq.trans (fitLong_eq_ok hfits), h.memoryUsage_le⟩
  · obtain ⟨store', hresize, _, hresized⟩ := h.exists_resize slabs
    exact ⟨store', hresize, hresized⟩

/-- At most one small slab in RAM. -/
def narrowConfig : StoreConfig := { slabSize := 64, maxSlabs := 1, trackedKeys := 1 }

/-- The slab is loaded once a record was stored, and nothing has gone to disk. -/
theorem Reached.exists_loaded : ∃ store, Reached narrowConfig store ∧
    store.ram = ((RamTier.new 64 1 0).insert ⟨#[1]⟩ .empty).2 ∧
    store.Holds narrowConfig [[]] (0 + RamTier.opens (RamTier.new 64 1 0) store.ram)
      (Function.update (fun _ => none) ⟨#[1]⟩ (some .empty)) fun _ => none := by
  obtain ⟨store, hopen⟩ := exists_openIn narrowConfig (by decide) (by decide +kernel)
  have hholds := holds_of_openIn_log (by decide) hopen LogIndex.describes_log_empty
    (.inl rfl)
  have hram : store.ram = RamTier.new 64 1 0 := by
    obtain ⟨_, _, _, _, rfl⟩ := exists_of_openIn hopen
    rfl
  have hroom : (store.ram.insert ⟨#[1]⟩ .empty).1 = true := by
    rw [hram]
    decide +kernel
  obtain ⟨store', hinsert, hram', _, hholds'⟩ :=
    hholds.exists_insert_ram rfl rfl (by decide) (by decide) (by decide) hroom
  rw [hram] at hram' hholds'
  exact ⟨store', (Reached.opened (by decide) rfl hopen).served (.inserted hinsert), hram', hholds'⟩

/-- With one slab loaded, a ceiling of none evicts it, and one of a hundred bytes is rounded down to
a slab and evicts none. -/
theorem Reached.meets_ceiling_of_loaded :
    ∃ store, Reached narrowConfig store ∧ store.ram.loadedSlabs = 1 ∧
      (∃ store', Yields (resize 0) store 1 store' ∧ store'.ram.loadedSlabs = 0) ∧
      ∃ store' size, Yields (resizeBytes 100) store 0 store' ∧
        store'.ram.memorySize = .ok size ∧ size ≤ 100 ∧ 100 < size + 64 := by
  obtain ⟨store, run, hram, _⟩ := Reached.exists_loaded
  have hloaded : store.ram.loadedSlabs = 1 := by
    rw [hram]
    decide +kernel
  obtain ⟨_, _, hresize, hresizeBytes⟩ := run.meets_ceiling
  obtain ⟨empty, hnone, hemptied⟩ := hresize 0
  obtain ⟨store', size, hround, _, hfigures⟩ := hresizeBytes 100 (by decide)
  rw [hloaded] at hnone hround
  exact ⟨store, run, hloaded, ⟨empty, hnone, hemptied.loadedSlabs_eq.trans (Nat.min_zero _)⟩,
    store', size, hround, hfigures⟩

end Reaching

end TieredStore

end ElasticCache
