import ElasticCache.Proofs.Storage.Resizing
import ElasticCache.Proofs.Storage.TieredRuns

/-!
# Which tier a value lands in

A value goes to disk exactly when no way of making room in RAM is open to it: no empty slab would
take it, or no loaded one does, the ceiling allows none more, and the slab that is to leave next
cannot go to disk as a whole. So no slab leaves RAM for nothing.
-/

namespace ElasticCache

namespace DiskTier

/-- Some records exceed the budget beside the live ones. Their sum stops at the largest
long word. -/
def Crowded (tier : DiskTier) (records : List Record) : Prop :=
  0 < tier.config.maxBytes ∧
    tier.config.maxBytes < saturatingSum tier.liveBytes (records.map Record.size).sum

/-- There is no room for some records exactly when they crowd the disk. -/
theorem hasRoom_eq_false_iff {tier : DiskTier} {records : List Record} :
    tier.hasRoom (records.map Record.size).sum = false ↔ tier.Crowded records := by
  rw [hasRoom, Bool.or_eq_false_iff, decide_eq_false_iff_not, decide_eq_false_iff_not, Crowded,
    Nat.pos_iff_ne_zero, Nat.not_le]

/-- The limit of the sum has no part as long as sums of bytes are far from it. -/
theorem crowded_iff {tier : DiskTier} {records : List Record} (hcounts : tier.Counts)
    (hsum : (records.map Record.size).sum < wordLimit) :
    tier.Crowded records ↔ ¬tier.Fits (records.map Record.size).sum := by
  simp only [Crowded, Fits, Counts, saturatingSum, longMax, longLimit, objectLimit,
    wordLimit] at *
  omega

end DiskTier

namespace TieredStore

/-- RAM has no place for a value, not even when a slab leaves for it. -/
def Overflows (store : TieredStore) (key value : ByteArray) : Prop :=
  (∀ id, (Slab.new id store.ram.slabSize).takes key value = false) ∨
    (∀ (id : Nat) (slab : Slab), store.ram.slabs[id]? = some slab →
        slab.takes key value = false) ∧
      store.ram.loadedSlabs = store.ram.maxSlabs ∧
      (store.ram.loadedSlabs = 0 ∨ ∃ records ram,
        store.ram.evictOne = some (records, ram) ∧ store.disk.Crowded records)

/-- Some slabs have left RAM and are counted, and all others have stayed. -/
structure Evicts (store store' : TieredStore) (gone : List Nat) : Prop where
  loaded : ∀ id ∈ gone, id ∈ store.ram.slabs
  stayed : ∀ id ∈ store.ram.slabs, id ∉ gone → id ∈ store'.ram.slabs
  counted : store'.stats.evictedSlabs = store.stats.evictedSlabs + gone.length

/-- At most one slab has left RAM, and one only for a key that is in RAM now. -/
def MakesRoom (store store' : TieredStore) (key : ByteArray) : Prop :=
  ∃ gone : List Nat, store.Evicts store' gone ∧ gone.length ≤ 1 ∧
    (gone ≠ [] → store'.ram.contains key = true)

section Deciding

variable {store store₁ store' : TieredStore} {config : StoreConfig} {key value : ByteArray}
  {gone : List Nat} {ram : RamTier}

/-- Without a step, no room is made. -/
theorem MakesRoom.refl (store : TieredStore) (key : ByteArray) : store.MakesRoom store key :=
  ⟨[], ⟨nofun, fun _ hid _ => hid, rfl⟩, Nat.zero_le _, fun hnil => absurd rfl hnil⟩

/-- A step in front that evicts none may remove keys from slabs. -/
theorem MakesRoom.of_before (h : store₁.MakesRoom store' key)
    (hmem : ∀ id, id ∈ store₁.ram.slabs ↔ id ∈ store.ram.slabs)
    (hcount : store₁.stats.evictedSlabs = store.stats.evictedSlabs) :
    store.MakesRoom store' key := by
  obtain ⟨gone, ⟨hloaded, hstayed, hcounted⟩, hrest⟩ := h
  exact ⟨gone, ⟨fun id hid => (hmem id).1 (hloaded id hid),
    fun id hid => hstayed id ((hmem id).2 hid), hcounted.trans (by rw [hcount])⟩, hrest⟩

/-- A step behind that evicts none leaves RAM alone. -/
theorem MakesRoom.of_after (h : store.MakesRoom store₁ key) (hram : store'.ram = store₁.ram)
    (hcount : store'.stats.evictedSlabs = store₁.stats.evictedSlabs) :
    store.MakesRoom store' key := by
  obtain ⟨gone, ⟨hloaded, hstayed, hcounted⟩, hrest⟩ := h
  rw [← hram] at hstayed hrest
  exact ⟨gone, ⟨hloaded, hstayed, hcount.trans hcounted⟩, hrest⟩

/-! ## Room in RAM -/

/-- What a loaded slab takes is not too large for an empty one. -/
theorem Firm.takes_new_of_takes (h : store.Firm config) {id : Nat} {slab : Slab}
    (hslab : store.ram.slabs[id]? = some slab) (htakes : slab.takes key value = true)
    (other : Nat) : (Slab.new other store.ram.slabSize).takes key value = true := by
  cases hneeded : Slab.recordSize? key value with
  | none =>
    rw [Slab.takes_eq_false_of_recordSize? hneeded] at htakes
    cases htakes
  | some needed =>
    have hle := (h.sound id slab hslab).le_maxRecordSize hneeded htakes
    rw [h.regular.sizes id slab hslab, ← h.regular.slabSize_eq] at hle
    exact (Slab.takes_new_iff other h.ram_small hneeded).2 hle

/-- What RAM takes at once does not overflow. -/
theorem Firm.not_overflows_of_stored (h : store.Firm config)
    (hstored : (store.ram.insert key value).1 = true) : ¬store.Overflows key value := by
  intro hoverflows
  rw [← Bool.not_eq_false, h.sound.insert_fst_eq_false_iff h.ram_small] at hstored
  refine hstored ⟨?_, fun ⟨_, hbelow, htakes⟩ => ?_⟩
  · rw [RamTier.firstTaker?_eq_none_iff]
    intro id slab hslab
    rw [← Bool.not_eq_true]
    intro htakes
    rcases hoverflows with hlarge | ⟨hnone, _⟩
    · cases (hlarge id).symm.trans (h.takes_new_of_takes hslab htakes id)
    · cases (hnone id slab hslab).symm.trans htakes
  · rcases hoverflows with hlarge | ⟨_, hfull, _⟩
    · cases (hlarge _).symm.trans htakes
    · exact absurd hfull (Nat.ne_of_lt hbelow)

/-- Below the ceiling RAM takes every value that is not too large for a slab. -/
theorem Firm.stored_of_below (h : store.Firm config)
    (hbelow : store.ram.loadedSlabs < store.ram.maxSlabs)
    (htakes : ∀ id, (Slab.new id store.ram.slabSize).takes key value = true) :
    (store.ram.insert key value).1 = true := by
  rw [← Bool.not_eq_false, h.sound.insert_fst_eq_false_iff h.ram_small]
  exact fun ⟨hnone, hcloses⟩ => hcloses ⟨hnone, hbelow, htakes _⟩

/-- A value that RAM takes is held there, and no slab leaves. -/
theorem Firm.exists_put (h : store.Firm config)
    (hstored : (store.ram.insert key value).1 = true) :
    ∃ ram : RamTier, Yields (onRam (·.insert key value)) store true { store with ram } ∧
      ram.contains key = true ∧ ∀ id ∈ store.ram.slabs, id ∈ ram.slabs := by
  have hput := yields_onRam (·.insert key value) store
  rw [hstored] at hput
  have hinsert : store.ram.insert key value = (true, (store.ram.insert key value).2) :=
    Prod.ext hstored rfl
  exact ⟨_, hput, h.sound.contains_of_insert h.ram_small hinsert,
    fun id hid => RamTier.mem_slabs_insert hid key value⟩

/-- A full RAM that the disk can take a slab from takes any value that is not too large for one. The
slab that leaves makes room for another one, which takes the value if no other does. -/
theorem Firm.exists_put_evicting (h : store.Firm config) {records : List Record}
    (hevictOne : store.ram.evictOne = some (records, ram))
    (htakes : ∀ id, (Slab.new id store.ram.slabSize).takes key value = true) :
    ∃ store', Yields (do if ← evictOne then onRam (·.insert key value) else return false) store
        true store' ∧ store'.ram.contains key = true ∧ store.MakesRoom store' key := by
  rcases h.evictOne_cases with ⟨hnone, _⟩ |
    ⟨_, _, store₁, hevictOne', hevict, rfl, h₁, hceiling, hcount, _, hstats⟩
  · cases hnone.symm.trans hevictOne
  obtain ⟨rfl, rfl⟩ := Prod.mk.inj (Option.some.inj (hevictOne'.symm.trans hevictOne))
  have hwithin := h.within
  have h₁ : store₁.Firm config := ⟨h₁, by omega⟩
  have hslabSize : store₁.ram.slabSize = store.ram.slabSize :=
    h₁.regular.slabSize_eq.trans h.regular.slabSize_eq.symm
  have hstored₁ : (store₁.ram.insert key value).1 = true :=
    h₁.stored_of_below (by omega) (by rwa [hslabSize])
  obtain ⟨ram, hput, hcontains, hslabs⟩ := h₁.exists_put hstored₁
  obtain ⟨gone, hgone, hothers⟩ := RamTier.exists_gone_of_evictOne hevictOne
  refine ⟨_, Yields.bind hevict hput, hcontains, [gone], ⟨?_, ?_, hstats⟩, Nat.le_refl _,
    fun _ => hcontains⟩
  · exact fun id hid => List.mem_singleton.1 hid ▸ hgone
  · exact fun id hid hne => hslabs id (hothers id hid fun heq => hne (List.mem_singleton.2 heq))

/-- RAM takes a value unless it overflows, for which at most one slab leaves. Otherwise nothing
changes. -/
theorem Firm.insertRam_cases (h : store.Firm config) (key value : ByteArray) :
    (store.Overflows key value ∧ Yields (insertRam key value) store false store) ∨
      (¬store.Overflows key value ∧ ∃ store', Yields (insertRam key value) store true store' ∧
        store'.ram.contains key = true ∧ store.MakesRoom store' key) := by
  by_cases hstored : (store.ram.insert key value).1 = true
  · obtain ⟨ram, hput, hcontains, hslabs⟩ := h.exists_put hstored
    exact .inr ⟨h.not_overflows_of_stored hstored, _, hput.bind rfl, hcontains, [],
      ⟨nofun, fun id hid _ => hslabs id hid, rfl⟩, Nat.zero_le _, fun _ => hcontains⟩
  obtain ⟨hnone, hcloses⟩ :=
    (h.sound.insert_fst_eq_false_iff h.ram_small).1 (Bool.not_eq_true _ ▸ hstored)
  have hrefused : Yields (onRam (·.insert key value)) store false store := by
    have hput := yields_onRam (·.insert key value) store
    rwa [h.sound.insert_of_refused h.ram_small hnone hcloses] at hput
  rw [RamTier.firstTaker?_eq_none_iff] at hnone
  have hpass (hguard : (!store.ram.fits key value || !store.canDemote) = true) :
      Yields (insertRam key value) store false store := by
    refine hrefused.bind ((yields_get store).bind ?_)
    rw [if_pos hguard]
    rfl
  cases hfits : store.ram.fits key value with
  | false =>
    refine .inl ⟨.inl fun id => ?_, hpass (by rw [hfits]; rfl)⟩
    rw [← RamTier.fits_eq_takes h.ram_small, hfits]
  | true =>
    have htakes (id : Nat) : (Slab.new id store.ram.slabSize).takes key value = true := by
      rw [← RamTier.fits_eq_takes h.ram_small, hfits]
    have hfull : store.ram.loadedSlabs = store.ram.maxSlabs := by
      refine Nat.le_antisymm h.within (Nat.not_lt.1 fun hbelow => ?_)
      exact hstored (h.stored_of_below hbelow htakes)
    cases hcan : store.canDemote with
    | false =>
      refine .inl ⟨.inr ⟨hnone, hfull, ?_⟩, hpass (by rw [hcan, Bool.not_false, Bool.or_true])⟩
      rcases h.evictOne_cases with ⟨_, hzero, _⟩ | ⟨records, ram, _, hevict, _⟩
      · exact .inl hzero
      · rw [canDemote, RamTier.victimRecords_eq_of_evictOne hevict, sumSizes_eq_sum] at hcan
        exact .inr ⟨records, ram, hevict, DiskTier.hasRoom_eq_false_iff.1 hcan⟩
    | true =>
      have hgo {stored : Bool} {store' : TieredStore} (hrest : Yields (do
          if ← evictOne then onRam (·.insert key value) else return false) store stored store') :
          Yields (insertRam key value) store stored store' := by
        refine hrefused.bind ((yields_get store).bind ?_)
        rw [hfits, hcan]
        exact hrest
      rcases h.evictOne_cases with ⟨_, hzero, hevict⟩ | ⟨records, ram, _, hevictOne, _, _, _, _,
        hcount, _⟩
      · exact .inl ⟨.inr ⟨hnone, hfull, .inl hzero⟩, hgo (Yields.bind hevict rfl)⟩
      · obtain ⟨store', hput, hmade⟩ := h.exists_put_evicting hevictOne htakes
        refine .inr ⟨?_, store', hgo hput, hmade⟩
        rintro (hlarge | ⟨_, _, hzero | ⟨records', ram', hevict', hcrowded⟩⟩)
        · cases (hlarge 0).symm.trans (htakes 0)
        · omega
        · rw [canDemote, RamTier.victimRecords_eq_of_evictOne hevict', sumSizes_eq_sum,
            DiskTier.hasRoom_eq_false_iff.2 hcrowded] at hcan
          cases hcan

/-! ## Insertions and lookups -/

/-- A removal leaves all slabs loaded. -/
theorem Firm.exists_remove (h : store.Firm config) (key : ByteArray) :
    ∃ found removed, Yields (remove key) store found removed ∧ removed.Firm config ∧
      (∀ id, id ∈ removed.ram.slabs ↔ id ∈ store.ram.slabs) ∧
      removed.stats.evictedSlabs = store.stats.evictedSlabs := by
  have hram := yields_onRam (·.remove key) store
  obtain ⟨onDisk, disk, hremove, _⟩ := h.usable.exists_remove key
  have hdisk : Yields (TieredStore.onDisk (·.remove key))
      { store with ram := (store.ram.remove key).2 } onDisk
      { store with ram := (store.ram.remove key).2, disk } := runs_onDisk hremove
  obtain ⟨removed, hyields, hslabs, hstats⟩ : ∃ removed,
      Yields (remove key) store ((store.ram.remove key).1 || onDisk) removed ∧
      removed.ram.slabs = (store.ram.remove key).2.slabs ∧ removed.stats = store.stats := by
    by_cases hfound : ((store.ram.remove key).1 || onDisk) = true
    · obtain ⟨store₃, huntrack, hsame, hstats⟩ := exists_untrack key
        { store with ram := (store.ram.remove key).2, disk }
      refine ⟨store₃, hram.bind (hdisk.bind ?_), by rw [hsame.ram_eq], hstats⟩
      rw [if_pos hfound]
      exact huntrack.bind rfl
    · refine ⟨{ store with ram := (store.ram.remove key).2, disk }, hram.bind (hdisk.bind ?_), rfl,
        rfl⟩
      rw [if_neg hfound]
      rfl
  refine ⟨_, removed, hyields,
    Runs.of_maintains hyields ((lasting_firm config).maintains_remove key) h, fun id => ?_, ?_⟩
  · rw [hslabs, RamTier.mem_slabs_remove]
  · rw [hstats]

/-- A value read from disk moves to RAM when there is a place for it. -/
theorem Firm.exists_promote (h : store.Firm config) (key value : ByteArray) :
    ∃ store', Yields (promote key value) store () store' ∧ store.MakesRoom store' key := by
  rcases h.insertRam_cases key value with ⟨_, hinsert⟩ | ⟨_, store₁, hinsert, _, hroom⟩
  · exact ⟨store, (Yields.tryCatch hinsert).bind rfl, .refl store key⟩
  · have h₁ := Runs.of_maintains hinsert ((lasting_firm config).maintains_insertRam key value) h
    obtain ⟨removed, disk, hremove, _⟩ := h₁.usable.exists_remove key
    have hdisk : Yields (onDisk (·.remove key)) store₁ removed { store₁ with disk } :=
      runs_onDisk hremove
    obtain ⟨store₂, hcount, hsame, hstats⟩ := exists_count
      (fun s => { s with promotions := s.promotions + 1 }) { store₁ with disk }
    refine ⟨store₂, (Yields.tryCatch hinsert).bind (hdisk.bind hcount),
      hroom.of_after hsame.ram_eq ?_⟩
    rw [hstats]

/-- What the insertion of a value comes to, after an earlier one of its key was removed. -/
structure Places (store store' : TieredStore) (key value : ByteArray) (tier : Tier) : Prop where
  decided : ∃ found removed, Yields (remove key) store found removed ∧
    (tier = .disk ↔ removed.Overflows key value)
  in_ram : tier = .ram → store'.ram.contains key = true
  on_disk : tier = .disk → store'.disk.contains key = true
  makesRoom : store.MakesRoom store' key

/-- A value within the limits is placed where RAM and the budget decide, or the disk refuses it. -/
theorem Firm.exists_place (h : store.Firm config)
    (hchecked : checkSizes store.config key value = .ok ()) :
    (∃ size store', Fails (place key value) store (.capacity size) store') ∨
      ∃ tier store', Yields (place key value) store tier store' ∧
        store.Places store' key value tier := by
  have hcheck : Yields (liftM (checkSizes store.config key value)) store () store := by
    rw [hchecked]
    rfl
  obtain ⟨found, removed, hremove, hfirm, hslabs, hstats⟩ := h.exists_remove key
  have hplace {outcome : Except Error Tier} {store' : TieredStore} (hrest : Runs (do
      if ← insertRam key value then return .ram
      onDisk (·.insert key value)
      return .disk) removed outcome store') : Runs (place key value) store outcome store' :=
    (yields_get store).bind (hcheck.bind (hremove.bind hrest))
  rcases hfirm.insertRam_cases key value with
    ⟨hoverflows, hinsert⟩ | ⟨hroom, store₁, hinsert, hcontains, hmade⟩
  · rcases hfirm.usable.insert_cases key value with ⟨size, hput⟩ | ⟨disk, hput, _, hcontains⟩
    · have hrefused : Fails (onDisk (·.insert key value)) removed (.capacity size) removed :=
        runs_onDisk hput
      exact .inl ⟨size, removed, hplace (hinsert.bind hrefused.bind)⟩
    · have htaken : Yields (onDisk (·.insert key value)) removed () { removed with disk } :=
        runs_onDisk hput
      have hnone : removed.MakesRoom { removed with disk } key :=
        (MakesRoom.refl removed key).of_after rfl rfl
      exact .inr ⟨.disk, _, hplace (hinsert.bind (htaken.bind rfl)),
        ⟨found, removed, hremove, iff_of_true rfl hoverflows⟩, nofun, fun _ => hcontains,
        hnone.of_before hslabs hstats⟩
  · exact .inr ⟨.ram, store₁, hplace (hinsert.bind rfl),
      ⟨found, removed, hremove, iff_of_false nofun hroom⟩, fun _ => hcontains, nofun,
      hmade.of_before hslabs hstats⟩

/-- Following the key and counting the insertion have no part in where its value is. -/
theorem Places.congr {tier : Tier} (h : store.Places store₁ key value tier)
    (hsame : store₁.SameTiers store')
    (hcount : store'.stats.evictedSlabs = store₁.stats.evictedSlabs) :
    store.Places store' key value tier := by
  obtain ⟨hdecided, hram, hdisk, hmade⟩ := h
  rw [← hsame.ram_eq] at hram
  rw [← hsame.disk_eq] at hdisk
  exact ⟨hdecided, hram, hdisk, hmade.of_after hsame.ram_eq hcount⟩

/-- Where an insertion that succeeds places its value. -/
theorem Firm.places_of_insert (h : store.Firm config) {tier : Tier}
    (hinsert : Yields (insert key value) store tier store') :
    store.Places store' key value tier := by
  cases hchecked : checkSizes store.config key value with
  | error e =>
    have hrefused : Fails (liftM (checkSizes store.config key value)) store e store := by
      rw [hchecked]
      rfl
    have hplace : Fails (place key value) store e store := (yields_get store).bind hrefused.bind
    exact absurd (fails_insert_of_place hplace) hinsert.not_fails
  | ok checked =>
    rcases h.exists_place hchecked with ⟨size, _, hplace⟩ | ⟨tier₁, store₁, hplace, hplaces⟩
    · exact absurd (fails_insert_of_place hplace) hinsert.not_fails
    · obtain ⟨store₂, hinsert₂, hsame, hstats, _⟩ := exists_insert_of_place hplace
      obtain ⟨rfl, rfl⟩ := hinsert₂.unique hinsert
      exact hplaces.congr hsame (by rw [hstats])

/-- A lookup that finds its value on disk evicts only to move it to RAM. -/
theorem Firm.makesRoom_of_find (h : store.Firm config)
    (hfind : Yields (find key) store (some ⟨value, .disk⟩) store') :
    store.MakesRoom store' key := by
  cases hram : store.ram.find key with
  | some found =>
    obtain ⟨store₁, hreads, _, _⟩ := exists_trackRead key { store with ram := found.2 }
    obtain ⟨store₂, hcount, _, _⟩ :=
      exists_count (fun s => { s with ramHits := s.ramHits + 1 }) store₁
    have hhit : Yields (find key) store (some ⟨found.1, .ram⟩) store₂ := by
      refine (yields_onRam _ store).bind ?_
      simp only [hram]
      exact hreads.bind (hcount.bind rfl)
    cases (hfind.unique hhit).1
  | none =>
    obtain ⟨held, hrecords⟩ := h.usable.recorded
    have hlookup : Yields (onDisk fun disk => (disk.find key, disk)) store (held key) store :=
      runs_onDisk (by rw [hrecords.find_eq])
    cases hheld : held key with
    | none =>
      rw [hheld] at hlookup
      obtain ⟨store₁, hcount, _, _⟩ :=
        exists_count (fun s => { s with misses := s.misses + 1 }) store
      have hmiss : Yields (find key) store none store₁ := by
        refine (yields_onRam _ store).bind ?_
        simp only [hram]
        exact hlookup.bind (hcount.bind rfl)
      cases (hfind.unique hmiss).1
    | some value' =>
      rw [hheld] at hlookup
      obtain ⟨store₁, hreads, hsame₁, hstats₁⟩ := exists_trackRead key store
      obtain ⟨store₂, hcount, hsame₂, hstats₂⟩ :=
        exists_count (fun s => { s with diskHits := s.diskHits + 1 }) store₁
      have hsame := hsame₁.trans hsame₂
      obtain ⟨store₃, hpromote, hmade⟩ := (h.congr hsame).exists_promote key value'
      have hhit : Yields (find key) store (some ⟨value', .disk⟩) store₃ := by
        refine (yields_onRam _ store).bind ?_
        simp only [hram]
        exact hlookup.bind (hreads.bind (hcount.bind (hpromote.bind rfl)))
      obtain ⟨_, rfl⟩ := hhit.unique hfind
      refine hmade.of_before (fun id => by rw [hsame.ram_eq]) ?_
      rw [hstats₂, hstats₁]

/-- The limit of sums has no part in whether a slab can go to disk, unless the budget is the largest
there is and more bytes are live than a file can have. -/
theorem Firm.crowded_iff (h : store.Firm config) {records : List Record}
    (hevict : store.ram.evictOne = some (records, ram)) (hcounts : store.disk.Counts) :
    store.disk.Crowded records ↔ ¬store.disk.Fits (records.map Record.size).sum := by
  obtain ⟨id, hevict⟩ := RamTier.exists_evictSlab_of_evictOne hevict
  rw [RamTier.evictSlab, Option.bind_eq_bind, Option.bind_eq_some_iff] at hevict
  obtain ⟨slab, hslab, hevict⟩ := hevict
  obtain ⟨rfl, _⟩ := Prod.mk.inj (Option.some.inj hevict)
  exact DiskTier.crowded_iff hcounts (h.sound id slab hslab).sum_sizes_lt

/-- No slab leaves RAM for nothing, and the tier of a value is decided exactly. In every store that
operations lead to from an opened one, whatever the log, the budget and the outcomes, an insertion
that succeeds places its value on disk exactly when, an earlier value of the key being gone, no
empty slab takes it, or no loaded slab takes it, as many slabs are loaded as the ceiling allows, and
none is loaded or the records of the one that leaves next exceed the budget. It and a lookup that
finds its value on disk evict one slab at most, and only if their key is in RAM then. -/
theorem Reached.evicts_for_key_alone (run : Reached config store) (key : ByteArray) :
    (∀ value tier store', Yields (insert key value) store tier store' →
      store.Places store' key value tier) ∧
    (∀ value store', Yields (find key) store (some ⟨value, .disk⟩) store' →
      store.MakesRoom store' key) ∧
    ∀ records ram, store.ram.evictOne = some (records, ram) → store.disk.Counts →
      (store.disk.Crowded records ↔ ¬store.disk.Fits (records.map Record.size).sum) :=
  ⟨fun _ _ _ hinsert => run.firm.places_of_insert hinsert,
    fun _ _ hfind => run.firm.makesRoom_of_find hfind,
    fun _ _ hevict hcounts => run.firm.crowded_iff hevict hcounts⟩

/-- With the only slab that the ceiling allows loaded, a value that an empty slab takes lands in
RAM, since the disk has room for all there is. -/
theorem Reached.evicts_for_key_alone_of_full :
    ∃ store store', Reached narrowConfig store ∧ store.ram.loadedSlabs = store.ram.maxSlabs ∧
      Yields (insert ⟨#[2]⟩ ⟨Array.replicate 24 0⟩) store .ram store' ∧
      store'.ram.contains ⟨#[2]⟩ = true := by
  obtain ⟨store, run, hram, hholds⟩ := Reached.exists_loaded
  have hintact : store.Intact narrowConfig _ _ :=
    ⟨rfl, _, _, hholds, fun _ => .inr rfl, fun _ => Option.or_none.symm⟩
  have hopened : 0 + RamTier.opens (RamTier.new 64 1 0) store.ram < wordLimit := by
    rw [RamTier.opens]
    split <;> decide
  have hsize : ByteArray.size ⟨Array.replicate 24 0⟩ ≤ narrowConfig.maxValueSize := by
    decide +kernel
  have hkey : ByteArray.size ⟨#[2]⟩ ≤ narrowConfig.maxKeySize := by decide
  obtain ⟨tier, store', hinsert, _⟩ :=
    hintact.exists_insert ⟨by decide, by decide, by decide, rfl⟩ hopened hkey hsize
  obtain ⟨⟨found, removed, hremove, hdecided⟩, hcontains, _, _⟩ :=
    (run.evicts_for_key_alone ⟨#[2]⟩).1 _ tier store' hinsert
  obtain ⟨_, rfl⟩ := (hholds.yields_remove_absent (Function.update_of_ne (by decide) ..) rfl).unique
    hremove
  have hloaded : removed.ram.loadedSlabs = 1 ∧ removed.ram.maxSlabs = 1 ∧
      removed.ram.slabSize = 64 := by
    rw [hram]
    decide +kernel
  have hplace : ¬removed.Overflows ⟨#[2]⟩ ⟨Array.replicate 24 0⟩ := by
    rintro (hlarge | ⟨_, _, hzero | ⟨_, _, _, hbudget, _⟩⟩)
    · have htakes : (Slab.new 0 64).takes ⟨#[2]⟩ ⟨Array.replicate 24 0⟩ = true := by decide +kernel
      rw [hloaded.2.2] at hlarge
      cases (hlarge 0).symm.trans htakes
    · omega
    · rw [hholds.disk_config_eq] at hbudget
      exact absurd hbudget (by decide)
  cases tier with
  | ram => exact ⟨removed, store', run, by omega, hinsert, hcontains rfl⟩
  | disk => exact absurd (hdecided.1 rfl) hplace

end Deciding

end TieredStore

end ElasticCache
