import ElasticCache.Proofs.Storage.Demotion
import ElasticCache.Proofs.WorkingSet.FilterClasses

/-!
# The tiered store is a map

The map that a store holds is divided between its tiers. Promotions and demotions move keys from one
tier to the other, and insertions and removals change their own key alone. What happens besides is
that keys of RAM are lost on their way to disk. None of them is when the disk is ready, except to a
budget that runs out as RAM shrinks.
-/

namespace ElasticCache

/-- A configuration under which no record is lost: lengths fit their words and the disk has no
budget. -/
structure StoreConfig.Lossless (config : StoreConfig) : Prop where
  slabSize_lt : config.slabSize < wordLimit
  maxKeySize_lt : config.maxKeySize < tombstoneMark
  maxValueSize_lt : config.maxValueSize < tombstoneMark
  unlimited : config.disk.maxBytes = 0

/-- A working set can be built when the table of its filter is no larger than an object may be. -/
theorem WorkingSet.exists_new {maxKeys : Nat}
    (hsize : CuckooFilter.bucketsFor maxKeys * FingerprintTable.bucketBytes < objectLimit)
    (seed : UInt64) : ∃ workingSet, new maxKeys seed = .ok workingSet := by
  obtain ⟨filter, hnew⟩ := CuckooFilter.exists_new hsize seed
  rw [new, hnew]
  exact ⟨_, rfl⟩

namespace TieredStore

/-- A map is divided between RAM and disk, with no key in both. -/
structure Divides (ramHeld diskHeld held : ByteArray → Option ByteArray) : Prop where
  apart : ∀ key, ramHeld key = none ∨ diskHeld key = none
  held_eq : ∀ key, held key = (ramHeld key).or (diskHeld key)

/-- A store keeps a map, divided between its tiers. -/
def Keeps (store : TieredStore) (config : StoreConfig) (directories : List Path) (opened : Nat)
    (held : ByteArray → Option ByteArray) : Prop :=
  ∃ ramHeld diskHeld, store.Holds config directories opened ramHeld diskHeld ∧
    Divides ramHeld diskHeld held

section Division

variable {ramHeld diskHeld ramHeld' diskHeld' held : ByteArray → Option ByteArray}
  {key value : ByteArray} {lost lost' : List ByteArray}

/-- Without any key to leave out, everything is held that was. -/
theorem without_nil (held : ByteArray → Option ByteArray) : without held [] = held := by
  funext key
  exact if_neg List.not_mem_nil

/-- What is left was held and is not lost. -/
theorem of_isSome_without (h : (without held lost key).isSome) :
    key ∉ lost ∧ (held key).isSome := by
  rw [without] at h
  split at h
  next => cases h
  next hkept => exact ⟨hkept, h⟩

/-- Keys that are lost one after the other are lost. -/
theorem without_without (held : ByteArray → Option ByteArray) (lost lost' : List ByteArray) :
    without (without held lost) lost' = without held (lost ++ lost') := by
  funext key
  simp only [without, List.mem_append]
  by_cases hkey : key ∈ lost <;> simp [hkey]

/-- A key that is not lost may get a new value before or after others are lost. -/
theorem update_without (hkey : key ∉ lost) (now : Option ByteArray) :
    without (Function.update held key now) lost = Function.update (without held lost) key now := by
  funext other
  by_cases heq : other = key
  · subst heq
    rw [without, if_neg hkey, Function.update_self, Function.update_self]
  · rw [without, Function.update_of_ne heq, Function.update_of_ne heq, without]

/-- Moving keys to disk divides what is left of the map in another way. -/
theorem Demotes.divides (hdemotes : Demotes lost ramHeld diskHeld ramHeld' diskHeld')
    (h : Divides ramHeld diskHeld held) : Divides ramHeld' diskHeld' (without held lost) := by
  constructor
  · intro key
    rcases hdemotes key with ⟨_, hram, hdisk⟩ | ⟨_, hram, _⟩
    · rw [hram, hdisk]
      exact h.apart key
    · exact .inl hram
  · intro key
    rw [without]
    rcases hdemotes key with ⟨hkept, hram, hdisk⟩ | ⟨hsome, hram, hdisk⟩
    · rw [if_neg hkept, hram, hdisk]
      exact h.held_eq key
    · rw [h.held_eq, hram, hdisk, Option.none_or, Option.or_of_isSome hsome]

/-- One key may get a new value in one of the tiers, or in none. -/
theorem Divides.update (h : Divides ramHeld diskHeld held) (inRam onDisk : Option ByteArray)
    (hapart : inRam = none ∨ onDisk = none) (key : ByteArray) :
    Divides (Function.update ramHeld key inRam) (Function.update diskHeld key onDisk)
      (Function.update held key (inRam.or onDisk)) := by
  constructor
  · intro other
    by_cases heq : other = key
    · subst heq
      rwa [Function.update_self, Function.update_self]
    · rw [Function.update_of_ne heq, Function.update_of_ne heq]
      exact h.apart other
  · intro other
    by_cases heq : other = key
    · subst heq
      rw [Function.update_self, Function.update_self, Function.update_self]
    · rw [Function.update_of_ne heq, Function.update_of_ne heq, Function.update_of_ne heq]
      exact h.held_eq other

/-- A key that is dropped from both tiers is gone. -/
theorem Divides.drop (h : Divides ramHeld diskHeld held) (key : ByteArray) :
    Divides (Function.update ramHeld key none) (Function.update diskHeld key none)
      (Function.update held key none) := h.update none none (.inl rfl) key

/-- A value put into RAM is held, when the disk does not hold its key. -/
theorem Divides.put_ram (h : Divides ramHeld diskHeld held) (hdisk : diskHeld key = none)
    (value : ByteArray) :
    Divides (Function.update ramHeld key (some value)) diskHeld
      (Function.update held key (some value)) := by
  have hput := h.update (some value) none (.inr rfl) key
  rwa [← hdisk, Function.update_eq_self, hdisk, Option.or_none] at hput

/-- What is put on disk is held, when RAM does not hold its key. -/
theorem Divides.put_disk (h : Divides ramHeld diskHeld held) (hram : ramHeld key = none)
    (now : Option ByteArray) :
    Divides ramHeld (Function.update diskHeld key now) (Function.update held key now) := by
  have hput := h.update none now (.inl rfl) key
  rwa [← hram, Function.update_eq_self, hram, Option.none_or] at hput

end Division

/-! ## Opening -/

section Opening

variable {store : TieredStore} {config : StoreConfig} {dir : Directory}
  {held : ByteArray → Option ByteArray}

/-- What is opened is the disk tier of the directory, with an empty RAM tier and a new
working set. -/
theorem exists_of_openIn (hopen : (openIn config dir).run = .ok (.ok store)) :
    ∃ disk workingSet, DiskTier.openLog config.disk dir = .ok disk ∧
      WorkingSet.new config.trackedKeys config.seed = .ok workingSet ∧
      store = ⟨config, .new config.slabSize config.maxSlabs config.staleAfter, disk, workingSet,
        {}⟩ := by
  rw [openIn] at hopen
  split at hopen
  next => cases hopen
  next =>
    cases hlog : DiskTier.openLog config.disk dir with
    | error e =>
      rw [hlog] at hopen
      cases hopen
    | ok disk =>
      rw [hlog] at hopen
      cases hset : WorkingSet.new config.trackedKeys config.seed with
      | error fault =>
        rw [hset] at hopen
        cases hopen
      | ok workingSet =>
        rw [hset] at hopen
        exact ⟨disk, workingSet, rfl, rfl, (Except.ok.inj (Except.ok.inj hopen)).symm⟩

/-- No store opens with slabs that are too small. -/
theorem minSlabSize_le_of_openIn (hopen : (openIn config dir).run = .ok (.ok store)) :
    minSlabSize ≤ config.slabSize := by
  by_contra hsmall
  rw [openIn, if_pos (Nat.not_le.1 hsmall)] at hopen
  cases hopen

/-- A store opens on an empty directory when its slabs are large enough and its working set can be
built. -/
theorem exists_openIn (config : StoreConfig) (hslab : minSlabSize ≤ config.slabSize)
    (hsize : CuckooFilter.bucketsFor config.trackedKeys * FingerprintTable.bucketBytes <
      objectLimit) :
    ∃ store, (openIn config .empty).run = .ok (.ok store) := by
  obtain ⟨disk, hopen, _⟩ := DiskTier.exists_openLog_empty config.disk
  obtain ⟨workingSet, hset⟩ := WorkingSet.exists_new hsize config.seed
  rw [openIn, if_neg (Nat.not_lt.2 hslab), hopen, hset]
  exact ⟨_, rfl⟩

/-- A store that was just opened on a log holds on disk what the log does, when it is within the
budget, and nothing in RAM. -/
theorem holds_of_openIn_log {index : LogIndex} (hsmall : config.slabSize < wordLimit)
    (hopen : (openIn config dir).run = .ok (.ok store)) (hlog : index.Describes dir.log held)
    (hwithin : config.disk.maxBytes = 0 ∨ index.liveBytes ≤ config.disk.maxBytes) :
    store.Holds config dir.ensure.directories 0 (fun _ => none) held := by
  obtain ⟨disk, workingSet, hdisk, _, rfl⟩ := exists_of_openIn hopen
  obtain ⟨hconfig, hindex, hdirectories, _, hrecords⟩ := DiskTier.records_of_openLog hdisk hlog
  refine ⟨rfl, hconfig, hdirectories, RamTier.holds_new hsmall .., hrecords, ?_⟩
  rw [DiskTier.Fits, hconfig, DiskTier.liveBytes, hindex]
  exact hwithin

/-- What is on disk alone is all that is held. -/
theorem Holds.keeps_of_disk {directories : List Path} {opened : Nat}
    (h : store.Holds config directories opened (fun _ => none) held) :
    store.Keeps config directories opened held :=
  ⟨_, held, h, fun _ => .inl rfl, fun _ => Option.none_or.symm⟩

/-- A store that was just opened on a log keeps what the log holds, when it is within the budget. -/
theorem keeps_of_openIn_log {index : LogIndex} (hsmall : config.slabSize < wordLimit)
    (hopen : (openIn config dir).run = .ok (.ok store)) (hlog : index.Describes dir.log held)
    (hwithin : config.disk.maxBytes = 0 ∨ index.liveBytes ≤ config.disk.maxBytes) :
    store.Keeps config dir.ensure.directories 0 held :=
  (holds_of_openIn_log hsmall hopen hlog hwithin).keeps_of_disk

/-- A store that was just opened on an empty directory holds nothing. -/
theorem keeps_of_openIn (hsmall : config.slabSize < wordLimit)
    (hopen : (openIn config .empty).run = .ok (.ok store)) :
    store.Keeps config [[]] 0 fun _ => none :=
  keeps_of_openIn_log hsmall hopen LogIndex.describes_log_empty (.inr (Nat.zero_le _))

end Opening

/-! ## Operations -/

section Operations

variable {store : TieredStore} {config : StoreConfig} {directories : List Path} {opened : Nat}
  {ramHeld diskHeld held : ByteArray → Option ByteArray} {key value : ByteArray}

/-- The tier of a key is the one that holds it. -/
theorem Holds.tierOf_eq (h : store.Holds config directories opened ramHeld diskHeld)
    (key : ByteArray) :
    store.tierOf key = if (ramHeld key).isSome then some .ram
      else if (diskHeld key).isSome then some .disk else none := by
  rw [tierOf, h.ram.contains_eq, h.disk.contains_eq]

/-- A key that was found is not followed any more. -/
def forgets (found : Bool) (key : ByteArray) : List WorkingSet.Call :=
  if found then [.remove key] else []

/-- A key that was found is read. -/
def reads (found : Bool) (key : ByteArray) : List WorkingSet.Call :=
  if found then [.find key] else []

/-- A removal drops the key from both tiers, even when it fails. It leaves a ready store ready. -/
theorem Holds.exists_remove (h : store.Holds config directories opened ramHeld diskHeld)
    (key : ByteArray) :
    ∃ (outcome : Except Error Bool) (store' : TieredStore), Runs (remove key) store outcome store' ∧
      store'.ram.nextId = store.ram.nextId ∧ store'.stats = store.stats ∧
      store'.Holds config directories opened (Function.update ramHeld key none)
        (Function.update diskHeld key none) ∧
      ((outcome = .ok ((ramHeld key).isSome || (diskHeld key).isSome) ∧
          (store.Ready → store'.Ready) ∧
          store.Tracks (forgets ((ramHeld key).isSome || (diskHeld key).isSome) key) store') ∨
        (outcome = .error (.io .isADirectory) ∧ store.disk.Blocked)) := by
  obtain ⟨ram, hram, hnext, h₁⟩ := h.exists_ram_remove key
  obtain ⟨disk, hconfig, hlive, h₂, hdisk⟩ := h₁.exists_disk_remove key
  let store₂ : TieredStore := { store with ram, disk }
  rcases hdisk with ⟨hdisk, hstuck⟩ | ⟨hdisk, hblocked⟩
  · obtain ⟨store₃, huntrack, hsame₃, hstats₃⟩ := exists_untrack key store₂
    have hready {store' : TieredStore} (heq : store'.disk = disk) (hready : store.Ready) :
        store'.Ready := by
      obtain ⟨hfree, hcounts⟩ := hready
      rw [← heq] at hstuck hconfig hlive
      exact ⟨fun hstuck' => hfree (hstuck hstuck'),
        hcounts.imp (by rw [hconfig]; exact id) (Nat.lt_of_le_of_lt hlive)⟩
    by_cases hfound : ((ramHeld key).isSome || (diskHeld key).isSome) = true
    · refine ⟨_, store₃, ?_, by rw [hsame₃.ram_eq, hnext], hstats₃, h₂.congr hsame₃,
        .inl ⟨rfl, hready hsame₃.disk_eq, ?_⟩⟩
      · refine hram.bind (hdisk.bind ?_)
        rw [if_pos hfound]
        exact huntrack.bind rfl
      · rw [forgets, if_pos hfound]
        exact (tracks_of_untrack huntrack).congr rfl
    · refine ⟨_, store₂, ?_, hnext, rfl, h₂, .inl ⟨rfl, hready rfl, ?_⟩⟩
      · refine hram.bind (hdisk.bind ?_)
        rw [if_neg hfound]
        rfl
      · rw [forgets, if_neg hfound]
        rfl
  · exact ⟨_, store₂, hram.bind hdisk.bind, hnext, rfl, h₂, .inr ⟨rfl, hblocked⟩⟩

/-- A removal drops its key and answers whether it was held, or fails where a compaction is blocked,
with the key gone all the same. -/
theorem Keeps.exists_remove (h : store.Keeps config directories opened held) (key : ByteArray) :
    ∃ (outcome : Except Error Bool) (store' : TieredStore), Runs (remove key) store outcome store' ∧
      store'.ram.nextId = store.ram.nextId ∧
      store'.Keeps config directories opened (Function.update held key none) ∧
      ((outcome = .ok (held key).isSome ∧ store.Tracks (forgets (held key).isSome key) store') ∨
        (outcome = .error (.io .isADirectory) ∧ store.disk.Blocked)) := by
  obtain ⟨ramHeld, diskHeld, h, hdivides⟩ := h
  obtain ⟨outcome, store', hremove, hnext, _, h', houtcome⟩ := h.exists_remove key
  refine ⟨outcome, store', hremove, hnext, ⟨_, _, h', hdivides.drop key⟩, ?_⟩
  rw [hdivides.held_eq, Option.isSome_or]
  exact houtcome.imp_left fun hok => ⟨hok.1, hok.2.2⟩

/-- An insertion up to its end: an earlier record of the key is dropped, and the value goes to a
tier. -/
def place (key value : ByteArray) : StoreM Tier := do
  checkSizes (← get).config key value
  let _ ← remove key
  if ← insertRam key value then return .ram
  onDisk (·.insert key value)
  return .disk

/-- An insertion places its record, follows its key and counts. -/
theorem insert_eq_place (key value : ByteArray) : insert key value = (do
    let tier ← place key value
    track key (value.size % wordLimit)
    count fun s => { s with inserts := s.inserts + 1 }
    return tier) := by
  simp only [insert, place, bind_assoc]
  refine bind_congr fun _ => bind_congr fun _ => bind_congr fun _ => bind_congr fun stored => ?_
  cases stored with
  | false => simp only [Bool.false_eq_true, if_false, bind_assoc]
  | true => rfl

/-- The end of an insertion follows the key and counts. -/
theorem exists_insert_of_place {tier : Tier} {store' : TieredStore}
    (hplace : Yields (place key value) store tier store') :
    ∃ store'', Yields (insert key value) store tier store'' ∧ store'.SameTiers store'' ∧
      store''.stats = { store'.stats with inserts := store'.stats.inserts + 1 } ∧
      store'.Tracks [.insert key (value.size % wordLimit)] store'' := by
  obtain ⟨store₁, htrack, hsame₁, hstats₁⟩ := exists_track key (value.size % wordLimit) store'
  obtain ⟨store₂, hcount, hsame₂, hstats₂⟩ :=
    exists_count (fun s => { s with inserts := s.inserts + 1 }) store₁
  refine ⟨store₂, ?_, hsame₁.trans hsame₂, ?_,
    (tracks_of_track htrack).trans (tracks_of_count hcount)⟩
  · rw [insert_eq_place]
    exact Yields.bind hplace (htrack.bind (hcount.bind rfl))
  · rw [hstats₂, hstats₁]

/-- A value that finds no place is not inserted. -/
theorem fails_insert_of_place {e : Error} {store' : TieredStore}
    (hplace : Fails (place key value) store e store') :
    Fails (insert key value) store e store' := by
  rw [insert_eq_place]
  exact hplace.bind

/-- How an insertion ends, with the value that its key has then. -/
inductive Inserted (store' : TieredStore) (key value : ByteArray) :
    Except Error Tier → Option ByteArray → Prop
  /-- The value is in the tier that is answered. -/
  | stored (tier : Tier) (htier : store'.tierOf key = some tier) :
      Inserted store' key value (.ok tier) (some value)
  /-- The disk refuses the value. -/
  | refused (size : Nat) (hrefuses : store'.disk.Refuses key value) :
      Inserted store' key value (.error (.capacity size)) none
  /-- The disk cannot be compacted. -/
  | failed (now : Option ByteArray) (hblocked : store'.disk.Blocked) :
      Inserted store' key value (.error (.io .isADirectory)) now

/-- The counters and the working set have no part in what was inserted. -/
theorem Inserted.congr {store' : TieredStore} {outcome : Except Error Tier}
    {now : Option ByteArray} (h : Inserted store key value outcome now)
    (hsame : store.SameTiers store') : Inserted store' key value outcome now := by
  cases h with
  | stored tier htier =>
    refine .stored tier ?_
    rw [tierOf, hsame.ram_eq, hsame.disk_eq]
    exact htier
  | refused size hrefuses => exact .refused size (hsame.disk_eq ▸ hrefuses)
  | failed now hblocked => exact .failed now (hsame.disk_eq ▸ hblocked)

/-- What RAM does not take goes to disk. -/
theorem Holds.exists_disk_put (h : store.Holds config directories opened ramHeld diskHeld)
    (hram : ramHeld key = none) (hdisk : diskHeld key = none) (value : ByteArray) :
    ∃ (outcome : Except Error Tier) (store' : TieredStore) (now : Option ByteArray),
      Runs (do
        onDisk (·.insert key value)
        return .disk) store outcome store' ∧
      store'.ram = store.ram ∧ store'.stats = store.stats ∧
      store'.Holds config directories opened ramHeld (Function.update diskHeld key now) ∧
      Inserted store' key value outcome now ∧ store'.workingSet = store.workingSet := by
  rcases h.disk_insert_cases hdisk value with
    ⟨hrefuses, size, hput⟩ | ⟨_, disk, _, _, h₁, ⟨_, _, hput⟩ | ⟨hstuck, hput⟩⟩
  · refine ⟨_, store, none, hput.bind, rfl, rfl, ?_, .refused size hrefuses, rfl⟩
    rwa [← hdisk, Function.update_eq_self]
  · refine ⟨_, { store with disk }, some value, hput.bind rfl, rfl, rfl, h₁, .stored .disk ?_, rfl⟩
    rw [h₁.tierOf_eq, hram, Function.update_self]
    rfl
  · exact ⟨_, { store with disk }, some value, hput.bind, rfl, rfl, h₁,
      .failed _ ((h.blocked_iff h₁).1 hstuck.1), rfl⟩

/-- A record of a new key is stored in RAM, for which a slab may have to leave, or on disk. When
that slab does not get to disk as a whole, the record is in neither tier. -/
theorem Holds.exists_put (h : store.Holds config directories opened ramHeld diskHeld)
    (hdivides : Divides ramHeld diskHeld held) (hopened : opened < wordLimit)
    (hram : ramHeld key = none) (hdisk : diskHeld key = none) (value : ByteArray) :
    ∃ (outcome : Except Error Tier) (store' : TieredStore) (now : Option ByteArray)
      (lost : List ByteArray), Runs (do
        if ← insertRam key value then return .ram
        onDisk (·.insert key value)
        return .disk) store outcome store' ∧
      Inserted store' key value outcome now ∧
      store'.Keeps config directories (opened + RamTier.opens store.ram store'.ram)
        (Function.update (without held lost) key now) ∧
      (∀ other ∈ lost, (ramHeld other).isSome) ∧
      (store.Ready → lost = [] ∧ store'.stats.dropped = store.stats.dropped) ∧
      (¬store.disk.Stuck → store.Tracks (lost.map .remove) store') := by
  obtain ⟨stored, stores, store₁, lost, ramHeld₁, diskHeld₁, hinsert, hdemotes, h₁, hstores, hsafe,
    htracked⟩ := h.exists_insertRam hdivides.apart hram value hopened
  obtain ⟨_, hram₁, hdisk₁⟩ := hdemotes.of_none hram
  rw [hdisk] at hdisk₁
  have hdivides₁ := hdemotes.divides hdivides
  have hlost (other : ByteArray) (hother : other ∈ lost) : (ramHeld other).isSome :=
    hdemotes.isSome_of_mem hother
  rcases hstores with rfl | ⟨rfl, rfl, hstuck⟩
  · cases stored with
    | true =>
      refine ⟨.ok .ram, store₁, some value, lost, Yields.bind hinsert rfl, .stored .ram ?_,
        ⟨_, _, h₁, hdivides₁.put_ram hdisk₁ value⟩, hlost, hsafe, htracked⟩
      rw [h₁.tierOf_eq, if_pos rfl, Function.update_self]
      rfl
    | false =>
      obtain ⟨outcome, store₂, now, hput, hram₂, hstats₂, h₂, hinserted, hset⟩ :=
        h₁.exists_disk_put hram₁ hdisk₁ value
      refine ⟨outcome, store₂, now, lost, Yields.bind hinsert hput, hinserted, ?_, hlost, ?_,
        fun hfree => ?_⟩
      · rw [hram₂]
        exact ⟨_, _, h₂, hdivides₁.put_disk hram₁ now⟩
      · rwa [hstats₂]
      · exact hset.trans (htracked hfree)
  · have hnow : Function.update (without held lost) key none = without held lost := by
      have hnone : without held lost key = none := by
        rw [hdivides₁.held_eq, hram₁, hdisk₁, Option.none_or]
      rw [← hnone, Function.update_eq_self]
    refine ⟨_, store₁, none, lost, Fails.bind hinsert, .failed none ?_, ?_, hlost, hsafe, htracked⟩
    · exact (h.blocked_iff h₁).1 hstuck.1
    · rw [hnow]
      exact ⟨_, _, h₁, hdivides₁⟩

/-- A record within the limits is placed after any earlier one of its key is gone. -/
theorem place_of_sizes (hkey : key.size ≤ store.config.maxKeySize)
    (hvalue : value.size ≤ store.config.maxValueSize)
    {outcome : Except Error Tier} {store' : TieredStore} (hrest : Runs (do
      let _ ← remove key
      if ← insertRam key value then return .ram
      onDisk (·.insert key value)
      return .disk) store outcome store') : Runs (place key value) store outcome store' := by
  have hcheck : checkSizes store.config key value = .ok () := by
    rw [checkSizes, if_neg (Nat.not_lt.2 hkey), if_neg (Nat.not_lt.2 hvalue)]
  have hchecked : Yields (liftM (checkSizes store.config key value)) store () store := by
    rw [hcheck]
    rfl
  exact (yields_get store).bind (hchecked.bind hrest)

/-- The limits are those that the store was opened with. -/
theorem Holds.place_of_fits (h : store.Holds config directories opened ramHeld diskHeld)
    (hkey : key.size ≤ config.maxKeySize) (hvalue : value.size ≤ config.maxValueSize)
    {outcome : Except Error Tier} {store' : TieredStore} (hrest : Runs (do
      let _ ← remove key
      if ← insertRam key value then return .ram
      onDisk (·.insert key value)
      return .disk) store outcome store') : Runs (place key value) store outcome store' :=
  place_of_sizes (h.config_eq.symm ▸ hkey) (h.config_eq.symm ▸ hvalue) hrest

/-- A record within the limits takes the place of any earlier one of its key, in RAM or on disk. -/
theorem Keeps.exists_place (h : store.Keeps config directories opened held)
    (hopened : opened < wordLimit) (hkey : key.size ≤ config.maxKeySize)
    (hvalue : value.size ≤ config.maxValueSize) :
    ∃ (outcome : Except Error Tier) (store' : TieredStore) (now : Option ByteArray)
      (lost : List ByteArray), Runs (place key value) store outcome store' ∧
      Inserted store' key value outcome now ∧
      store'.Keeps config directories (opened + RamTier.opens store.ram store'.ram)
        (Function.update (without held lost) key now) ∧
      (∀ other ∈ lost, other ≠ key ∧ store.ram.contains other) ∧
      (store.Ready → lost = [] ∧ store'.stats.dropped = store.stats.dropped) ∧
      (¬store.disk.Blocked →
        store.Tracks (forgets (held key).isSome key ++ lost.map .remove) store') := by
  obtain ⟨ramHeld, diskHeld, h, hdivides⟩ := h
  obtain ⟨removed, store₁, hremove, hnext, hstats, h₁, houtcome⟩ := h.exists_remove key
  rcases houtcome with ⟨rfl, hready, htracks⟩ | ⟨rfl, hblocked⟩
  · obtain ⟨outcome, store₂, now, lost, hput, hinserted, hkeeps, hlost, hsafe, htracked⟩ :=
      h₁.exists_put (hdivides.drop key) hopened (Function.update_self ..)
        (Function.update_self ..) value
    have hother (other : ByteArray) (hmem : other ∈ lost) :
        other ≠ key ∧ store.ram.contains other := by
      have hsome := hlost other hmem
      have hne : other ≠ key := by
        rintro rfl
        rw [Function.update_self] at hsome
        cases hsome
      rw [Function.update_of_ne hne, ← h.ram.contains_eq] at hsome
      exact ⟨hne, hsome⟩
    have hkept : key ∉ lost := fun hmem => (hother key hmem).1 rfl
    refine ⟨outcome, store₂, now, lost, h.place_of_fits hkey hvalue (Yields.bind hremove hput),
      hinserted, ?_, hother, fun hstore => ?_, fun hfree => ?_⟩
    · rw [update_without hkept, Function.update_idem, ← RamTier.opens_congr hnext] at hkeeps
      exact hkeeps
    · rw [← hstats]
      exact hsafe (hready hstore)
    · rw [hdivides.held_eq, Option.isSome_or]
      exact htracks.trans (htracked fun hstuck => hfree ((h.blocked_iff h₁).2 hstuck.1))
  · refine ⟨_, store₁, none, [], h.place_of_fits hkey hvalue (Fails.bind hremove),
      .failed none ((h.blocked_iff h₁).1 hblocked), ?_, nofun,
      fun _ => ⟨rfl, congrArg StoreStats.dropped hstats⟩, fun hfree => absurd hblocked hfree⟩
    rw [RamTier.opens_of_eq hnext, without_nil]
    exact ⟨_, _, h₁, hdivides.drop key⟩

/-- The counters and the working set have no part in what is kept. -/
theorem Keeps.congr {store' : TieredStore} (h : store.Keeps config directories opened held)
    (hsame : store.SameTiers store') : store'.Keeps config directories opened held := by
  obtain ⟨_, _, h, hdivides⟩ := h
  exact ⟨_, _, h.congr hsame, hdivides⟩

/-- A record that is placed is inserted. -/
theorem Keeps.exists_insert (h : store.Keeps config directories opened held)
    (hopened : opened < wordLimit) (hkey : key.size ≤ config.maxKeySize)
    (hvalue : value.size ≤ config.maxValueSize) :
    ∃ (outcome : Except Error Tier) (store' : TieredStore) (now : Option ByteArray)
      (lost : List ByteArray), Runs (insert key value) store outcome store' ∧
      Inserted store' key value outcome now ∧
      store'.Keeps config directories (opened + RamTier.opens store.ram store'.ram)
        (Function.update (without held lost) key now) ∧
      (∀ other ∈ lost, store.ram.contains other) ∧
      (store.Ready → lost = [] ∧ store'.stats.dropped = store.stats.dropped) := by
  obtain ⟨outcome, store₁, now, lost, hplace, hinserted, hkeeps, hlost, hsafe, _⟩ :=
    h.exists_place hopened hkey hvalue
  have hram (other : ByteArray) (hmem : other ∈ lost) : store.ram.contains other :=
    (hlost other hmem).2
  cases outcome with
  | ok tier =>
    obtain ⟨store₂, hinsert, hsame, hstats, _⟩ := exists_insert_of_place hplace
    refine ⟨_, store₂, now, lost, hinsert, hinserted.congr hsame, ?_, hram, ?_⟩
    · rw [hsame.ram_eq]
      exact hkeeps.congr hsame
    · rwa [hstats]
  | error e =>
    exact ⟨_, store₁, now, lost, fails_insert_of_place hplace, hinserted, hkeeps, hram, hsafe⟩

/-- A key that neither tier drops is not dropped. -/
theorem yields_remove_of_kept (hram : store.ram.remove key = (false, store.ram))
    (hdisk : store.disk.remove key = (.ok false, store.disk)) :
    Yields (remove key) store false store := by
  have hfromRam := yields_onRam (·.remove key) store
  rw [hram] at hfromRam
  have hfromDisk : Yields (onDisk (·.remove key)) store false store := runs_onDisk hdisk
  exact hfromRam.bind (hfromDisk.bind rfl)

/-- A key that neither tier holds is not dropped. -/
theorem Holds.yields_remove_absent (h : store.Holds config directories opened ramHeld diskHeld)
    (hram : ramHeld key = none) (hdisk : diskHeld key = none) :
    Yields (remove key) store false store :=
  yields_remove_of_kept (h.ram.remove_eq_false hram) (h.disk.remove_eq_false hdisk)

/-- A record whose key neither tier holds goes to RAM when there is room for it. -/
theorem exists_insert_of_room {ram : RamTier} (hkey : key.size ≤ store.config.maxKeySize)
    (hvalue : value.size ≤ store.config.maxValueSize)
    (hremove : Yields (remove key) store false store)
    (hroom : store.ram.insert key value = (true, ram)) :
    ∃ store', Yields (insert key value) store .ram store' ∧
      { store with ram }.SameTiers store' := by
  have hinsert := yields_onRam (·.insert key value) store
  rw [hroom] at hinsert
  have hplace : Yields (place key value) store .ram { store with ram } :=
    place_of_sizes hkey hvalue (hremove.bind (Yields.bind (hinsert.bind rfl) rfl))
  obtain ⟨store', hinsert', hsame, _⟩ := exists_insert_of_place hplace
  exact ⟨store', hinsert', hsame⟩

/-- A new record that RAM has room for goes there. -/
theorem Holds.exists_insert_ram (h : store.Holds config directories opened ramHeld diskHeld)
    (hram : ramHeld key = none) (hdisk : diskHeld key = none) (hkey : key.size ≤ config.maxKeySize)
    (hvalue : value.size ≤ config.maxValueSize) (hopened : opened < wordLimit)
    (hroom : (store.ram.insert key value).1 = true) :
    ∃ store', Yields (insert key value) store .ram store' ∧
      store'.ram = (store.ram.insert key value).2 ∧ store'.disk = store.disk ∧
      store'.Holds config directories (opened + RamTier.opens store.ram store'.ram)
        (Function.update ramHeld key (some value)) diskHeld := by
  have hyields := yields_onRam (·.insert key value) store
  rw [hroom] at hyields
  rcases h.ram_insert_cases hram value hopened with hfull | ⟨ram, hinsert, hholds⟩
  · cases (hyields.unique hfull).1
  have hram' : ram = (store.ram.insert key value).2 :=
    congrArg TieredStore.ram (hyields.unique hinsert).2
  obtain ⟨store', hinsert', hsame⟩ :=
    exists_insert_of_room (h.config_eq.symm ▸ hkey) (h.config_eq.symm ▸ hvalue)
      (h.yields_remove_absent hram hdisk) (Prod.ext hroom hram'.symm)
  refine ⟨store', hinsert', hsame.ram_eq.trans hram', hsame.disk_eq, ?_⟩
  rw [hsame.ram_eq]
  exact hholds.congr hsame

/-- A new record that no slab could take goes to disk. -/
theorem Holds.exists_insert_disk (h : store.Holds config directories opened ramHeld diskHeld)
    (hram : ramHeld key = none) (hdisk : diskHeld key = none) (hkey : key.size ≤ config.maxKeySize)
    (hvalue : value.size ≤ config.maxValueSize) (hopened : opened < wordLimit)
    (hroom : (store.ram.insert key value).1 = false) (hfits : store.ram.fits key value = false)
    (haccepts : ¬store.disk.Refuses key value)
    (hfree : ¬store.disk.StuckAfter (Record.sizeOf key.size value.size)) :
    ∃ store', Yields (insert key value) store .disk store' ∧ store'.ram = store.ram ∧
      store'.disk.liveBytes = store.disk.liveBytes + Record.sizeOf key.size value.size ∧
      store'.Holds config directories opened ramHeld
        (Function.update diskHeld key (some value)) := by
  have hyields := yields_onRam (·.insert key value) store
  rw [hroom] at hyields
  rcases h.ram_insert_cases hram value hopened with hfull | ⟨ram, hinsert, _⟩
  swap
  · cases (hyields.unique hinsert).1
  have hpassed : Yields (insertRam key value) store false store := by
    refine hfull.bind ((yields_get store).bind ?_)
    rw [hfits]
    rfl
  obtain ⟨_, disk, _, hlive, hholds, hput⟩ :=
    (h.disk_insert_cases hdisk value).resolve_left fun hrefused => haccepts hrefused.1
  obtain ⟨_, _, hput⟩ := hput.resolve_right fun hstuck => hfree hstuck.1
  have hplace : Yields (place key value) store .disk { store with disk } :=
    h.place_of_fits hkey hvalue
      ((h.yields_remove_absent hram hdisk).bind (hpassed.bind (hput.bind rfl)))
  obtain ⟨store', hinsert', hsame, _⟩ := exists_insert_of_place hplace
  refine ⟨store', hinsert', hsame.ram_eq, ?_, hholds.congr hsame⟩
  rw [hsame.disk_eq]
  exact hlive

/-- A record above a limit is refused before anything changes. -/
theorem Keeps.exists_refusal (h : store.Keeps config directories opened held)
    (hlarge : config.maxKeySize < key.size ∨ config.maxValueSize < value.size) :
    ∃ e, Fails (insert key value) store e store ∧ ∀ size, e ≠ .capacity size := by
  obtain ⟨_, _, h, _⟩ := h
  obtain ⟨e, hcheck, hother⟩ : ∃ e, checkSizes store.config key value = .error e ∧
      ∀ size, e ≠ .capacity size := by
    rw [checkSizes, h.config_eq]
    split
    next => exact ⟨_, rfl, nofun⟩
    next hkey => exact ⟨_, if_pos (hlarge.resolve_left hkey), nofun⟩
  have hrefused : Fails (liftM (checkSizes store.config key value)) store e store := by
    rw [hcheck]
    rfl
  exact ⟨e, (yields_get store).bind hrefused.bind, hother⟩

/-- A value read from disk may move to RAM, and is held as before, even when it cannot be dropped
from the disk. Whatever goes wrong while room is made, it stays on disk. -/
theorem Holds.exists_promote (h : store.Holds config directories opened ramHeld diskHeld)
    (hdivides : Divides ramHeld diskHeld held) (hopened : opened < wordLimit)
    (hram : ramHeld key = none) (hdisk : diskHeld key = some value) :
    ∃ (outcome : Except Error Unit) (store' : TieredStore) (lost : List ByteArray),
      Runs (promote key value) store outcome store' ∧
      store'.Keeps config directories (opened + RamTier.opens store.ram store'.ram)
        (without held lost) ∧ key ∉ lost ∧ (∀ other ∈ lost, (ramHeld other).isSome) ∧
      (store.Ready → lost = [] ∧ store'.stats.dropped = store.stats.dropped) ∧
      (outcome = .ok () ∨ (outcome = .error (.io .isADirectory) ∧ store.disk.Blocked)) ∧
      (¬store.disk.Stuck → store.Tracks (lost.map .remove) store') := by
  obtain ⟨stored, stores, store₁, lost, ramHeld₁, diskHeld₁, hinsert, hdemotes, h₁, hstores, hsafe,
    htracked⟩ := h.exists_insertRam hdivides.apart hram value hopened
  obtain ⟨hkept, _, _⟩ := hdemotes.of_none hram
  have hdivides₁ := hdemotes.divides hdivides
  have hlost (other : ByteArray) (hother : other ∈ lost) : (ramHeld other).isSome :=
    hdemotes.isSome_of_mem hother
  have hmoved : Yields (MonadExcept.tryCatch (insertRam key value) fun _ => return false) store
      stored store₁ := by
    rcases hstores with rfl | ⟨rfl, rfl, _⟩
    · exact Yields.tryCatch hinsert
    · exact Fails.tryCatch hinsert rfl
  cases stored with
  | false =>
    exact ⟨.ok (), store₁, lost, hmoved.bind rfl, ⟨_, _, h₁, hdivides₁⟩, hkept, hlost, hsafe,
      .inl rfl, htracked⟩
  | true =>
    obtain ⟨disk, _, _, h₂, hremove⟩ := h₁.exists_disk_remove key
    have hdivides₂ : Divides (Function.update ramHeld₁ key (some value))
        (Function.update diskHeld₁ key none) (without held lost) := by
      have hput := hdivides₁.update (some value) none (.inr rfl) key
      have hheld : without held lost key = some value := by
        rw [without, if_neg hkept, hdivides.held_eq, hram, hdisk, Option.none_or]
      rwa [Option.or_none, ← hheld, Function.update_eq_self, hheld] at hput
    rcases hremove with ⟨hremove, _⟩ | ⟨hremove, hblocked⟩
    · obtain ⟨store₃, hcount, hsame₃, hstats₃⟩ := exists_count
        (fun s => { s with promotions := s.promotions + 1 }) { store₁ with disk }
      have hset : store₃.workingSet = store₁.workingSet := (tracks_of_count hcount).congr rfl
      refine ⟨.ok (), store₃, lost, hmoved.bind (hremove.bind hcount), ?_, hkept, hlost,
        fun hready => ?_, .inl rfl, fun hfree => hset.trans (htracked hfree)⟩
      · rw [hsame₃.ram_eq]
        exact ⟨_, _, h₂.congr hsame₃, hdivides₂⟩
      · rw [hstats₃]
        exact hsafe hready
    · exact ⟨_, { store₁ with disk }, lost, hmoved.bind hremove.bind, ⟨_, _, h₂, hdivides₂⟩, hkept,
        hlost, hsafe, .inr ⟨rfl, (h.blocked_iff h₁).2 hblocked⟩, htracked⟩

/-- A lookup that hits RAM keeps the tiers as they are but for the use of the slab. -/
theorem Holds.exists_find_ram (h : store.Holds config directories opened ramHeld diskHeld)
    (hram : ramHeld key = some value) :
    ∃ store', Yields (find key) store (some ⟨value, .ram⟩) store' ∧
      store'.ram.nextId = store.ram.nextId ∧ store'.stats.dropped = store.stats.dropped ∧
      store'.Holds config directories opened ramHeld diskHeld ∧
      store.Tracks [.find key] store' := by
  obtain ⟨ram, hfind, hholds, hnext⟩ := h.ram.exists_find hram
  obtain ⟨store₁, htrack, hsame₁, hstats₁⟩ := exists_trackRead key { store with ram }
  obtain ⟨store₂, hcount, hsame₂, hstats₂⟩ :=
    exists_count (fun s => { s with ramHits := s.ramHits + 1 }) store₁
  have hsame := hsame₁.trans hsame₂
  refine ⟨store₂, ?_, ?_, ?_, (h.with_ram hholds).congr hsame,
    ((tracks_of_trackRead htrack).trans (tracks_of_count hcount)).congr rfl⟩
  · refine (yields_onRam _ store).bind ?_
    simp only [hfind]
    exact htrack.bind (hcount.bind rfl)
  · rw [hsame.ram_eq]
    exact hnext
  · rw [hstats₂, hstats₁]

/-- A lookup that RAM misses goes on to the disk. -/
theorem Holds.find_of_miss (h : store.Holds config directories opened ramHeld diskHeld)
    (hram : ramHeld key = none) {result : Except Error (Option Found)} {store' : TieredStore}
    (hrest : Runs (match diskHeld key with
      | none => do
        count fun s => { s with misses := s.misses + 1 }
        return none
      | some value => do
        trackRead key
        count fun s => { s with diskHits := s.diskHits + 1 }
        promote key value
        return some ⟨value, .disk⟩) store result store') : Runs (find key) store result store' := by
  refine (yields_onRam _ store).bind ?_
  simp only [h.ram.find_eq_none hram]
  exact (h.yields_disk_find key).bind hrest

/-- A lookup that hits the disk answers the value, or fails as the value moves to RAM. -/
theorem Holds.exists_find_disk (h : store.Holds config directories opened ramHeld diskHeld)
    (hdivides : Divides ramHeld diskHeld held) (hopened : opened < wordLimit)
    (hram : ramHeld key = none) (hdisk : diskHeld key = some value) :
    ∃ (outcome : Except Error (Option Found)) (store' : TieredStore) (lost : List ByteArray),
      Runs (find key) store outcome store' ∧
      store'.Keeps config directories (opened + RamTier.opens store.ram store'.ram)
        (without held lost) ∧ key ∉ lost ∧ (∀ other ∈ lost, (ramHeld other).isSome) ∧
      (store.Ready → lost = [] ∧ store'.stats.dropped = store.stats.dropped) ∧
      (outcome = .ok (some ⟨value, .disk⟩) ∨
        (outcome = .error (.io .isADirectory) ∧ store.disk.Blocked)) ∧
      (¬store.disk.Stuck → store.Tracks (.find key :: lost.map .remove) store') := by
  obtain ⟨store₁, htrack, hsame₁, hstats₁⟩ := exists_trackRead key store
  obtain ⟨store₂, hcount, hsame₂, hstats₂⟩ :=
    exists_count (fun s => { s with diskHits := s.diskHits + 1 }) store₁
  have hsame := hsame₁.trans hsame₂
  obtain ⟨outcome, store₃, lost, hpromote, h₃, hkept, hlost, hsafe, houtcome, htracked⟩ :=
    (h.congr hsame).exists_promote hdivides hopened hram hdisk
  rw [hsame.ram_eq] at h₃
  have htracks (hfree : ¬store.disk.Stuck) :
      store.Tracks (.find key :: lost.map .remove) store₃ := by
    rw [hsame.disk_eq] at htracked
    exact ((tracks_of_trackRead htrack).trans (tracks_of_count hcount)).trans (htracked hfree)
  have hrun {result : Except Error (Option Found)} (hrest : Runs (do
      promote key value
      return some ⟨value, .disk⟩) store₂ result store₃) :
      Runs (find key) store result store₃ := by
    refine h.find_of_miss hram ?_
    rw [hdisk]
    exact htrack.bind (hcount.bind hrest)
  have hready (hstore : store.Ready) :
      lost = [] ∧ store₃.stats.dropped = store.stats.dropped := by
    have hready₂ : store₂.Ready := by
      constructor <;> rw [hsame.disk_eq]
      exacts [hstore.free, hstore.counts]
    obtain ⟨hnone, hdropped⟩ := hsafe hready₂
    rw [hstats₂, hstats₁] at hdropped
    exact ⟨hnone, hdropped⟩
  rcases houtcome with rfl | ⟨rfl, hblocked⟩
  · exact ⟨_, store₃, lost, hrun (Yields.bind hpromote rfl), h₃, hkept, hlost, hready, .inl rfl,
      htracks⟩
  · rw [hsame.disk_eq] at hblocked
    exact ⟨_, store₃, lost, hrun (Fails.bind hpromote), h₃, hkept, hlost, hready,
      .inr ⟨rfl, hblocked⟩, htracks⟩

/-- A lookup answers the value of its key, or fails to be moved off the disk, and keeps its key in
either case. -/
theorem Keeps.exists_find (h : store.Keeps config directories opened held)
    (hopened : opened < wordLimit) (key : ByteArray) :
    ∃ (outcome : Except Error (Option Found)) (store' : TieredStore) (lost : List ByteArray),
      Runs (find key) store outcome store' ∧
      store'.Keeps config directories (opened + RamTier.opens store.ram store'.ram)
        (without held lost) ∧ key ∉ lost ∧ (∀ other ∈ lost, store.ram.contains other) ∧
      (store.Ready → lost = [] ∧ store'.stats.dropped = store.stats.dropped) ∧
      ((∃ found, outcome = .ok found ∧ found.map (·.value) = held key) ∨
        (outcome = .error (.io .isADirectory) ∧ store.disk.Blocked)) ∧
      (¬store.disk.Stuck →
        store.Tracks (reads (held key).isSome key ++ lost.map .remove) store') := by
  obtain ⟨ramHeld, diskHeld, h, hdivides⟩ := h
  rw [hdivides.held_eq]
  cases hram : ramHeld key with
  | some value =>
    obtain ⟨store', hfind, hnext, hdropped, h', htracks⟩ := h.exists_find_ram hram
    refine ⟨_, store', [], hfind, ?_, List.not_mem_nil, nofun, fun _ => ⟨rfl, hdropped⟩,
      .inl ⟨some ⟨value, .ram⟩, rfl, rfl⟩, fun _ => htracks⟩
    rw [RamTier.opens_of_eq hnext, without_nil]
    exact ⟨_, _, h', hdivides⟩
  | none =>
    cases hdisk : diskHeld key with
    | none =>
      obtain ⟨store', hcount, hsame, hstats⟩ :=
        exists_count (fun s => { s with misses := s.misses + 1 }) store
      refine ⟨_, store', [], h.find_of_miss hram ?_, ?_, List.not_mem_nil, nofun,
        fun _ => ⟨rfl, by rw [hstats]⟩, .inl ⟨none, rfl, rfl⟩, fun _ => tracks_of_count hcount⟩
      · rw [hdisk]
        exact hcount.bind rfl
      · rw [hsame.ram_eq, RamTier.opens_self, without_nil]
        exact ⟨_, _, h.congr hsame, hdivides⟩
    | some value =>
      obtain ⟨outcome, store', lost, hfind, hkeeps, hkept, hlost, hsafe, houtcome, htracks⟩ :=
        h.exists_find_disk hdivides hopened hram hdisk
      refine ⟨outcome, store', lost, hfind, hkeeps, hkept, fun other hother => ?_, hsafe,
        houtcome.imp_left fun hok => ⟨_, hok, rfl⟩, htracks⟩
      rw [h.ram.contains_eq]
      exact hlost other hother

end Operations

end TieredStore

end ElasticCache
