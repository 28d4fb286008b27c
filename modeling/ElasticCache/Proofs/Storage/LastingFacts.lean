import ElasticCache.Proofs.Storage.TieredSteps

/-!
# Facts that last

The operations of a store are made of few steps on its tiers. A fact that each of these steps
maintains, and that says nothing of the counters and the working set, lasts through every operation
that leaves the ceiling of RAM alone, however it ends.
-/

namespace ElasticCache.TieredStore

/-- Every step on a tier maintains a fact, which says nothing of the counters and the
working set. -/
structure Lasting (fact : TieredStore → Prop) : Prop where
  congr : ∀ store store', store.SameTiers store' → fact store → fact store'
  ram_insert : ∀ key value, Maintains fact (onRam (·.insert key value))
  ram_remove : ∀ key, Maintains fact (onRam (·.remove key))
  ram_find : ∀ (store : TieredStore) (key value : ByteArray) (ram : RamTier),
    store.ram.find key = some (value, ram) → fact store → fact { store with ram }
  ram_evictOne : ∀ (store : TieredStore) (records : List Record) (ram : RamTier),
    store.ram.evictOne = some (records, ram) → fact store → fact { store with ram }
  disk_insert : ∀ key value, Maintains fact (onDisk (·.insert key value))
  disk_remove : ∀ key, Maintains fact (onDisk (·.remove key))

section Steps

variable {fact : TieredStore → Prop}

/-- What an operation maintains holds of the store that it leads to. -/
theorem Runs.of_maintains {α : Type} {m : StoreM α} {store store' : TieredStore}
    {outcome : Except Error α} (hrun : Runs m store outcome store') (hm : Maintains fact m)
    (hfact : fact store) : fact store' := by
  have hafter := hm store hfact
  rwa [hrun] at hafter

/-- Counting maintains what says nothing of the counters. -/
theorem maintains_count_of_congr
    (hcongr : ∀ store store', store.SameTiers store' → fact store → fact store')
    (f : StoreStats → StoreStats) : Maintains fact (count f) :=
  fun store hfact => hcongr store { store with stats := f store.stats } ⟨rfl, rfl, rfl⟩ hfact

/-- Following keys does not touch the tiers. -/
theorem maintains_of_sameTiers
    (hcongr : ∀ store store', store.SameTiers store' → fact store → fact store')
    {step : StoreM Unit} (hstep : ∀ store, ∃ store', Yields step store () store' ∧
      store.SameTiers store' ∧ store'.stats = store.stats) : Maintains fact step := by
  intro store hfact
  obtain ⟨store', hyields, hsame, _⟩ := hstep store
  rw [hyields]
  exact hcongr store store' hsame hfact

/-- What leaves RAM is on its way to disk, and RAM is not asked again. -/
theorem maintains_demote_of_congr
    (hcongr : ∀ store store', store.SameTiers store' → fact store → fact store')
    {record : Record} (hinsert : Maintains fact (onDisk (·.insert record.key record.value))) :
    Maintains fact (demote record) := by
  have hcount := maintains_count_of_congr hcongr
  apply Maintains.tryCatch
  · exact hinsert.bind fun _ => hcount _
  · intro e
    split
    next => exact (maintains_of_sameTiers hcongr (exists_untrack _)).bind fun _ => hcount _
    next => exact .throw _

end Steps

namespace Lasting

variable {fact : TieredStore → Prop} {key value : ByteArray}

/-- Counting maintains a lasting fact. -/
theorem maintains_count (h : Lasting fact) (f : StoreStats → StoreStats) :
    Maintains fact (count f) := maintains_count_of_congr h.congr f

/-- Starting to follow a key maintains a lasting fact. -/
theorem maintains_track (h : Lasting fact) (key : ByteArray) (size : Nat) :
    Maintains fact (track key size) := maintains_of_sameTiers h.congr (exists_track key size)

/-- Counting a read of a key maintains a lasting fact. -/
theorem maintains_trackRead (h : Lasting fact) (key : ByteArray) :
    Maintains fact (trackRead key) := maintains_of_sameTiers h.congr (exists_trackRead key)

/-- Stopping to follow a key maintains a lasting fact. -/
theorem maintains_untrack (h : Lasting fact) (key : ByteArray) :
    Maintains fact (untrack key) := maintains_of_sameTiers h.congr (exists_untrack key)

/-- Moving a record to disk maintains a lasting fact. -/
theorem maintains_demote (h : Lasting fact) (record : Record) :
    Maintains fact (demote record) := maintains_demote_of_congr h.congr (h.disk_insert _ _)

/-- An eviction maintains a lasting fact. -/
theorem maintains_evictOne (h : Lasting fact) : Maintains fact evictOne := by
  refine Maintains.bind (fun store hfact => ?_) fun records? => ?_
  · rw [yields_onRam]
    cases hevict : store.ram.evictOne with
    | none => exact hfact
    | some evicted => exact h.ram_evictOne store evicted.1 evicted.2 hevict hfact
  · split
    next => exact .pure _
    next records =>
      refine (h.maintains_count _).bind fun _ => ?_
      exact (Maintains.forM h.maintains_demote records).bind fun _ => .pure _

/-- A removal maintains a lasting fact. -/
theorem maintains_remove (h : Lasting fact) (key : ByteArray) : Maintains fact (remove key) := by
  refine (h.ram_remove key).bind fun inRam => (h.disk_remove key).bind fun onDisk => ?_
  split
  next => exact (h.maintains_untrack key).bind fun _ => .pure _
  next => exact .pure _

/-- An insertion into RAM maintains a lasting fact, the eviction for it included. -/
theorem maintains_insertRam (h : Lasting fact) (key value : ByteArray) :
    Maintains fact (insertRam key value) := by
  refine (h.ram_insert key value).bind fun stored => ?_
  split
  next => exact .pure _
  refine Maintains.get.bind fun store => ?_
  split
  next => exact .pure _
  refine h.maintains_evictOne.bind fun evicted => ?_
  split
  next => exact h.ram_insert key value
  next => exact .pure _

/-- An insertion maintains a lasting fact. -/
theorem maintains_insert (h : Lasting fact) (key value : ByteArray) :
    Maintains fact (insert key value) := by
  have hend (tier : Tier) : Maintains fact (do
      track key (value.size % wordLimit)
      count fun s => { s with inserts := s.inserts + 1 }
      return tier) :=
    (h.maintains_track _ _).bind fun _ => (h.maintains_count _).bind fun _ => .pure tier
  refine Maintains.get.bind fun store => (Maintains.liftExcept _).bind fun _ => ?_
  refine (h.maintains_remove key).bind fun _ =>
    (h.maintains_insertRam key value).bind fun stored => ?_
  split
  next => exact (Maintains.pure _).bind hend
  next => exact (h.disk_insert key value).bind fun _ => (Maintains.pure _).bind hend

/-- A promotion maintains a lasting fact. -/
theorem maintains_promote (h : Lasting fact) (key value : ByteArray) :
    Maintains fact (promote key value) := by
  have hmove : Maintains fact
      (MonadExcept.tryCatch (insertRam key value) fun _ => return false) :=
    (h.maintains_insertRam key value).tryCatch fun _ => .pure false
  refine hmove.bind fun moved => ?_
  split
  next => exact (h.disk_remove key).bind fun _ => h.maintains_count _
  next => exact .pure _

/-- A read maintains a lasting fact, the promotion included. A lookup on disk leaves the whole store
as it is. -/
theorem maintains_find (h : Lasting fact) (key : ByteArray) : Maintains fact (find key) := by
  refine Maintains.bind (fun store hfact => ?_) fun inRam? => ?_
  · rw [yields_onRam]
    cases hfind : store.ram.find key with
    | none => exact hfact
    | some found => exact h.ram_find store key found.1 found.2 hfind hfact
  split
  next value =>
    exact (h.maintains_trackRead key).bind fun _ => (h.maintains_count _).bind fun _ => .pure _
  next =>
    have hdisk : Maintains fact (onDisk fun disk => (disk.find key, disk)) :=
      fun _ hfact => hfact
    refine hdisk.bind fun value? => ?_
    split
    next => exact (h.maintains_count _).bind fun _ => .pure _
    next value =>
      refine (h.maintains_trackRead key).bind fun _ => (h.maintains_count _).bind fun _ => ?_
      exact (h.maintains_promote key value).bind fun _ => .pure _

end Lasting

end ElasticCache.TieredStore
