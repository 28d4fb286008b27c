import ElasticCache.Proofs.Instance
import ElasticCache.Proofs.Storage.AbsentKeys

/-!
# Sets that fail

An instance that cannot store a value drops the earlier one of the key. The failure may come before
anything was done, after the key left the tiers, while another slab made room, or after the new
value was already written. The key is taken out once more at the end, and that may fail as well. In
each case no tier holds the key, until a value of it is stored.
-/

namespace ElasticCache.CacheInstance

/-- One thing that happens to an instance, with the key of the value that it has stored by it. Its
directory may come to anything at any time, so that its steps on disk may fail. -/
inductive Happens : CacheInstance → Option ByteArray → CacheInstance → Prop
  | got (key : ByteArray) (cache : CacheInstance) : Happens cache none (cache.after (get key))
  | stored {cache cache' : CacheInstance} {key value : ByteArray} {tier : Tier}
      (hset : Id.run ((set key value).run.run cache) = (.ok tier, cache')) :
      Happens cache (some key) cache'
  | failed {cache cache' : CacheInstance} {key value : ByteArray} {e : Error}
      (hset : Id.run ((set key value).run.run cache) = (.error e, cache')) :
      Happens cache none cache'
  | removed (key : ByteArray) (cache : CacheInstance) :
    Happens cache none (cache.after (remove key))
  | resized (bytes : Nat) (cache : CacheInstance) : Happens cache none (cache.after (resize bytes))
  | ticked {cache cache' : CacheInstance} {report : TickReport} {traffic : TierTraffic}
      (htick : cache.tick = .ok (report, traffic, cache')) : Happens cache none cache'
  | stopped (cache : CacheInstance) : Happens cache none cache.stop
  | disturbed (dir : Directory) (cache : CacheInstance) :
    Happens cache none
      { cache with store := { cache.store with disk := { cache.store.disk with dir } } }

/-- The instances of a configuration, opened on any directory. -/
inductive Reachable (config : InstanceConfig) : CacheInstance → Prop
  | opened {dir : Directory} {cache : CacheInstance}
      (hopen : (openIn config dir).run = .ok (.ok cache)) : Reachable config cache
  | next {cache cache' : CacheInstance} {stored? : Option ByteArray}
      (h : Reachable config cache) (hnext : Happens cache stored? cache') : Reachable config cache'

/-- What an instance comes to as long as it stores no value of a key. -/
inductive Awaits (key : ByteArray) (cache : CacheInstance) : CacheInstance → Prop
  | start : Awaits key cache cache
  | next {later later' : CacheInstance} {stored? : Option ByteArray} (h : Awaits key cache later)
      (hnext : Happens later stored? later') (hother : stored? ≠ some key) : Awaits key cache later'

/-- RAM can be traced, and no tier holds one of some keys. -/
def Free (gone : Set ByteArray) (cache : CacheInstance) : Prop := cache.store.Clear gone gone

section Operations

variable {α : Type} {cache cache' : CacheInstance} {gone gone' : Set ByteArray}
  {key value : ByteArray} {stored? : Option ByteArray} {config : InstanceConfig}

/-- An instance that is free of some keys is free of fewer. -/
theorem Free.of_subset (h : cache.Free gone) (hsub : gone' ⊆ gone) : cache.Free gone' :=
  TieredStore.Clear.of_subset h hsub hsub

/-- The counters of an instance have no part in the keys that it is free of. -/
theorem Free.of_store_eq (h : cache.Free gone) (hstore : cache'.store = cache.store) :
    cache'.Free gone := by
  unfold Free
  rw [hstore]
  exact h

/-- A step of the store changes nothing else of an instance. -/
theorem leads_onStore {step : StoreM α} {before : TieredStore → Prop}
    {after : Except Error α → TieredStore → Prop} (h : Leads before step after) (sets : Nat) :
    Leads (fun cache => before cache.store ∧ cache.sets = sets) (onStore step) fun outcome cache =>
      after outcome cache.store ∧ cache.sets = sets :=
  fun cache hbefore => ⟨h cache.store hbefore.1, hbefore.2⟩

/-- An operation keeps an instance free of keys when its step in the store does. -/
theorem maintains_onStore_free {step : StoreM α}
    (h : Maintains (TieredStore.Clear gone gone) step) : Maintains (Free gone) (onStore step) :=
  fun cache hfree => h cache.store hfree

/-- A read brings back none of the keys that are gone. -/
theorem maintains_get_free (key : ByteArray) : Maintains (Free gone) (get key) := by
  have hlookUp : Maintains (Free gone) (lookUp key) :=
    (maintains_onStore_free (TieredStore.maintains_find_clear key)).bind fun _ => .pure _
  have hcount (found : Bool) : Maintains (Free gone) (countRead found) := by
    apply Maintains.modify
    intro cache hfree
    split <;> exact hfree.of_store_eq rfl
  exact hlookUp.bind fun value? => (hcount _).bind fun _ => .pure value?

/-- A read of a key that no tier holds finds nothing. -/
theorem Free.exists_get (h : cache.Free gone) (hkey : key ∈ gone) :
    ∃ cache', Id.run ((get key).run.run cache) = (.ok none, cache') := by
  have hfind := TieredStore.Clear.yields_find h hkey
  have hrun := run_onStore (TieredStore.find key) cache
  rw [hfind] at hrun
  have hlookUp : Id.run ((lookUp key).run.run cache) = (.ok none, _) := run_bind_of_ok hrun
  exact ⟨_, run_bind_of_ok hlookUp⟩

/-- A removal brings back none of the keys that are gone. -/
theorem maintains_remove_free (key : ByteArray) : Maintains (Free gone) (remove key) :=
  fun cache h => (TieredStore.leads_remove cache.store h).of_subset Set.subset_union_left
    Set.subset_union_left

/-- What follows a failure of a set: the key is dropped, and the failure stays. -/
theorem leads_cleanUp (key : ByteArray) (sets : Nat) (e : Error) :
    Leads (fun cache => cache.Free gone ∧ cache.sets = sets) (do
      tryCatch (discard (remove key)) fun _ => return
      throw e : InstanceM Tier) fun _ cache => cache.Free (gone ∪ {key}) ∧ cache.sets = sets := by
  have hremove : Leads (fun cache => cache.Free gone ∧ cache.sets = sets)
      (discard (remove key) : InstanceM Unit) fun _ cache =>
      cache.Free (gone ∪ {key}) ∧ cache.sets = sets :=
    Leads.discard (leads_onStore TieredStore.leads_remove sets)
  have hcatch := hremove.tryCatch (fun _ _ h => h) fun _ => .of_maintains (.pure ())
  exact hcatch.bind (fun _ _ h => h) fun _ => .throw fun _ h => h

/-- A set that succeeds brings no other key into the store. One that fails leaves its key in no
tier, and is not counted. -/
theorem leads_set (value : ByteArray) (hkey : key ∉ gone) (sets : Nat) :
    Leads (fun cache => cache.Free gone ∧ cache.sets = sets) (set key value) fun outcome cache =>
      cache.Free gone ∧
        ∀ e, outcome = .error e → cache.Free (gone ∪ {key}) ∧ cache.sets = sets := by
  have hinsert : Leads (fun cache => cache.Free gone ∧ cache.sets = sets)
      (onStore (TieredStore.insert key value)) fun _ cache =>
      cache.Free gone ∧ cache.sets = sets :=
    leads_onStore (.of_maintains (TieredStore.maintains_insert_clear hkey)) sets
  have hstore : Leads (fun cache => cache.Free gone ∧ cache.sets = sets) (do
      let tier ← onStore (TieredStore.insert key value)
      modify fun cache => { cache with sets := cache.sets + 1 }
      return tier) fun outcome cache =>
      cache.Free gone ∧ ∀ e, outcome = .error e → cache.sets = sets :=
    hinsert.bind (fun _ _ h => ⟨h.1, fun _ _ => h.2⟩) fun _ _ h => ⟨h.1.of_store_eq rfl, nofun⟩
  refine hstore.tryCatch (fun _ _ h => ⟨h.1, nofun⟩) fun e => ?_
  refine (leads_cleanUp key sets e).imp (fun _ h => ⟨h.1, h.2 e rfl⟩) fun _ cache h => ?_
  exact ⟨h.1.of_subset Set.subset_union_left, fun _ _ => h⟩

/-- A set fails for the reason that its step in the store gives, whatever becomes of the cleanup. -/
theorem exists_set_of_fails {e : Error} {store : TieredStore}
    (hinsert : TieredStore.Fails (TieredStore.insert key value) cache.store e store) :
    ∃ cache', Id.run ((set key value).run.run cache) = (.error e, cache') := by
  have hrun : Id.run ((onStore (TieredStore.insert key value)).run.run cache) =
      (.error e, { cache with store }) := by rw [run_onStore, hinsert]
  let cleaned : CacheInstance :=
    ((discard (remove key) : InstanceM Unit).run.run { cache with store }).2
  have hcleanUp : Id.run ((tryCatch (discard (remove key)) fun _ => return : InstanceM Unit).run.run
      { cache with store }) = (.ok (), cleaned) := by
    rcases hremove : Id.run ((discard (remove key) : InstanceM Unit).run.run { cache with store })
      with ⟨outcome, cache'⟩
    have hcleaned : cleaned = cache' := congrArg Prod.snd hremove
    rw [hcleaned]
    cases outcome with
    | ok => exact run_tryCatch_of_ok hremove
    | error => exact run_tryCatch_of_error hremove
  exact ⟨cleaned, (run_tryCatch_of_error (run_bind_of_error hrun)).trans (run_bind_of_ok hcleanUp)⟩

/-- A new ceiling brings back none of the keys that are gone. -/
theorem maintains_resize_free (bytes : Nat) : Maintains (Free gone) (resize bytes) :=
  (maintains_onStore_free (TieredStore.maintains_resizeBytes_clear bytes)).discard

/-- The end of a tick window brings back none of the keys that are gone. -/
theorem Free.tick {report : TickReport} {traffic : TierTraffic} (h : cache.Free gone)
    (htick : cache.tick = .ok (report, traffic, cache')) : cache'.Free gone := by
  obtain ⟨hstore, _⟩ := eq_of_tick htick
  obtain ⟨hslabs, hindex, hsize⟩ := cache.store.ram.tick_slabs
  unfold Free
  rw [hstore]
  exact ⟨h.traceable.congr hsize hslabs hindex, fun key hkey => (h.ram key hkey).congr hslabs,
    h.disk⟩

/-- As long as a key is not stored, it stays absent. The key may be one of those that are absent,
and is again at the end. -/
theorem Happens.free (hnext : Happens cache stored? cache') (h : cache.Free gone)
    (hother : ∀ key ∈ gone, stored? ≠ some key) : cache'.Free gone := by
  cases hnext with
  | got key => exact maintains_get_free key cache h
  | @stored _ _ key value tier hset =>
    have hkey : key ∉ gone := fun hgone => hother key hgone rfl
    have hafter := leads_set value hkey cache.sets cache ⟨h, rfl⟩
    rw [hset] at hafter
    exact hafter.1
  | @failed _ _ key value e hset =>
    have hkey : key ∉ gone \ {key} := fun hgone => hgone.2 rfl
    have hafter := leads_set value hkey cache.sets cache
      ⟨h.of_subset Set.sdiff_subset, rfl⟩
    rw [hset] at hafter
    exact (hafter.2 e rfl).1.of_subset (Set.sdiff_union_self.symm ▸ Set.subset_union_left)
  | removed key => exact maintains_remove_free key cache h
  | resized bytes => exact maintains_resize_free bytes cache h
  | ticked htick => exact h.tick htick
  | stopped => exact h.of_store_eq rfl
  | disturbed dir => exact ⟨h.traceable, h.ram, h.disk⟩

/-- In every instance that can come about, RAM can be traced. -/
theorem Reachable.free (h : Reachable config cache) (hsmall : config.store.slabSize < wordLimit) :
    cache.Free ∅ := by
  induction h with
  | opened hopen =>
    rw [openIn, ExceptT.run_bind] at hopen
    obtain ⟨outcome, hstore, hopen⟩ := bind_eq_ok_iff.1 hopen
    cases outcome with
    | error e => cases hopen
    | ok store =>
      cases hopen
      obtain ⟨disk, workingSet, _, _, rfl⟩ := TieredStore.exists_of_openIn hstore
      exact ⟨RamTier.traceable_new hsmall .., fun _ => False.elim, fun _ => False.elim⟩
  | next _ hnext ih => exact hnext.free ih fun _ => False.elim

/-- As long as no value of a key is stored, an instance stays free of it. -/
theorem Awaits.free (h : cache.Awaits key cache') (hfree : cache.Free {key}) :
    cache'.Free {key} := by
  induction h with
  | start => exact hfree
  | next _ hnext hother ih =>
    refine hnext.free ih ?_
    rintro _ rfl
    exact hother

/-- **A failed set leaves no stale value.** Whatever happened to an instance and to its directory: a
set that fails, for any reason, is not counted, and from then on no tier holds its key and a read of
it finds nothing, until a value of the key is stored. -/
theorem Reachable.failed_set_leaves_nothing {e : Error} (h : Reachable config cache)
    (hsmall : config.store.slabSize < wordLimit)
    (hset : Id.run ((set key value).run.run cache) = (.error e, cache')) :
    cache'.sets = cache.sets ∧ ∀ later, cache'.Awaits key later →
      later.store.tierOf key = none ∧
        ∃ later', Id.run ((get key).run.run later) = (.ok none, later') := by
  have hafter := leads_set value (Set.notMem_empty key) cache.sets cache
    ⟨h.free hsmall, rfl⟩
  rw [hset] at hafter
  obtain ⟨hfree, hsets⟩ := hafter.2 e rfl
  refine ⟨hsets, fun later hlater => ?_⟩
  have hfree : later.Free {key} := hlater.free (hfree.of_subset Set.subset_union_right)
  exact ⟨TieredStore.Clear.tierOf_eq_none hfree rfl, hfree.exists_get rfl⟩

/-- A value that is too large takes the earlier one of its key away. -/
theorem Reachable.failed_set_leaves_nothing_of_large :
    let config : InstanceConfig := { store := { trackedKeys := 1, maxValueSize := 1 } }
    config.store.slabSize < wordLimit ∧ ∃ cache cache' e, Reachable config cache ∧
      (∃ read, Id.run ((get ⟨#[107]⟩).run.run cache) = (.ok (some ⟨#[118]⟩), read)) ∧
      Id.run ((set ⟨#[107]⟩ ⟨#[1, 2]⟩).run.run cache) = (.error e, cache') ∧
      cache'.store.tierOf ⟨#[107]⟩ = none := by
  intro config
  have hconfig : config.store.Lossless := ⟨by decide, by decide, by decide, rfl⟩
  obtain ⟨store, hstore⟩ := TieredStore.exists_openIn config.store (by decide) (by decide +kernel)
  have hopen : (openIn config .empty).run = .ok (.ok { config, store }) := by
    rw [openIn, ExceptT.run_bind, hstore]
    rfl
  have hopened := serving_of_openIn hconfig hopen
  have hkey : (⟨#[107]⟩ : ByteArray).size ≤ config.store.maxKeySize := by decide
  have hfits : (⟨#[118]⟩ : ByteArray).size ≤ config.store.maxValueSize := by decide
  obtain ⟨tier, cache, hset, hserving⟩ := hopened.exists_set hconfig (by decide) hkey hfits
  have hreachable : Reachable config cache := (Reachable.opened hopen).next (.stored hset)
  have hfew : 0 + RamTier.opens store.ram cache.store.ram < wordLimit := by
    have := RamTier.opens_le_one store.ram cache.store.ram
    rw [wordLimit]
    omega
  obtain ⟨read, hget, _⟩ := hserving.exists_get hfew ⟨#[107]⟩
  rw [Function.update_self] at hget
  have hlarge : config.store.maxKeySize < (⟨#[107]⟩ : ByteArray).size ∨
      config.store.maxValueSize < (⟨#[1, 2]⟩ : ByteArray).size := .inr (by decide)
  obtain ⟨e, hrefused⟩ := hserving.intact.exists_refusal hlarge
  obtain ⟨cache', hfailed⟩ := exists_set_of_fails hrefused
  obtain ⟨_, habsent⟩ := hreachable.failed_set_leaves_nothing (by decide) hfailed
  exact ⟨by decide, cache, cache', e, hreachable, ⟨read, hget⟩, hfailed, (habsent cache' .start).1⟩

end Operations

end ElasticCache.CacheInstance
