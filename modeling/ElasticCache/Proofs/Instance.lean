import ElasticCache.Instance
import ElasticCache.Proofs.Storage.TieredRuns

/-!
# Steps of a cache instance

An instance does the steps of its store and counts them. As long as no file operation fails, it
holds the last value of every key, whatever it is asked and however its ceiling moves.
-/

namespace ElasticCache.CacheInstance

/-! ## Outcomes of operations -/

/-- What an instance becomes by an operation, however that ends. -/
def after {α : Type} (operation : InstanceM α) (cache : CacheInstance) : CacheInstance :=
  (Id.run (operation.run.run cache)).2

section Outcomes

variable {α : Type} {cache cache' : CacheInstance}

/-- A step of the store is one of the instance that leaves all else. -/
theorem run_onStore (operation : StoreM α) (cache : CacheInstance) :
    Id.run ((onStore operation).run.run cache) =
      ((Id.run (operation.run.run cache.store)).1,
        { cache with store := (Id.run (operation.run.run cache.store)).2 }) := rfl

/-- A value whose key neither tier holds goes to RAM when there is room for it. -/
theorem after_set_of_room {key value : ByteArray} {ram : RamTier}
    (hkey : key.size ≤ cache.store.config.maxKeySize)
    (hvalue : value.size ≤ cache.store.config.maxValueSize)
    (hremove : TieredStore.Yields (TieredStore.remove key) cache.store false cache.store)
    (hroom : cache.store.ram.insert key value = (true, ram)) :
    (cache.after (set key value)).store.ram = ram ∧
      (cache.after (set key value)).store.config = cache.store.config := by
  obtain ⟨store, hinsert, hsame⟩ := TieredStore.exists_insert_of_room hkey hvalue hremove hroom
  have hrun : Id.run ((onStore (TieredStore.insert key value)).run.run cache) =
      (.ok .ram, { cache with store }) := by
    rw [run_onStore, hinsert]
  have hset : Id.run ((set key value).run.run cache) =
      (.ok .ram, { cache with store, sets := cache.sets + 1 }) := by
    apply run_tryCatch_of_ok
    exact run_bind_of_ok hrun
  rw [after, hset]
  exact ⟨hsame.ram_eq, hsame.config_eq⟩

/-- The end of a tick window is one for RAM, and for the counters. -/
theorem eq_of_tick {report : TickReport} {traffic : TierTraffic}
    (h : cache.tick = .ok (report, traffic, cache')) :
    cache'.store = { cache.store with ram := cache.store.ram.tick.2 } ∧
      cache'.config = cache.config ∧ cache'.stopped = cache.stopped := by
  unfold tick at h
  obtain ⟨_, _, h⟩ := bind_eq_ok_iff.1 h
  obtain ⟨_, _, h⟩ := bind_eq_ok_iff.1 h
  obtain ⟨_, h⟩ := Prod.mk.inj (Except.ok.inj h)
  rw [← (Prod.mk.inj h).2]
  exact ⟨rfl, rfl, rfl⟩

end Outcomes

/-! ## Instances that lose nothing -/

/-- A running instance of the given configuration whose store keeps a map over a disk without a
budget. -/
structure Serving (cache : CacheInstance) (config : InstanceConfig) (opened : Nat)
    (held : ByteArray → Option ByteArray) : Prop where
  config_eq : cache.config = config
  running : cache.stopped = false
  intact : cache.store.Intact config.store opened held

section Serving

variable {cache cache' : CacheInstance} {config : InstanceConfig} {opened : Nat}
  {held : ByteArray → Option ByteArray} {key value : ByteArray}

/-- An instance that was opened on an empty directory serves the empty map. -/
theorem serving_of_openIn (hconfig : config.store.Lossless)
    (hopen : (openIn config .empty).run = .ok (.ok cache)) :
    cache.Serving config 0 fun _ => none := by
  rw [openIn, ExceptT.run_bind] at hopen
  obtain ⟨outcome, hstore, hopen⟩ := bind_eq_ok_iff.1 hopen
  cases outcome with
  | error e => cases hopen
  | ok store =>
    cases hopen
    exact ⟨rfl, rfl, hconfig.unlimited, TieredStore.keeps_of_openIn hconfig.slabSize_lt hstore⟩

/-- A read answers the value of its key. -/
theorem Serving.exists_get (h : cache.Serving config opened held) (hopened : opened < wordLimit)
    (key : ByteArray) :
    ∃ cache', Id.run ((get key).run.run cache) = (.ok (held key), cache') ∧
      cache'.Serving config (opened + RamTier.opens cache.store.ram cache'.store.ram) held := by
  obtain ⟨found, store, hfind, hvalue, hintact⟩ := h.intact.exists_find hopened key
  have hlookUp : Id.run ((lookUp key).run.run cache) =
      (.ok (held key), { cache with store }) := by
    have hrun : Id.run ((onStore (TieredStore.find key)).run.run cache) =
        (.ok found, { cache with store }) := by
      rw [run_onStore, hfind]
    rw [lookUp, run_bind_of_ok hrun, ← hvalue]
    rfl
  let counted : CacheInstance :=
    if (held key).isSome then { cache with store, hits := cache.hits + 1 }
    else { cache with store, misses := cache.misses + 1 }
  have hcount : Id.run ((countRead (held key).isSome).run.run { cache with store }) =
      (.ok (), counted) := rfl
  have hcounted : counted.config = cache.config ∧ counted.stopped = cache.stopped ∧
      counted.store = store := by
    unfold counted
    split <;> exact ⟨rfl, rfl, rfl⟩
  obtain ⟨hsame, hrunning, hstore⟩ := hcounted
  refine ⟨counted, (run_bind_of_ok hlookUp).trans (run_bind_of_ok hcount), ?_⟩
  rw [hstore]
  exact ⟨hsame.trans h.config_eq, hrunning.trans h.running, hstore ▸ hintact⟩

/-- A record within the limits is stored. -/
theorem Serving.exists_set (h : cache.Serving config opened held) (hconfig : config.store.Lossless)
    (hopened : opened < wordLimit) (hkey : key.size ≤ config.store.maxKeySize)
    (hvalue : value.size ≤ config.store.maxValueSize) :
    ∃ tier cache', Id.run ((set key value).run.run cache) = (.ok tier, cache') ∧
      cache'.Serving config (opened + RamTier.opens cache.store.ram cache'.store.ram)
        (Function.update held key (some value)) := by
  obtain ⟨tier, store, hinsert, _, hintact⟩ :=
    h.intact.exists_insert hconfig hopened hkey hvalue
  have hrun : Id.run ((onStore (TieredStore.insert key value)).run.run cache) =
      (.ok tier, { cache with store }) := by
    rw [run_onStore, hinsert]
  refine ⟨tier, { cache with store, sets := cache.sets + 1 }, ?_, h.config_eq, h.running, hintact⟩
  apply run_tryCatch_of_ok
  exact run_bind_of_ok hrun

/-- A change of the ceiling loses nothing. -/
theorem Serving.resize (h : cache.Serving config opened held) (bytes : Nat) :
    (cache.after (resize bytes)).Serving config
      (opened + RamTier.opens cache.store.ram (cache.after (resize bytes)).store.ram) held := by
  obtain ⟨left, store, hresize, hnext, hintact⟩ := h.intact.exists_resizeBytes bytes
  have hafter : cache.after (CacheInstance.resize bytes) = { cache with store } := by
    rw [after, CacheInstance.resize, run_discard, run_onStore, hresize]
  rw [hafter, RamTier.opens_of_eq hnext]
  exact ⟨h.config_eq, h.running, hintact⟩

/-- The end of a tick window loses nothing. -/
theorem Serving.tick {report : TickReport} {traffic : TierTraffic}
    (h : cache.Serving config opened held) (htick : cache.tick = .ok (report, traffic, cache')) :
    cache'.Serving config (opened + RamTier.opens cache.store.ram cache'.store.ram) held := by
  obtain ⟨hstore, hconfig, hrunning⟩ := eq_of_tick htick
  obtain ⟨stale, store, hticked, hnext, hintact⟩ := h.intact.exists_tick
  obtain ⟨_, heq⟩ := hticked.unique (TieredStore.yields_onRam RamTier.tick cache.store)
  rw [hstore, heq, RamTier.opens_of_eq hnext]
  exact ⟨hconfig.trans h.config_eq, hrunning.trans h.running, hstore ▸ heq ▸ hintact⟩

end Serving

end ElasticCache.CacheInstance
