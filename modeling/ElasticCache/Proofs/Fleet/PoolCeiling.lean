import ElasticCache.Fleet.Site
import ElasticCache.Proofs.Fleet.Allotments
import ElasticCache.Proofs.Instance
import ElasticCache.Proofs.Storage.RamCeiling

/-!
# The RAM of a fleet of cache instances

Each cache instance keeps its slabs within its own ceiling, and an allocation that it accepts
becomes its ceiling, in whole slabs. So whatever the clients of the instances do, and whatever
becomes of their disks, the slabs of all members of a fleet are within its pool.
-/

namespace ElasticCache

namespace CacheInstance

/-! ## One instance -/

/-- The RAM of an instance has the ceiling that an allocation stands for, and is within it. -/
def Confined (cache : CacheInstance) (size : Nat) : Prop :=
  cache.store.ram.Capped cache.store.config.slabSize (size / cache.store.config.slabSize)

section Operations

variable {α : Type} {cache cache' : CacheInstance} {size : Nat}

/-- An instance whose RAM has the ceiling of an allocation is within that allocation. -/
theorem confined_of_capped (hconfig : cache'.store.config = cache.store.config)
    (hcapped : cache'.store.ram.Capped cache.store.config.slabSize
      (size / cache.store.config.slabSize)) : cache'.Confined size := by
  unfold Confined
  rw [hconfig]
  exact hcapped

/-- An instance that is opened without slabs is within nothing. -/
theorem confined_of_openIn {config : InstanceConfig} {dir : Directory}
    (hceiling : config.store.maxSlabs = 0) (hopen : (openIn config dir).run = .ok (.ok cache)) :
    cache.Confined 0 := by
  rw [openIn, ExceptT.run_bind] at hopen
  obtain ⟨outcome, hstore, hopen⟩ := bind_eq_ok_iff.1 hopen
  cases outcome with
  | error e => cases hopen
  | ok store =>
    cases hopen
    have hslab := TieredStore.minSlabSize_le_of_openIn hstore
    obtain ⟨disk, workingSet, _, _, rfl⟩ := TieredStore.exists_of_openIn hstore
    unfold Confined
    dsimp only
    rw [hceiling, Nat.zero_div]
    apply RamTier.capped_new
    exact le_trans (by decide) hslab

/-- The counters of an instance have no part in its ceiling. -/
theorem Confined.of_store_eq (h : cache.Confined size) (hstore : cache'.store = cache.store) :
    cache'.Confined size := by
  unfold Confined
  rw [hstore]
  exact h

/-- An operation leaves an instance within its allocation when its step in the store does. -/
theorem maintains_onStore {step : StoreM α}
    (h : ∀ slabSize maxSlabs config, Maintains (TieredStore.Within slabSize maxSlabs config) step) :
    Maintains (Confined · size) (onStore step) := by
  intro cache hconfined
  obtain ⟨hcapped, hconfig⟩ := h _ _ _ cache.store ⟨hconfined, rfl⟩
  exact confined_of_capped hconfig hcapped

/-- A read leaves an instance within its allocation, promotions included. -/
theorem maintains_get (key : ByteArray) : Maintains (Confined · size) (get key) := by
  have hlookUp : Maintains (Confined · size) (lookUp key) :=
    (maintains_onStore fun _ _ _ => TieredStore.lasting_within.maintains_find key).bind fun _ =>
      .pure _
  have hcount (found : Bool) : Maintains (Confined · size) (countRead found) := by
    apply Maintains.modify
    intro cache hconfined
    split <;> exact hconfined.of_store_eq rfl
  exact hlookUp.bind fun value? => (hcount _).bind fun _ => .pure value?

/-- A removal leaves an instance within its allocation. -/
theorem maintains_remove (key : ByteArray) : Maintains (Confined · size) (remove key) :=
  maintains_onStore fun _ _ _ => TieredStore.lasting_within.maintains_remove key

/-- A write leaves an instance within its allocation, whether it fails or not. -/
theorem maintains_set (key value : ByteArray) : Maintains (Confined · size) (set key value) := by
  apply Maintains.tryCatch
  · have hinsert : Maintains (Confined · size) (onStore (TieredStore.insert key value)) :=
      maintains_onStore fun _ _ _ => TieredStore.lasting_within.maintains_insert key value
    refine hinsert.bind fun tier =>
      Maintains.bind (.modify fun cache hconfined => ?_) fun _ => .pure _
    exact hconfined.of_store_eq rfl
  · intro e
    exact ((maintains_remove key).discard.tryCatch fun _ => .pure ()).bind fun _ => .throw e

/-- The end of a tick window leaves an instance within its allocation. -/
theorem Confined.tick {report : TickReport} {traffic : TierTraffic} (h : cache.Confined size)
    (htick : cache.tick = .ok (report, traffic, cache')) : cache'.Confined size := by
  obtain ⟨hstore, _⟩ := eq_of_tick htick
  unfold Confined
  rw [hstore]
  exact RamTier.Capped.tick h

/-- An instance that stops stays within its allocation. -/
theorem Confined.stop (h : cache.Confined size) : cache.stop.Confined size := h.of_store_eq rfl

/-- Only the RAM and the configuration of the store count. -/
theorem Confined.with_disk (h : cache.Confined size) (disk : DiskTier) :
    Confined { cache with store := { cache.store with disk } } size := h

/-- An allocation that is accepted is the ceiling from then on. -/
theorem Confined.resize {given : Nat} (h : cache.Confined size)
    (hgiven : (cache.respondPush given).1.isAnswered) :
    (cache.respondPush given).2.Confined given := by
  unfold respondPush at hgiven ⊢
  split
  next hstopped =>
    rw [if_pos hstopped] at hgiven
    cases hgiven
  next hrunning =>
    rw [if_neg hrunning] at hgiven
    rcases hstore : Id.run ((TieredStore.resizeBytes given).run.run cache.store) with
      ⟨outcome, store'⟩
    have hresize : Id.run ((CacheInstance.resize given).run.run cache) =
        (outcome.map fun _ => (), { cache with store := store' }) := by
      rw [CacheInstance.resize, run_discard, run_onStore, hstore]
    rw [hresize] at hgiven ⊢
    cases outcome with
    | error e => cases hgiven
    | ok left =>
      obtain ⟨hcapped, hconfig⟩ := TieredStore.Runs.capped_of_resizeBytes hstore h.regular
      unfold Confined
      dsimp only [Except.map]
      rw [hconfig]
      exact hcapped

end Operations

/-- What happens at an instance apart from the requests of its fleet. Its disk may become any other
at any time, so that a read may find nothing or something else and a compaction may fail. An append
always succeeds. -/
inductive Step : CacheInstance → CacheInstance → Prop
  | got (key : ByteArray) (cache : CacheInstance) : Step cache (cache.after (get key))
  | set (key value : ByteArray) (cache : CacheInstance) :
    Step cache (cache.after (CacheInstance.set key value))
  | removed (key : ByteArray) (cache : CacheInstance) : Step cache (cache.after (remove key))
  | ticked {cache cache' : CacheInstance} {report : TickReport} {traffic : TierTraffic}
      (tick : cache.tick = .ok (report, traffic, cache')) : Step cache cache'
  | stopped (cache : CacheInstance) : Step cache cache.stop
  | diskChanged (disk : DiskTier) (cache : CacheInstance) :
    Step cache { cache with store := { cache.store with disk } }

/-- Whatever happens at an instance leaves it within its allocation. -/
theorem Step.confined {cache cache' : CacheInstance} {size : Nat} (step : Step cache cache')
    (h : cache.Confined size) : cache'.Confined size := by
  cases step with
  | got key => exact maintains_get key cache h
  | set key value => exact maintains_set key value cache h
  | removed key => exact maintains_remove key cache h
  | ticked tick => exact h.tick tick
  | stopped => exact h.stop
  | diskChanged disk => exact h.with_disk disk

end CacheInstance

namespace Site

/-! ## The instances of a site -/

/-- A cache instance of a site runs within an allocation. -/
def RunsWith : SiteName → (size : Nat) → Site → Prop
  | .cache name, size, site => ∃ cache, site.instances[name]? = some cache ∧ cache.Confined size
  | .rehearsal _, _, _ => False

/-- Bytes of RAM that an instance of a site has in slabs. Rehearsed ones have no slabs. -/
def loadedBytes (site : Site) : SiteName → Nat
  | .cache name =>
    match site.instances[name]? with
    | some cache => cache.store.ram.loadedSlabs * cache.store.config.slabSize
    | none => 0
  | .rehearsal _ => 0

section Requests

variable {site site' : Site} {name : String} {cache cache' : CacheInstance} {size : Nat}

/-- Replacing an instance leaves those of other names. -/
theorem getElem?_putInstance (site : Site) (name other : String) (cache : CacheInstance) :
    (site.putInstance name cache).instances[other]? =
      if name = other then some cache else site.instances[other]? := by
  unfold putInstance
  rw [Std.TreeMap.getElem?_insert]
  simp only [Std.compare_eq_iff_eq]

/-- What a stop leaves so of an instance of a site is left so by all requests but a new allocation
for it. -/
theorem spares_of_stop {fact : Option CacheInstance → Prop}
    (hstop : ∀ cache, fact (some cache) → fact (some cache.stop)) :
    peers.Spares (.cache name) fun site => fact site.instances[name]? := by
  constructor
  · intro other site hfact
    have hsite : (site.poll other).2 = site := by
      unfold poll
      split
      next => split <;> rfl
      next => rfl
    exact hsite.symm ▸ hfact
  · intro other site hfact
    change fact (stop other site).instances[name]?
    unfold stop
    split
    next other =>
      split
      next cache hcache =>
        rw [getElem?_putInstance]
        split
        next heq =>
          rw [← heq, hcache] at hfact
          exact hstop cache hfact
        next => exact hfact
      next => exact hfact
    next => exact hfact
  · intro other size site hne hfact
    change fact (push other size site).2.instances[name]?
    unfold push
    split
    next other =>
      split
      next cache _ =>
        have hother : other ≠ name := fun heq => hne (congrArg _ heq)
        change fact (site.putInstance other (cache.respondPush size).2).instances[name]?
        rw [getElem?_putInstance, if_neg hother]
        exact hfact
      next => exact hfact
    next => exact hfact

/-- The instances of a site heed their allocations. -/
theorem heeds : peers.Heeds RunsWith := by
  constructor
  · intro peer size
    cases peer with
    | cache name =>
      let fact (cache? : Option CacheInstance) : Prop :=
        ∃ cache, cache? = some cache ∧ cache.Confined size
      have hstop (cache : CacheInstance) : fact (some cache) → fact (some cache.stop) := by
        rintro ⟨_, heq, hconfined⟩
        obtain rfl := Option.some.inj heq
        exact ⟨_, rfl, hconfined.stop⟩
      exact spares_of_stop hstop
    | rehearsal name => exact ⟨nofun, nofun, nofun⟩
  · intro peer size given site hruns hgiven
    cases peer with
    | rehearsal name => cases hruns
    | cache name =>
      obtain ⟨cache, hcache, hconfined⟩ := hruns
      change ∃ cache, (push (.cache name) given site).2.instances[name]? = some cache ∧ _
      change (push (.cache name) given site).1.isAnswered at hgiven
      simp only [push, hcache] at hgiven ⊢
      rw [getElem?_putInstance, if_pos rfl]
      exact ⟨_, rfl, hconfined.resize hgiven⟩

end Requests

/-! ## Runs -/

/-- What happens at a site apart from the requests of its fleet: an instance is opened without
slabs, under a new name, or one takes a step. -/
inductive Step : Site → Site → Prop
  | opened {site : Site} {name : String} {config : InstanceConfig} {dir : Directory}
      {cache : CacheInstance} (fresh : site.instances[name]? = none)
      (ceiling : config.store.maxSlabs = 0)
      (opens : (CacheInstance.openIn config dir).run = .ok (.ok cache)) :
    Step site (site.putInstance name cache)
  | stepped {site : Site} {name : String} {cache cache' : CacheInstance}
      (found : site.instances[name]? = some cache) (step : cache.Step cache') :
    Step site (site.putInstance name cache')

/-- What a fleet of cache instances can come to, with those that joined so far, the latest first.
Each joins once. -/
inductive Run : List SiteName → Scene Site SiteName → Prop
  | opened {config : FleetConfig} (fits : config.market.poolSize < longLimit) (journal : Journal)
      (metrics : Metrics) :
    Run [] ⟨{ config, market := .new config.market, journal, metrics }, {}⟩
  | stepped {joined : List SiteName} {scene : Scene Site SiteName} {site : Site}
      (run : Run joined scene) (step : Step scene.world site) :
    Run joined { scene with world := site }
  | registered {joined : List SiteName} {scene : Scene Site SiteName} {name : String}
      {requested : Nat} {registration : Registration} {fleet : Fleet SiteName}
      (run : Run joined scene) (opened : (scene.world.instances[name]?).isSome)
      (once : .cache name ∉ joined)
      (register : (scene.fleet.register requested (.cache name)).run =
        .ok (.ok (registration, fleet))) : Run (.cache name :: joined) { scene with fleet }
  | removed {joined : List SiteName} {scene : Scene Site SiteName} (uid : Nat)
      (run : Run joined scene) : Run joined { scene with fleet := (scene.fleet.remove uid).2 }
  | rounded {joined : List SiteName} {scene scene' : Scene Site SiteName}
      {target : Account → Nat} {elapsed : Duration} {report : RoundReport} (run : Run joined scene)
      (round : scene.roundWith peers target elapsed = .ok (report, scene')) : Run joined scene'
  | shutDown {joined : List SiteName} {scene : Scene Site SiteName} (run : Run joined scene) :
    Run joined (scene.shutdown peers)

/-- Members run within their allocations, and instances that did not join have no slabs. -/
structure Sound (scene : Scene Site SiteName) (joined : List SiteName) (pool : Nat) : Prop where
  allotted : scene.Allotted RunsWith pool joined []
  idle : ∀ name, .cache name ∉ joined → ∀ cache, scene.world.instances[name]? = some cache →
    cache.Confined 0
  fits : pool < longLimit

section Soundness

variable {site site' : Site} {scene scene' : Scene Site SiteName} {joined : List SiteName}
  {pool size : Nat}

/-- Whatever happens at a site leaves its instances within their allocations. -/
theorem Step.runsWith (step : Step site site') {peer : SiteName} (h : RunsWith peer size site) :
    RunsWith peer size site' := by
  cases peer with
  | rehearsal name => cases h
  | cache name =>
    obtain ⟨cache, hcache, hconfined⟩ := h
    cases step with
    | opened fresh ceiling opens =>
      refine ⟨cache, ?_, hconfined⟩
      rw [getElem?_putInstance, if_neg]
      · exact hcache
      · rintro rfl
        rw [hcache] at fresh
        cases fresh
    | @stepped other cache' cache'' found step =>
      rw [RunsWith, getElem?_putInstance]
      split
      next heq =>
        subst heq
        obtain rfl := Option.some.inj (found.symm.trans hcache)
        exact ⟨_, rfl, step.confined hconfined⟩
      next => exact ⟨cache, hcache, hconfined⟩

/-- Whatever happens at a site leaves instances without slabs as long as nothing is allocated. -/
theorem Step.idle (step : Step site site') {name : String}
    (h : ∀ cache, site.instances[name]? = some cache → cache.Confined 0) :
    ∀ cache, site'.instances[name]? = some cache → cache.Confined 0 := by
  cases step with
  | opened fresh ceiling opens =>
    intro cache hcache
    rw [getElem?_putInstance] at hcache
    split at hcache
    next =>
      obtain rfl := Option.some.inj hcache
      exact CacheInstance.confined_of_openIn ceiling opens
    next => exact h cache hcache
  | stepped found step =>
    intro cache hcache
    rw [getElem?_putInstance] at hcache
    split at hcache
    next heq =>
      obtain rfl := Option.some.inj hcache
      exact step.confined (h _ (heq ▸ found))
    next => exact h cache hcache

/-- An instance without slabs is left so by all requests but an allocation for it. -/
theorem spares_idle (name : String) : peers.Spares (.cache name) fun site =>
    ∀ cache, site.instances[name]? = some cache → cache.Confined 0 := by
  let fact (cache? : Option CacheInstance) : Prop :=
    ∀ cache, cache? = some cache → cache.Confined 0
  have hstop (cache : CacheInstance) (h : fact (some cache)) : fact (some cache.stop) := by
    intro _ heq
    obtain rfl := Option.some.inj heq
    exact (h cache rfl).stop
  exact spares_of_stop hstop

/-- Every run keeps the members within their allocations and the others without slabs. The latter
are followed too since an instance that joins must come without slabs. -/
theorem Run.sound (run : Run joined scene) : ∃ pool, Sound scene joined pool := by
  induction run with
  | opened fits journal metrics =>
    refine ⟨_, Scene.allotted_new _ rfl rfl rfl, ?_, fits⟩
    intro name _ cache hcache
    cases hcache
  | stepped run step ih =>
    obtain ⟨pool, hsound⟩ := ih
    refine ⟨pool, ?_, ?_, hsound.fits⟩
    · exact hsound.allotted.congr rfl rfl rfl fun _ _ _ _ => step.runsWith
    · exact fun name hname => step.idle (hsound.idle name hname)
  | registered run opened once register ih =>
    obtain ⟨pool, hsound⟩ := ih
    obtain ⟨cache, hcache⟩ := Option.isSome_iff_exists.1 opened
    refine ⟨pool, ?_, ?_, hsound.fits⟩
    · exact hsound.allotted.register once ⟨cache, hcache, hsound.idle _ once cache hcache⟩ register
    · exact fun other hother => hsound.idle other fun hmem => hother (List.mem_cons_of_mem _ hmem)
  | removed uid run ih =>
    obtain ⟨pool, hsound⟩ := ih
    exact ⟨pool, hsound.allotted.remove uid, hsound.idle, hsound.fits⟩
  | rounded run round ih =>
    obtain ⟨pool, hsound⟩ := ih
    obtain ⟨hallotted, hspared⟩ := hsound.allotted.roundWith heeds round
    refine ⟨pool, hallotted, ?_, hsound.fits⟩
    exact fun name hname =>
      hspared (.cache name) _ hname (spares_idle name) (hsound.idle name hname)
  | shutDown run ih =>
    obtain ⟨pool, hsound⟩ := ih
    refine ⟨pool, hsound.allotted.shutdown, ?_, hsound.fits⟩
    exact fun name hname => Scene.spares_shutdown (spares_idle name) (hsound.idle name hname)

/-- The pool of a fleet is a 64-bit amount. -/
theorem poolSize_lt_of_normalize {config normalized : FleetConfig}
    (h : config.normalize.run = .ok (.ok normalized)) : normalized.market.poolSize < longLimit := by
  unfold FleetConfig.normalize at h
  by_cases hzero : config.slabSize = 0
  · rw [if_pos hzero] at h
    cases h
  · rw [if_neg hzero] at h
    by_cases hfrequency : (!(config.frequency.isFinite && decide (config.frequency > 0))) = true
    · simp only [hfrequency, if_true] at h
      cases h
    · simp only [hfrequency] at h
      cases hslabs : config.wholeSlabs with
      | error fault =>
        rw [hslabs] at h
        cases h
      | ok slabs =>
        rw [hslabs] at h
        cases h
        exact (fitLong_eq_ok_iff.1 hslabs).2 ▸ (fitLong_eq_ok_iff.1 hslabs).1

/-- A fleet that was opened is at the start of a run. -/
theorem Run.of_new {config : FleetConfig} {fleet : Fleet SiteName}
    (h : (Fleet.new config : ExceptT Error (Except Fault) (Fleet SiteName)).run =
      .ok (.ok fleet)) : Run [] ⟨fleet, {}⟩ := by
  rw [Fleet.new, ExceptT.run_bind] at h
  obtain ⟨outcome, hnormalize, h⟩ := bind_eq_ok_iff.1 h
  cases outcome with
  | error e => cases h
  | ok normalized =>
    cases h
    exact .opened (poolSize_lt_of_normalize hnormalize) {} _

/-- **The pool is the ceiling of the fleet.** After every operation of a run, whatever became of the
disks of the instances, each member has the whole slabs of its allocation for a ceiling and is
within it. So the slabs of all members are within the pool. -/
theorem Run.within_pool (run : Run joined scene) :
    (∀ uid peer, scene.fleet.members[uid]? = some peer →
      ∃ name cache size, peer = .cache name ∧ scene.world.instances[name]? = some cache ∧
        scene.fleet.allocation? uid = some size ∧
        let wholeSlabs := size / cache.store.config.slabSize * cache.store.config.slabSize
        cache.store.ram.memorySize = .ok wholeSlabs ∧
          cache.store.ram.loadedSlabs ≤ cache.store.ram.maxSlabs ∧
          cache.store.ram.memoryUsage ≤ wholeSlabs) ∧
      (scene.fleet.members.toList.map fun member => scene.world.loadedBytes member.2).sum ≤
        scene.fleet.poolSize := by
  obtain ⟨pool, hallotted, _, hfits⟩ := run.sound
  constructor
  · intro uid peer hpeer
    obtain ⟨account, haccount⟩ := hallotted.exists_account hpeer
    have hruns := hallotted.running uid peer account hpeer haccount
    rw [if_neg List.not_mem_nil] at hruns
    cases peer with
    | rehearsal name => cases hruns
    | cache name =>
      obtain ⟨cache, hcache, hregular, hwithin⟩ := hruns
      have hsize : account.size ≤ pool :=
        (Market.le_total haccount (·.size)).trans hallotted.within
      refine ⟨name, cache, account.size, rfl, hcache, ?_, ?_, ?_, ?_⟩
      · rw [Fleet.allocation?, haccount, Option.map_some]
      · rw [RamTier.memorySize, hregular.maxSlabs_eq, hregular.slabSize_eq]
        apply fitLong_eq_ok
        exact ((Nat.div_mul_le_self _ _).trans hsize).trans_lt hfits
      · rw [hregular.maxSlabs_eq]
        exact hwithin
      · exact hregular.memoryUsage_le.trans (Nat.mul_le_mul_right _ hwithin)
  · rw [hallotted.pool_eq]
    apply hallotted.sum_le
    intro peer size hruns
    cases peer with
    | rehearsal name => cases hruns
    | cache name =>
      obtain ⟨cache, hcache, _, hwithin⟩ := hruns
      simp only [loadedBytes, hcache]
      exact (Nat.mul_le_mul_right _ hwithin).trans (Nat.div_mul_le_self _ _)

/-- An instance without slabs on an empty directory, when it opens. -/
def openedCache? (slabSize : Nat) : Option CacheInstance :=
  match (CacheInstance.openIn { store := { slabSize, maxSlabs := 0, trackedKeys := 1 } }
    .empty).run with
  | .ok (.ok cache) => some cache
  | _ => none

/-- An instance that was found by opening one is opened on an empty directory. -/
theorem openIn_of_openedCache? {slabSize : Nat} {cache : CacheInstance}
    (h : openedCache? slabSize = some cache) :
    (CacheInstance.openIn { store := { slabSize, maxSlabs := 0, trackedKeys := 1 } } .empty).run =
      .ok (.ok cache) := by
  unfold openedCache? at h
  split at h
  next hopen =>
    obtain rfl := Option.some.inj h
    exact hopen
  next => cases h

/-- A fleet of 256 bytes that two instances joined. -/
def pairFleet : Fleet SiteName where
  config := { market := { poolSize := 256, minSlabSize := 64, maxWallet := 256 }, slabSize := 64 }
  market := {
    config := { poolSize := 256, minSlabSize := 64, maxWallet := 256 }
    accounts := (∅ : Std.TreeMap Nat Account).insertMany
      [(1, (⟨100, 0, 0, 0, ⟨[0], 10⟩, 0⟩ : Account)), (2, ⟨100, 0, 0, 0, ⟨[0], 10⟩, 0⟩)] }
  members := (∅ : Std.TreeMap Nat SiteName).insertMany [(1, .cache "a"), (2, .cache "b")]
  nextUid := 3
  journal := ⟨[⟨.epoch, .registered 1 100 100⟩, ⟨.epoch, .registered 2 100 100⟩], true, .epoch⟩
  metrics := { instances := 2 }

/-- An instance has no records, and RAM takes a first one within the limits into a slab. -/
def takesFirst (cache : CacheInstance) (key value : ByteArray) : Bool :=
  cache.store.ram.index.isEmpty && cache.store.disk.index.places.isEmpty &&
    key.size ≤ cache.store.config.maxKeySize && value.size ≤ cache.store.config.maxValueSize &&
    (cache.store.ram.insert key value).1 && (cache.store.ram.insert key value).2.loadedSlabs == 1

/-- A first record that RAM takes is stored there. -/
theorem loadedSlabs_of_takesFirst {cache : CacheInstance} {key value : ByteArray}
    (h : takesFirst cache key value = true) :
    (cache.after (CacheInstance.set key value)).store.ram.loadedSlabs = 1 ∧
      (cache.after (CacheInstance.set key value)).store.config = cache.store.config := by
  simp only [takesFirst, Bool.and_eq_true, decide_eq_true_eq, beq_iff_eq] at h
  obtain ⟨⟨⟨⟨⟨hindex, hplaces⟩, hkey⟩, hvalue⟩, hroom⟩, hloaded⟩ := h
  have hlocate : cache.store.ram.locate? key = none := by
    rw [RamTier.locate?, Std.HashMap.getElem?_of_isEmpty hindex]
    rfl
  have hram : cache.store.ram.remove key = (false, cache.store.ram) := by
    rw [RamTier.remove, hlocate]
  have hdisk : cache.store.disk.remove key = (.ok false, cache.store.disk) := by
    refine DiskTier.remove_eq_missed ?_
    rw [DiskTier.contains, decide_eq_true_eq]
    exact Std.HashMap.not_mem_of_isEmpty hplaces
  obtain ⟨hafter, hconfig⟩ := CacheInstance.after_set_of_room hkey hvalue
    (TieredStore.yields_remove_of_kept hram hdisk) (Prod.ext hroom rfl)
  exact ⟨hafter.symm ▸ hloaded, hconfig⟩

/-- Both want 200 bytes and are given half of the pool. That is two slabs for the one with slabs of
64 bytes, and one for the other. When a client then stores a value in the other one, its slab is
loaded, and the RAM is still within the pool. -/
theorem Run.within_pool_of_pair :
    ∃ scene cache, Run [.cache "b", .cache "a"] scene ∧ scene.fleet.allocation? 2 = some 128 ∧
      scene.world.instances["b"]? = some cache ∧ cache.store.ram.memorySize = .ok 100 ∧
      cache.store.ram.loadedSlabs = 1 ∧ cache.store.ram.memoryUsage ≤ 100 ∧
      scene.world.loadedBytes (.cache "b") = 100 ∧
      (scene.fleet.members.toList.map fun member =>
        scene.world.loadedBytes member.2).sum ≤ 256 := by
  have hresult : (do
      let first ← openedCache? 64
      let second ← openedCache? 100
      let site := (Site.putInstance {} "a" first).putInstance "b" second
      let (_, scene) ← (Scene.roundWith peers (fun _ => 200) .zero ⟨pairFleet, site⟩).toOption
      let given ← scene.world.instances["b"]?
      return (scene.fleet.allocation? 2, scene.fleet.members[2]?, scene.fleet.poolSize,
        given.store.config.slabSize, takesFirst given ⟨#[97]⟩ ⟨#[1, 2]⟩)) =
      some (some 128, some (.cache "b"), 256, 100, true) := by
    decide +kernel
  simp only [Option.bind_eq_bind, Option.bind_eq_some_iff, toOption_eq_some_iff, Option.pure_def,
    Option.some_inj, Prod.mk.injEq] at hresult
  obtain ⟨first, hfirst, second, hsecond, ⟨report, scene⟩, hround, given, hgiven, hallocation,
    hmember, hpool, hslab, htakes⟩ := hresult
  let config := pairFleet.config
  let site := Site.putInstance {} "a" first
  let empty : Scene Site SiteName := ⟨{ config, market := .new config.market }, {}⟩
  let alone : Fleet SiteName := Scene.Run.afterRegister empty.fleet 100 (.cache "a")
  have hempty : Run [] empty := .opened (by decide) {} {}
  have hsite : Run [] ⟨empty.fleet, site⟩ :=
    hempty.stepped (.opened rfl rfl (openIn_of_openedCache? hfirst))
  have hboth : Run [] ⟨empty.fleet, site.putInstance "b" second⟩ :=
    hsite.stepped (.opened rfl rfl (openIn_of_openedCache? hsecond))
  have halone : (empty.fleet.register 100 (.cache "a")).run = .ok (.ok (⟨1, 100⟩, alone)) := rfl
  have hpair : (alone.register 100 (.cache "b")).run = .ok (.ok (⟨2, 100⟩, pairFleet)) := rfl
  have hjoined : Run [.cache "b", .cache "a"] ⟨pairFleet, site.putInstance "b" second⟩ :=
    (hboth.registered rfl (by decide) halone).registered rfl (by decide) hpair
  have run := (hjoined.rounded hround).stepped (.stepped hgiven (.set ⟨#[97]⟩ ⟨#[1, 2]⟩ given))
  obtain ⟨heach, hsum⟩ := run.within_pool
  obtain ⟨name, cache, size, hname, hcache, hsize, hramSize, hwithin, husage⟩ := heach 2 _ hmember
  obtain rfl := SiteName.cache.inj hname
  obtain rfl := Option.some.inj (hallocation.symm.trans hsize)
  have hserved := hcache
  rw [getElem?_putInstance, if_pos rfl, Option.some_inj] at hserved
  obtain ⟨hloaded, hconfig⟩ := loadedSlabs_of_takesFirst htakes
  rw [hserved] at hloaded hconfig
  rw [← hconfig] at hslab
  rw [hslab] at hramSize husage
  rw [hpool] at hsum
  refine ⟨_, cache, run, hallocation, hcache, hramSize, hloaded, husage, ?_, hsum⟩
  simp only [loadedBytes, hcache, hloaded, hslab]

end Soundness

end Site

end ElasticCache
