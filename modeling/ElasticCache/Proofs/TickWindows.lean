import ElasticCache.Metrics
import ElasticCache.Proofs.Instance
import ElasticCache.Proofs.Storage.RamCeiling
import ElasticCache.Proofs.Storage.StoreCounters

/-!
# Tick windows

What an instance counts goes two ways into its metrics. Lookups and stored values are counted by the
instance and handed over at the end of a window, when its counters start again at zero. Movements
between the tiers are counted by the store for good, and a window gets the difference to the last
one. Both ways nothing is lost between two windows, and nothing is counted twice, also when a lookup
is counted in a later window than the store has done it in.
-/

namespace ElasticCache

namespace Metrics

/-- A counter has counted up to an amount, as far as a 64-bit word goes, and exactly when the amount
fits one. -/
def CountsTo (counter amount : Nat) : Prop :=
  counter = amount % longLimit ∧ (amount < longLimit → counter = amount)

/-- A new counter counts to zero. -/
theorem countsTo_zero : CountsTo 0 0 := ⟨rfl, fun _ => rfl⟩

/-- A counter that is advanced counts to the sum. -/
theorem CountsTo.advance {counter amount more total : Nat} (h : CountsTo counter amount)
    (hsum : amount + more = total) : CountsTo (advance counter more) total := by
  have hmod : Metrics.advance counter more = total % longLimit := by
    rw [Metrics.advance, h.1, Nat.mod_add_mod, hsum]
  exact ⟨hmod, fun hlt => hmod.trans (Nat.mod_eq_of_lt hlt)⟩

end Metrics

open Metrics

/-- The counters of a series tell what the reports of some ticks add up to, and the movements
between the tiers up to a state of the counters of the store. -/
structure InstanceSeries.Tells (series : InstanceSeries) (reports : List TickReport)
    (stats : StoreStats) : Prop where
  hits : CountsTo series.hits (reports.map (·.hits)).sum
  misses : CountsTo series.misses (reports.map (·.misses)).sum
  sets : CountsTo series.sets (reports.map (·.sets)).sum
  evictedSlabs : CountsTo series.evictedSlabs stats.evictedSlabs
  promotions : CountsTo series.promotions stats.promotions
  demotions : CountsTo series.demotions stats.demotions

/-- The movements between two states of the counters are what the later one has counted
in addition. -/
theorem TierTraffic.add_of_between {earlier later : StoreStats} {traffic : TierTraffic}
    (hbetween : TierTraffic.between earlier later = .ok traffic) :
    earlier.evictedSlabs + traffic.evictedSlabs = later.evictedSlabs ∧
      earlier.promotions + traffic.promotions = later.promotions ∧
      earlier.demotions + traffic.demotions = later.demotions := by
  obtain ⟨evicted, hevicted, hbetween⟩ := bind_eq_ok_iff.1 hbetween
  obtain ⟨promotions, hpromotions, hbetween⟩ := bind_eq_ok_iff.1 hbetween
  obtain ⟨demotions, hdemotions, hbetween⟩ := bind_eq_ok_iff.1 hbetween
  obtain rfl := Except.ok.inj hbetween
  obtain ⟨hle, rfl⟩ := minus_eq_ok_iff.1 hevicted
  obtain ⟨hle', rfl⟩ := minus_eq_ok_iff.1 hpromotions
  obtain ⟨hle'', rfl⟩ := minus_eq_ok_iff.1 hdemotions
  exact ⟨Nat.add_sub_of_le hle, Nat.add_sub_of_le hle', Nat.add_sub_of_le hle''⟩

/-- A tick adds its report and the movements since the last one. -/
theorem InstanceSeries.Tells.addTick {series : InstanceSeries} {reports : List TickReport}
    {earlier later : StoreStats} {traffic : TierTraffic} (h : series.Tells reports earlier)
    (report : TickReport) (hbetween : TierTraffic.between earlier later = .ok traffic) :
    (Metrics.InstanceSeries.addTick series report traffic).Tells (report :: reports) later := by
  obtain ⟨hevicted, hpromotions, hdemotions⟩ := TierTraffic.add_of_between hbetween
  exact ⟨h.hits.advance (Nat.add_comm ..), h.misses.advance (Nat.add_comm ..),
    h.sets.advance (Nat.add_comm ..), h.evictedSlabs.advance hevicted,
    h.promotions.advance hpromotions, h.demotions.advance hdemotions⟩

namespace CacheInstance

/-- An instance with metrics of its own: the answers of the lookups that are not counted yet, and
the reports of all ticks, the newest first. Everything but a lookup may fail. -/
inductive Metered (config : InstanceConfig) :
    (inFlight : List Bool) → (reports : List TickReport) → CacheInstance → Metrics → Prop
  | opened {dir : Directory} {cache : CacheInstance} {m : Metrics}
      (hopen : (openIn config dir).run = .ok (.ok cache))
      (hown : m.byInstance.find? config.name = none) : Metered config [] [] cache m
  | lookedUp {inFlight : List Bool} {reports : List TickReport} {cache cache' : CacheInstance}
      {m : Metrics} {key : ByteArray} {value? : Option ByteArray}
      (run : Metered config inFlight reports cache m)
      (hlookUp : Id.run ((lookUp key).run.run cache) = (.ok value?, cache')) :
      Metered config (value?.isSome :: inFlight) reports cache' m
  | counted {found : Bool} {before after : List Bool} {reports : List TickReport}
      {cache : CacheInstance} {m : Metrics}
      (run : Metered config (before ++ found :: after) reports cache m) :
      Metered config (before ++ after) reports (cache.after (countRead found)) m
  | set {inFlight : List Bool} {reports : List TickReport} {cache : CacheInstance} {m : Metrics}
      (run : Metered config inFlight reports cache m) (key value : ByteArray) :
      Metered config inFlight reports (cache.after (CacheInstance.set key value)) m
  | removed {inFlight : List Bool} {reports : List TickReport} {cache : CacheInstance} {m : Metrics}
      (run : Metered config inFlight reports cache m) (key : ByteArray) :
      Metered config inFlight reports (cache.after (remove key)) m
  | resized {inFlight : List Bool} {reports : List TickReport} {cache : CacheInstance} {m : Metrics}
      (run : Metered config inFlight reports cache m) (bytes : Nat) :
      Metered config inFlight reports (cache.after (resize bytes)) m
  | ticked {inFlight : List Bool} {reports : List TickReport} {cache cache' : CacheInstance}
      {m m' : Metrics} {report : TickReport} (run : Metered config inFlight reports cache m)
      (htick : cache.tickInto m = .ok (report, cache', m')) :
      Metered config inFlight (report :: reports) cache' m'

/-- What the store has counted is in the reports, in the window that is open, or in flight. -/
structure Settled (inFlight : List Bool) (reports : List TickReport) (cache : CacheInstance) :
    Prop where
  hits : (reports.map (·.hits)).sum + cache.hits + inFlight.count true =
    cache.store.stats.ramHits + cache.store.stats.diskHits
  misses : (reports.map (·.misses)).sum + cache.misses + inFlight.count false =
    cache.store.stats.misses
  sets : (reports.map (·.sets)).sum + cache.sets = cache.store.stats.inserts
  evictedSlabs : cache.reported.evictedSlabs ≤ cache.store.stats.evictedSlabs
  promotions : cache.reported.promotions ≤ cache.store.stats.promotions
  demotions : cache.reported.demotions ≤ cache.store.stats.demotions

/-- The metrics of an instance tell its reports, and the movements up to the last one. -/
structure Published (config : InstanceConfig) (reports : List TickReport) (cache : CacheInstance)
    (m : Metrics) : Prop where
  config_eq : cache.config = config
  tells : ((m.byInstance.find? config.name).getD {}).Tells reports cache.reported

section Windows

variable {config : InstanceConfig} {inFlight before after : List Bool} {reports : List TickReport}
  {cache cache' : CacheInstance} {m m' : Metrics} {report : TickReport} {traffic : TierTraffic}

/-- The end of a window hands its counters over and starts them again. -/
theorem tick_spec (htick : cache.tick = .ok (report, traffic, cache')) :
    TierTraffic.between cache.reported cache.store.stats = .ok traffic ∧
      report.hits = cache.hits ∧ report.misses = cache.misses ∧ report.sets = cache.sets ∧
      cache'.config = cache.config ∧ cache'.store.stats = cache.store.stats ∧
      cache'.reported = cache.store.stats ∧
      cache'.hits = 0 ∧ cache'.misses = 0 ∧ cache'.sets = 0 := by
  unfold tick at htick
  obtain ⟨traffic', hbetween, htick⟩ := bind_eq_ok_iff.1 htick
  obtain ⟨size, _, htick⟩ := bind_eq_ok_iff.1 htick
  obtain ⟨hreport, htick⟩ := Prod.mk.inj (Except.ok.inj htick)
  obtain ⟨htraffic, hcache⟩ := Prod.mk.inj htick
  rw [← hreport, ← htraffic, ← hcache]
  exact ⟨hbetween, rfl, rfl, rfl, rfl, rfl, rfl, rfl, rfl, rfl⟩

/-- The movements between two states of the counters are defined when the later one counts
no less. -/
theorem between_eq {earlier later : StoreStats}
    (hevicted : earlier.evictedSlabs ≤ later.evictedSlabs)
    (hpromotions : earlier.promotions ≤ later.promotions)
    (hdemotions : earlier.demotions ≤ later.demotions) :
    TierTraffic.between earlier later = .ok ⟨later.evictedSlabs - earlier.evictedSlabs,
      later.promotions - earlier.promotions, later.demotions - earlier.demotions⟩ := by
  rw [TierTraffic.between, minus_eq_ok hevicted, minus_eq_ok hpromotions, minus_eq_ok hdemotions]
  rfl

/-- The traffic since the last report is the difference of the counters, none of which has gone
back. -/
theorem Settled.between_eq (h : cache.Settled inFlight reports) :
    TierTraffic.between cache.reported cache.store.stats =
      .ok ⟨cache.store.stats.evictedSlabs - cache.reported.evictedSlabs,
        cache.store.stats.promotions - cache.reported.promotions,
        cache.store.stats.demotions - cache.reported.demotions⟩ :=
  CacheInstance.between_eq h.evictedSlabs h.promotions h.demotions

/-- What the store has counted by a step, the instance has counted or has in flight. -/
theorem Settled.counted {hits misses inserts : Nat} {inFlight' : List Bool}
    (h : cache.Settled inFlight reports)
    (hcounted : cache.store.stats.Counted hits misses inserts cache'.store.stats)
    (hreported : cache'.reported = cache.reported)
    (hhits : cache'.hits + inFlight'.count true = cache.hits + inFlight.count true + hits)
    (hmisses : cache'.misses + inFlight'.count false = cache.misses + inFlight.count false + misses)
    (hsets : cache'.sets = cache.sets + inserts) : cache'.Settled inFlight' reports := by
  have hhits' := h.hits
  have hmisses' := h.misses
  have hsets' := h.sets
  refine ⟨?_, ?_, ?_, ?_, ?_, ?_⟩
  · rw [hcounted.hits]
    omega
  · rw [hcounted.misses]
    omega
  · rw [hcounted.inserts]
    omega
  · exact hreported ▸ h.evictedSlabs.trans hcounted.evictedSlabs
  · exact hreported ▸ h.promotions.trans hcounted.promotions
  · exact hreported ▸ h.demotions.trans hcounted.demotions

/-- A tick reports what was counted since the last one. -/
theorem Settled.ticked (h : cache.Settled inFlight reports)
    (htick : cache.tick = .ok (report, traffic, cache')) :
    cache'.Settled inFlight (report :: reports) := by
  obtain ⟨_, hhits, hmisses, hsets, _, hstats, hreported, hhits', hmisses', hsets'⟩ :=
    tick_spec htick
  have hbefore := h.hits
  have hbefore' := h.misses
  have hbefore'' := h.sets
  refine ⟨?_, ?_, ?_, ?_, ?_, ?_⟩
  · rw [List.map_cons, List.sum_cons, hstats, hhits, hhits']
    omega
  · rw [List.map_cons, List.sum_cons, hstats, hmisses, hmisses']
    omega
  · rw [List.map_cons, List.sum_cons, hstats, hsets, hsets']
    omega
  · rw [hreported, hstats]
  · rw [hreported, hstats]
  · rw [hreported, hstats]

/-- A tick into the metrics is a tick whose report they observe. -/
theorem exists_tick_of_tickInto (htick : cache.tickInto m = .ok (report, cache', m')) :
    ∃ traffic, cache.tick = .ok (report, traffic, cache') ∧
      m' = m.observeTick cache'.name report traffic := by
  obtain ⟨⟨report', traffic, cache₁⟩, hfirst, hpublish⟩ := bind_eq_ok_iff.1 htick
  obtain ⟨rfl, hrest⟩ := Prod.mk.inj (Except.ok.inj hpublish)
  obtain ⟨rfl, rfl⟩ := Prod.mk.inj hrest
  exact ⟨traffic, hfirst, rfl⟩

/-- A tick publishes its report and the movements since the last one. -/
theorem Published.ticked (h : cache.Published config reports m)
    (hsettled : cache.Settled inFlight reports)
    (htick : cache.tickInto m = .ok (report, cache', m')) :
    cache'.Published config (report :: reports) m' ∧
      cache'.Settled inFlight (report :: reports) ∧
      ∃ series, m'.byInstance.find? config.name = some series ∧
        series.Tells (report :: reports) cache'.store.stats := by
  obtain ⟨traffic, hfirst, rfl⟩ := exists_tick_of_tickInto htick
  obtain ⟨hbetween, _, _, _, hconfig, hstats, hreported, _⟩ := tick_spec hfirst
  have hconfig : cache'.config = config := hconfig.trans h.config_eq
  have hname : cache'.name = config.name := congrArg InstanceConfig.name hconfig
  have hfind : (m.observeTick cache'.name report traffic).byInstance.find? config.name =
      some (Metrics.InstanceSeries.addTick ((m.byInstance.find? config.name).getD {}) report
        traffic) := by
    rw [observeTick, SeriesMap.find?_insert, hname, if_pos rfl]
  have htells := h.tells.addTick report hbetween
  refine ⟨⟨hconfig, ?_⟩, hsettled.ticked hfirst, _, hfind, hstats ▸ htells⟩
  rw [hfind, hreported]
  exact htells

end Windows

/-! ## Steps -/

/-- An instance after steps that stored some values, of which the store has counted some, and
counted no lookup. -/
structure Stored (before : CacheInstance) (sets inserts : Nat) (cache : CacheInstance) : Prop where
  config_eq : cache.config = before.config
  reported_eq : cache.reported = before.reported
  hits_eq : cache.hits = before.hits
  misses_eq : cache.misses = before.misses
  sets_eq : cache.sets = before.sets + sets
  counted : before.store.stats.Counted 0 0 inserts cache.store.stats

section Steps

variable {config : InstanceConfig} {inFlight : List Bool} {reports : List TickReport}
  {before cache cache' : CacheInstance} {m : Metrics} {sets inserts : Nat}

/-- Without a step, nothing is stored or counted. -/
theorem stored_refl (cache : CacheInstance) : cache.Stored 0 0 cache :=
  ⟨rfl, rfl, rfl, rfl, rfl, StoreStats.counted_refl _⟩

/-- A step of the store counts in the instance what it counts in the store. -/
theorem leads_onStore_stored {α : Type} {step : StoreM α} {counted : Except Error α → Nat}
    (h : Leads (TieredStore.CountedSince before.store.stats 0 0 inserts) step fun outcome =>
      TieredStore.CountedSince before.store.stats 0 0 (counted outcome)) :
    Leads (Stored before sets inserts) (onStore step) fun outcome =>
      Stored before sets (counted outcome) :=
  fun cache hstored => ⟨hstored.config_eq, hstored.reported_eq, hstored.hits_eq, hstored.misses_eq,
    hstored.sets_eq, h cache.store hstored.counted⟩

/-- A removal counts no write. -/
theorem maintains_remove_stored (key : ByteArray) :
    Maintains (Stored before sets inserts) (remove key) :=
  Leads.maintains (leads_onStore_stored (.of_maintains (TieredStore.maintains_remove_counted key)))

/-- A new ceiling counts no write. -/
theorem maintains_resize_stored (bytes : Nat) :
    Maintains (Stored before sets inserts) (resize bytes) :=
  (Leads.maintains (leads_onStore_stored
    (.of_maintains (TieredStore.maintains_resizeBytes_counted bytes)))).discard

/-- A set is counted when the store has counted it, also when it fails. -/
theorem exists_stored_set (cache : CacheInstance) (key value : ByteArray) :
    ∃ sets, cache.Stored sets sets (cache.after (set key value)) := by
  have hinsert : Leads (Stored cache 0 0) (onStore (TieredStore.insert key value)) fun outcome =>
      Stored cache 0 (0 + if outcome.isOk then 1 else 0) :=
    leads_onStore_stored (TieredStore.leads_insert_counted key value)
  have hstore : Leads (Stored cache 0 0) (do
      let tier ← onStore (TieredStore.insert key value)
      modify fun cache => { cache with sets := cache.sets + 1 }
      return tier) fun outcome cache' =>
      ∃ sets, cache.Stored sets sets cache' ∧ ∀ e, outcome = .error e → sets = 0 :=
    hinsert.bind (fun _ _ h => ⟨0, h, fun _ _ => rfl⟩) fun _ _ h =>
      ⟨1, ⟨h.config_eq, h.reported_eq, h.hits_eq, h.misses_eq, congrArg (· + 1) h.sets_eq,
        h.counted⟩, nofun⟩
  have hcleanUp (e : Error) : Leads (Stored cache 0 0) (do
      tryCatch (discard (remove key)) fun _ => return
      throw e : InstanceM Tier) fun _ cache' => ∃ sets, cache.Stored sets sets cache' := by
    have hremove : Maintains (Stored cache 0 0) (discard (remove key) : InstanceM Unit) :=
      (maintains_remove_stored key).discard
    refine Leads.bind_of_maintains (hremove.tryCatch fun _ => .pure ()) (fun _ _ h => ⟨0, h⟩)
      fun _ => ?_
    exact .throw fun _ h => ⟨0, h⟩
  have hset : Leads (Stored cache 0 0) (set key value) fun _ cache' =>
      ∃ sets, cache.Stored sets sets cache' := by
    refine hstore.tryCatch (fun _ _ ⟨sets, h, _⟩ => ⟨sets, h⟩) fun e => ?_
    refine (hcleanUp e).imp (fun _ ⟨sets, h, hzero⟩ => ?_) fun _ _ h => h
    rwa [hzero e rfl] at h
  exact hset cache (stored_refl cache)

/-- Writes that are counted by the store and by the instance leave the books settled. -/
theorem Settled.stored (h : cache.Settled inFlight reports)
    (hstored : cache.Stored sets sets cache') :
    cache'.Settled inFlight reports :=
  h.counted hstored.counted hstored.reported_eq (congrArg (· + inFlight.count true) hstored.hits_eq)
    (congrArg (· + inFlight.count false) hstored.misses_eq) hstored.sets_eq

/-- What is published is told by the configuration and the last report. -/
theorem Published.congr (h : cache.Published config reports m)
    (hconfig : cache'.config = cache.config)
    (hreported : cache'.reported = cache.reported) : cache'.Published config reports m :=
  ⟨hconfig.trans h.config_eq, hreported ▸ h.tells⟩

/-- The first step of a read that succeeds is a lookup of the store. -/
theorem exists_find_of_lookUp {key : ByteArray} {value? : Option ByteArray}
    (hlookUp : Id.run ((lookUp key).run.run cache) = (.ok value?, cache')) :
    ∃ found? store, Id.run ((TieredStore.find key).run.run cache.store) = (.ok found?, store) ∧
      found?.isSome = value?.isSome ∧ cache' = { cache with store } := by
  rcases hfind : Id.run ((TieredStore.find key).run.run cache.store) with ⟨outcome, store⟩
  have hrun := run_onStore (TieredStore.find key) cache
  rw [hfind] at hrun
  cases outcome with
  | error e => cases (run_bind_of_error hrun).symm.trans hlookUp
  | ok found? =>
    obtain ⟨hvalue, rfl⟩ := Prod.mk.inj ((run_bind_of_ok hrun).symm.trans hlookUp)
    refine ⟨found?, store, rfl, ?_, rfl⟩
    rw [← Except.ok.inj hvalue, Option.isSome_map]

/-- A lookup is in flight until the instance counts it. -/
theorem Settled.lookedUp {key : ByteArray} {value? : Option ByteArray}
    (h : cache.Settled inFlight reports)
    (hlookUp : Id.run ((lookUp key).run.run cache) = (.ok value?, cache')) :
    cache'.Settled (value?.isSome :: inFlight) reports := by
  obtain ⟨found?, store, hfind, hfound, rfl⟩ := exists_find_of_lookUp hlookUp
  have hcounted := TieredStore.leads_find_counted key cache.store
    (StoreStats.counted_refl cache.store.stats)
  rw [hfind] at hcounted
  refine h.counted (hcounted found? rfl) rfl ?_ ?_ rfl
  · rw [hfound]
    cases value?.isSome <;> simp [Nat.add_assoc]
  · rw [hfound]
    cases value?.isSome <;> simp [Nat.add_assoc]

/-- A lookup that the instance counts is no longer in flight. -/
theorem Settled.countRead {found : Bool} {earlier later : List Bool}
    (h : cache.Settled (earlier ++ found :: later) reports) :
    (cache.after (countRead found)).Settled (earlier ++ later) reports := by
  have hcount (answer : Bool) : (earlier ++ found :: later).count answer =
      (found :: (earlier ++ later)).count answer := List.perm_middle.count_eq answer
  cases found with
  | true =>
    refine h.counted (StoreStats.counted_refl _) rfl ?_ ?_ rfl
    · rw [hcount, List.count_cons_self]
      exact Nat.add_right_comm ..
    · rw [hcount, List.count_cons_of_ne (by decide)]
      rfl
  | false =>
    refine h.counted (StoreStats.counted_refl _) rfl ?_ ?_ rfl
    · rw [hcount, List.count_cons_of_ne (by decide)]
      rfl
    · rw [hcount, List.count_cons_self]
      exact Nat.add_right_comm ..

/-! ## Runs -/

/-- A new instance has settled books and nothing published. -/
theorem settled_of_openIn {dir : Directory} (hopen : (openIn config dir).run = .ok (.ok cache))
    (hown : m.byInstance.find? config.name = none) :
    cache.Settled [] [] ∧ cache.Published config [] m := by
  rw [openIn, ExceptT.run_bind] at hopen
  obtain ⟨outcome, hstore, hopen⟩ := bind_eq_ok_iff.1 hopen
  cases outcome with
  | error e => cases hopen
  | ok store =>
    cases hopen
    obtain ⟨disk, workingSet, _, _, rfl⟩ := TieredStore.exists_of_openIn hstore
    refine ⟨⟨rfl, rfl, rfl, Nat.le_refl _, Nat.le_refl _, Nat.le_refl _⟩, rfl, ?_⟩
    rw [hown]
    exact ⟨countsTo_zero, countsTo_zero, countsTo_zero, countsTo_zero, countsTo_zero, countsTo_zero⟩

/-- Each step keeps the counters settled and what was published. -/
theorem Metered.settled (run : Metered config inFlight reports cache m) :
    cache.Settled inFlight reports ∧ cache.Published config reports m := by
  induction run with
  | opened hopen hown => exact settled_of_openIn hopen hown
  | lookedUp _ hlookUp ih =>
    obtain ⟨_, _, _, _, rfl⟩ := exists_find_of_lookUp hlookUp
    exact ⟨ih.1.lookedUp hlookUp, ih.2.congr rfl rfl⟩
  | @counted found _ _ _ _ _ _ ih =>
    refine ⟨ih.1.countRead, ih.2.congr ?_ ?_⟩ <;> cases found <;> rfl
  | set _ key value ih =>
    obtain ⟨sets, hstored⟩ := exists_stored_set _ key value
    exact ⟨ih.1.stored hstored, ih.2.congr hstored.config_eq hstored.reported_eq⟩
  | @removed _ _ cache _ _ key ih =>
    have hstored := maintains_remove_stored key cache (stored_refl cache)
    exact ⟨ih.1.stored hstored, ih.2.congr hstored.config_eq hstored.reported_eq⟩
  | @resized _ _ cache _ _ bytes ih =>
    have hstored := maintains_resize_stored bytes cache (stored_refl cache)
    exact ⟨ih.1.stored hstored, ih.2.congr hstored.config_eq hstored.reported_eq⟩
  | ticked _ htick ih =>
    obtain ⟨hpublished, hsettled, _⟩ := ih.2.ticked ih.1 htick
    exact ⟨hsettled, hpublished⟩

/-- A window can be ended when the ceiling of RAM in bytes is a 64-bit amount. -/
theorem Settled.exists_tickInto (h : cache.Settled inFlight reports) {size : Nat}
    (hsize : cache.store.ram.memorySize = .ok size) (m : Metrics) :
    ∃ report cache' m', cache.tickInto m = .ok (report, cache', m') := by
  have hafter : cache.store.ram.tick.2.memorySize = .ok size := by
    rw [← hsize]
    unfold RamTier.tick
    dsimp only
    split <;> rfl
  have htick : ∃ report traffic cache', cache.tick = .ok (report, traffic, cache') := by
    unfold tick
    rcases hram : cache.store.ram.tick with ⟨staleSlabs, ram⟩
    rw [hram] at hafter
    dsimp only
    rw [h.between_eq, ok_bind, hafter]
    exact ⟨_, _, _, rfl⟩
  obtain ⟨report, traffic, cache', htick⟩ := htick
  rw [tickInto, htick]
  exact ⟨_, _, _, rfl⟩

/-- **Tick windows neither lose nor count twice.** At every point of a run of an instance with
its own metrics: the hits in the reports of all ticks, in the open window and in flight are those
that the store has counted in its tiers, and so are the misses; the stored values, which are
never in flight, are those in the reports and in the open window; the movements since the last
tick are defined; a tick has a result when the ceiling of RAM in bytes is a 64-bit amount; and
after a tick the exported counters tell the sums over the reports and the movements that the
store has counted. -/
theorem Metered.windows_telescope (run : Metered config inFlight reports cache m) :
    ((reports.map (·.hits)).sum + cache.hits + inFlight.count true =
        cache.store.stats.ramHits + cache.store.stats.diskHits ∧
      (reports.map (·.misses)).sum + cache.misses + inFlight.count false =
        cache.store.stats.misses ∧
      (reports.map (·.sets)).sum + cache.sets = cache.store.stats.inserts) ∧
    (∃ traffic, TierTraffic.between cache.reported cache.store.stats = .ok traffic) ∧
    (∀ size, cache.store.ram.memorySize = .ok size →
      ∃ report cache' m', cache.tickInto m = .ok (report, cache', m')) ∧
    ∀ report cache' m', cache.tickInto m = .ok (report, cache', m') →
      ∃ series, m'.byInstance.find? config.name = some series ∧
        series.Tells (report :: reports) cache'.store.stats := by
  obtain ⟨hsettled, hpublished⟩ := run.settled
  refine ⟨⟨hsettled.hits, hsettled.misses, hsettled.sets⟩, ⟨_, hsettled.between_eq⟩,
    fun size hsize => hsettled.exists_tickInto hsize m, fun report cache' m' htick => ?_⟩
  exact (hpublished.ticked hsettled htick).2.2

/-- A lookup that is under way at a tick is counted in the next window. -/
theorem Metered.windows_telescope_of_late_count :
    ∃ config report cache m, Metered config [] [report] cache m ∧
      report.misses = 0 ∧ cache.misses = 1 ∧ cache.store.stats.misses = 1 ∧
      ∃ series, m.byInstance.find? config.name = some series ∧ series.misses = 0 := by
  let config : InstanceConfig := { store := { trackedKeys := 1 } }
  have hconfig : config.store.Lossless := ⟨by decide, by decide, by decide, rfl⟩
  obtain ⟨store, hstore⟩ := TieredStore.exists_openIn config.store (by decide) (by decide +kernel)
  have hopen : (openIn config .empty).run = .ok (.ok { config, store }) := by
    rw [openIn, ExceptT.run_bind, hstore]
    rfl
  have run : Metered config [] [] { config, store } {} :=
    .opened hopen (by simp [SeriesMap.find?])
  obtain ⟨found?, store', hfind, hnone, _⟩ :=
    (serving_of_openIn hconfig hopen).intact.exists_find (by decide) ⟨#[107]⟩
  obtain rfl := Option.map_eq_none_iff.1 hnone
  have hlookUp : Id.run ((lookUp ⟨#[107]⟩).run.run { config, store }) =
      (.ok none, { config, store := store' }) := by
    have hrun := run_onStore (TieredStore.find ⟨#[107]⟩) { config, store }
    rw [hfind] at hrun
    exact run_bind_of_ok hrun
  have hsize : store'.ram.memorySize = .ok (16 * (4 * 1024 * 1024)) := by
    obtain ⟨disk, workingSet, _, _, rfl⟩ := TieredStore.exists_of_openIn hstore
    have hcapped : (RamTier.new (4 * 1024 * 1024) 16 0).Capped (4 * 1024 * 1024) 16 :=
      RamTier.capped_new (by decide) 16 0
    have hwithin := TieredStore.Runs.of_maintains hfind
      (TieredStore.lasting_within.maintains_find ⟨#[107]⟩) ⟨hcapped, rfl⟩
    have hregular := hwithin.1.regular
    rw [RamTier.memorySize, hregular.maxSlabs_eq, hregular.slabSize_eq]
    rfl
  have started := run.lookedUp hlookUp
  obtain ⟨⟨_, hbefore, _⟩, _, htick, hpublishes⟩ := started.windows_telescope
  obtain ⟨report, cache, m, hticked⟩ := htick _ hsize
  obtain ⟨series, hseries, htells⟩ := hpublishes _ _ _ hticked
  obtain ⟨_, hfirst, -⟩ := exists_tick_of_tickInto hticked
  obtain ⟨_, _, hmisses, _, _, hstats, _⟩ := tick_spec hfirst
  have hmisses : report.misses = 0 := hmisses
  have hstats : cache.store.stats.misses = 1 := by rw [hstats, ← hbefore]; rfl
  have late : Metered config ([] ++ false :: []) [report] cache m := started.ticked hticked
  obtain ⟨⟨_, hafter, _⟩, _⟩ := late.counted.windows_telescope
  refine ⟨config, report, _, m, late.counted, hmisses, ?_, hstats, series, hseries, ?_⟩
  · have hafter : report.misses + 0 + (cache.after (countRead false)).misses + 0 =
        cache.store.stats.misses := hafter
    omega
  · rw [htells.misses.1, List.map_cons, hmisses]
    rfl

end Steps

end CacheInstance

end ElasticCache
