import ElasticCache.Proofs.Contracts
import ElasticCache.Proofs.Storage.TieredSteps

/-!
# The counters of a store

Every lookup that succeeds counts once, as a hit in one of the tiers or as a miss, and every
insertion that succeeds counts once. Whatever else a store does, and however it ends, leaves these
counts alone and takes nothing away from those of the movements between the tiers.
-/

namespace ElasticCache

/-- What was counted from one state of the counters to a later one: some lookups and insertions, and
any number of movements between the tiers. -/
structure StoreStats.Counted (hits misses inserts : Nat) (before after : StoreStats) : Prop where
  hits : after.ramHits + after.diskHits = before.ramHits + before.diskHits + hits
  misses : after.misses = before.misses + misses
  inserts : after.inserts = before.inserts + inserts
  evictedSlabs : before.evictedSlabs ≤ after.evictedSlabs
  promotions : before.promotions ≤ after.promotions
  demotions : before.demotions ≤ after.demotions

/-- Nothing is counted as long as nothing happens. -/
theorem StoreStats.counted_refl (stats : StoreStats) : stats.Counted 0 0 0 stats :=
  ⟨rfl, rfl, rfl, Nat.le_refl _, Nat.le_refl _, Nat.le_refl _⟩

namespace TieredStore

/-- A store has counted since some state of its counters. -/
def CountedSince (before : StoreStats) (hits misses inserts : Nat) (store : TieredStore) : Prop :=
  before.Counted hits misses inserts store.stats

section Steps

variable {before : StoreStats} {hits misses inserts : Nat} {key value : ByteArray}

/-- A movement between the tiers is counted with nothing else. -/
theorem maintains_count_movement {f : StoreStats → StoreStats}
    (hlookups : ∀ s, (f s).ramHits = s.ramHits ∧ (f s).diskHits = s.diskHits ∧
      (f s).misses = s.misses ∧ (f s).inserts = s.inserts)
    (hmovements : ∀ s, s.evictedSlabs ≤ (f s).evictedSlabs ∧ s.promotions ≤ (f s).promotions ∧
      s.demotions ≤ (f s).demotions) :
    Maintains (CountedSince before hits misses inserts) (count f) := by
  intro store h
  obtain ⟨hram, hdisk, hmisses, hinserts⟩ := hlookups store.stats
  obtain ⟨hevicted, hpromotions, hdemotions⟩ := hmovements store.stats
  refine ⟨?_, hmisses.trans h.misses, hinserts.trans h.inserts, h.evictedSlabs.trans hevicted,
    h.promotions.trans hpromotions, h.demotions.trans hdemotions⟩
  exact (congrArg₂ (· + ·) hram hdisk).trans h.hits

/-- A step of RAM counts nothing. -/
theorem maintains_onRam_counted {α : Type} (f : RamTier → α × RamTier) :
    Maintains (CountedSince before hits misses inserts) (onRam f) := fun _ h => h

/-- A step of the disk counts nothing. -/
theorem maintains_onDisk_counted {α : Type} (f : DiskTier → Except Error α × DiskTier) :
    Maintains (CountedSince before hits misses inserts) (onDisk f) := fun _ h => h

/-- Following keys is not counted. -/
theorem maintains_of_sameStats {step : StoreM Unit}
    (hstep : ∀ store, ∃ store', Yields step store () store' ∧ store.SameTiers store' ∧
      store'.stats = store.stats) :
    Maintains (CountedSince before hits misses inserts) step := by
  intro store h
  obtain ⟨store', hyields, _, hstats⟩ := hstep store
  rw [hyields]
  unfold CountedSince
  rw [hstats]
  exact h

/-- Moving a record to disk counts no operation. -/
theorem maintains_demote_counted (record : Record) :
    Maintains (CountedSince before hits misses inserts) (demote record) := by
  have hdemoted : Maintains (CountedSince before hits misses inserts)
      (count fun s => { s with demotions := s.demotions + 1 }) :=
    maintains_count_movement (fun _ => ⟨rfl, rfl, rfl, rfl⟩) fun _ =>
      ⟨Nat.le_refl _, Nat.le_refl _, Nat.le_succ _⟩
  have hdropped : Maintains (CountedSince before hits misses inserts)
      (count fun s => { s with dropped := s.dropped + 1 }) :=
    maintains_count_movement (fun _ => ⟨rfl, rfl, rfl, rfl⟩) fun _ =>
      ⟨Nat.le_refl _, Nat.le_refl _, Nat.le_refl _⟩
  apply Maintains.tryCatch
  · exact (maintains_onDisk_counted _).bind fun _ => hdemoted
  · intro e
    split
    next => exact (maintains_of_sameStats (exists_untrack _)).bind fun _ => hdropped
    next => exact .throw _

/-- An eviction counts no operation. -/
theorem maintains_evictOne_counted :
    Maintains (CountedSince before hits misses inserts) evictOne := by
  have hevicted : Maintains (CountedSince before hits misses inserts)
      (count fun s => { s with evictedSlabs := s.evictedSlabs + 1 }) :=
    maintains_count_movement (fun _ => ⟨rfl, rfl, rfl, rfl⟩) fun _ =>
      ⟨Nat.le_succ _, Nat.le_refl _, Nat.le_refl _⟩
  refine (maintains_onRam_counted _).bind fun records? => ?_
  split
  next => exact .pure _
  next records =>
    exact hevicted.bind fun _ =>
      (Maintains.forM maintains_demote_counted records).bind fun _ => .pure _

/-- An insertion into RAM counts no operation by itself. -/
theorem maintains_insertRam_counted (key value : ByteArray) :
    Maintains (CountedSince before hits misses inserts) (insertRam key value) := by
  refine (maintains_onRam_counted _).bind fun stored => ?_
  split
  next => exact .pure _
  refine Maintains.get.bind fun store => ?_
  split
  next => exact .pure _
  refine maintains_evictOne_counted.bind fun evicted => ?_
  split
  next => exact maintains_onRam_counted _
  next => exact .pure _

/-- A removal counts no operation. -/
theorem maintains_remove_counted (key : ByteArray) :
    Maintains (CountedSince before hits misses inserts) (remove key) := by
  refine (maintains_onRam_counted _).bind fun inRam =>
    (maintains_onDisk_counted _).bind fun onDisk => ?_
  split
  next => exact (maintains_of_sameStats (exists_untrack key)).bind fun _ => .pure _
  next => exact .pure _

/-- A promotion counts no operation. -/
theorem maintains_promote_counted (key value : ByteArray) :
    Maintains (CountedSince before hits misses inserts) (promote key value) := by
  have hpromoted : Maintains (CountedSince before hits misses inserts)
      (count fun s => { s with promotions := s.promotions + 1 }) :=
    maintains_count_movement (fun _ => ⟨rfl, rfl, rfl, rfl⟩) fun _ =>
      ⟨Nat.le_refl _, Nat.le_succ _, Nat.le_refl _⟩
  have hmove : Maintains (CountedSince before hits misses inserts)
      (MonadExcept.tryCatch (insertRam key value) fun _ => return false) :=
    (maintains_insertRam_counted key value).tryCatch fun _ => .pure false
  refine hmove.bind fun moved => ?_
  split
  next => exact (maintains_onDisk_counted _).bind fun _ => hpromoted
  next => exact .pure _

/-- Evictions for a ceiling count no operation. -/
theorem maintains_shrink_counted (slabs rounds : Nat) :
    Maintains (CountedSince before hits misses inserts) (shrink slabs rounds) := by
  induction rounds with
  | zero => exact .pure 0
  | succ rounds ih =>
    refine Maintains.get.bind fun store => ?_
    split
    next => exact .pure 0
    refine maintains_evictOne_counted.bind fun evicted => ?_
    split
    next => exact ih.bind fun _ => .pure _
    next => exact .pure 0

/-- A new ceiling counts no operation. -/
theorem maintains_resizeBytes_counted (bytes : Nat) :
    Maintains (CountedSince before hits misses inserts) (resizeBytes bytes) :=
  Maintains.get.bind fun _ => Maintains.bind (.modify fun _ h => h) fun _ =>
    Maintains.get.bind fun _ => maintains_shrink_counted _ _

/-! ### Lookups and insertions -/

/-- An insertion that succeeds counts once, and one that fails does not. -/
theorem leads_insert_counted (key value : ByteArray) :
    Leads (CountedSince before hits misses inserts) (insert key value) fun outcome =>
      CountedSince before hits misses (inserts + if outcome.isOk then 1 else 0) := by
  have hend (tier : Tier) : Leads (CountedSince before hits misses inserts) (do
      track key (value.size % wordLimit)
      count fun s => { s with inserts := s.inserts + 1 }
      return tier) fun outcome =>
      CountedSince before hits misses (inserts + if outcome.isOk then 1 else 0) := by
    refine Leads.bind_of_maintains (maintains_of_sameStats (exists_track key _)) (fun _ _ h => h)
      fun _ => ?_
    intro store h
    exact ⟨h.hits, h.misses, congrArg (· + 1) h.inserts, h.evictedSlabs, h.promotions, h.demotions⟩
  refine Leads.bind_of_maintains .get (fun _ _ h => h) fun store => ?_
  refine Leads.bind_of_maintains (.liftExcept _) (fun _ _ h => h) fun _ => ?_
  refine Leads.bind_of_maintains (maintains_remove_counted key) (fun _ _ h => h) fun _ => ?_
  refine Leads.bind_of_maintains (maintains_insertRam_counted key value) (fun _ _ h => h)
    fun stored => ?_
  split
  next => exact Leads.bind_of_maintains (.pure _) (fun _ _ h => h) hend
  next =>
    refine Leads.bind_of_maintains (maintains_onDisk_counted _) (fun _ _ h => h) fun _ => ?_
    exact Leads.bind_of_maintains (.pure _) (fun _ _ h => h) hend

/-- A lookup that succeeds counts once: as a hit when it found a value, and otherwise as a miss. -/
theorem leads_find_counted (key : ByteArray) :
    Leads (CountedSince before hits misses inserts) (find key) fun outcome store =>
      ∀ found?, outcome = .ok found? →
        CountedSince before (hits + if found?.isSome then 1 else 0)
          (misses + if found?.isSome then 0 else 1) inserts store := by
  refine Leads.bind_of_maintains (maintains_onRam_counted _) (fun _ _ _ => nofun) fun inRam? => ?_
  have htrack : Maintains (CountedSince before hits misses inserts) (trackRead key) :=
    maintains_of_sameStats (exists_trackRead key)
  split
  next value =>
    refine Leads.bind_of_maintains htrack (fun _ _ _ => nofun) fun _ => ?_
    rintro store h _ ⟨⟩
    refine ⟨?_, h.misses, h.inserts, h.evictedSlabs, h.promotions, h.demotions⟩
    have hhits := h.hits
    show store.stats.ramHits + 1 + store.stats.diskHits = _
    rw [Nat.add_right_comm, hhits]
    rfl
  next =>
    refine Leads.bind_of_maintains (maintains_onDisk_counted _) (fun _ _ _ => nofun)
      fun value? => ?_
    split
    next =>
      rintro store h _ ⟨⟩
      exact ⟨h.hits, congrArg (· + 1) h.misses, h.inserts, h.evictedSlabs, h.promotions,
        h.demotions⟩
    next value =>
      refine Leads.bind_of_maintains htrack (fun _ _ _ => nofun) fun _ => ?_
      have hcount : Leads (CountedSince before hits misses inserts)
          (count fun s => { s with diskHits := s.diskHits + 1 }) fun _ =>
          CountedSince before (hits + 1) misses inserts := fun store h =>
        ⟨congrArg (· + 1) h.hits, h.misses, h.inserts, h.evictedSlabs, h.promotions, h.demotions⟩
      refine hcount.bind (fun _ _ _ => nofun) fun _ => ?_
      refine Leads.bind_of_maintains (maintains_promote_counted key value) (fun _ _ _ => nofun)
        fun _ => ?_
      rintro store h _ ⟨⟩
      exact h

end Steps

end TieredStore

end ElasticCache
