import ElasticCache.Proofs.Storage.TieredSteps

/-!
# Records that leave RAM

The records of a slab that leaves RAM are written to disk one after the other. One that the budget
refuses is dropped, and the others go on. When a compaction is due that cannot be done, the first
record is written and the rest are lost, unless that record outweighs the garbage. A store that
checks for room beforehand and is not due for a compaction loses none.
-/

namespace ElasticCache

/-- The records that are lost with a failing compaction of those that go to disk together. -/
def DiskTier.lostBy (tier : DiskTier) : List Record → List Record
  | [] => []
  | record :: rest => if tier.StuckAfter record.size then rest else []

/-- Nothing is lost as long as the disk is not stuck. -/
theorem DiskTier.lostBy_eq_nil {tier : DiskTier} (hfree : ¬tier.Stuck) (records : List Record) :
    tier.lostBy records = [] := by
  cases records with
  | nil => rfl
  | cons record rest => exact if_neg fun hafter => hfree hafter.stuck

/-- What the disk holds after some records of another map went there, but for the lost keys. -/
def arrived (records : List Record) (lost : List ByteArray)
    (held diskHeld : ByteArray → Option ByteArray) : ByteArray → Option ByteArray :=
  fun key => if key ∈ records.map (·.key) ∧ key ∉ lost then held key else diskHeld key

section Arrival

variable {record : Record} {rest : List Record} {lost : List ByteArray}
  {held diskHeld : ByteArray → Option ByteArray}

/-- The rest of a batch is one. -/
theorem Batch.of_cons (h : Batch (record :: rest) held) : Batch rest held := by
  obtain ⟨hnodup, hheld, hsum⟩ := h
  rw [List.map_cons, List.sum_cons] at hsum
  exact ⟨(List.nodup_cons.1 hnodup).2, fun r hr => hheld r (List.mem_cons_of_mem _ hr), by omega⟩

/-- No two records of a batch have the same key. -/
theorem Batch.key_not_mem (h : Batch (record :: rest) held) :
    record.key ∉ rest.map (·.key) := (List.nodup_cons.1 h.nodup).1

/-- The size of a record of a batch fits a word. -/
theorem Batch.small (h : Batch (record :: rest) held) : record.size < wordLimit := by
  have hsum := h.sum_lt
  rw [List.map_cons, List.sum_cons] at hsum
  omega

/-- As long as no record arrived, the disk holds what it held. -/
theorem arrived_nil : arrived [] lost held diskHeld = diskHeld := by
  funext key
  simp only [arrived, List.map_nil, List.not_mem_nil, false_and, if_false]

/-- A record that is lost does not arrive. -/
theorem arrived_cons_lost (hrecord : record.key ∉ rest.map (·.key)) :
    arrived (record :: rest) (record.key :: lost) held diskHeld =
      arrived rest lost held diskHeld := by
  funext key
  by_cases heq : key = record.key
  · subst heq
    simp only [arrived, List.mem_cons, true_or, not_true_eq_false, and_false, if_false, hrecord,
      false_and]
  · simp only [arrived, List.map_cons, List.mem_cons, heq, false_or]

/-- A record that is not lost arrives with its value. -/
theorem arrived_cons (hvalue : held record.key = some record.value)
    (hrecord : record.key ∉ rest.map (·.key)) (hlost : lost ⊆ rest.map (·.key)) :
    arrived (record :: rest) lost held diskHeld =
      arrived rest lost held (Function.update diskHeld record.key (some record.value)) := by
  funext key
  by_cases heq : key = record.key
  · subst heq
    have hkept : record.key ∉ lost := fun hmem => hrecord (hlost hmem)
    simp only [arrived, List.map_cons, List.mem_cons, true_or, hkept, not_false_eq_true, and_self,
      if_true, hvalue, hrecord, false_and, if_false, Function.update_self]
  · simp only [arrived, List.map_cons, List.mem_cons, heq, false_or, Function.update_of_ne heq]

/-- When all records are lost, none arrives. -/
theorem arrived_lost (records : List Record) :
    arrived records (records.map (·.key)) held diskHeld = diskHeld := by
  funext key
  simp only [arrived, and_not_self, if_false]

end Arrival

namespace TieredStore

/-! ## Records one after the other -/

/-- How records fared on their way to disk: what was lost, what the counters say, and that what was
dropped is no longer followed. -/
structure Fared (store store' : TieredStore) (records : List Record) (lost : List ByteArray)
    (outcome : Except Error Unit) : Prop where
  sublist : lost.Sublist (records.map (·.key))
  outcome_eq : outcome = .ok () ∨ outcome = .error (.io .isADirectory)
  settled : ¬store.disk.Stuck → outcome = .ok () ∧ ¬store'.disk.Stuck
  counted : ¬store.disk.Stuck → store'.stats.dropped = store.stats.dropped + lost.length ∧
    store'.stats.demotions + lost.length = store.stats.demotions + records.length
  kept : ¬store.disk.Stuck → store.disk.Fits (records.map Record.size).sum → lost = []
  lost_eq : store.disk.config.maxBytes = 0 → lost = (store.disk.lostBy records).map (·.key)
  tracked : ¬store.disk.Stuck → store.Tracks (lost.map .remove) store'

section Faring

variable {store store₁ store' : TieredStore} {record : Record} {rest : List Record}
  {lost : List ByteArray} {outcome : Except Error Unit}

/-- No records change nothing on their way. -/
theorem Fared.nil (store : TieredStore) : Fared store store [] [] (.ok ()) :=
  ⟨List.Sublist.refl _, .inl rfl, fun hfree => ⟨rfl, hfree⟩, fun _ => ⟨rfl, rfl⟩,
    fun _ _ => rfl, fun _ => rfl, fun _ => rfl⟩

/-- The budget refuses a record. -/
theorem Fared.drop (h : Fared store₁ store' rest lost outcome)
    (hrefused : ¬store.disk.Fits record.size) (hdisk : store₁.disk = store.disk)
    (hdropped : store₁.stats.dropped = store.stats.dropped + 1)
    (hdemotions : store₁.stats.demotions = store.stats.demotions)
    (htracks : store.Tracks [.remove record.key] store₁) :
    Fared store store' (record :: rest) (record.key :: lost) outcome := by
  obtain ⟨hsublist, houtcome, hsettled, hcounted, _, _, htracked⟩ := h
  rw [hdisk] at hsettled hcounted htracked
  refine ⟨hsublist.cons_cons _, houtcome, hsettled, fun hfree => ?_, fun _ hfits => ?_,
    fun hunlimited => absurd (.inl hunlimited) hrefused,
    fun hfree => htracks.trans (htracked hfree)⟩
  · obtain ⟨hdropped', hdemotions'⟩ := hcounted hfree
    simp only [List.length_cons]
    omega
  · refine absurd (hfits.imp_right fun hle => ?_) hrefused
    rw [List.map_cons, List.sum_cons] at hle
    omega

/-- The disk takes a record. -/
theorem Fared.move (h : Fared store₁ store' rest lost outcome)
    (hfree : ¬store.disk.StuckAfter record.size) (hfree₁ : ¬store₁.disk.Stuck)
    (hconfig : store₁.disk.config = store.disk.config)
    (hlive : store₁.disk.liveBytes = store.disk.liveBytes + record.size)
    (hdropped : store₁.stats.dropped = store.stats.dropped)
    (hdemotions : store₁.stats.demotions = store.stats.demotions + 1)
    (htracks : store.Tracks [] store₁) :
    Fared store store' (record :: rest) lost outcome := by
  obtain ⟨hsublist, houtcome, hsettled, hcounted, hkept, _, htracked⟩ := h
  refine ⟨hsublist.cons _, houtcome, fun _ => hsettled hfree₁, fun _ => ?_, fun _ hfits => ?_,
    fun hunlimited => ?_, fun _ => htracks.trans (htracked hfree₁)⟩
  · obtain ⟨hdropped', hdemotions'⟩ := hcounted hfree₁
    simp only [List.length_cons]
    omega
  · refine hkept hfree₁ ?_
    rw [DiskTier.Fits, hconfig, hlive]
    rw [DiskTier.Fits, List.map_cons, List.sum_cons] at hfits
    omega
  · rw [DiskTier.lostBy, if_neg hfree]
    exact hkept hfree₁ (.inl (by rw [hconfig]; exact hunlimited))

/-- The disk takes a record and fails to be compacted, which ends the move. -/
theorem Fared.stick (hstuck : store.disk.StuckAfter record.size) :
    Fared store store' (record :: rest) (rest.map (·.key)) (.error (.io .isADirectory)) := by
  refine ⟨List.sublist_cons_self _ _, .inr rfl, fun hfree => absurd hstuck.stuck hfree,
    fun hfree => absurd hstuck.stuck hfree, fun hfree => absurd hstuck.stuck hfree, fun _ => ?_,
    fun hfree => absurd hstuck.stuck hfree⟩
  rw [DiskTier.lostBy, if_pos hstuck]

end Faring

section Demotion

variable {store store' : TieredStore} {config : StoreConfig} {directories : List Path}
  {opened : Nat} {ramHeld diskHeld held ramHeld' diskHeld' : ByteArray → Option ByteArray}
  {key value : ByteArray} {record : Record} {records : List Record}

/-- A record from a slab is dropped when the budget refuses it, and else written to disk. -/
theorem Holds.demote_cases (h : store.Holds config directories opened ramHeld diskHeld)
    (hkey : diskHeld record.key = none) (hsmall : record.size < wordLimit) :
    (¬store.disk.Fits record.size ∧ ∃ store', Yields (demote record) store () store' ∧
        store.SameTiers store' ∧ store'.stats.dropped = store.stats.dropped + 1 ∧
        store'.stats.demotions = store.stats.demotions ∧
        store.Tracks [.remove record.key] store') ∨
      ∃ store', store'.ram = store.ram ∧ store'.disk.config = store.disk.config ∧
        store'.disk.liveBytes = store.disk.liveBytes + record.size ∧
        store'.Holds config directories opened ramHeld
          (Function.update diskHeld record.key (some record.value)) ∧
        ((¬store.disk.StuckAfter record.size ∧ ¬store'.disk.Stuck ∧
            Yields (demote record) store () store' ∧
            store'.stats.dropped = store.stats.dropped ∧
            store'.stats.demotions = store.stats.demotions + 1 ∧ store.Tracks [] store') ∨
          (store.disk.StuckAfter record.size ∧
            Fails (demote record) store (.io .isADirectory) store')) := by
  rcases h.disk_insert_cases hkey record.value with
    ⟨hrefuses, size, hinsert⟩ | ⟨_, disk, hconfig, hlive, hholds, hinsert⟩
  · obtain ⟨store₁, huntrack, hsame₁, hstats₁⟩ := exists_untrack record.key store
    obtain ⟨store₂, hcount, hsame₂, hstats₂⟩ :=
      exists_count (fun s => { s with dropped := s.dropped + 1 }) store₁
    refine .inl ⟨(h.disk.refuses_iff hkey hsmall).1 hrefuses, store₂, ?_, hsame₁.trans hsame₂, ?_,
      ?_, (tracks_of_untrack huntrack).trans (tracks_of_count hcount)⟩
    · exact hinsert.bind.tryCatch (huntrack.bind hcount)
    · rw [hstats₂, hstats₁]
    · rw [hstats₂, hstats₁]
  · rcases hinsert with ⟨hfree, hfree', hinsert⟩ | ⟨hstuck, hinsert⟩
    · obtain ⟨store₁, hcount, hsame, hstats⟩ := exists_count
        (fun s => { s with demotions := s.demotions + 1 }) { store with disk }
      refine .inr ⟨store₁, hsame.ram_eq, ?_, ?_, hholds.congr hsame,
        .inl ⟨hfree, ?_, ?_, ?_, ?_, (tracks_of_count hcount).congr rfl⟩⟩
      · rw [hsame.disk_eq, hconfig]
      · rw [hsame.disk_eq, hlive, Record.size]
      · rwa [hsame.disk_eq]
      · exact Yields.tryCatch (hinsert.bind hcount)
      · rw [hstats]
      · rw [hstats]
    · exact .inr ⟨{ store with disk }, rfl, hconfig, hlive, hholds, .inr ⟨hstuck,
        hinsert.bind.tryCatch rfl⟩⟩

/-- The records of a slab go to disk one after the other, as long as the disk can be compacted. Each
of them finds the disk as those before it left it, full or due for a compaction. -/
theorem Holds.exists_demotes (h : store.Holds config directories opened ramHeld diskHeld)
    (hbatch : Batch records held) (hnew : ∀ record ∈ records, diskHeld record.key = none) :
    ∃ outcome store' lost, Runs (records.forM demote) store outcome store' ∧
      store'.ram = store.ram ∧
      store'.Holds config directories opened ramHeld (arrived records lost held diskHeld) ∧
      Fared store store' records lost outcome := by
  induction records generalizing store diskHeld with
  | nil => exact ⟨.ok (), store, [], rfl, rfl, by rwa [arrived_nil], .nil store⟩
  | cons record rest ih =>
    have hvalue := hbatch.held_eq record List.mem_cons_self
    have hrecord := hbatch.key_not_mem
    have hnew' (r : Record) (hr : r ∈ rest) : diskHeld r.key = none :=
      hnew r (List.mem_cons_of_mem _ hr)
    rcases h.demote_cases (hnew record List.mem_cons_self) hbatch.small with
      ⟨hrefused, store₁, hdemote, hsame, hdropped, hdemotions, htracks⟩ |
      ⟨store₁, hram, hconfig, hlive, h₁, hdemote⟩
    · obtain ⟨outcome, store₂, lost, hrest, hram₂, h₂, hfared⟩ :=
        ih (h.congr hsame) hbatch.of_cons hnew'
      refine ⟨outcome, store₂, record.key :: lost, hdemote.bind hrest, hram₂.trans hsame.ram_eq,
        ?_, hfared.drop hrefused hsame.disk_eq hdropped hdemotions htracks⟩
      rwa [arrived_cons_lost hrecord]
    · have hnew₁ (r : Record) (hr : r ∈ rest) :
          Function.update diskHeld record.key (some record.value) r.key = none := by
        have hne : r.key ≠ record.key := fun heq => hrecord (List.mem_map.2 ⟨r, hr, heq⟩)
        rw [Function.update_of_ne hne]
        exact hnew' r hr
      rcases hdemote with
        ⟨hfree, hfree₁, hdemote, hdropped, hdemotions, htracks⟩ | ⟨hstuck, hdemote⟩
      · obtain ⟨outcome, store₂, lost, hrest, hram₂, h₂, hfared⟩ := ih h₁ hbatch.of_cons hnew₁
        refine ⟨outcome, store₂, lost, hdemote.bind hrest, hram₂.trans hram, ?_,
          hfared.move hfree hfree₁ hconfig hlive hdropped hdemotions htracks⟩
        rwa [arrived_cons hvalue hrecord hfared.sublist.subset]
      · refine ⟨.error (.io .isADirectory), store₁, rest.map (·.key), hdemote.bind, hram, ?_,
          .stick hstuck⟩
        rwa [arrived_cons hvalue hrecord (List.Subset.refl _), arrived_lost]

end Demotion

/-! ## Making room -/

/-- Some keys of RAM have gone to disk with their values, and some of them are lost. -/
def Demotes (lost : List ByteArray)
    (ramHeld diskHeld ramHeld' diskHeld' : ByteArray → Option ByteArray) : Prop :=
  ∀ key, (key ∉ lost ∧ ramHeld' key = ramHeld key ∧ diskHeld' key = diskHeld key) ∨
    ((ramHeld key).isSome ∧ ramHeld' key = none ∧
      diskHeld' key = if key ∈ lost then none else ramHeld key)

section Room

variable {store store' : TieredStore} {config : StoreConfig} {directories : List Path}
  {opened : Nat} {ramHeld diskHeld ramHeld' diskHeld' : ByteArray → Option ByteArray}
  {key value : ByteArray} {lost : List ByteArray} {records : List Record}

/-- When nothing goes to disk, both tiers hold what they held. -/
theorem Demotes.refl (ramHeld diskHeld : ByteArray → Option ByteArray) :
    Demotes [] ramHeld diskHeld ramHeld diskHeld :=
  fun _ => .inl ⟨List.not_mem_nil, rfl, rfl⟩

/-- A key that RAM does not hold stays where it is. -/
theorem Demotes.of_none (h : Demotes lost ramHeld diskHeld ramHeld' diskHeld')
    (hkey : ramHeld key = none) :
    key ∉ lost ∧ ramHeld' key = none ∧ diskHeld' key = diskHeld key := by
  rcases h key with ⟨hkept, hram, hdisk⟩ | ⟨hsome, _, _⟩
  · exact ⟨hkept, hram.trans hkey, hdisk⟩
  · rw [hkey] at hsome
    cases hsome

/-- What is lost was in RAM. -/
theorem Demotes.isSome_of_mem (h : Demotes lost ramHeld diskHeld ramHeld' diskHeld')
    (hkey : key ∈ lost) : (ramHeld key).isSome := by
  rcases h key with ⟨hkept, _, _⟩ | ⟨hsome, _, _⟩
  · exact absurd hkey hkept
  · exact hsome

/-- Taking records out of RAM to where they arrive demotes their keys. -/
theorem Demotes.of_batch (hbatch : Batch records ramHeld)
    (hapart : ∀ key, ramHeld key = none ∨ diskHeld key = none)
    (hlost : lost ⊆ records.map (·.key)) :
    Demotes lost ramHeld diskHeld (without ramHeld (records.map (·.key)))
      (arrived records lost ramHeld diskHeld) := by
  intro key
  by_cases hkey : key ∈ records.map (·.key)
  · obtain ⟨record, hrecord, rfl⟩ := List.mem_map.1 hkey
    have hheld := hbatch.held_eq record hrecord
    have hdisk : diskHeld record.key = none := by
      refine (hapart record.key).resolve_left fun hnone => ?_
      rw [hheld] at hnone
      cases hnone
    refine .inr ⟨by rw [hheld, Option.isSome_some], if_pos hkey, ?_⟩
    simp only [arrived, hkey, true_and, hdisk, ite_not]
  · refine .inl ⟨fun hmem => hkey (hlost hmem), if_neg hkey, ?_⟩
    simp only [arrived, hkey, false_and, if_false]

/-- Evicting a slab takes its records to disk, as far as they get there. -/
theorem Holds.exists_evictOne (h : store.Holds config directories opened ramHeld diskHeld)
    (hapart : ∀ key, ramHeld key = none ∨ diskHeld key = none) :
    ∃ (outcome : Except Error Bool) (store' : TieredStore) (lost : List ByteArray)
      (ramHeld' diskHeld' : ByteArray → Option ByteArray), Runs evictOne store outcome store' ∧
      store'.ram.nextId = store.ram.nextId ∧
      store'.ram.count + store.ram.victimRecords.length = store.ram.count ∧
      Demotes lost ramHeld diskHeld ramHeld' diskHeld' ∧
      store'.Holds config directories opened ramHeld' diskHeld' ∧ lost.Nodup ∧
      Fared store store' store.ram.victimRecords lost (outcome.map fun _ => ()) := by
  rcases h.ram.evictOne_cases with ⟨hevict, hrecords⟩ | ⟨ram, hevict, hnext, hbatch, hram⟩
  · refine ⟨.ok false, store, [], ramHeld, diskHeld, ?_, rfl, ?_, .refl _ _, h, List.nodup_nil, ?_⟩
    · refine (yields_onRam _ store).bind ?_
      simp only [hevict]
      rfl
    · rw [hrecords, List.length_nil, Nat.add_zero]
    · rw [hrecords]
      exact .nil store
  · obtain ⟨store₂, hcount, hsame, hstats⟩ := exists_count
      (fun s => { s with evictedSlabs := s.evictedSlabs + 1 }) { store with ram }
    have hnew (record : Record) (hrecord : record ∈ store.ram.victimRecords) :
        diskHeld record.key = none := by
      refine (hapart record.key).resolve_left fun hnone => ?_
      rw [hbatch.held_eq record hrecord] at hnone
      cases hnone
    obtain ⟨outcome, store₃, lost, hdemotes, hram₃, h₃, hfared⟩ :=
      ((h.with_ram hram).congr hsame).exists_demotes hbatch hnew
    have hram' : store₃.ram = ram := hram₃.trans hsame.ram_eq
    refine ⟨outcome.map fun _ => true, store₃, lost, _, _, ?_, ?_, ?_,
      .of_batch hbatch hapart hfared.sublist.subset, h₃, hbatch.nodup.sublist hfared.sublist, ?_⟩
    · refine (yields_onRam _ store).bind ?_
      simp only [hevict]
      refine hcount.bind ?_
      cases outcome with
      | ok a => exact Yields.bind hdemotes rfl
      | error e => exact Fails.bind hdemotes
    · rw [hram', hnext]
    · have hcounted := h.ram.count_without hram hbatch.nodup fun key hkey => by
        obtain ⟨record, hrecord, rfl⟩ := List.mem_map.1 hkey
        rw [hbatch.held_eq record hrecord, Option.isSome_some]
      rwa [hram', ← List.length_map (f := (·.key))]
    · obtain ⟨hsublist, houtcome, hsettled, hcounted, hkept, hlost, htracked⟩ := hfared
      rw [hsame.disk_eq] at hsettled hcounted hkept hlost htracked
      rw [hstats] at hcounted
      have htracks : store.Tracks [] store₂ := (tracks_of_count hcount).congr rfl
      have hmap : (outcome.map fun _ => true).map (fun _ => ()) = outcome := by
        cases outcome <;> rfl
      rw [hmap]
      exact ⟨hsublist, houtcome, hsettled, hcounted, hkept, hlost,
        fun hfree => htracks.trans (htracked hfree)⟩

/-- A disk that is not due for a compaction that fails, and whose room can be told. -/
structure Ready (store : TieredStore) : Prop where
  free : ¬store.disk.Stuck
  counts : store.disk.Counts

/-- The victim of the check for room is that of the eviction, and its records have the lengths that
were checked. -/
theorem Holds.fits_of_canDemote (h : store.Holds config directories opened ramHeld diskHeld)
    (hcounts : store.disk.Counts) (hcan : store.canDemote = true) :
    store.disk.Fits (store.ram.victimRecords.map Record.size).sum := by
  refine DiskTier.fits_of_hasRoom hcounts ?_ hcan
  rcases h.ram.evictOne_cases with ⟨_, hrecords⟩ | ⟨_, _, _, hbatch, _⟩
  · rw [hrecords]
    decide
  · exact hbatch.sum_lt

/-- How a record that was offered to RAM fared: whether it was stored there, and what was lost of a
slab that left for it. -/
structure Offered (store store' : TieredStore) (outcome : Except Error Bool) (stored : Bool)
    (lost : List ByteArray) : Prop where
  outcome_eq : outcome = .ok stored ∨
    (stored = false ∧ outcome = .error (.io .isADirectory) ∧ store.disk.Stuck)
  safe : store.Ready → lost = [] ∧ store'.stats.dropped = store.stats.dropped
  tracked : ¬store.disk.Stuck → store.Tracks (lost.map .remove) store'

/-- When the disk can take a slab, one leaves RAM for the record, which is offered once more. -/
theorem Holds.exists_insert_evicting (h : store.Holds config directories opened ramHeld diskHeld)
    (hapart : ∀ key, ramHeld key = none ∨ diskHeld key = none) (hkey : ramHeld key = none)
    (value : ByteArray) (hopened : opened < wordLimit) (hcan : store.canDemote = true) :
    ∃ (stored : Bool) (outcome : Except Error Bool) (store' : TieredStore) (lost : List ByteArray)
      (ramHeld' diskHeld' : ByteArray → Option ByteArray),
      Runs (do if ← evictOne then onRam (·.insert key value) else return false) store outcome
        store' ∧
      Demotes lost ramHeld diskHeld ramHeld' diskHeld' ∧
      store'.Holds config directories (opened + RamTier.opens store.ram store'.ram)
        (if stored then Function.update ramHeld' key (some value) else ramHeld') diskHeld' ∧
      Offered store store' outcome stored lost := by
  obtain ⟨outcome, store₁, lost, ramHeld₁, diskHeld₁, hevict, hnext, _, hdemotes, h₁, _, hfared⟩ :=
    h.exists_evictOne hapart
  have hsafe (hready : store.Ready) :
      lost = [] ∧ store₁.stats.dropped = store.stats.dropped := by
    have hlost := hfared.kept hready.free (h.fits_of_canDemote hready.counts hcan)
    have hdropped := (hfared.counted hready.free).1
    rw [hlost, List.length_nil, Nat.add_zero] at hdropped
    exact ⟨hlost, hdropped⟩
  have h₁' : store₁.Holds config directories (opened + RamTier.opens store.ram store₁.ram) ramHeld₁
      diskHeld₁ := by rwa [RamTier.opens_of_eq hnext]
  rcases outcome with e | _ | _
  · obtain rfl : e = .io .isADirectory := by
      rcases hfared.outcome_eq with hok | herror
      · cases hok
      · exact Except.error.inj herror
    have hstuck : store.disk.Stuck := by
      by_contra hfree
      cases (hfared.settled hfree).1
    exact ⟨false, _, store₁, lost, ramHeld₁, diskHeld₁, Fails.bind hevict, hdemotes, h₁',
      .inr ⟨rfl, rfl, hstuck⟩, hsafe, hfared.tracked⟩
  · exact ⟨false, .ok false, store₁, lost, ramHeld₁, diskHeld₁, Yields.bind hevict rfl, hdemotes,
      h₁', .inl rfl, hsafe, hfared.tracked⟩
  · rcases h₁.ram_insert_cases (hdemotes.of_none hkey).2.1 value hopened with
      hinsert | ⟨ram, hinsert, h₂⟩
    · exact ⟨false, .ok false, store₁, lost, ramHeld₁, diskHeld₁, Yields.bind hevict hinsert,
        hdemotes, h₁', .inl rfl, hsafe, hfared.tracked⟩
    · rw [← RamTier.opens_congr hnext] at h₂
      exact ⟨true, .ok true, { store₁ with ram }, lost, ramHeld₁, diskHeld₁,
        Yields.bind hevict hinsert, hdemotes, h₂, .inl rfl, hsafe, hfared.tracked⟩

/-- A record that RAM does not hold is stored in it or not. A slab may go to disk for it, which
loses nothing when the disk is ready. -/
theorem Holds.exists_insertRam (h : store.Holds config directories opened ramHeld diskHeld)
    (hapart : ∀ key, ramHeld key = none ∨ diskHeld key = none) (hkey : ramHeld key = none)
    (value : ByteArray) (hopened : opened < wordLimit) :
    ∃ (stored : Bool) (outcome : Except Error Bool) (store' : TieredStore) (lost : List ByteArray)
      (ramHeld' diskHeld' : ByteArray → Option ByteArray),
      Runs (insertRam key value) store outcome store' ∧
      Demotes lost ramHeld diskHeld ramHeld' diskHeld' ∧
      store'.Holds config directories (opened + RamTier.opens store.ram store'.ram)
        (if stored then Function.update ramHeld' key (some value) else ramHeld') diskHeld' ∧
      Offered store store' outcome stored lost := by
  rcases h.ram_insert_cases hkey value hopened with hinsert | ⟨ram, hinsert, h₁⟩
  swap
  · exact ⟨true, .ok true, { store with ram }, [], ramHeld, diskHeld, hinsert.bind rfl, .refl _ _,
      h₁, .inl rfl, fun _ => ⟨rfl, rfl⟩, fun _ => rfl⟩
  by_cases hroom : (!store.ram.fits key value || !store.canDemote) = true
  · refine ⟨false, .ok false, store, [], ramHeld, diskHeld, ?_, .refl _ _, ?_, .inl rfl,
      fun _ => ⟨rfl, rfl⟩, fun _ => rfl⟩
    · refine hinsert.bind ((yields_get store).bind ?_)
      rw [if_pos hroom]
      rfl
    · rwa [RamTier.opens_self]
  · have hcan : store.canDemote = true := by
      rw [Bool.or_eq_true, not_or, Bool.not_eq_true, Bool.not_eq_true, Bool.not_eq_false'] at hroom
      simpa only [Bool.not_eq_false'] using hroom.2
    obtain ⟨stored, outcome, store', lost, ramHeld', diskHeld', hevicting, hrest⟩ :=
      h.exists_insert_evicting hapart hkey value hopened hcan
    refine ⟨stored, outcome, store', lost, ramHeld', diskHeld', ?_, hrest⟩
    refine hinsert.bind ((yields_get store).bind ?_)
    rw [if_neg hroom]
    exact hevicting

end Room

end TieredStore

end ElasticCache
