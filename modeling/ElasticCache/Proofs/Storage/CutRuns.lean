import ElasticCache.Proofs.Storage.ArbitraryLogs

/-!
# Histories that a cut leaves

The log of a disk tier is what the last compaction wrote and the records of the changes made since.
A cut behind the output of that compaction loses the newest of these changes and nothing else, and a
tier opened on what is left goes on as if they had never been made.
-/

namespace ElasticCache.DiskTier

/-! ## What was done to a tier -/

/-- The changes made to a tier, with the newest first: those that the last compaction took in and
those made since, whose records stand behind its output. -/
structure Trail where
  /-- Where the output of the last compaction ends. -/
  start : Nat
  before : List MapChange
  since : List MapChange

namespace Trail

/-- All changes. -/
def changes (trail : Trail) : List MapChange := trail.since ++ trail.before

/-- One more change. -/
def add (trail : Trail) (change : MapChange) : Trail :=
  { trail with since := change :: trail.since }

/-- A compaction took in all changes and wrote a log of the given size. -/
def compact (trail : Trail) (size : Nat) : Trail := ⟨size, trail.changes, []⟩

/-- The changes that a cut behind the output of the last compaction leaves. -/
def survivors (trail : Trail) (cut : Nat) : List MapChange :=
  wholeWithin trail.start cut trail.since ++ trail.before

end Trail

/-- A compaction is due. -/
def Due (tier : DiskTier) : Prop :=
  tier.config.compactionThreshold < tier.garbageBytes ∧ tier.liveBytes < tier.garbageBytes

instance (tier : DiskTier) : Decidable tier.Due := by
  unfold Due
  infer_instance

/-- A tier right after the record of a change was appended. -/
def write (tier : DiskTier) (change : MapChange) : DiskTier :=
  tier.appendEntry change.entry change.encode

/-- What was done to a tier that was settled and is another one then. -/
def Trail.settle (trail : Trail) (tier tier' : DiskTier) : Trail :=
  if tier.Due then trail.compact tier'.dir.log.size else trail

/-- The tiers that a sequence of operations leads to in a directory without a log, with what was
done to them. -/
inductive LogRun : Trail → DiskTier → Prop
  | opened {config : DiskConfig} {dir : Directory} {tier : DiskTier}
      (hdirectories : dir.directories = [[]]) (hlog : dir.log = .empty)
      (h : openLog config dir = .ok tier) : LogRun ⟨0, [], []⟩ tier
  | inserted {trail : Trail} {tier tier' : DiskTier} {key value : ByteArray}
      (run : LogRun trail tier) (h : tier.insert key value = (.ok (), tier')) :
      LogRun ((trail.add (.put key value)).settle (tier.write (.put key value)) tier') tier'
  | refused {trail : Trail} {tier tier' : DiskTier} {key value : ByteArray} {e : Error}
      (run : LogRun trail tier) (h : tier.insert key value = (.error e, tier')) :
      LogRun trail tier'
  | removed {trail : Trail} {tier tier' : DiskTier} {key : ByteArray}
      (run : LogRun trail tier) (h : tier.remove key = (.ok true, tier')) :
      LogRun ((trail.add (.drop key)).settle (tier.write (.drop key)) tier') tier'
  | missed {trail : Trail} {tier tier' : DiskTier} {key : ByteArray}
      (run : LogRun trail tier) (h : tier.remove key = (.ok false, tier')) : LogRun trail tier'
  | compacted {trail : Trail} {tier tier' : DiskTier} (run : LogRun trail tier)
      (h : tier.compact = (.ok (), tier')) : LogRun (trail.compact tier'.dir.log.size) tier'
  | reopened {trail : Trail} {tier tier' : DiskTier} {config : DiskConfig}
      (run : LogRun trail tier) (h : openLog config tier.dir = .ok tier') : LogRun trail tier'

/-! ## The log of a history -/

/-- The log of a tier is what the last compaction wrote and the records of the changes since. -/
structure Traces (trail : Trail) (tier : DiskTier) (base : List MapChange) : Prop where
  holds : tier.Holds (lastValue trail.changes)
  fits : ∀ change ∈ trail.since ++ base, change.Fits
  log_eq : tier.dir.log = logOf (trail.since ++ base)
  start_eq : trail.start = (logOf base).size
  same : lastValue base = lastValue trail.before

section Traces

variable {trail : Trail} {tier tier' : DiskTier} {base : List MapChange} {change : MapChange}
  {key value : ByteArray}

/-- What a key is after some changes depends on what it was before and on nothing else. -/
theorem lastValue_append_congr {older older' : List MapChange}
    (h : lastValue older = lastValue older') (newer : List MapChange) :
    lastValue (newer ++ older) = lastValue (newer ++ older') := by
  induction newer with
  | nil => exact h
  | cons change newer ih =>
    cases change with
    | put key value => rw [List.cons_append, List.cons_append, lastValue_put, lastValue_put, ih]
    | drop key => rw [List.cons_append, List.cons_append, lastValue_drop, lastValue_drop, ih]

/-- A change is written behind the log. -/
theorem log_write (tier : DiskTier) (change : MapChange) :
    (tier.write change).dir.log = tier.dir.log ++ change.encode :=
  Directory.log_putLog

/-- A tier holds what a change makes of what it held. -/
theorem Holds.write {changes : List MapChange} (h : tier.Holds (lastValue changes))
    (hfits : change.Fits) : (tier.write change).Holds (lastValue (change :: changes)) := by
  constructor
  · exact h.directories
  · rw [log_write]
    exact h.describes.append_change hfits

/-- A change that is written is one more since the last compaction. -/
theorem Traces.write (h : Traces trail tier base) (hfits : change.Fits) :
    Traces (trail.add change) (tier.write change) base := by
  constructor
  · exact h.holds.write hfits
  · exact List.forall_mem_cons.2 ⟨hfits, h.fits⟩
  · rw [log_write, h.log_eq]
    rfl
  · exact h.start_eq
  · exact h.same

/-- A compaction takes in all changes before it. -/
theorem Traces.compact (h : Traces trail tier base) (hcompact : tier.compact = (.ok (), tier')) :
    ∃ base', Traces (trail.compact tier'.dir.log.size) tier' base' := by
  have hholds := h.holds.of_acts (.compacted hcompact)
  obtain ⟨base', hfits, hlog, hsame⟩ := Records.exists_logOf hholds.describes
  refine ⟨base', ?_⟩
  constructor
  · exact hholds
  · exact hfits
  · exact hlog
  · exact congrArg ByteArray.size hlog
  · exact hsame

/-- A tier that is settled is compacted first when that is due. -/
theorem Traces.settle (h : Traces trail tier base) (hsettle : tier.settle = (.ok (), tier')) :
    ∃ base', Traces (trail.settle tier tier') tier' base' := by
  unfold DiskTier.settle at hsettle
  unfold Trail.settle
  by_cases hdue : tier.Due
  · rw [if_pos hdue]
    exact h.compact ((if_pos hdue).symm.trans hsettle)
  · rw [if_neg hdue]
    obtain rfl := (Prod.mk.inj ((if_neg hdue).symm.trans hsettle)).2
    exact ⟨base, h⟩

/-- An insertion that succeeds appended its record and settled. -/
theorem settle_of_insert (h : tier.insert key value = (.ok (), tier')) :
    (MapChange.put key value).Fits ∧
      (tier.write (.put key value)).settle = (.ok (), tier') := by
  by_cases hrefuses : tier.Refuses key value
  · obtain ⟨size, hrefused⟩ := insert_eq_refused hrefuses
    rw [hrefused] at h
    cases h
  · exact ⟨lengths_of_accepts hrefuses, (insert_eq_settle hrefuses).symm.trans h⟩

/-- A removal that found its key appended a tombstone and settled. -/
theorem settle_of_remove {held : ByteArray → Option ByteArray} (h : tier.Records held)
    (hremove : tier.remove key = (.ok true, tier')) :
    (MapChange.drop key).Fits ∧ (tier.write (.drop key)).settle = (.ok (), tier') := by
  have hok (outcome : Except Error Unit) (h : outcome.map (fun _ => true) = .ok true) :
      outcome = .ok () := by
    cases outcome with
    | error e => cases h
    | ok _ => rfl
  by_cases hcontains : tier.contains key = true
  · rw [remove_eq_settle hcontains] at hremove
    obtain ⟨houtcome, htier⟩ := Prod.mk.inj hremove
    rw [h.contains_eq] at hcontains
    exact ⟨h.key_small hcontains, Prod.ext (hok _ houtcome) htier⟩
  · rw [remove_eq_missed hcontains] at hremove
    cases hremove

/-- A removal that did not find its key changes nothing. -/
theorem eq_of_missed (h : tier.remove key = (.ok false, tier')) : tier' = tier := by
  by_cases hcontains : tier.contains key = true
  · rw [remove_eq_settle hcontains] at h
    have houtcome := (Prod.mk.inj h).1
    generalize DiskTier.settle _ = settled at houtcome
    obtain ⟨outcome, _⟩ := settled
    cases outcome <;> cases houtcome
  · rw [remove_eq_missed hcontains] at h
    exact (Prod.mk.inj h).2.symm

/-- A tier that is opened on an empty log has no history. -/
theorem Traces.of_opened {config : DiskConfig} {dir : Directory}
    (hdirectories : dir.directories = [[]]) (hlog : dir.log = .empty)
    (h : openLog config dir = .ok tier) : Traces ⟨0, [], []⟩ tier [] := by
  have hempty := LogIndex.describes_empty
  rw [← hlog] at hempty
  obtain ⟨tier₁, hopen, _, _, hsame, hholds⟩ := exists_openLog config hdirectories hempty
  obtain rfl := Except.ok.inj (hopen.symm.trans h)
  constructor
  · exact hholds
  · exact List.forall_mem_nil _
  · rw [hsame, hlog]
    rfl
  · rfl
  · rfl

/-- A tier that is opened again has the history that it had. -/
theorem Traces.reopen {config : DiskConfig} (h : Traces trail tier base)
    (hopen : openLog config tier.dir = .ok tier') : Traces trail tier' base := by
  obtain ⟨tier₁, hopen₁, _, _, hlog, hholds⟩ := h.holds.exists_reopen config
  obtain rfl := Except.ok.inj (hopen₁.symm.trans hopen)
  exact { h with holds := hholds, log_eq := hlog.trans h.log_eq }

/-- Whatever was done, the log traces it. -/
theorem LogRun.exists_traces (run : LogRun trail tier) : ∃ base, Traces trail tier base := by
  induction run with
  | opened hdirectories hlog h => exact ⟨[], .of_opened hdirectories hlog h⟩
  | inserted run h ih =>
    obtain ⟨base, ih⟩ := ih
    obtain ⟨hfits, hsettle⟩ := settle_of_insert h
    exact (ih.write hfits).settle hsettle
  | refused run h ih =>
    obtain ⟨base, ih⟩ := ih
    obtain rfl := ih.holds.eq_of_refused h
    exact ⟨base, ih⟩
  | removed run h ih =>
    obtain ⟨base, ih⟩ := ih
    obtain ⟨hfits, hsettle⟩ := settle_of_remove ih.holds.describes h
    exact (ih.write hfits).settle hsettle
  | missed run h ih =>
    obtain rfl := eq_of_missed h
    exact ih
  | compacted run h ih =>
    obtain ⟨base, ih⟩ := ih
    exact ih.compact h
  | reopened run h ih =>
    obtain ⟨base, ih⟩ := ih
    exact ⟨base, ih.reopen h⟩

/-- The whole records before a cut behind the output of the last compaction say what the changes say
that it leaves. That output is whole before the cut, so that the cut is among the later records. -/
theorem Traces.lastValue_survivors {cut : Nat} (h : Traces trail tier base)
    (hcut : trail.start ≤ cut) :
    lastValue (wholeWithin 0 cut (trail.since ++ base)) = lastValue (trail.survivors cut) := by
  have hcut' : (logOf base).size ≤ cut := h.start_eq ▸ hcut
  rw [wholeWithin_append trail.since hcut', Trail.survivors, ← h.start_eq]
  exact lastValue_append_congr h.same _

/-- A log can be cut anywhere. It is the records of some changes, one after the other; opened after
a cut, it is cut back to those that end before it and the tier acts as the map that they make up,
now and after any further operations, whatever other files stand beside the log. When the cut is not
in the output of the last compaction, that map is what the changes before the compaction make up and
those after it whose records are whole. -/
theorem LogRun.survives_cut (run : LogRun trail tier) :
    ∃ records, (∀ change ∈ records, change.Fits) ∧ tier.dir.log = logOf records ∧
      ∀ cut config dir, dir.directories = [[]] → dir.log = tier.dir.log.extract 0 cut →
        ∃ first, openLog config dir = .ok first ∧ first.config = config ∧
          first.dir.log = logOf (wholeWithin 0 cut records) ∧
          (trail.start ≤ cut →
            lastValue (wholeWithin 0 cut records) = lastValue (trail.survivors cut)) ∧
          ∀ later last, Steps first later last →
            last.ActsAs (lastValue (later ++ wholeWithin 0 cut records)) := by
  obtain ⟨base, h⟩ := run.exists_traces
  refine ⟨trail.since ++ base, h.fits, h.log_eq, fun cut config dir hdirectories hlog => ?_⟩
  rw [h.log_eq] at hlog
  obtain ⟨first, hopen, hconfig, hcut, hholds⟩ :=
    exists_openLog_cut config h.fits hdirectories hlog
  exact ⟨first, hopen, hconfig, hcut, h.lastValue_survivors,
    fun later last steps => (hholds.of_steps steps).actsAs⟩

/-- A cut inside the only record of a log leaves a tier without its key, and a cut behind that
record a tier that has it. -/
theorem LogRun.survives_cut_of_one :
    ∃ tier : DiskTier, LogRun ⟨0, [], [.put ⟨#[1]⟩ ⟨#[2]⟩]⟩ tier ∧
      ∀ config dir, dir.directories = [[]] →
        (dir.log = tier.dir.log.extract 0 9 → ∃ first, openLog config dir = .ok first ∧
          first.find ⟨#[1]⟩ = .ok none) ∧
        (dir.log = tier.dir.log.extract 0 10 → ∃ first, openLog config dir = .ok first ∧
          first.find ⟨#[1]⟩ = .ok (some ⟨#[2]⟩)) := by
  have hempty : LogIndex.empty.Describes Directory.empty.log fun _ => none := by
    rw [Directory.log_empty]
    exact LogIndex.describes_empty
  obtain ⟨tier, hopen, hconfig, hindex, _, hholds⟩ := exists_openLog {} rfl hempty
  have haccepts : ¬tier.Refuses ⟨#[1]⟩ ⟨#[2]⟩ := by
    rw [Refuses, hconfig, not_or, not_or]
    exact ⟨by decide, by decide, fun hbudget => absurd hbudget.1 (by decide)⟩
  obtain ⟨tier₁, hinsert, _⟩ := hholds.exists_insert haccepts
  have hdue : ¬(tier.write (.put ⟨#[1]⟩ ⟨#[2]⟩)).Due := by
    have hgarbage : (tier.write (.put ⟨#[1]⟩ ⟨#[2]⟩)).garbageBytes =
        tier.index.garbageBytes + tier.index.liveSize ⟨#[1]⟩ := rfl
    rw [Due, hgarbage, Records.liveSize_eq_zero hholds.describes rfl, hindex]
    exact fun hdue => absurd hdue.1 (Nat.not_lt_zero _)
  have run : LogRun ⟨0, [], [.put ⟨#[1]⟩ ⟨#[2]⟩]⟩ tier₁ := by
    have run := (LogRun.opened rfl Directory.log_empty hopen).inserted hinsert
    rwa [Trail.settle, if_neg hdue] at run
  obtain ⟨records, _, _, hcut⟩ := run.survives_cut
  refine ⟨tier₁, run, fun config dir hdirectories => ⟨fun hlog => ?_, fun hlog => ?_⟩⟩
  · obtain ⟨first, hfirst, _, _, hsurvivors, hlater⟩ := hcut 9 config dir hdirectories hlog
    refine ⟨first, hfirst, ((hlater [] first .start).found _).trans ?_⟩
    rw [List.nil_append, hsurvivors (Nat.zero_le _), Trail.survivors,
      wholeWithin_of_torn (by decide) (by decide)]
    rfl
  · obtain ⟨first, hfirst, _, _, hsurvivors, hlater⟩ := hcut 10 config dir hdirectories hlog
    refine ⟨first, hfirst, ((hlater [] first .start).found _).trans ?_⟩
    rw [List.nil_append, hsurvivors (Nat.zero_le _), Trail.survivors,
      wholeWithin_of_le (by decide)]
    rfl

end Traces

end ElasticCache.DiskTier
