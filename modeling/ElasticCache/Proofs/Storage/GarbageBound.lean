import ElasticCache.Proofs.Storage.LiveRecords
import ElasticCache.Proofs.Storage.CutRuns

/-!
# The bytes of a log under use

A disk tier that was started in an empty directory counts every byte of its log once, whatever is
stored, refused, dropped and compacted. Each operation leaves no compaction due, so garbage never
outgrows both the live records and the threshold.
-/

namespace ElasticCache.DiskTier

/-! ## Operations -/

/-- An operation on a disk tier. -/
inductive Command where
  | insert (key value : ByteArray)
  | remove (key : ByteArray)
  | compact

/-- The tier that an operation leaves, however it ends. -/
def perform (tier : DiskTier) : Command → DiskTier
  | .insert key value => (tier.insert key value).2
  | .remove key => (tier.remove key).2
  | .compact => tier.compact.2

/-- The change that an operation appends to the log, if any. -/
def Command.change? (tier : DiskTier) : Command → Option MapChange
  | .insert key value => if tier.Refuses key value then none else some (.put key value)
  | .remove key => if tier.contains key then some (.drop key) else none
  | .compact => none

/-- The tier right after an operation appended its change, before it settles. -/
def Command.written (tier : DiskTier) (command : Command) : DiskTier :=
  match command.change? tier with
  | some change => tier.write change
  | none => tier

/-- An operation compacts the log: it was asked to, or what it wrote makes that due. -/
def Command.Compacts (tier : DiskTier) (command : Command) : Prop :=
  command = .compact ∨ (command.written tier).Due

section Operations

variable {tier : DiskTier} {command : Command}

/-- When a compaction is due, settling is that compaction. -/
theorem settle_eq_compact (hdue : tier.Due) : tier.settle = tier.compact := if_pos hdue

/-- When no compaction is due, settling does nothing. -/
theorem settle_eq_self (hsettled : ¬tier.Due) : tier.settle = (.ok (), tier) := if_neg hsettled

/-- An operation appends its change and settles. -/
theorem perform_eq_settle (hsettled : ¬tier.Due) (hcommand : command ≠ .compact) :
    tier.perform command = (command.written tier).settle.2 := by
  cases command with
  | insert key value =>
    by_cases hrefuses : tier.Refuses key value
    · obtain ⟨size, hrefused⟩ := insert_eq_refused hrefuses
      rw [perform, hrefused, Command.written, Command.change?, if_pos hrefuses]
      dsimp only
      rw [settle_eq_self hsettled]
    · rw [perform, insert_eq_settle hrefuses, Command.written, Command.change?, if_neg hrefuses]
      rfl
  | remove key =>
    by_cases hcontains : tier.contains key = true
    · rw [perform, remove_eq_settle hcontains, Command.written, Command.change?, if_pos hcontains]
      rfl
    · rw [perform, remove_eq_missed hcontains, Command.written, Command.change?,
        if_neg hcontains]
      dsimp only
      rw [settle_eq_self hsettled]
  | compact => exact absurd rfl hcommand

/-- A command that brings a compaction about leaves what that leaves. -/
theorem perform_eq_compact (hsettled : ¬tier.Due) (h : command.Compacts tier) :
    tier.perform command = (command.written tier).compact.2 := by
  by_cases hcommand : command = .compact
  · subst hcommand
    rfl
  · rw [perform_eq_settle hsettled hcommand, settle_eq_compact (h.resolve_left hcommand)]

/-- A command without a compaction leaves what it has written. -/
theorem perform_eq_written (hsettled : ¬tier.Due) (h : ¬command.Compacts tier) :
    tier.perform command = command.written tier := by
  rw [Command.Compacts, not_or] at h
  rw [perform_eq_settle hsettled h.1, settle_eq_self h.2]

end Operations

/-! ## What every operation keeps -/

/-- A tier whose log is the records of some changes. -/
structure Logs (tier : DiskTier) (config : DiskConfig) (records : List MapChange) : Prop where
  config_eq : tier.config = config
  holds : tier.Holds (lastValue records)
  fits : ∀ change ∈ records, change.Fits
  log_eq : tier.dir.log = logOf records

/-- The books of a tier: every byte of its log is counted once, garbage is bounded, and neither an
insertion nor an entry of any kind would take a negative difference. -/
structure Accounted (tier : DiskTier) : Prop where
  live_eq : tier.liveBytes = tier.index.placedBytes
  total_eq : tier.liveBytes + tier.garbageBytes = tier.fileBytes
  file_eq : tier.fileBytes = tier.dir.log.size
  garbage_le : tier.garbageBytes ≤ max tier.config.compactionThreshold tier.liveBytes
  log_le : tier.dir.log.size ≤
    tier.liveBytes + max tier.config.compactionThreshold tier.liveBytes
  superseded_le : ∀ key, tier.index.liveSize key ≤ tier.liveBytes
  checked : ∀ entry, tier.index.appendIn entry = .ok (tier.index.append entry)

section Logs

variable {config : DiskConfig} {records : List MapChange} {tier : DiskTier} {change : MapChange}
  {command : Command}

/-- A log of records accounts for all its bytes when no compaction is due. -/
theorem Logs.accounted (h : tier.Logs config records) (hsettled : ¬tier.Due) :
    tier.Accounted := by
  have hbalanced := h.holds.describes.balanced
  have htotal : tier.liveBytes + tier.garbageBytes = tier.fileBytes := hbalanced.total_eq
  have hfile : tier.fileBytes = tier.dir.log.size := h.holds.describes.whole
  have hgarbage : tier.garbageBytes ≤ max tier.config.compactionThreshold tier.liveBytes := by
    rw [Due] at hsettled
    omega
  constructor
  · exact hbalanced.live_eq
  · exact htotal
  · exact hfile
  · exact hgarbage
  · omega
  · exact hbalanced.liveSize_le
  · exact hbalanced.appendIn_eq

/-- The change that an operation appends fits its record. -/
theorem Logs.fits_of_change? (h : tier.Logs config records)
    (hchange : command.change? tier = some change) : change.Fits := by
  cases command with
  | insert key value =>
    obtain ⟨haccepts, hput⟩ := Option.ite_none_left_eq_some.1 hchange
    rw [← Option.some.inj hput]
    exact lengths_of_accepts haccepts
  | remove key =>
    obtain ⟨hcontains, hdrop⟩ := Option.ite_none_right_eq_some.1 hchange
    rw [Records.contains_eq h.holds.describes] at hcontains
    rw [← Option.some.inj hdrop]
    exact Records.key_small h.holds.describes hcontains
  | compact => cases hchange

/-- The change of a command is the newest record. -/
theorem Logs.written (h : tier.Logs config records) (command : Command) :
    (command.written tier).Logs config ((command.change? tier).toList ++ records) := by
  rw [Command.written]
  cases hchange : command.change? tier with
  | none => exact h
  | some change =>
    have hfits := h.fits_of_change? hchange
    constructor
    · exact h.config_eq
    · exact h.holds.write hfits
    · exact List.forall_mem_cons.2 ⟨hfits, h.fits⟩
    · rw [log_write, h.log_eq]
      rfl

/-- A compaction leaves the live records and no garbage. -/
theorem Logs.compact (h : tier.Logs config records) :
    tier.compact.2.Logs config (liveRecords records) ∧ tier.compact.2.garbageBytes = 0 := by
  obtain ⟨tier', hcompact, hsetting, _, hrecords, hlog, hgarbage⟩ :=
    Records.exists_compact_logOf h.holds.describes h.holds.not_blocked h.fits h.log_eq
  have hfits : ∀ change ∈ liveRecords records, change.Fits :=
    fun change hchange => h.fits change ((liveRecords_sublist records).subset hchange)
  rw [hcompact]
  refine ⟨?_, hgarbage⟩
  constructor
  · exact hsetting.config_eq.trans h.config_eq
  · rw [hrecords.lastValue_eq hfits hlog]
    exact ⟨hsetting.directories_eq.trans h.holds.directories, hrecords⟩
  · exact hfits
  · exact hlog

/-- An operation appends its change to the log, and when it compacts it leaves the live records of
all that is there then, in their order. -/
theorem Logs.perform_cases (h : tier.Logs config records) (hsettled : ¬tier.Due)
    (command : Command) :
    (command.Compacts tier → (tier.perform command).garbageBytes = 0 ∧ (tier.perform command).Logs
      config (liveRecords ((command.change? tier).toList ++ records))) ∧
    (¬command.Compacts tier →
      (tier.perform command).Logs config ((command.change? tier).toList ++ records)) := by
  constructor
  · intro hcompacts
    rw [perform_eq_compact hsettled hcompacts]
    exact (h.written command).compact.symm
  · intro hkeeps
    rw [perform_eq_written hsettled hkeeps]
    exact h.written command

/-- An operation leaves the records of some changes and no compaction due. -/
theorem Logs.perform (h : tier.Logs config records) (hsettled : ¬tier.Due) (command : Command) :
    ∃ records', (tier.perform command).Logs config records' ∧ ¬(tier.perform command).Due := by
  obtain ⟨hcompacted, hkept⟩ := h.perform_cases hsettled command
  by_cases hcompacts : command.Compacts tier
  · obtain ⟨hgarbage, hlogs⟩ := hcompacted hcompacts
    refine ⟨_, hlogs, fun hdue => ?_⟩
    rw [Due, hgarbage] at hdue
    exact Nat.not_lt_zero _ hdue.1
  · refine ⟨_, hkept hcompacts, ?_⟩
    rw [perform_eq_written hsettled hcompacts]
    exact fun hdue => hcompacts (.inr hdue)

/-- After any commands, the log is one of records and no compaction is due. -/
theorem Logs.foldl_perform (h : tier.Logs config records) (hsettled : ¬tier.Due)
    (commands : List Command) :
    ∃ records', (commands.foldl DiskTier.perform tier).Logs config records' ∧
      ¬(commands.foldl DiskTier.perform tier).Due := by
  induction commands generalizing tier records with
  | nil => exact ⟨records, h, hsettled⟩
  | cons command rest ih =>
    obtain ⟨records', hlogs, hsettled'⟩ := h.perform hsettled command
    exact ih hlogs hsettled'

/-- A tier that was just opened in an empty directory has an empty log. -/
theorem exists_openLog_logs (config : DiskConfig) :
    ∃ first, openLog config .empty = .ok first ∧ first.Logs config [] ∧ ¬first.Due := by
  obtain ⟨first, hopen, hconfig, hindex, hlog, hholds⟩ :=
    exists_openLog config rfl LogIndex.describes_log_empty
  refine ⟨first, hopen, ⟨hconfig, hholds, List.forall_mem_nil _, ?_⟩, fun hdue => ?_⟩
  · rw [hlog, Directory.log_empty]
    rfl
  · rw [Due, garbageBytes, hindex] at hdue
    exact Nat.not_lt_zero _ hdue.1

/-- Whatever is done to a tier that was opened in an empty directory, its books are exact, its
garbage is bounded and no operation fails but for its limits. The log is the records of some
changes. An operation that compacts leaves the live ones of them, with that of its own change, in
their order and no garbage, and any other operation appends the record of its change. -/
theorem exists_accounted (config : DiskConfig) (commands : List Command) :
    ∃ first tier records, openLog config .empty = .ok first ∧
      commands.foldl DiskTier.perform first = tier ∧ tier.config = config ∧ tier.Accounted ∧
      tier.ActsAs (lastValue records) ∧
      (∀ change ∈ records, change.Fits) ∧ tier.dir.log = logOf records ∧
      ∀ command : Command,
        (command.Compacts tier → (tier.perform command).garbageBytes = 0 ∧
          (tier.perform command).dir.log =
            logOf (liveRecords ((command.change? tier).toList ++ records))) ∧
        (¬command.Compacts tier → (tier.perform command).dir.log =
          logOf ((command.change? tier).toList ++ records)) := by
  obtain ⟨first, hopen, hfirst, hsettled⟩ := exists_openLog_logs config
  obtain ⟨records, hlogs, hsettled'⟩ := hfirst.foldl_perform hsettled commands
  refine ⟨first, _, records, hopen, rfl, hlogs.config_eq, hlogs.accounted hsettled',
    hlogs.holds.actsAs, hlogs.fits, hlogs.log_eq, fun command => ?_⟩
  obtain ⟨hcompacted, hkept⟩ := hlogs.perform_cases hsettled' command
  exact ⟨fun hcompacts => ⟨(hcompacted hcompacts).1, (hcompacted hcompacts).2.log_eq⟩,
    fun hkeeps => (hkept hkeeps).log_eq⟩

end Logs

end ElasticCache.DiskTier
