import ElasticCache.Proofs.Arena.Capacity
import ElasticCache.Proofs.Storage.LastingFacts
import Mathlib.Algebra.Group.Action.Defs

/-!
# The ceiling of the RAM tier

All slabs of a RAM tier have one size, and a slab is opened only below the ceiling on their number.
So RAM takes no more bytes than its ceiling stands for, whatever the disk tier below it holds and
however its steps end. A lower ceiling is met once the change of it succeeds.
-/

namespace ElasticCache

namespace RamTier

/-- All slabs are of the size that the tier is configured with, and the use of each is known. -/
structure Regular (tier : RamTier) (slabSize maxSlabs : Nat) : Prop where
  room : FreeList.headerSize + FreeList.nodeSize ≤ slabSize
  slabSize_eq : tier.slabSize = slabSize
  maxSlabs_eq : tier.maxSlabs = maxSlabs
  sizes : ∀ (id : Nat) (slab : Slab), tier.slabs[id]? = some slab → slab.size = slabSize
  known : ∀ id, id ∈ tier.usage ↔ id ∈ tier.slabs

/-- A regular tier with no more slabs than its ceiling. -/
structure Capped (tier : RamTier) (slabSize maxSlabs : Nat) : Prop where
  regular : tier.Regular slabSize maxSlabs
  within : tier.loadedSlabs ≤ maxSlabs

section Ceiling

variable {tier tier' : RamTier} {slabSize maxSlabs : Nat} {key value : ByteArray}

/-- A new tier is within its ceiling. -/
theorem capped_new (hroom : FreeList.headerSize + FreeList.nodeSize ≤ slabSize)
    (maxSlabs staleAfter : Nat) : (new slabSize maxSlabs staleAfter).Capped slabSize maxSlabs := by
  constructor
  · constructor
    · exact hroom
    · rfl
    · rfl
    · intro id slab hslab
      cases hslab
    · exact fun id => Iff.rfl
  · exact Nat.zero_le _

/-- What the slabs hold has no part in how many there are and how large they are. -/
theorem Regular.congr (h : tier.Regular slabSize maxSlabs)
    (hslabSize : tier'.slabSize = tier.slabSize) (hmaxSlabs : tier'.maxSlabs = tier.maxSlabs)
    (hsizes : ∀ id : Nat, tier'.slabs[id]?.map Slab.size = tier.slabs[id]?.map Slab.size)
    (hknown : ∀ id, id ∈ tier'.usage ↔ id ∈ tier.usage) : tier'.Regular slabSize maxSlabs := by
  constructor
  · exact h.room
  · exact hslabSize.trans h.slabSize_eq
  · exact hmaxSlabs.trans h.maxSlabs_eq
  · intro id slab hslab
    have hsize := hsizes id
    rw [hslab, Option.map_some] at hsize
    obtain ⟨before, hbefore, heq⟩ := Option.map_eq_some_iff.1 hsize.symm
    exact heq.symm.trans (h.sizes id before hbefore)
  · intro id
    have hmem := congrArg Option.isSome (hsizes id)
    rw [Option.isSome_map, Option.isSome_map, Bool.eq_iff_iff] at hmem
    rw [hknown, h.known, Std.TreeMap.mem_iff_isSome_getElem?, Std.TreeMap.mem_iff_isSome_getElem?,
      hmem]

/-- A change of how slabs were used leaves the tier capped. -/
theorem Capped.with_usage (h : tier.Capped slabSize maxSlabs) {usage : Std.TreeMap Nat SlabUsage}
    (hknown : ∀ id, id ∈ usage ↔ id ∈ tier.usage) (clock : Nat) :
    Capped { tier with usage, clock } slabSize maxSlabs :=
  ⟨h.regular.congr rfl rfl (fun _ => rfl) hknown, h.within⟩

/-- A touch has no part in the ceiling. -/
theorem Capped.touch (h : tier.Capped slabSize maxSlabs) (id hits : Nat) :
    (tier.touch id hits).Capped slabSize maxSlabs :=
  h.with_usage (fun _ => Std.TreeMap.mem_modify) tier.clock

/-- A tick has no part in the ceiling. -/
theorem Capped.tick (h : tier.Capped slabSize maxSlabs) :
    tier.tick.2.Capped slabSize maxSlabs := by
  unfold RamTier.tick
  dsimp only
  split
  next => exact h.with_usage (fun _ => Iff.rfl) _
  next => exact h.with_usage (fun _ => Std.TreeMap.mem_map) _

/-- A read keeps RAM within its ceiling. -/
theorem Capped.find (h : tier.Capped slabSize maxSlabs)
    (hfind : tier.find key = some (value, tier')) : tier'.Capped slabSize maxSlabs := by
  simp only [RamTier.find, Option.bind_eq_bind, Option.bind_eq_some_iff] at hfind
  obtain ⟨⟨id, offset⟩, _, slab, _, read, _, hfind⟩ := hfind
  obtain ⟨_, rfl⟩ := Prod.mk.inj (Option.some.inj hfind)
  exact h.touch id 1

/-- The index has no part in how many slabs there are. -/
theorem Capped.with_index (h : tier.Capped slabSize maxSlabs)
    (index : Std.HashMap UInt64 (Std.TreeMap Nat (List Nat))) :
    Capped { tier with index } slabSize maxSlabs :=
  ⟨h.regular.congr rfl rfl (fun _ => rfl) (fun _ => Iff.rfl), h.within⟩

/-- A slab may take the place of one of the same size. -/
theorem Capped.replace (h : tier.Capped slabSize maxSlabs) {id : Nat} {slab slab' : Slab}
    (hslab : tier.slabs[id]? = some slab) (hsize : slab'.size = slab.size) :
    Capped { tier with slabs := tier.slabs.insert id slab' } slabSize maxSlabs := by
  have hmem : tier.slabs.contains id = true := by
    rw [← Std.TreeMap.mem_iff_contains, Std.TreeMap.mem_iff_isSome_getElem?, hslab]
    rfl
  constructor
  · refine h.regular.congr rfl rfl (fun other => ?_) (fun _ => Iff.rfl)
    rw [Std.TreeMap.getElem?_insert]
    split
    next heq =>
      obtain rfl := Nat.compare_eq_eq.1 heq
      rw [hslab, Option.map_some, Option.map_some, hsize]
    next => rfl
  · have hcount := h.within
    unfold loadedSlabs at hcount ⊢
    rwa [Std.TreeMap.size_insert, if_pos hmem]

/-- A removal keeps RAM within its ceiling. -/
theorem Capped.remove (h : tier.Capped slabSize maxSlabs) (key : ByteArray) :
    (tier.remove key).2.Capped slabSize maxSlabs := by
  unfold RamTier.remove
  split
  next => exact h
  next id offset _ =>
    have hmodify : Capped { tier with
        slabs := tier.slabs.modify id fun slab => (slab.remove offset).2 } slabSize maxSlabs := by
      constructor
      · refine h.regular.congr rfl rfl (fun other => ?_) (fun _ => Iff.rfl)
        rw [Std.TreeMap.getElem?_modify]
        split
        next heq =>
          obtain rfl := Nat.compare_eq_eq.1 heq
          rw [Option.map_map]
          exact congrArg (Option.map · _) (funext fun slab => Slab.size_remove slab offset)
        next => rfl
      · exact (Nat.le_of_eq Std.TreeMap.size_modify).trans h.within
    dsimp only
    unfold unindexRecord
    split
    next => exact hmodify
    next => exact hmodify.with_index _

/-- A slab is opened below the ceiling alone. -/
theorem Capped.openSlab (h : tier.Capped slabSize maxSlabs) {id offset : Nat}
    (hopen : tier.openSlab key value = some (id, offset, tier')) :
    tier'.Capped slabSize maxSlabs := by
  unfold RamTier.openSlab at hopen
  split at hopen
  next => cases hopen
  next hbelow =>
    rw [not_or, h.regular.maxSlabs_eq] at hbelow
    simp only [Option.bind_eq_bind, Option.bind_eq_some_iff] at hopen
    obtain ⟨⟨offset', slab⟩, hinsert, hopen⟩ := hopen
    obtain ⟨_, hopen⟩ := Prod.mk.inj (Option.some.inj hopen)
    obtain ⟨_, rfl⟩ := Prod.mk.inj hopen
    constructor
    · constructor
      · exact h.regular.room
      · exact h.regular.slabSize_eq
      · exact h.regular.maxSlabs_eq
      · intro other slab' hslab'
        rw [Std.TreeMap.getElem?_insert] at hslab'
        split at hslab'
        next =>
          obtain rfl := Option.some.inj hslab'
          rw [Slab.size_of_insert hinsert, h.regular.slabSize_eq, Slab.size_new _ h.regular.room]
        next => exact h.regular.sizes other slab' hslab'
      · intro other
        rw [Std.TreeMap.mem_insert, Std.TreeMap.mem_insert, h.regular.known]
    · have hsize := Std.TreeMap.size_insert_le (t := tier.slabs) (k := tier.nextId) (v := slab)
      exact hsize.trans (Nat.not_le.1 hbelow.1)

/-- An insertion keeps RAM within its ceiling. -/
theorem Capped.insert (h : tier.Capped slabSize maxSlabs) (key value : ByteArray) :
    (tier.insert key value).2.Capped slabSize maxSlabs := by
  unfold RamTier.insert
  split
  next => exact h
  next needed _ =>
    dsimp only
    split
    next => exact h
    next id offset tier' hplaced =>
      apply Capped.touch
      apply Capped.with_index
      split at hplaced
      next id' offset' slab' hplace =>
        obtain ⟨rfl, hrest⟩ := Prod.mk.inj (Option.some.inj hplaced)
        obtain ⟨_, rfl⟩ := Prod.mk.inj hrest
        obtain ⟨slab, hslab, hinsert⟩ := exists_of_placeLoaded hplace
        exact h.replace hslab (Slab.size_of_insert hinsert)
      next => exact h.openSlab hplaced

/-! ## Slabs that leave -/

/-- The least used of some slabs is one of them. -/
theorem mem_of_leastUsed {slabs : List (Nat × SlabUsage)} {slab : Nat × SlabUsage}
    (h : leastUsed slabs = some slab) : slab ∈ slabs := by
  induction slabs with
  | nil => cases h
  | cons first rest ih =>
    unfold leastUsed at h
    split at h
    next =>
      obtain rfl := Option.some.inj h
      exact List.mem_cons_self
    next other hother =>
      split at h
      next =>
        obtain rfl := Option.some.inj h
        exact List.mem_cons_of_mem _ (ih hother)
      next =>
        obtain rfl := Option.some.inj h
        exact List.mem_cons_self

/-- There is a least used slab unless there is none. -/
theorem eq_nil_of_leastUsed {slabs : List (Nat × SlabUsage)} (h : leastUsed slabs = none) :
    slabs = [] := by
  cases slabs with
  | nil => rfl
  | cons first rest =>
    unfold leastUsed at h
    split at h
    next => cases h
    next => split at h <;> cases h

/-- No slab is loaded exactly when there is none under any number. -/
theorem loadedSlabs_eq_zero_iff : tier.loadedSlabs = 0 ↔ ∀ id, id ∉ tier.slabs := by
  rw [loadedSlabs, ← beq_iff_eq, ← Std.TreeMap.isEmpty_eq_size_eq_zero,
    Std.TreeMap.isEmpty_iff_forall_not_mem]

/-- The slab that is to leave next is one whose use is known, and there is none when no use is. -/
theorem nextVictim?_cases (tier : RamTier) :
    (tier.nextVictim? = none ∧ tier.usage.toList = []) ∨
      ∃ id, tier.nextVictim? = some id ∧ id ∈ tier.usage := by
  have hmem {slab : Nat × SlabUsage} (h : slab ∈ tier.usage.toList) : slab.1 ∈ tier.usage := by
    rw [Std.TreeMap.mem_iff_isSome_getElem?, Std.TreeMap.mem_toList_iff_getElem?_eq_some.1 h]
    rfl
  unfold nextVictim?
  cases hstale : tier.usage.toList.find? (·.2.stale) with
  | some slab => exact .inr ⟨slab.1, rfl, hmem (List.mem_of_find?_eq_some hstale)⟩
  | none =>
    cases hleast : leastUsed tier.usage.toList with
    | none => exact .inl ⟨rfl, eq_nil_of_leastUsed hleast⟩
    | some slab => exact .inr ⟨slab.1, rfl, hmem (mem_of_leastUsed hleast)⟩

/-- An eviction of a loaded slab leaves one less. -/
theorem Regular.exists_evictSlab (h : tier.Regular slabSize maxSlabs) {id : Nat} {slab : Slab}
    (hslab : tier.slabs[id]? = some slab) :
    ∃ records tier', tier.evictSlab id = some (records, tier') ∧
      tier'.Regular slabSize maxSlabs ∧ tier'.loadedSlabs + 1 = tier.loadedSlabs := by
  let index := slab.records.foldl
    (fun index record => unindexSlab index id (KeyHash.ofKey record.key)) tier.index
  let tier' : RamTier :=
    { tier with slabs := tier.slabs.erase id, usage := tier.usage.erase id, index }
  have hevict : tier.evictSlab id = some (slab.records, tier') := by
    rw [evictSlab, hslab]
    rfl
  refine ⟨slab.records, tier', hevict, ?_, ?_⟩
  · constructor
    · exact h.room
    · exact h.slabSize_eq
    · exact h.maxSlabs_eq
    · intro other slab' hslab'
      rw [Std.TreeMap.getElem?_erase] at hslab'
      split at hslab'
      next => cases hslab'
      next => exact h.sizes other slab' hslab'
    · intro other
      rw [Std.TreeMap.mem_erase, Std.TreeMap.mem_erase, h.known]
  · have hmem : id ∈ tier.slabs := by
      rw [Std.TreeMap.mem_iff_isSome_getElem?, hslab]
      rfl
    have hpos : tier.loadedSlabs ≠ 0 := fun hzero => loadedSlabs_eq_zero_iff.1 hzero id hmem
    have hsize : tier'.loadedSlabs = tier.loadedSlabs - 1 := by
      rw [loadedSlabs, Std.TreeMap.size_erase, if_pos (Std.TreeMap.mem_iff_contains.1 hmem),
        loadedSlabs]
    omega

/-- A slab leaves unless there is none. -/
theorem Regular.evictOne_cases (h : tier.Regular slabSize maxSlabs) :
    (tier.evictOne = none ∧ tier.loadedSlabs = 0) ∨
      ∃ records tier', tier.evictOne = some (records, tier') ∧
        tier'.Regular slabSize maxSlabs ∧ tier'.loadedSlabs + 1 = tier.loadedSlabs := by
  rcases tier.nextVictim?_cases with ⟨hvictim, hnone⟩ | ⟨id, hvictim, hid⟩
  · left
    constructor
    · rw [evictOne, hvictim]
      rfl
    · rw [loadedSlabs_eq_zero_iff]
      intro id hid
      rw [← h.known, ← Std.TreeMap.mem_keys, ← Std.TreeMap.map_fst_toList_eq_keys, hnone] at hid
      cases hid
  · right
    rw [h.known, Std.TreeMap.mem_iff_isSome_getElem?, Option.isSome_iff_exists] at hid
    obtain ⟨slab, hslab⟩ := hid
    rw [evictOne, hvictim, Option.bind_eq_bind, Option.bind_some]
    exact h.exists_evictSlab hslab

/-- An eviction keeps RAM within its ceiling. -/
theorem Capped.evictOne (h : tier.Capped slabSize maxSlabs) {records : List Record}
    (hevict : tier.evictOne = some (records, tier')) : tier'.Capped slabSize maxSlabs := by
  obtain ⟨hnone, _⟩ | ⟨_, _, hevict', hregular, hcount⟩ := h.regular.evictOne_cases
  · cases hnone.symm.trans hevict
  · obtain ⟨_, rfl⟩ := Prod.mk.inj (Option.some.inj (hevict'.symm.trans hevict))
    have hwithin := h.within
    exact ⟨hregular, by omega⟩

/-- Without slabs nothing is held. -/
theorem contains_eq_false (hzero : tier.loadedSlabs = 0) (key : ByteArray) :
    tier.contains key = false := by
  have hnone (id : Nat) : tier.slabs[id]? = none :=
    Std.TreeMap.getElem?_eq_none (loadedSlabs_eq_zero_iff.1 hzero id)
  rw [contains, Option.isSome_eq_false_iff, Option.isNone_iff_eq_none, locate?]
  cases tier.index[KeyHash.ofKey key]? with
  | none => rfl
  | some places => simp [hnone]

/-- What slabs that are not stale hold is within the size of all slabs. -/
theorem Regular.memoryUsage_le (h : tier.Regular slabSize maxSlabs) :
    tier.memoryUsage ≤ tier.loadedSlabs * slabSize := by
  have hle : ∀ n ∈ tier.slabs.toList.map fun entry =>
      if tier.isStale entry.1 then 0 else entry.2.used, n ≤ slabSize := by
    intro n hn
    obtain ⟨⟨id, slab⟩, hmem, rfl⟩ := List.mem_map.1 hn
    dsimp only
    split
    next => exact Nat.zero_le _
    next =>
      rw [← h.sizes id slab (Std.TreeMap.mem_toList_iff_getElem?_eq_some.1 hmem)]
      exact slab.used_le_size
  have hsum := List.sum_le_card_nsmul _ _ hle
  rwa [List.length_map, Std.TreeMap.length_toList, smul_eq_mul] at hsum

end Ceiling

end RamTier

namespace TieredStore

/-! ## Steps that maintain RAM -/

/-- The configuration of a store, and a fact about its RAM. -/
def RamIs (fact : RamTier → Prop) (config : StoreConfig) (store : TieredStore) : Prop :=
  fact store.ram ∧ store.config = config

section Steps

variable {α β : Type} {fact : RamTier → Prop} {config : StoreConfig} {m : StoreM α}
  {f : α → StoreM β} {store store' : TieredStore} {outcome : Except Error α}
  {result : Except Error β}

/-- What a step maintains of RAM holds after it, and the configuration is the same. -/
theorem Runs.ramIs (hrun : Runs m store outcome store')
    (hm : Maintains (RamIs fact store.config) m) (hram : fact store.ram) :
    fact store'.ram ∧ store'.config = store.config := hrun.of_maintains hm ⟨hram, rfl⟩

/-- What runs step by step runs its first step. -/
theorem Runs.of_bind (h : Runs (m >>= f) store result store') :
    (∃ a store₁, Yields m store a store₁ ∧ Runs (f a) store₁ result store') ∨
      ∃ e, Fails m store e store' ∧ result = .error e := by
  rcases hm : Id.run (m.run.run store) with ⟨outcome, store₁⟩
  cases outcome with
  | ok a =>
    have hyields : Yields m store a store₁ := hm
    refine .inl ⟨a, store₁, hyields, ?_⟩
    rcases hf : Id.run ((f a).run.run store₁) with ⟨result', store₂⟩
    obtain ⟨rfl, rfl⟩ := (hyields.bind hf).unique h
    exact hf
  | error e =>
    have hfails : Fails m store e store₁ := hm
    obtain ⟨rfl, rfl⟩ := Runs.unique hfails.bind h
    exact .inr ⟨e, hfails, rfl⟩

/-- No step of the disk tier touches RAM, whatever it does and however it ends. -/
theorem maintains_onDisk (g : DiskTier → Except Error α × DiskTier) :
    Maintains (RamIs fact config) (onDisk g) := fun _ hram => hram

/-- A step of RAM maintains what holds of RAM after it. -/
theorem maintains_onRam {g : RamTier → α × RamTier} (hg : ∀ ram, fact ram → fact (g ram).2) :
    Maintains (RamIs fact config) (onRam g) :=
  fun store hram => ⟨hg store.ram hram.1, hram.2⟩

/-- Counters and the working set have no part in a fact about RAM. -/
theorem RamIs.congr (h : RamIs fact config store) (hsame : store.SameTiers store') :
    RamIs fact config store' :=
  ⟨hsame.ram_eq.symm ▸ h.1, hsame.config_eq.trans h.2⟩

end Steps

/-! ## Operations under a ceiling -/

section Operations

variable {store store' : TieredStore} {config : StoreConfig} {slabSize maxSlabs : Nat}

/-- An eviction takes one slab from RAM unless there is none, whatever becomes of its records. These
may fail to reach the disk, and RAM stays as the eviction left it. -/
theorem Runs.evictOne_cases {outcome : Except Error Bool}
    (hrun : Runs evictOne store outcome store')
    (h : store.ram.Regular slabSize maxSlabs) :
    (store' = store ∧ store.ram.loadedSlabs = 0) ∨
      ((∀ evicted, outcome = .ok evicted → evicted = true) ∧ store'.config = store.config ∧
        store'.ram.Regular slabSize maxSlabs ∧
        store'.ram.loadedSlabs + 1 = store.ram.loadedSlabs) := by
  obtain ⟨records?, store₁, hfirst, hrest⟩ | ⟨e, hfails, _⟩ := hrun.of_bind
  · obtain ⟨hrecords, hstore⟩ := (yields_onRam _ store).unique hfirst
    obtain ⟨hevict, hzero⟩ | ⟨records, ram, hevict, hregular, hcount⟩ := h.evictOne_cases
    · left
      rw [hevict] at hrecords hstore
      subst hrecords hstore
      obtain ⟨_, rfl⟩ := Prod.mk.inj hrest
      exact ⟨rfl, hzero⟩
    · right
      rw [hevict] at hrecords hstore
      subst hrecords hstore
      have hcongr (before after : TieredStore) (hsame : before.SameTiers after)
          (h : RamIs (· = ram) store.config before) : RamIs (· = ram) store.config after :=
        h.congr hsame
      have hdemotes : Maintains (RamIs (· = ram) store.config) (records.forM demote) :=
        .forM (fun _ => maintains_demote_of_congr hcongr (maintains_onDisk _)) records
      have hmaintains : Maintains (RamIs (· = ram) store.config) (do
          count fun s => { s with evictedSlabs := s.evictedSlabs + 1 }
          records.forM demote
          return true) :=
        (maintains_count_of_congr hcongr _).bind fun _ => hdemotes.bind fun _ => .pure true
      obtain ⟨hsame, hconfig⟩ := Runs.ramIs hrest hmaintains rfl
      rw [hsame]
      refine ⟨?_, hconfig, hregular, hcount⟩
      rintro evicted rfl
      obtain ⟨_, store₂, _, hrest⟩ | ⟨e, _, heq⟩ := hrest.of_bind
      · obtain ⟨_, store₃, _, hrest⟩ | ⟨e, _, heq⟩ := hrest.of_bind
        · exact Except.ok.inj (Prod.mk.inj hrest).1.symm
        · cases heq
      · cases heq
  · exact absurd hfails (yields_onRam _ store).not_fails

/-- The RAM of a store has a ceiling and is within it. -/
abbrev Within (slabSize maxSlabs : Nat) : StoreConfig → TieredStore → Prop :=
  RamIs (·.Capped slabSize maxSlabs)

/-- Under a ceiling every operation stays, however it ends. -/
theorem lasting_within : Lasting (Within slabSize maxSlabs config) where
  congr _ _ hsame h := RamIs.congr h hsame
  ram_insert key value := maintains_onRam fun _ hram => hram.insert key value
  ram_remove key := maintains_onRam fun _ hram => hram.remove key
  ram_find _ _ _ _ hfind h := ⟨h.1.find hfind, h.2⟩
  ram_evictOne _ _ _ hevict h := ⟨h.1.evictOne hevict, h.2⟩
  disk_insert _ _ := maintains_onDisk _
  disk_remove _ := maintains_onDisk _

/-- Slabs leave until the ceiling is met, as far as the rounds suffice. -/
theorem Runs.loadedSlabs_of_shrink {slabs rounds : Nat} {outcome : Except Error Nat}
    (hrun : Runs (shrink slabs rounds) store outcome store')
    (h : store.ram.Regular slabSize maxSlabs) (hrounds : store.ram.loadedSlabs ≤ slabs + rounds) :
    store'.ram.Regular slabSize maxSlabs ∧ store'.config = store.config ∧
      ∀ left, outcome = .ok left → store'.ram.loadedSlabs ≤ slabs := by
  induction rounds generalizing store outcome with
  | zero =>
    obtain ⟨_, rfl⟩ := Prod.mk.inj hrun
    exact ⟨h, rfl, fun _ _ => hrounds⟩
  | succ rounds ih =>
    obtain ⟨_, store₁, hget, hrest⟩ | ⟨e, hfails, _⟩ := hrun.of_bind
    · obtain ⟨rfl, rfl⟩ := (yields_get store).unique hget
      split at hrest
      next hmet =>
        obtain ⟨_, rfl⟩ := Prod.mk.inj hrest
        exact ⟨h, rfl, fun _ _ => hmet⟩
      next hover =>
        obtain ⟨evicted, store₂, hevict, hrest⟩ | ⟨e, hfails, rfl⟩ := hrest.of_bind
        · obtain ⟨rfl, hzero⟩ | ⟨htrue, hconfig, hregular, hcount⟩ := Runs.evictOne_cases hevict h
          · exact absurd (hzero ▸ Nat.zero_le slabs) hover
          · obtain rfl := htrue evicted rfl
            obtain ⟨left, store₃, hshrink, hrest⟩ | ⟨e, hshrink, rfl⟩ := Runs.of_bind hrest
            · obtain ⟨_, rfl⟩ := Prod.mk.inj hrest
              obtain ⟨hregular', hconfig', hmet⟩ := ih hshrink hregular (by omega)
              exact ⟨hregular', hconfig'.trans hconfig, fun _ _ => hmet left rfl⟩
            · obtain ⟨hregular', hconfig', _⟩ := ih hshrink hregular (by omega)
              exact ⟨hregular', hconfig'.trans hconfig, nofun⟩
        · obtain ⟨rfl, _⟩ | ⟨_, hconfig, hregular, _⟩ := Runs.evictOne_cases hfails h
          · exact ⟨h, rfl, nofun⟩
          · exact ⟨hregular, hconfig, nofun⟩
    · exact absurd hfails (yields_get store).not_fails

/-- A change of the ceiling that succeeds is met. -/
theorem Runs.capped_of_resize {slabs left : Nat} (hrun : Yields (resize slabs) store left store')
    (h : store.ram.Regular slabSize maxSlabs) :
    store'.ram.Capped slabSize slabs ∧ store'.config = store.config := by
  let store₁ : TieredStore := { store with ram := { store.ram with maxSlabs := slabs } }
  have hmodify : Yields
      (modify fun store => { store with ram := { store.ram with maxSlabs := slabs } })
      store () store₁ := rfl
  obtain ⟨_, store₂, hfirst, hrest⟩ | ⟨e, hfails, _⟩ := Runs.of_bind hrun
  · obtain ⟨_, rfl⟩ := hmodify.unique hfirst
    obtain ⟨_, store₃, hget, hrest⟩ | ⟨e, hfails, _⟩ := hrest.of_bind
    · obtain ⟨rfl, rfl⟩ := (yields_get store₁).unique hget
      have hregular : store₁.ram.Regular slabSize slabs :=
        ⟨h.room, h.slabSize_eq, rfl, h.sizes, h.known⟩
      obtain ⟨hregular', hconfig, hmet⟩ :=
        hrest.loadedSlabs_of_shrink hregular (Nat.le_add_left ..)
      exact ⟨⟨hregular', hmet left rfl⟩, hconfig⟩
    · exact absurd hfails (yields_get store₁).not_fails
  · exact absurd hfails hmodify.not_fails

/-- A new ceiling in bytes is met in whole slabs. -/
theorem Runs.capped_of_resizeBytes {bytes left : Nat}
    (hrun : Yields (resizeBytes bytes) store left store')
    (h : store.ram.Regular slabSize maxSlabs) :
    store'.ram.Capped slabSize (bytes / store.config.slabSize) ∧ store'.config = store.config := by
  obtain ⟨_, store₁, hget, hrest⟩ | ⟨e, hfails, _⟩ := Runs.of_bind hrun
  · obtain ⟨rfl, rfl⟩ := (yields_get store).unique hget
    exact Runs.capped_of_resize hrest h
  · exact absurd hfails (yields_get store).not_fails

end Operations

end TieredStore

end ElasticCache
