import ElasticCache.Proofs.Storage.Placement
import ElasticCache.Proofs.Storage.RamRuns

/-!
# Idle slabs

The use of a slab follows from what happened to it: its hits are the values read from it since it
was opened, its last touch is the last value stored in it or read from it, and it is marked as stale
exactly while it has been idle for longer than the time to staleness. So which slab leaves next can
be told from the history alone.
-/

namespace ElasticCache

/-- How a slab is touched. -/
inductive SlabTouch where
  /-- A value was stored, and the slab was opened for it. -/
  | opened
  | stored
  | read
  deriving DecidableEq, Repr

/-- What happens in a RAM tier as far as the use of slabs is concerned. -/
inductive SlabEvent where
  | ticked
  | touched (id : Nat) (touch : SlabTouch)
  deriving DecidableEq, Repr

/-- Ticks in a history. -/
def ticksOf : List SlabEvent → Nat
  | [] => 0
  | .ticked :: older => ticksOf older + 1
  | .touched _ _ :: older => ticksOf older

/-- The time at which a slab was last touched, given the history with the newest event first. -/
def touchedAt (id : Nat) : List SlabEvent → Nat
  | [] => 0
  | .ticked :: older => touchedAt id older
  | .touched other _ :: older => if other = id then ticksOf older else touchedAt id older

/-- Values read from a slab since it was opened. -/
def readsOf (id : Nat) : List SlabEvent → Nat
  | [] => 0
  | .ticked :: older => readsOf id older
  | .touched other touch :: older =>
    if other = id then
      match touch with
      | .opened => 0
      | .stored => readsOf id older
      | .read => readsOf id older + 1
    else readsOf id older

/-- The use of a slab as its history tells it. It is stale once it has been idle for longer than the
time to staleness. -/
def usageOf (staleAfter : Nat) (history : List SlabEvent) (id : Nat) : SlabUsage where
  hits := readsOf id history
  lastTouch := touchedAt id history
  stale := 0 < staleAfter && staleAfter < ticksOf history - touchedAt id history

/-- A slab leaves before another one: fewer values were read from it, or it was touched before, or
its number is the lower one. -/
def LeavesFirst (history : List SlabEvent) (a b : Nat) : Prop :=
  readsOf a history < readsOf b history ∨ readsOf a history = readsOf b history ∧
    (touchedAt a history < touchedAt b history ∨
      touchedAt a history = touchedAt b history ∧ a < b)

section History

variable {staleAfter id other : Nat} {history : List SlabEvent} {touch : SlabTouch}

/-- A touch leaves the use of the other slabs as it was. -/
theorem usageOf_touched_of_ne (hne : id ≠ other) :
    usageOf staleAfter (.touched id touch :: history) other = usageOf staleAfter history other := by
  simp only [usageOf, readsOf, touchedAt, ticksOf, if_neg hne]

/-- A slab that was just touched is not idle. -/
theorem usageOf_touched_self : usageOf staleAfter (.touched id touch :: history) id =
    ⟨readsOf id (.touched id touch :: history), ticksOf history, false⟩ := by
  simp only [usageOf, touchedAt, ticksOf, if_true, Nat.sub_self, Nat.not_lt_zero, decide_false,
    Bool.and_false]

/-- A tick makes a slab stale that has been idle for long enough by now. -/
theorem usageOf_ticked : usageOf staleAfter (.ticked :: history) id =
    if 0 < staleAfter ∧
      RamTier.becomesStale staleAfter (ticksOf history + 1) (usageOf staleAfter history id) = true
    then { usageOf staleAfter history id with stale := true }
    else usageOf staleAfter history id := by
  simp only [usageOf, RamTier.becomesStale, readsOf, touchedAt, ticksOf]
  by_cases hnow : staleAfter < ticksOf history + 1 - touchedAt id history
  · by_cases hbefore : staleAfter < ticksOf history - touchedAt id history <;>
      by_cases hnever : 0 < staleAfter <;> simp [hnow, hbefore, hnever]
  · have hbefore : ¬staleAfter < ticksOf history - touchedAt id history := by omega
    simp [hnow, hbefore]

end History

namespace RamTier

/-! ## Runs -/

/-- Calls one after the other on a new tier, in any order and with any keys, with what they do to
the slabs, the newest first. Told by the answers, and by the slab that a value was stored in or read
from. -/
inductive Use (slabSize maxSlabs staleAfter : Nat) : List SlabEvent → RamTier → Prop
  | new : Use slabSize maxSlabs staleAfter [] (new slabSize maxSlabs staleAfter)
  | stored {history : List SlabEvent} {tier tier' : RamTier} {key value : ByteArray} {id : Nat}
      {slab : Slab} (h : Use slabSize maxSlabs staleAfter history tier)
      (htaker : tier.firstTaker? key value = some (id, slab))
      (hinsert : tier.insert key value = (true, tier')) :
      Use slabSize maxSlabs staleAfter (.touched id .stored :: history) tier'
  | opened {history : List SlabEvent} {tier tier' : RamTier} {key value : ByteArray}
      (h : Use slabSize maxSlabs staleAfter history tier) (hopens : tier.Opens key value)
      (hinsert : tier.insert key value = (true, tier')) :
      Use slabSize maxSlabs staleAfter (.touched tier.nextId .opened :: history) tier'
  | refused {history : List SlabEvent} {tier tier' : RamTier} {key value : ByteArray}
      (h : Use slabSize maxSlabs staleAfter history tier)
      (hinsert : tier.insert key value = (false, tier')) :
      Use slabSize maxSlabs staleAfter history tier'
  | found {history : List SlabEvent} {tier tier' : RamTier} {key value : ByteArray}
      {id offset : Nat} (h : Use slabSize maxSlabs staleAfter history tier)
      (hlocate : tier.locate? key = some (id, offset))
      (hfind : tier.find key = some (value, tier')) :
      Use slabSize maxSlabs staleAfter (.touched id .read :: history) tier'
  | remove {history : List SlabEvent} {tier : RamTier}
      (h : Use slabSize maxSlabs staleAfter history tier) (key : ByteArray) :
      Use slabSize maxSlabs staleAfter history (tier.remove key).2
  | setMaxSlabs {history : List SlabEvent} {tier : RamTier}
      (h : Use slabSize maxSlabs staleAfter history tier) (maxSlabs' : Nat) :
      Use slabSize maxSlabs staleAfter history { tier with maxSlabs := maxSlabs' }
  | tick {history : List SlabEvent} {tier : RamTier}
      (h : Use slabSize maxSlabs staleAfter history tier) :
      Use slabSize maxSlabs staleAfter (.ticked :: history) tier.tick.2
  | evictOne {history : List SlabEvent} {tier tier' : RamTier} {records : List Record}
      (h : Use slabSize maxSlabs staleAfter history tier)
      (hevict : tier.evictOne = some (records, tier')) :
      Use slabSize maxSlabs staleAfter history tier'
  | evictSlab {history : List SlabEvent} {tier tier' : RamTier} {id : Nat} {records : List Record}
      (h : Use slabSize maxSlabs staleAfter history tier)
      (hevict : tier.evictSlab id = some (records, tier')) :
      Use slabSize maxSlabs staleAfter history tier'

/-- The use of every loaded slab, and of no other, is what the history tells. -/
structure Follows (tier : RamTier) (slabSize staleAfter : Nat) (history : List SlabEvent) :
    Prop where
  sound : tier.Sound
  slabSize_eq : tier.slabSize = slabSize
  staleAfter_eq : tier.staleAfter = staleAfter
  clock_eq : tier.clock = ticksOf history
  known : ∀ id, id ∈ tier.usage ↔ id ∈ tier.slabs
  used : ∀ (id : Nat) (u : SlabUsage), tier.usage[id]? = some u → u = usageOf staleAfter history id

/-! ## What every call keeps -/

section Steps

variable {tier tier' placed : RamTier} {slabSize maxSlabs staleAfter id offset : Nat}
  {history : List SlabEvent} {key value : ByteArray} {slab slab' : Slab} {records : List Record}

/-- A new tier follows the empty history. -/
theorem follows_new (slabSize maxSlabs staleAfter : Nat) :
    (new slabSize maxSlabs staleAfter).Follows slabSize staleAfter [] := by
  constructor
  · exact fun id slab hslab => nomatch hslab
  · rfl
  · rfl
  · rfl
  · exact fun id => Iff.rfl
  · exact fun id u hu => nomatch hu

/-- The ceiling and the index have no part in how slabs are used. -/
theorem Follows.congr (h : tier.Follows slabSize staleAfter history)
    (hslabSize : tier'.slabSize = tier.slabSize) (hstaleAfter : tier'.staleAfter = tier.staleAfter)
    (hclock : tier'.clock = tier.clock) (hslabs : tier'.slabs = tier.slabs)
    (husage : tier'.usage = tier.usage) : tier'.Follows slabSize staleAfter history := by
  constructor
  · exact h.sound.congr hslabs
  · exact hslabSize.trans h.slabSize_eq
  · exact hstaleAfter.trans h.staleAfter_eq
  · exact hclock.trans h.clock_eq
  · rw [hslabs, husage]
    exact h.known
  · rw [husage]
    exact h.used

/-- A slab in order may take the place of a loaded one. -/
theorem Follows.putSlab (h : tier.Follows slabSize staleAfter history) (hid : id ∈ tier.slabs)
    (hsound : slab.Sound) : (tier.putSlab id slab).Follows slabSize staleAfter history := by
  constructor
  · exact h.sound.of_insert hsound rfl
  · exact h.slabSize_eq
  · exact h.staleAfter_eq
  · exact h.clock_eq
  · intro other
    refine (h.known other).trans (Iff.trans ?_ Std.TreeMap.mem_insert.symm)
    rw [Nat.compare_eq_eq]
    exact ⟨.inr, fun hor => hor.elim (fun heq => heq ▸ hid) fun hmem => hmem⟩
  · exact h.used

/-- A touch counts its hits, moves the last touch to now and takes the mark away. -/
theorem getElem?_touch (tier : RamTier) (id hits other : Nat) :
    (tier.touch id hits).usage[other]? = if id = other then tier.usage[id]?.map (fun u =>
      { u with hits := u.hits + hits, lastTouch := tier.clock, stale := false })
      else tier.usage[other]? := by
  simp only [touch, Std.TreeMap.getElem?_modify, Nat.compare_eq_eq]

/-- A slab is used as the history tells that goes on with its touch. -/
theorem Follows.touch (h : tier.Follows slabSize staleAfter history) {hits : Nat}
    {touch : SlabTouch}
    (hreads : readsOf id (.touched id touch :: history) = readsOf id history + hits) :
    (tier.touch id hits).Follows slabSize staleAfter (.touched id touch :: history) := by
  constructor
  · exact h.sound
  · exact h.slabSize_eq
  · exact h.staleAfter_eq
  · exact h.clock_eq
  · exact fun other => Std.TreeMap.mem_modify.trans (h.known other)
  · intro other u hu
    rw [getElem?_touch] at hu
    split at hu
    next heq =>
      subst heq
      obtain ⟨u₀, hu₀, rfl⟩ := Option.map_eq_some_iff.1 hu
      rw [h.used id u₀ hu₀, usageOf_touched_self, hreads, h.clock_eq, usageOf]
    next hne =>
      rw [usageOf_touched_of_ne hne]
      exact h.used other u hu

/-- A value that is stored in a loaded slab touches it. -/
theorem Follows.stored (h : tier.Follows slabSize staleAfter history)
    (htaker : tier.firstTaker? key value = some (id, slab)) :
    (tier.insert key value).2.Follows slabSize staleAfter (.touched id .stored :: history) := by
  obtain ⟨hslab, _⟩ := getElem?_of_firstTaker? htaker
  obtain ⟨offset, slab', hinsert, heq⟩ := h.sound.insert_of_firstTaker? htaker
  have hid : id ∈ tier.slabs := by
    rw [Std.TreeMap.mem_iff_isSome_getElem?, hslab, Option.isSome_some]
  have hput := h.putSlab hid ((h.sound id slab hslab).insert hinsert).1
  have hindexed : ((tier.putSlab id slab').indexRecord (KeyHash.ofKey key) id offset).Follows
      slabSize staleAfter history := hput.congr rfl rfl rfl rfl rfl
  rw [heq]
  exact hindexed.touch (if_pos rfl)

/-- The use of a new slab starts with the value that it was opened for. -/
theorem Follows.opened (h : tier.Follows slabSize staleAfter history)
    (hsmall : slabSize < wordLimit) (hopens : tier.Opens key value) :
    (tier.insert key value).2.Follows slabSize staleAfter
      (.touched tier.nextId .opened :: history) := by
  have hsmall : tier.slabSize < wordLimit := h.slabSize_eq ▸ hsmall
  obtain ⟨offset, slab', hinsert, heq⟩ := h.sound.insert_of_opens hsmall hopens
  rw [heq]
  constructor
  · exact h.sound.of_insert ((Slab.sound_new hsmall).insert hinsert).1 rfl
  · exact h.slabSize_eq
  · exact h.staleAfter_eq
  · exact h.clock_eq
  · intro other
    refine Std.TreeMap.mem_modify.trans (Std.TreeMap.mem_insert.trans ?_)
    exact (or_congr_right (h.known other)).trans Std.TreeMap.mem_insert.symm
  · intro other u hu
    rw [enter, getElem?_touch] at hu
    simp only [indexRecord, addSlab, Std.TreeMap.getElem?_insert, Nat.compare_eq_eq, if_true,
      Option.map_some, h.clock_eq] at hu
    split at hu
    next heq =>
      subst heq
      rw [← Option.some.inj hu, usageOf_touched_self, readsOf, if_pos rfl]
    next hne =>
      rw [usageOf_touched_of_ne hne]
      exact h.used other u hu

/-- A value that is read touches its slab and is one hit more. -/
theorem Follows.find (h : tier.Follows slabSize staleAfter history)
    (hlocate : tier.locate? key = some (id, offset))
    (hfind : tier.find key = some (value, tier')) :
    tier'.Follows slabSize staleAfter (.touched id .read :: history) := by
  simp only [RamTier.find, hlocate, Option.bind_eq_bind, Option.bind_some,
    Option.bind_eq_some_iff] at hfind
  obtain ⟨_, _, _, _, hfind⟩ := hfind
  obtain ⟨_, rfl⟩ := Prod.mk.inj (Option.some.inj hfind)
  exact h.touch (if_pos rfl)

/-- A removal changes what a slab holds, and not how it is used. -/
theorem Follows.remove (h : tier.Follows slabSize staleAfter history) (key : ByteArray) :
    (tier.remove key).2.Follows slabSize staleAfter history := by
  unfold RamTier.remove
  split
  next => exact h
  next id offset _ =>
    have hmodified : Follows { tier with
        slabs := tier.slabs.modify id fun slab => (slab.remove offset).2 }
        slabSize staleAfter history := by
      constructor
      · exact h.sound.of_modify rfl
      · exact h.slabSize_eq
      · exact h.staleAfter_eq
      · exact h.clock_eq
      · exact fun other => (h.known other).trans Std.TreeMap.mem_modify.symm
      · exact h.used
    dsimp only
    unfold unindexRecord
    split
    next => exact hmodified
    next => exact hmodified.congr rfl rfl rfl rfl rfl

/-- An eviction answers the records of the slab, and the slab and its use are gone. -/
theorem exists_of_evictSlab (hevict : tier.evictSlab id = some (records, tier')) :
    ∃ slab, tier.slabs[id]? = some slab ∧ records = slab.records ∧
      tier'.slabs = tier.slabs.erase id ∧ tier'.usage = tier.usage.erase id := by
  cases hslab : tier.slabs[id]? with
  | none => simp [RamTier.evictSlab, hslab] at hevict
  | some slab =>
    rw [evictSlab_eq hslab] at hevict
    obtain ⟨rfl, rfl⟩ := Prod.mk.inj (Option.some.inj hevict)
    exact ⟨slab, rfl, rfl, rfl, rfl⟩

/-- What is known of a slab leaves with it. -/
theorem Follows.evictSlab (h : tier.Follows slabSize staleAfter history)
    (hevict : tier.evictSlab id = some (records, tier')) :
    tier'.Follows slabSize staleAfter history := by
  cases hslab : tier.slabs[id]? with
  | none => simp [RamTier.evictSlab, hslab] at hevict
  | some slab =>
    rw [evictSlab_eq hslab] at hevict
    obtain ⟨_, rfl⟩ := Prod.mk.inj (Option.some.inj hevict)
    constructor
    · exact h.sound.of_erase rfl
    · exact h.slabSize_eq
    · exact h.staleAfter_eq
    · exact h.clock_eq
    · intro other
      rw [Std.TreeMap.mem_erase, Std.TreeMap.mem_erase, h.known]
    · intro other u hu
      rw [Std.TreeMap.getElem?_erase] at hu
      split at hu
      next => cases hu
      next => exact h.used other u hu

/-- A tick leaves the time to staleness. -/
theorem staleAfter_tick (tier : RamTier) : tier.tick.2.staleAfter = tier.staleAfter := by
  unfold RamTier.tick
  dsimp only
  split <;> rfl

/-- Whether a tick marks a slab that was used as told. -/
def marks (tier : RamTier) (u : SlabUsage) : Bool :=
  0 < tier.staleAfter && becomesStale tier.staleAfter (tier.clock + 1) u

/-- A tick marks the slabs that it is to mark and leaves the use of the others as it was. -/
theorem getElem?_tick (tier : RamTier) (id : Nat) :
    tier.tick.2.usage[id]? = tier.usage[id]?.map fun u =>
      if tier.marks u = true then { u with stale := true } else u := by
  unfold RamTier.tick
  dsimp only
  split
  next hnever => simp [marks, hnever]
  next hsome =>
    have hpos : 0 < tier.staleAfter := Nat.pos_of_ne_zero hsome
    simp only [Std.TreeMap.getElem?_map, marks, hpos, decide_true, Bool.true_and]

/-- A tick marks what has become stale by it. -/
theorem Follows.tick (h : tier.Follows slabSize staleAfter history) :
    tier.tick.2.Follows slabSize staleAfter (.ticked :: history) := by
  have hslabs : tier.tick.2.slabs = tier.slabs ∧ tier.tick.2.slabSize = tier.slabSize ∧
      tier.tick.2.clock = tier.clock + 1 := by
    unfold RamTier.tick
    dsimp only
    split <;> exact ⟨rfl, rfl, rfl⟩
  obtain ⟨hslabs, hslabSize, hclock⟩ := hslabs
  constructor
  · exact h.sound.congr hslabs
  · exact hslabSize.trans h.slabSize_eq
  · exact (staleAfter_tick tier).trans h.staleAfter_eq
  · rw [hclock, h.clock_eq, ticksOf]
  · intro id
    rw [hslabs, ← h.known, Std.TreeMap.mem_iff_isSome_getElem?, getElem?_tick, Option.isSome_map,
      Std.TreeMap.mem_iff_isSome_getElem?]
  · intro id u hu
    rw [getElem?_tick] at hu
    obtain ⟨u₀, hu₀, rfl⟩ := Option.map_eq_some_iff.1 hu
    rw [h.used id u₀ hu₀, marks, h.staleAfter_eq, h.clock_eq, usageOf_ticked]
    simp only [Bool.and_eq_true, decide_eq_true_eq]

/-- Whatever is asked of a tier, its slabs are used as their history tells. -/
theorem Use.follows (h : Use slabSize maxSlabs staleAfter history tier)
    (hsmall : slabSize < wordLimit) : tier.Follows slabSize staleAfter history := by
  induction h with
  | new => exact follows_new slabSize maxSlabs staleAfter
  | stored _ htaker hinsert ih =>
    have hstored := ih.stored htaker
    rwa [hinsert] at hstored
  | opened _ hopens hinsert ih =>
    have hopened := ih.opened hsmall hopens
    rwa [hinsert] at hopened
  | @refused history tier tier' key value _ hinsert ih =>
    rcases tier.insert_placed key value with heq | ⟨_, _, _, _, heq⟩
    · obtain ⟨_, rfl⟩ := Prod.mk.inj (heq.symm.trans hinsert)
      exact ih
    · cases heq.symm.trans hinsert
  | found _ hlocate hfind ih => exact ih.find hlocate hfind
  | remove _ key ih => exact ih.remove key
  | setMaxSlabs _ maxSlabs' ih => exact ih.congr rfl rfl rfl rfl rfl
  | tick _ ih => exact ih.tick
  | evictOne _ hevict ih =>
    obtain ⟨id, hevict⟩ := exists_evictSlab_of_evictOne hevict
    exact ih.evictSlab hevict
  | evictSlab _ hevict ih => exact ih.evictSlab hevict

/-- Every insertion is one that a run may go on with. -/
theorem Use.exists_insert (h : Use slabSize maxSlabs staleAfter history tier)
    (hsmall : slabSize < wordLimit) (key value : ByteArray) :
    ∃ history', Use slabSize maxSlabs staleAfter history' (tier.insert key value).2 := by
  have hfollows := h.follows hsmall
  have hsmall : tier.slabSize < wordLimit := hfollows.slabSize_eq ▸ hsmall
  cases htaker : tier.firstTaker? key value with
  | some entry =>
    obtain ⟨_, _, _, heq⟩ := hfollows.sound.insert_of_firstTaker? htaker
    rw [heq]
    exact ⟨_, h.stored htaker heq⟩
  | none =>
    by_cases hopens : tier.Opens key value
    · obtain ⟨_, _, _, heq⟩ := hfollows.sound.insert_of_opens hsmall hopens
      rw [heq]
      exact ⟨_, h.opened hopens heq⟩
    · have heq := hfollows.sound.insert_of_refused hsmall htaker hopens
      rw [heq]
      exact ⟨_, h.refused heq⟩

end Steps

/-! ## The slab that leaves next -/

/-- A slab leaves before another one by how they were used, and by their numbers when this does not
tell. -/
def Precedes (a b : Nat × SlabUsage) : Prop :=
  a.2.hits < b.2.hits ∨ a.2.hits = b.2.hits ∧
    (a.2.lastTouch < b.2.lastTouch ∨ a.2.lastTouch = b.2.lastTouch ∧ a.1 < b.1)

section Victims

variable {tier tier' : RamTier} {slabSize staleAfter id : Nat} {history : List SlabEvent}
  {records : List Record}

/-- The uses of the slabs are listed by ascending numbers. -/
theorem pairwise_usage (tier : RamTier) : tier.usage.toList.Pairwise fun a b => a.1 < b.1 :=
  Std.TreeMap.ordered_keys_toList.imp Nat.compare_eq_lt.1

/-- The least used of some slabs in the order of their numbers precedes all others. -/
theorem precedes_of_leastUsed {slabs : List (Nat × SlabUsage)} {slab : Nat × SlabUsage}
    (hsorted : slabs.Pairwise fun a b => a.1 < b.1) (h : leastUsed slabs = some slab) :
    ∀ other ∈ slabs, other = slab ∨ Precedes slab other := by
  induction slabs generalizing slab with
  | nil => cases h
  | cons first rest ih =>
    obtain ⟨hfirst, hrest⟩ := List.pairwise_cons.1 hsorted
    cases hleast : leastUsed rest with
    | none =>
      obtain rfl := eq_nil_of_leastUsed hleast
      obtain rfl := Option.some.inj h
      exact fun other hother => .inl (List.mem_singleton.1 hother)
    | some best =>
      have hbest := ih hrest hleast
      have hafter := hfirst best (mem_of_leastUsed hleast)
      rw [leastUsed, hleast] at h
      dsimp only at h
      split at h
      next hleaves =>
        obtain rfl := Option.some.inj h
        rintro other (_ | ⟨_, hother⟩)
        · right
          simp only [leavesBefore, Precedes, Bool.or_eq_true, Bool.and_eq_true, decide_eq_true_eq,
            beq_iff_eq] at hleaves ⊢
          omega
        · exact hbest other hother
      next hstays =>
        obtain rfl := Option.some.inj h
        have hfirst : Precedes first best := by
          simp only [leavesBefore, Precedes, Bool.or_eq_true, Bool.and_eq_true, decide_eq_true_eq,
            beq_iff_eq] at hstays ⊢
          omega
        rintro other (_ | ⟨_, hother⟩)
        · exact .inl rfl
        · right
          rcases hbest other hother with rfl | hbefore
          · exact hfirst
          · simp only [Precedes] at hfirst hbefore ⊢
            omega

/-- The first of some slabs in the order of their numbers that passes a test has the lowest
number. -/
theorem le_of_find? {slabs : List (Nat × SlabUsage)} {slab : Nat × SlabUsage}
    {p : Nat × SlabUsage → Bool} (hsorted : slabs.Pairwise fun a b => a.1 < b.1)
    (h : slabs.find? p = some slab) : ∀ other ∈ slabs, p other = true → slab.1 ≤ other.1 := by
  obtain ⟨_, before, behind, rfl, hbefore⟩ := List.find?_eq_some_iff_append.1 h
  intro other hother hp
  rcases List.mem_append.1 hother with hmem | hmem
  · have hnot := hbefore other hmem
    rw [hp] at hnot
    cases hnot
  · obtain rfl | hmem := List.mem_cons.1 hmem
    · exact Nat.le_refl _
    · have hbehind := (List.pairwise_cons.1 (List.pairwise_append.1 hsorted).2.1).1
      exact Nat.le_of_lt (hbehind other hmem)

/-- The slab that is to leave next: the first one that is stale if there is any, and otherwise the
one that precedes all others. -/
theorem nextVictim?_spec (hvictim : tier.nextVictim? = some id) :
    (∃ u, tier.usage[id]? = some u ∧ u.stale = true ∧ ∀ (other : Nat) (u' : SlabUsage),
        tier.usage[other]? = some u' → u'.stale = true → id ≤ other) ∨
      ∃ u, tier.usage[id]? = some u ∧ ∀ (other : Nat) (u' : SlabUsage),
        tier.usage[other]? = some u' → u'.stale = false ∧
          (other ≠ id → Precedes (id, u) (other, u')) := by
  have hmem (id : Nat) (u : SlabUsage) : (id, u) ∈ tier.usage.toList ↔ tier.usage[id]? = some u :=
    Std.TreeMap.mem_toList_iff_getElem?_eq_some
  unfold nextVictim? at hvictim
  cases hstale : tier.usage.toList.find? (·.2.stale) with
  | some slab =>
    obtain ⟨id', u⟩ := slab
    rw [hstale] at hvictim
    obtain rfl := Option.some.inj hvictim
    have hself := List.find?_some hstale
    refine .inl ⟨u, (hmem id' u).1 (List.mem_of_find?_eq_some hstale), hself,
      fun other u' hu' hstale' => ?_⟩
    exact le_of_find? (pairwise_usage tier) hstale (other, u') ((hmem other u').2 hu') hstale'
  | none =>
    rw [hstale] at hvictim
    obtain ⟨⟨id', u⟩, hleast, rfl⟩ := Option.map_eq_some_iff.1 hvictim
    refine .inr ⟨u, (hmem id' u).1 (mem_of_leastUsed hleast), fun other u' hu' => ?_⟩
    have hother := (hmem other u').2 hu'
    refine ⟨Bool.eq_false_iff.2 (List.find?_eq_none.1 hstale (other, u') hother), fun hne => ?_⟩
    refine (precedes_of_leastUsed (pairwise_usage tier) hleast _ hother).resolve_left fun heq => ?_
    exact hne (Prod.mk.inj heq).1

/-- A slab that is loaded is stale when it has been idle for longer than the time to staleness. -/
theorem Follows.isStale_iff (h : tier.Follows slabSize staleAfter history)
    (hid : id ∈ tier.slabs) : tier.isStale id = true ↔
      0 < staleAfter ∧ staleAfter < ticksOf history - touchedAt id history := by
  rw [← h.known, Std.TreeMap.mem_iff_isSome_getElem?, Option.isSome_iff_exists] at hid
  obtain ⟨u, hu⟩ := hid
  rw [isStale, hu, Option.map_some, Option.getD_some, h.used id u hu, usageOf, Bool.and_eq_true,
    decide_eq_true_eq, decide_eq_true_eq]

/-- A tick answers the number of slabs that it is to mark. -/
theorem tick_fst (tier : RamTier) :
    tier.tick.1 = (tier.usage.toList.filter fun entry => tier.marks entry.2).length := by
  unfold tick
  dsimp only
  split
  next hnever => simp [marks, hnever]
  next hsome =>
    have hpos : 0 < tier.staleAfter := Nat.pos_of_ne_zero hsome
    rw [values_eq, List.filter_map, List.length_map]
    simp only [marks, hpos, decide_true, Bool.true_and]
    rfl

/-- A tick marks a slab that is not stale before and is after. -/
theorem marks_iff {u : SlabUsage} (hu : tier.usage[id]? = some u) :
    tier.marks u = true ↔ tier.isStale id = false ∧ tier.tick.2.isStale id = true := by
  rw [isStale, isStale, getElem?_tick, hu, Option.map_some, Option.map_some, Option.map_some,
    Option.getD_some, Option.getD_some]
  by_cases hmarks : tier.marks u = true
  · have hfresh : u.stale = false := by
      rw [marks, becomesStale, Bool.and_eq_true, Bool.and_eq_true, Bool.not_eq_true'] at hmarks
      exact hmarks.2.1
    simp only [hmarks, hfresh, if_true, and_self]
  · rw [if_neg hmarks]
    refine ⟨fun h => absurd h hmarks, fun ⟨hfresh, hstale⟩ => ?_⟩
    rw [hfresh] at hstale
    cases hstale

/-- A tick answers how many slabs it marked. -/
theorem Follows.exists_marked (h : tier.Follows slabSize staleAfter history) :
    ∃ marked : List Nat, marked.Nodup ∧ tier.tick.1 = marked.length ∧ ∀ id, id ∈ marked ↔
      id ∈ tier.slabs ∧ tier.isStale id = false ∧ tier.tick.2.isStale id = true := by
  have hnodup : (tier.usage.toList.map (·.1)).Nodup :=
    List.pairwise_map.2 ((pairwise_usage tier).imp Nat.ne_of_lt)
  refine ⟨(tier.usage.toList.filter fun entry => tier.marks entry.2).map (·.1),
    hnodup.sublist (List.filter_sublist.map _), by rw [tick_fst, List.length_map], fun id => ?_⟩
  rw [← h.known, Std.TreeMap.mem_iff_isSome_getElem?, Option.isSome_iff_exists]
  simp only [List.mem_map, List.mem_filter, Prod.exists, exists_and_right, exists_eq_right,
    Std.TreeMap.mem_toList_iff_getElem?_eq_some]
  constructor
  · rintro ⟨u, hu, hmarks⟩
    exact ⟨⟨u, hu⟩, (marks_iff hu).1 hmarks⟩
  · rintro ⟨⟨u, hu⟩, hchanged⟩
    exact ⟨u, hu, (marks_iff hu).2 hchanged⟩

/-- The bytes in use are those of the slabs that are not marked. -/
theorem memoryUsage_eq (tier : RamTier) : tier.memoryUsage =
    ((tier.slabs.toList.filter fun entry => !tier.isStale entry.1).map (·.2.used)).sum := by
  rw [memoryUsage, sumSizes_eq_sum]
  induction tier.slabs.toList with
  | nil => rfl
  | cons entry rest ih =>
    rw [List.map_cons, List.sum_cons, ih]
    cases hstale : tier.isStale entry.1 <;> simp [hstale]

/-- The slab that leaves is the first one that is marked, or else the one that precedes
all others. -/
theorem Follows.victim (h : tier.Follows slabSize staleAfter history)
    (hvictim : tier.nextVictim? = some id) :
    id ∈ tier.slabs ∧
      ((tier.isStale id = true ∧
          ∀ other ∈ tier.slabs, tier.isStale other = true → id ≤ other) ∨
        ∀ other ∈ tier.slabs, tier.isStale other = false ∧
          (other ≠ id → LeavesFirst history id other)) := by
  have hloaded (id : Nat) (u : SlabUsage) (hu : tier.usage[id]? = some u) : id ∈ tier.slabs := by
    rw [← h.known, Std.TreeMap.mem_iff_isSome_getElem?, hu, Option.isSome_some]
  have hstale (id : Nat) (u : SlabUsage) (hu : tier.usage[id]? = some u) :
      tier.isStale id = u.stale := by
    rw [isStale, hu, Option.map_some, Option.getD_some]
  have husage (id : Nat) (hid : id ∈ tier.slabs) : ∃ u, tier.usage[id]? = some u := by
    rwa [← h.known, Std.TreeMap.mem_iff_isSome_getElem?, Option.isSome_iff_exists] at hid
  obtain ⟨u, hu, hmarked, hlowest⟩ | ⟨u, hu, hothers⟩ := nextVictim?_spec hvictim
  · refine ⟨hloaded id u hu, .inl ⟨(hstale id u hu).trans hmarked, fun other hother hmark => ?_⟩⟩
    obtain ⟨u', hu'⟩ := husage other hother
    exact hlowest other u' hu' ((hstale other u' hu').symm.trans hmark)
  · refine ⟨hloaded id u hu, .inr fun other hother => ?_⟩
    obtain ⟨u', hu'⟩ := husage other hother
    obtain ⟨hfresh, hprecedes⟩ := hothers other u' hu'
    refine ⟨(hstale other u' hu').trans hfresh, fun hne => ?_⟩
    have hbefore := hprecedes hne
    rwa [h.used id u hu, h.used other u' hu'] at hbefore

/-- Marks tell exactly which slabs are idle. For every slab size, ceiling and time to staleness, and
after all calls, a loaded slab is marked as stale exactly when the time since the last value stored
in it or read from it is longer than the time to staleness and this is not zero. A tick answers how
many slabs it marked, and slabs that are marked do not count as memory in use. A slab leaves unless
none is loaded: the first one that is marked if there is any, and otherwise the one with the fewest
reads, the older touch and the lower number deciding between equals. Its records are answered, which
are the ones foretold, and the other slabs stay with their use. -/
theorem Use.marks_idle_slabs {maxSlabs : Nat}
    (h : Use slabSize maxSlabs staleAfter history tier) (hsmall : slabSize < wordLimit) :
    (∀ id ∈ tier.slabs, tier.isStale id = true ↔
      0 < staleAfter ∧ staleAfter < ticksOf history - touchedAt id history) ∧
    (∃ marked : List Nat, marked.Nodup ∧ tier.tick.1 = marked.length ∧ ∀ id, id ∈ marked ↔
      id ∈ tier.slabs ∧ tier.isStale id = false ∧ tier.tick.2.isStale id = true) ∧
    tier.memoryUsage =
      ((tier.slabs.toList.filter fun entry => !tier.isStale entry.1).map (·.2.used)).sum ∧
    (tier.evictOne = none ↔ tier.loadedSlabs = 0) ∧
    (tier.loadedSlabs = 0 → tier.victimRecords = []) ∧
    ∀ records tier', tier.evictOne = some (records, tier') → tier.victimRecords = records ∧
      ∃ id, id ∈ tier.slabs ∧ tier.evictSlab id = some (records, tier') ∧
        (∃ slab, tier.slabs[id]? = some slab ∧ records = slab.records ∧
          tier'.slabs = tier.slabs.erase id ∧ tier'.usage = tier.usage.erase id) ∧
        ((tier.isStale id = true ∧
            ∀ other ∈ tier.slabs, tier.isStale other = true → id ≤ other) ∨
          ∀ other ∈ tier.slabs, tier.isStale other = false ∧
            (other ≠ id → LeavesFirst history id other)) := by
  have hfollows := h.follows hsmall
  refine ⟨fun id => hfollows.isStale_iff, hfollows.exists_marked, tier.memoryUsage_eq,
    evictOne_eq_none_iff hfollows.known, fun hzero => ?_, fun records tier' hevict => ?_⟩
  · cases hvictim : tier.nextVictim? with
    | none => rw [victimRecords, hvictim]
    | some id => exact absurd (hfollows.victim hvictim).1 (loadedSlabs_eq_zero_iff.1 hzero id)
  · have hrecords := victimRecords_eq_of_evictOne hevict
    rw [RamTier.evictOne, Option.bind_eq_bind, Option.bind_eq_some_iff] at hevict
    obtain ⟨id, hvictim, hevict⟩ := hevict
    obtain ⟨hid, hfirst⟩ := hfollows.victim hvictim
    exact ⟨hrecords, id, hid, hevict, exists_of_evictSlab hevict, hfirst⟩

/-- A slab in which a value was stored at the start is marked by the second tick when it may be idle
for one, and it is the one that leaves, with nothing left. -/
theorem Use.marks_idle_slabs_of_two_ticks :
    ∃ history tier, Use 64 2 1 history tier ∧ history = [.ticked, .touched 0 .opened] ∧
      tier.tick.1 = 1 ∧ tier.tick.2.isStale 0 = true ∧
      ∃ records tier', tier.tick.2.evictOne = some (records, tier') ∧
        tier.tick.2.evictSlab 0 = some (records, tier') ∧ records.length = 1 ∧ 0 ∉ tier'.slabs ∧
        0 ∉ tier'.usage := by
  let opened := ((RamTier.new 64 2 1).insert ⟨#[97]⟩ ⟨#[1]⟩).2
  have hinsert : (RamTier.new 64 2 1).insert ⟨#[97]⟩ ⟨#[1]⟩ = (true, opened) :=
    Prod.ext (by decide +kernel) rfl
  have hrun : Use 64 2 1 [.ticked, .touched 0 .opened] opened.tick.2 :=
    (Use.new.opened (by decide +kernel) hinsert).tick
  have htick : opened.tick.2.tick.1 = 1 := by decide +kernel
  have hids : ∀ id, id ∈ opened.tick.2.tick.2.slabs ↔ id = 0 := by
    intro id
    have hkeys : opened.tick.2.tick.2.slabs.keys = [0] := by decide +kernel
    rw [← Std.TreeMap.mem_keys, hkeys, List.mem_singleton]
  obtain ⟨hstale, -, -, hnone, -, hleaves⟩ := hrun.tick.marks_idle_slabs (by decide)
  have hmarked := (hstale 0 ((hids 0).2 rfl)).2 (by decide)
  refine ⟨_, _, hrun, rfl, htick, hmarked, ?_⟩
  cases hevict : opened.tick.2.tick.2.evictOne with
  | none => exact absurd ((hids 0).2 rfl) (loadedSlabs_eq_zero_iff.1 (hnone.1 hevict) 0)
  | some evicted =>
    obtain ⟨hforetold, id, hid, hslab, ⟨_, _, _, hslabs, husage⟩, -⟩ :=
      hleaves evicted.1 evicted.2 hevict
    obtain rfl := (hids id).1 hid
    have hone : opened.tick.2.tick.2.victimRecords.length = 1 := by decide +kernel
    refine ⟨_, _, rfl, hslab, hforetold ▸ hone, ?_, ?_⟩
    · rw [hslabs, Std.TreeMap.mem_erase]
      exact fun h => h.1 Std.ReflCmp.compare_self
    · rw [husage, Std.TreeMap.mem_erase]
      exact fun h => h.1 Std.ReflCmp.compare_self

end Victims

end RamTier

end ElasticCache
