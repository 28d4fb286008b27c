import ElasticCache.Fleet.Journal

/-!
# What a journal tells

The events of a journal replay to a ledger, which has the size of every instance that is still
there. The events about one instance tell its story: it joins, it is moved from size to size, and it
leaves. A journal goes on telling such stories as long as each new change starts from the ledger.
-/

namespace ElasticCache

/-- The sizes of instances by uid. -/
abbrev Ledger := Std.TreeMap Nat Nat

namespace Change

/-- What a change makes of a ledger. An instance joins without an allocation. -/
def enter (ledger : Ledger) : Change → Ledger
  | .registered uid _ _ => ledger.insert uid 0
  | .removed uid => ledger.erase uid
  | .unreachable uid _ => ledger.erase uid
  | .reallocated uid _ newSize _ => ledger.insert uid newSize
  | .roundCompleted _ _ => ledger

/-- The changes by which an instance leaves. -/
inductive Leaves (uid : Nat) : Change → Prop
  | removed : Leaves uid (.removed uid)
  | unreachable (reason : String) : Leaves uid (.unreachable uid reason)

/-- A change of an instance starts from a ledger when the instance is there, and when it moves it,
then away from the size that it has there. The end of a round starts from any ledger. -/
def StartsFrom (ledger : Ledger) : Change → Prop
  | .registered .. => False
  | .removed uid => uid ∈ ledger
  | .unreachable uid _ => uid ∈ ledger
  | .reallocated uid oldSize newSize _ => ledger[uid]? = some oldSize ∧ oldSize ≠ newSize
  | .roundCompleted .. => True

/-- The change by which an instance leaves is about that instance. -/
theorem Leaves.uid?_eq {uid : Nat} {change : Change} (h : change.Leaves uid) :
    change.uid? = some uid := by
  cases h <;> rfl

/-- A change by which an instance leaves takes it out of the ledger. -/
theorem Leaves.enter_eq {uid : Nat} {change : Change} (h : change.Leaves uid) (ledger : Ledger) :
    change.enter ledger = ledger.erase uid := by
  cases h <;> rfl

/-- A change by which an instance leaves starts from any ledger with it. -/
theorem Leaves.startsFrom {uid : Nat} {change : Change} (h : change.Leaves uid) {ledger : Ledger}
    (hmem : uid ∈ ledger) : change.StartsFrom ledger := by
  cases h <;> exact hmem

/-- A change has no effect on the size of an instance that it is not about. -/
theorem getElem?_enter_of_ne {change : Change} {uid : Nat} (ledger : Ledger)
    (hne : change.uid? ≠ some uid) : (change.enter ledger)[uid]? = ledger[uid]? := by
  have hother {other : Nat} (hsome : change.uid? = some other) : compare other uid ≠ .eq :=
    fun heq => hne (hsome.trans (congrArg some (Nat.compare_eq_eq.1 heq)))
  cases change with
  | roundCompleted report milliseconds => rfl
  | removed other | unreachable other reason =>
    exact Std.TreeMap.getElem?_erase.trans (if_neg (hother rfl))
  | registered other requested maxSize | reallocated other oldSize newSize usage =>
    exact Std.TreeMap.getElem?_insert.trans (if_neg (hother rfl))

end Change

/-! ## Stories -/

/-- The changes about an instance, oldest first, with the size that it has after them while it is
there: it joined without an allocation, then it was moved, each time from the size that it had to
another one, and after it left there is no change. An instance that never joined has no changes at
all. -/
inductive Story (uid : Nat) : (size? : Option Nat) → List Change → Prop
  | unheard : Story uid none []
  | joined (requested maxSize : Nat) : Story uid (some 0) [.registered uid requested maxSize]
  | moved {oldSize newSize : Nat} {changes : List Change} (usage : Nat)
      (story : Story uid (some oldSize) changes) (hne : oldSize ≠ newSize) :
    Story uid (some newSize) (changes ++ [.reallocated uid oldSize newSize usage])
  | left {size : Nat} {changes : List Change} {change : Change}
      (story : Story uid (some size) changes) (hleaves : change.Leaves uid) :
    Story uid none (changes ++ [change])

/-- An instance that is there has joined. -/
theorem Story.ne_nil {uid size : Nat} {changes : List Change}
    (story : Story uid (some size) changes) : changes ≠ [] := by
  cases story with
  | joined requested maxSize => exact List.cons_ne_nil _ _
  | moved usage story hne => exact List.concat_ne_nil _ _

section Entering

variable {uid : Nat} {ledger : Ledger} {changes : List Change} {change : Change}

/-- An instance of a ledger may leave. -/
theorem Story.leave (story : Story uid ledger[uid]? changes) (hmem : uid ∈ ledger)
    (hleaves : change.Leaves uid) :
    changes ≠ [] ∧ Story uid (change.enter ledger)[uid]? (changes ++ [change]) := by
  obtain ⟨size, hsize⟩ := Option.isSome_iff_exists.1 (Std.TreeMap.mem_iff_isSome_getElem?.1 hmem)
  rw [hsize] at story
  rw [hleaves.enter_eq, Std.TreeMap.getElem?_erase_self]
  exact ⟨story.ne_nil, story.left hleaves⟩

/-- A change that starts from a ledger goes on with the story of its instance there. -/
theorem Story.enter (story : Story uid ledger[uid]? changes) (hstarts : change.StartsFrom ledger)
    (huid : change.uid? = some uid) :
    changes ≠ [] ∧ Story uid (change.enter ledger)[uid]? (changes ++ [change]) := by
  cases change with
  | registered other requested maxSize => cases hstarts
  | roundCompleted report milliseconds => cases huid
  | reallocated other oldSize newSize usage =>
    obtain rfl := Option.some.inj huid
    obtain ⟨hold, hne⟩ := hstarts
    rw [hold] at story
    rw [Change.enter, Std.TreeMap.getElem?_insert_self]
    exact ⟨story.ne_nil, story.moved usage hne⟩
  | removed other =>
    obtain rfl := Option.some.inj huid
    exact story.leave hstarts .removed
  | unreachable other reason =>
    obtain rfl := Option.some.inj huid
    exact story.leave hstarts (.unreachable reason)

end Entering

/-! ## Journals -/

/-- Bytes that the four phases of a round gave away. -/
def RoundReport.givenAway (report : RoundReport) : Nat :=
  report.baseSold + report.auctioned + report.redistributed + report.split

namespace Journal

variable {journal : Journal} {change : Change} {joined rounds poolSize : Nat}

/-- The ledger that the events of a journal replay to. -/
def replay (journal : Journal) : Ledger :=
  journal.events.foldl (fun ledger event => event.change.enter ledger) ∅

/-- The changes about an instance, oldest first. -/
def changesAbout (journal : Journal) (uid : Nat) : List Change :=
  (journal.about uid).map (·.change)

/-- The journal tells a story of every instance that joined, and nothing about others. Those that
joined have the uids from one on. -/
structure TellsStories (journal : Journal) (joined : Nat) : Prop where
  stories : ∀ uid, Story uid journal.replay[uid]? (journal.changesAbout uid)
  unheard : ∀ uid, journal.changesAbout uid = [] ↔ uid = 0 ∨ joined < uid

/-- The journal has one event for each round, and the reports of rounds in which anyone took part
account for the whole pool. -/
structure CountsRounds (journal : Journal) (poolSize rounds : Nat) : Prop where
  rounds_eq : journal.rounds = rounds
  givenAway : ∀ event ∈ journal.events, ∀ report milliseconds,
    event.change = .roundCompleted report milliseconds → report.instances ≠ 0 →
      report.givenAway = poolSize

section Publishing

variable (haccepting : journal.accepting = true)

include haccepting

/-- A change that is published becomes the last event, with the time of the journal. -/
theorem events_publish (change : Change) :
    (journal.publish change).events = journal.events ++ [⟨journal.now, change⟩] := by
  rw [publish, if_pos haccepting]

/-- A journal to which a change was published accepts changes. -/
theorem accepting_publish (change : Change) : (journal.publish change).accepting = true := by
  rw [publish, if_pos haccepting, haccepting]

/-- The replay goes on with the change that was published. -/
theorem replay_publish (change : Change) :
    (journal.publish change).replay = change.enter journal.replay := by
  rw [replay, events_publish haccepting, List.foldl_append]
  rfl

/-- A change about an instance ends the story of that instance. -/
theorem changesAbout_publish_of_eq {uid : Nat} (huid : change.uid? = some uid) :
    (journal.publish change).changesAbout uid = journal.changesAbout uid ++ [change] := by
  have hkept : [(⟨journal.now, change⟩ : Event)].filter (·.change.uid? == some uid) =
      [⟨journal.now, change⟩] := List.filter_cons_of_pos (beq_iff_eq.2 huid)
  rw [changesAbout, about, events_publish haccepting, List.filter_append, hkept, List.map_append]
  rfl

/-- A change about another instance leaves the story of an instance as it is. -/
theorem changesAbout_publish_of_ne {uid : Nat} (huid : change.uid? ≠ some uid) :
    (journal.publish change).changesAbout uid = journal.changesAbout uid := by
  have hlost : [(⟨journal.now, change⟩ : Event)].filter (·.change.uid? == some uid) = [] :=
    List.filter_cons_of_neg fun heq => huid (beq_iff_eq.1 heq)
  rw [changesAbout, about, events_publish haccepting, List.filter_append, hlost, List.append_nil]
  rfl

/-- The stories go on with a change that starts from the ledger. -/
theorem TellsStories.publish (h : journal.TellsStories joined)
    (hstarts : change.StartsFrom journal.replay) :
    (journal.publish change).TellsStories joined := by
  constructor
  · intro uid
    rw [replay_publish haccepting]
    by_cases huid : change.uid? = some uid
    · rw [changesAbout_publish_of_eq haccepting huid]
      exact ((h.stories uid).enter hstarts huid).2
    · rw [changesAbout_publish_of_ne haccepting huid, Change.getElem?_enter_of_ne _ huid]
      exact h.stories uid
  · intro uid
    rw [← h.unheard uid]
    by_cases huid : change.uid? = some uid
    · have hheard := ((h.stories uid).enter hstarts huid).1
      rw [changesAbout_publish_of_eq haccepting huid]
      exact iff_of_false (List.concat_ne_nil _ _) hheard
    · rw [changesAbout_publish_of_ne haccepting huid]

/-- A new story starts with the instance that joins next. Its uid is new, so that there is no
earlier story under it. -/
theorem TellsStories.join (h : journal.TellsStories joined) (requested maxSize : Nat) :
    (journal.publish (.registered (joined + 1) requested maxSize)).TellsStories (joined + 1) := by
  let change : Change := .registered (joined + 1) requested maxSize
  have hnew : journal.changesAbout (joined + 1) = [] :=
    (h.unheard _).2 (.inr (Nat.lt_succ_self joined))
  have hself : (journal.publish change).changesAbout (joined + 1) = [change] := by
    rw [changesAbout_publish_of_eq haccepting rfl, hnew, List.nil_append]
  have hother {uid : Nat} (hne : uid ≠ joined + 1) : change.uid? ≠ some uid :=
    fun heq => hne (Option.some.inj heq).symm
  constructor
  · intro uid
    rw [replay_publish haccepting]
    by_cases huid : uid = joined + 1
    · rw [huid, hself, Change.enter, Std.TreeMap.getElem?_insert_self]
      exact .joined requested maxSize
    · rw [changesAbout_publish_of_ne haccepting (hother huid),
        Change.getElem?_enter_of_ne _ (hother huid)]
      exact h.stories uid
  · intro uid
    by_cases huid : uid = joined + 1
    · rw [huid, hself]
      exact iff_of_false (List.cons_ne_nil _ _) (by omega)
    · rw [changesAbout_publish_of_ne haccepting (hother huid), h.unheard]
      omega

/-- Only the end of a round counts as a round. -/
theorem CountsRounds.publish (h : journal.CountsRounds poolSize rounds)
    (habout : change.uid? ≠ none) : (journal.publish change).CountsRounds poolSize rounds := by
  have hround {report : RoundReport} {milliseconds : Nat} :
      change ≠ .roundCompleted report milliseconds := by
    rintro rfl
    exact habout rfl
  constructor
  · rw [Journal.rounds, events_publish haccepting, List.countP_append, ← h.rounds_eq]
    cases change with
    | roundCompleted => exact absurd rfl hround
    | _ => rfl
  · intro event hevent report milliseconds heq
    rw [events_publish haccepting] at hevent
    rcases List.mem_append.1 hevent with hmem | hmem
    · exact h.givenAway event hmem report milliseconds heq
    · rw [List.mem_singleton.1 hmem] at heq
      exact absurd heq hround

/-- The end of a round counts, and its report may be asked for the pool. -/
theorem CountsRounds.conclude (h : journal.CountsRounds poolSize rounds) {report : RoundReport}
    (milliseconds : Nat) (hreport : report.instances ≠ 0 → report.givenAway = poolSize) :
    (journal.publish (.roundCompleted report milliseconds)).CountsRounds poolSize (rounds + 1) := by
  constructor
  · rw [Journal.rounds, events_publish haccepting, List.countP_append, ← h.rounds_eq]
    rfl
  · intro event hevent report' milliseconds' heq
    rw [events_publish haccepting] at hevent
    rcases List.mem_append.1 hevent with hmem | hmem
    · exact h.givenAway event hmem report' milliseconds' heq
    · rw [List.mem_singleton.1 hmem] at heq
      obtain ⟨rfl, rfl⟩ := Change.roundCompleted.inj heq
      exact hreport

end Publishing

end Journal

end ElasticCache
