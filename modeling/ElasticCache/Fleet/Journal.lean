import ElasticCache.Fleet.Event

/-!
# The journal of a fleet

The events that were published, oldest first. A journal that does not accept events loses them.
-/

namespace ElasticCache

/-- Published events, oldest first. -/
structure Journal where
  events : List Event := []
  /-- Whether published events are kept. -/
  accepting : Bool := true
  /-- Time of the events to come. -/
  now : Timestamp := .epoch
  deriving DecidableEq, Repr

namespace Journal

/-- Publishes a change. -/
def publish (journal : Journal) (change : Change) : Journal :=
  if journal.accepting then
    { journal with events := journal.events ++ [⟨journal.now, change⟩] }
  else journal

/-- The events of a type. -/
def ofType (journal : Journal) (typeName : String) : List Event :=
  journal.events.filter (·.change.typeName == typeName)

/-- The events about an instance. -/
def about (journal : Journal) (uid : Nat) : List Event :=
  journal.events.filter (·.change.uid? == some uid)

/-- The sizes that an instance was given, oldest first. -/
def allocationsOf (journal : Journal) (uid : Nat) : List Nat :=
  journal.events.filterMap fun event =>
    match event.change with
    | .reallocated target _ newSize _ => if target = uid then some newSize else none
    | _ => none

/-- Number of completed rounds. -/
def rounds (journal : Journal) : Nat :=
  journal.events.countP fun event =>
    match event.change with
    | .roundCompleted .. => true
    | _ => false

end Journal

end ElasticCache
