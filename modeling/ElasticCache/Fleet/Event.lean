import ElasticCache.Market.Round
import ElasticCache.Text.Json
import ElasticCache.Time.Timestamp

/-!
# Fleet events

Records of what changed in a fleet, with their JSON form and their form in a log. The JSON form is
an object whose member `type` names the kind of change. A reader also takes the members as an array,
the type first and the others in their order, and ignores members of an object that it does not
know.
-/

namespace ElasticCache

/-- What changed in a fleet. -/
inductive Change where
  /-- An instance joined. -/
  | registered (uid requested maxSize : Nat)
  /-- An instance left. -/
  | removed (uid : Nat)
  /-- An instance failed a request and was dropped. -/
  | unreachable (uid : Nat) (reason : String)
  /-- A round moved the allocation of an instance. -/
  | reallocated (uid oldSize newSize usage : Nat)
  /-- A round ended. -/
  | roundCompleted (report : RoundReport) (milliseconds : Nat)
  deriving DecidableEq, Repr

namespace Change

/-- The name of a kind of change. -/
def typeName : Change → String
  | .registered .. => "InstanceRegistered"
  | .removed .. => "InstanceRemoved"
  | .unreachable .. => "InstanceUnreachable"
  | .reallocated .. => "AllocationChanged"
  | .roundCompleted .. => "RoundCompleted"

/-- The instance that a change is about. -/
def uid? : Change → Option Nat
  | .registered uid .. => some uid
  | .removed uid => some uid
  | .unreachable uid _ => some uid
  | .reallocated uid .. => some uid
  | .roundCompleted .. => none

/-- The members of a change in their order. -/
def members : Change → List (String × Json)
  | .registered uid requested maxSize =>
    [("uid", .ofNat uid), ("requested", .ofNat requested), ("max_size", .ofNat maxSize)]
  | .removed uid => [("uid", .ofNat uid)]
  | .unreachable uid reason => [("uid", .ofNat uid), ("reason", .string reason)]
  | .reallocated uid oldSize newSize usage =>
    [("uid", .ofNat uid), ("old_size", .ofNat oldSize), ("new_size", .ofNat newSize),
      ("usage", .ofNat usage)]
  | .roundCompleted report milliseconds =>
    [("instances", .ofNat report.instances), ("base_sold", .ofNat report.baseSold),
      ("auctioned", .ofNat report.auctioned), ("redistributed", .ofNat report.redistributed),
      ("split", .ofNat report.split), ("unmet_demand", .ofNat report.unmetDemand),
      ("duration_ms", .ofNat milliseconds)]

/-- The names of the members of a kind of change in their order. -/
def memberNames? : (typeName : String) → Option (List String)
  | "InstanceRegistered" => some ["uid", "requested", "max_size"]
  | "InstanceRemoved" => some ["uid"]
  | "InstanceUnreachable" => some ["uid", "reason"]
  | "AllocationChanged" => some ["uid", "old_size", "new_size", "usage"]
  | "RoundCompleted" =>
    some ["instances", "base_sold", "auctioned", "redistributed", "split", "unmet_demand",
      "duration_ms"]
  | _ => none

/-- The change of a kind with the given members. Amounts are 64-bit natural numbers. -/
def ofMembers? (typeName : String) (member : String → Option Json) : Option Change := do
  let amount (name : String) := (member name).bind Json.nat?
  match typeName with
  | "InstanceRegistered" =>
    return .registered (← amount "uid") (← amount "requested") (← amount "max_size")
  | "InstanceRemoved" => return .removed (← amount "uid")
  | "InstanceUnreachable" =>
    return .unreachable (← amount "uid") (← (member "reason").bind Json.string?)
  | "AllocationChanged" =>
    return .reallocated (← amount "uid") (← amount "old_size") (← amount "new_size")
      (← amount "usage")
  | "RoundCompleted" =>
    let report : RoundReport :=
      { instances := ← amount "instances"
        baseSold := ← amount "base_sold"
        auctioned := ← amount "auctioned"
        redistributed := ← amount "redistributed"
        split := ← amount "split"
        unmetDemand := ← amount "unmet_demand" }
    return .roundCompleted report (← amount "duration_ms")
  | _ => none

/-- The names looked up for the type of a change are those of its own members. -/
theorem memberNames?_typeName (change : Change) :
    memberNames? change.typeName = some (change.members.map (·.1)) := by
  cases change <;> rfl

end Change

/-- A change with the time at which it happened. -/
structure Event where
  time : Timestamp
  change : Change
  deriving DecidableEq, Repr

namespace Event

/-- The members of the JSON form in their order. -/
def members (event : Event) : List (String × Json) :=
  ("type", .string event.change.typeName) ::
    event.change.members ++ [("timestamp", .string event.time.render)]

/-- The JSON form of an event. -/
def toJson (event : Event) : Json := .object event.members

/-- The type of an event form and its other members. Neither the type nor a member that the type
knows may be repeated. -/
def split? : Json → Option (String × List (String × Json))
  | .object members => do
    let [(_, .string typeName)] := members.filter (·.1 == "type") | none
    let names ← Change.memberNames? typeName
    if (names ++ ["timestamp"]).all fun name => members.countP (·.1 == name) ≤ 1 then
      some (typeName, members)
    else none
  | .array (.string typeName :: items) => do
    let names := (← Change.memberNames? typeName) ++ ["timestamp"]
    if items.length = names.length then some (typeName, names.zip items) else none
  | _ => none

/-- The event of a JSON form. -/
def ofJson? (form : Json) : Option Event := do
  let (typeName, members) ← split? form
  let member (name : String) := (Json.object members).member? name
  let change ← Change.ofMembers? typeName member
  let time ← ((member "timestamp").bind Json.string?).bind Timestamp.parse?
  return ⟨time, change⟩

/-- The event that a text stands for. -/
def parse? (text : String) : Option Event := (Json.parse? text).bind ofJson?

end Event

/-! ## Log records -/

/-- How much attention a log record asks for. -/
inductive Severity where
  | debug
  | info
  | warning
  deriving DecidableEq, Repr

/-- The word for a severity. -/
def Severity.name : Severity → String
  | .debug => "DEBUG"
  | .info => "INFO"
  | .warning => "WARN"

/-- A line of a log. -/
structure LogRecord where
  severity : Severity
  message : String
  members : List (String × Json)

/-- The log record of a change. What repeats every round is logged for debugging only, unless
`roundsAtInfo` asks for more. -/
def Change.logRecord (roundsAtInfo : Bool) (change : Change) : LogRecord :=
  let perRound : Severity := if roundsAtInfo then .info else .debug
  match change with
  | .registered .. => ⟨.info, "Instance joined", change.members⟩
  | .removed .. => ⟨.info, "Instance left", change.members⟩
  | .unreachable .. => ⟨.warning, "Instance unreachable", change.members⟩
  | .reallocated .. => ⟨perRound, "Allocation moved", change.members⟩
  | .roundCompleted .. => ⟨perRound, "Round completed", change.members⟩

end ElasticCache
