import ElasticCache.Fleet.Members

/-!
# Rounds of a fleet

A round polls every instance for its usage, lets the market divide the pool, and pushes the
allocations that moved. An instance that fails a request, or does not answer it in time, is dropped,
and the round goes on with the others.

The instances live in a world of type `ω` that each request may change, so that what is said about
rounds holds for all behaviours of the instances.
-/

namespace ElasticCache

/-- What a request to an instance leads to. -/
inductive Response (α : Type) where
  | answered (value : α)
  | failed (error : Error)
  /-- No answer in time. -/
  | silent

/-- The value of an answer, or why an instance counts as dead. -/
def Response.outcome {α : Type} (uid timeout : Nat) : Response α → Except Error α
  | .answered value => .ok value
  | .failed error => .error (.unavailable uid error.message)
  | .silent => .error (.timeout uid timeout)

/-- The requests that instances understand. -/
structure Peers (ω η : Type) where
  /-- Asks for the usage. -/
  poll : η → ω → Response UsageReport × ω
  /-- Sets the allocation. -/
  push : η → (size : Nat) → ω → Response Unit × ω
  /-- Asks an instance to stop, without waiting for an answer. -/
  stop : η → ω → ω

/-- A fleet and the world that its instances live in. -/
structure Scene (ω η : Type) where
  fleet : Fleet η
  world : ω

namespace Scene

variable {ω η : Type}

/-- Drops an instance that failed a request. It is asked to stop. -/
def dropDead (peers : Peers ω η) (scene : Scene ω η) (uid : Nat) (cause : Error) : Scene ω η :=
  let world :=
    match scene.fleet.members[uid]? with
    | some peer => peers.stop peer scene.world
    | none => scene.world
  let fleet := scene.fleet.erase uid
  let metrics := { fleet.metrics with
    removedInstances := Metrics.advance fleet.metrics.removedInstances 1 }
  { fleet := { fleet with metrics }.publish (.unreachable uid cause.message), world }

/-- Asks instances for their usage, one after the other. -/
def pollAll (peers : Peers ω η) : List (Nat × η) → ω → List (Nat × Response UsageReport) × ω
  | [], world => ([], world)
  | (uid, peer) :: rest, world =>
    let (response, world) := peers.poll peer world
    let (responses, world) := pollAll peers rest world
    ((uid, response) :: responses, world)

/-- Takes account of the response to a poll. -/
def settlePoll (peers : Peers ω η) (scene : Scene ω η) (poll : Nat × Response UsageReport) :
    Scene ω η :=
  let (uid, response) := poll
  match response.outcome uid scene.fleet.config.requestTimeout with
  | .ok report =>
    let market := scene.fleet.market.reportUsage uid report.usage
    { scene with fleet := { scene.fleet with market } }
  | .error cause => scene.dropDead peers uid cause

/-- Pushes its allocation to an instance. -/
def pushTo (peers : Peers ω η) (scene : Scene ω η) (member : Nat × η) : Scene ω η :=
  let (uid, peer) := member
  match scene.fleet.market.account? uid with
  | none => scene
  | some account =>
    let (response, world) := peers.push peer account.size scene.world
    let scene := { scene with world }
    match response.outcome uid scene.fleet.config.requestTimeout with
    | .ok () =>
      { scene with fleet :=
          scene.fleet.publish (.reallocated uid account.last account.size account.usage) }
    | .error cause => scene.dropDead peers uid cause

/-- The members whose allocation the last market round moved. -/
def moved (fleet : Fleet η) : List (Nat × η) :=
  fleet.members.toList.filter fun (uid, _) => fleet.market.hasChanged uid

/-- Ends a round: it is observed and published. -/
def conclude (elapsed : Duration) (report : RoundReport) (fleet : Fleet η) : Fleet η :=
  let allocations := fleet.market.accounts.toList.map fun (uid, account) => (uid, account.size)
  let metrics := fleet.metrics.observeRound allocations elapsed.toSeconds
  { fleet with metrics }.publish (.roundCompleted report elapsed.toMillis)

/-- One round in which each instance has the target told by `target`, and which takes a
given time. -/
def roundWith (peers : Peers ω η) (target : Account → Nat) (elapsed : Duration)
    (scene : Scene ω η) : Except Fault (RoundReport × Scene ω η) := do
  let (responses, world) := pollAll peers scene.fleet.members.toList scene.world
  let scene := responses.foldl (settlePoll peers) { scene with world }
  let (report, market) ← scene.fleet.market.runWith target
  let scene := { scene with fleet := { scene.fleet with market } }
  let scene := (moved scene.fleet).foldl (pushTo peers) scene
  return (report, { scene with fleet := conclude elapsed report scene.fleet })

/-- One round that takes a given time. -/
def round (peers : Peers ω η) (elapsed : Duration) (scene : Scene ω η) :
    Except Fault (RoundReport × Scene ω η) :=
  scene.roundWith peers (Account.target scene.fleet.market.config) elapsed

/-- Lets every instance go and asks it to stop. -/
def shutdown (peers : Peers ω η) (scene : Scene ω η) : Scene ω η :=
  let fleet := scene.fleet
  let market := fleet.members.keys.foldl Market.remove fleet.market
  { fleet := { fleet with market, members := ∅ }
    world := fleet.members.toList.foldl (fun world (_, peer) => peers.stop peer world)
      scene.world }

/-- A number of rounds that take no time, and then a shutdown. -/
def runRounds (peers : Peers ω η) : (rounds : Nat) → Scene ω η → Except Fault (Scene ω η)
  | 0, scene => return scene.shutdown peers
  | rounds + 1, scene => do
    let (_, scene) ← scene.round peers .zero
    runRounds peers rounds scene

/-- Runs a fleet for a number of rounds and shuts it down. Its round interval must be a duration. -/
def run (peers : Peers ω η) (rounds : Nat) (scene : Scene ω η) : Except Fault (Scene ω η) := do
  let _ ← scene.fleet.config.roundInterval
  scene.runRounds peers rounds

end Scene

end ElasticCache
