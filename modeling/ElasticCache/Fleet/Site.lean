import ElasticCache.Fleet.Round

/-!
# Instances of a site

The instances that a fleet reaches without a network, by name: cache instances of the same process,
and rehearsed ones that answer as they are told.
-/

namespace ElasticCache

/-- An instance that answers as it is told. -/
structure Rehearsal where
  usage : Nat := 0
  failsPoll : Bool := false
  ignoresPoll : Bool := false
  refusesPush : Bool := false
  ignoresPush : Bool := false
  ignoresStop : Bool := false
  /-- The sizes it was given, oldest first. -/
  pushed : List Nat := []
  /-- How often it was asked to stop. -/
  stops : Nat := 0
  deriving DecidableEq, Repr

/-- The instances of a site by name. -/
structure Site where
  instances : Std.TreeMap String CacheInstance := ∅
  rehearsals : Std.TreeMap String Rehearsal := ∅

/-- How an instance of a site is named. -/
inductive SiteName where
  | cache (name : String)
  | rehearsal (name : String)
  deriving DecidableEq, Repr

namespace CacheInstance

/-- The failure of any request to a stopped instance. -/
def stoppedError (cache : CacheInstance) : Error :=
  .unavailable 0 s!"instance {cache.name} is stopped"

/-- The response to a poll. -/
def respondPoll (cache : CacheInstance) : Response UsageReport :=
  if cache.stopped then .failed cache.stoppedError
  else
    match cache.usageReport with
    | .ok report => .answered report
    | .error _ => .failed (.internal s!"store task of {cache.name} failed")

/-- The response to a new allocation. -/
def respondPush (cache : CacheInstance) (size : Nat) : Response Unit × CacheInstance :=
  if cache.stopped then (.failed cache.stoppedError, cache)
  else
    match Id.run ((resize size).run.run cache) with
    | (.ok (), cache) => (.answered (), cache)
    | (.error e, cache) => (.failed e, cache)

end CacheInstance

namespace Rehearsal

/-- The response to a poll. -/
def respondPoll (r : Rehearsal) : Response UsageReport :=
  if r.ignoresPoll then .silent
  else if r.failsPoll then .failed (.internal "connection reset")
  else .answered { usage := r.usage }

/-- The response to a new allocation. Only an accepted one is remembered. -/
def respondPush (r : Rehearsal) (size : Nat) : Response Unit × Rehearsal :=
  if r.ignoresPush then (.silent, r)
  else if r.refusesPush then (.failed (.protocol "update refused"), r)
  else (.answered (), { r with pushed := r.pushed ++ [size] })

/-- Hears that it is to stop. -/
def hearStop (r : Rehearsal) : Rehearsal :=
  if r.ignoresStop then r else { r with stops := r.stops + 1 }

end Rehearsal

namespace Site

/-- Replaces a cache instance. -/
def putInstance (site : Site) (name : String) (cache : CacheInstance) : Site :=
  { site with instances := site.instances.insert name cache }

/-- Replaces a rehearsed instance. -/
def putRehearsal (site : Site) (name : String) (r : Rehearsal) : Site :=
  { site with rehearsals := site.rehearsals.insert name r }

/-- The rehearsed instance of a name, a fresh one when there is none. -/
def rehearsal (site : Site) (name : String) : Rehearsal := site.rehearsals.getD name {}

/-- Polls an instance. One that does not exist stays silent. -/
def poll (name : SiteName) (site : Site) : Response UsageReport × Site :=
  match name with
  | .cache name =>
    match site.instances[name]? with
    | some cache => (cache.respondPoll, site)
    | none => (.silent, site)
  | .rehearsal name => ((site.rehearsal name).respondPoll, site)

/-- Sets the allocation of an instance. One that does not exist stays silent. -/
def push (name : SiteName) (size : Nat) (site : Site) : Response Unit × Site :=
  match name with
  | .cache name =>
    match site.instances[name]? with
    | some cache =>
      let (response, cache) := cache.respondPush size
      (response, site.putInstance name cache)
    | none => (.silent, site)
  | .rehearsal name =>
    let (response, r) := (site.rehearsal name).respondPush size
    (response, site.putRehearsal name r)

/-- Asks an instance to stop. -/
def stop (name : SiteName) (site : Site) : Site :=
  match name with
  | .cache name =>
    match site.instances[name]? with
    | some cache => site.putInstance name cache.stop
    | none => site
  | .rehearsal name => site.putRehearsal name (site.rehearsal name).hearStop

/-- The instances of a site as the peers of a fleet. -/
def peers : Peers Site SiteName := ⟨poll, push, stop⟩

end Site

end ElasticCache
