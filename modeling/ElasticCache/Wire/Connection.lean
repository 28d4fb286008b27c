import ElasticCache.Instance
import ElasticCache.Wire.Frame

/-!
# Connections of clients

A connection performs its requests one after the other on an instance and answers each. It ends with
its bytes, at the first frame that is refused or incomplete, and when the instance stops.
-/

namespace ElasticCache

/-- Connections that an instance serves at a time. -/
def maxConnections : Nat := 1024

/-- A connection of a client. -/
structure Connection where
  incoming : Wire.Incoming
  /-- The bytes answered so far. -/
  answered : ByteArray := .empty
  isOpen : Bool := true

/-- The blocks that an instance accepts. -/
def CacheInstance.frameLimits (cache : CacheInstance) : FrameLimits :=
  ⟨cache.config.store.maxKeySize, cache.config.store.maxValueSize⟩

/-- Performs a request and answers it. A read that fails is answered like an absent key. -/
def CacheInstance.perform (cache : CacheInstance) :
    Request → Except Error ByteArray × CacheInstance
  | .get key =>
    let (outcome, cache) := Id.run ((get key).run.run cache)
    let value? := match outcome with
      | .ok value? => value?
      | .error _ => none
    (Wire.getReply value?, cache)
  | .set key value =>
    let (outcome, cache) := Id.run ((set key value).run.run cache)
    (.ok (Wire.setReply outcome.isOk), cache)

namespace Connection

/-- A connection that delivers the given bytes. -/
def ofBytes (bytes : ByteArray) : Connection := { incoming := [bytes.toList] }

/-- Performs and answers the next request, or ends the connection. -/
def serveNext (connection : Connection) (cache : CacheInstance) : Connection × CacheInstance :=
  if cache.stopped then ({ connection with isOpen := false }, cache)
  else
    match Wire.readRequest cache.frameLimits connection.incoming with
    | .ok (some request, incoming) =>
      match cache.perform request with
      | (.ok reply, cache) =>
        ({ connection with incoming, answered := connection.answered ++ reply }, cache)
      | (.error _, cache) => ({ connection with incoming, isOpen := false }, cache)
    | _ => ({ connection with isOpen := false }, cache)

/-- An open connection has fewer bytes to read after each request. -/
theorem length_serveNext {connection after : Connection} {cache cache' : CacheInstance}
    (h : connection.serveNext cache = (after, cache')) (hopen : after.isOpen = true) :
    after.incoming.flatten.length < connection.incoming.flatten.length := by
  unfold serveNext at h
  split at h
  next =>
    obtain ⟨rfl, _⟩ := by simpa using h
    contradiction
  next =>
    split at h
    next request incoming hread =>
      split at h
      next =>
        obtain ⟨rfl, _⟩ := by simpa using h
        exact Wire.length_readRequest hread
      next =>
        obtain ⟨rfl, _⟩ := by simpa using h
        contradiction
    next =>
      obtain ⟨rfl, _⟩ := by simpa using h
      contradiction

/-- Serves a connection until it ends. -/
def serve (connection : Connection) (cache : CacheInstance) : Connection × CacheInstance :=
  match _h : connection.serveNext cache with
  | (after, cache) => if _hopen : after.isOpen then serve after cache else (after, cache)
termination_by connection.incoming.flatten.length
decreasing_by exact length_serveNext _h _hopen

end Connection

end ElasticCache
