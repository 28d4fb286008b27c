import ElasticCache.Proofs.Instance
import ElasticCache.Proofs.Wire.Frames
import ElasticCache.Wire.Connection

/-!
# What clients see

Any number of clients send bytes to one instance, which performs their requests in some order, in
between changes of its ceiling and ends of its tick window. Every client is answered its requests in
their order and nothing else, and a read answers the last value that any client wrote before.
-/

namespace ElasticCache

open Wire (Incoming Reply)

/-! ## Histories -/

/-- The requests that were performed so far, each with its client, the latest first. -/
abbrev History := List (Nat × Request)

namespace History

/-- The changes made by the requests. -/
def changes (history : History) : List MapChange :=
  history.filterMap fun (_, request) =>
    match request with
    | .get _ => none
    | .set key value => some (.put key value)

/-- The values that the requests leave. -/
def held (history : History) : ByteArray → Option ByteArray := lastValue history.changes

/-- The reply to a request after the ones of a history: every write is stored, and a read answers
the last value that was written. -/
def replyTo (history : History) : Request → Reply
  | .get key => .value (history.held key)
  | .set _ _ => .stored true

/-- The requests of a client in their order. -/
def requestsOf (client : Nat) : History → List Request
  | [] => []
  | (other, request) :: older =>
    if other = client then requestsOf client older ++ [request] else requestsOf client older

/-- The replies to a client in their order. -/
def repliesOf (client : Nat) : History → List Reply
  | [] => []
  | (other, request) :: older =>
    if other = client then repliesOf client older ++ [replyTo older request]
    else repliesOf client older

/-- A reply is to a write exactly when its request is one. -/
theorem toWrite_repliesOf (client : Nat) (history : History) :
    (repliesOf client history).map Reply.toWrite =
      (requestsOf client history).map fun request => request matches .set .. := by
  induction history with
  | nil => rfl
  | cons performed older ih =>
    obtain ⟨other, request⟩ := performed
    simp only [repliesOf, requestsOf]
    split
    next =>
      rw [List.map_append, List.map_append, ih]
      cases request <;> rfl
    next => exact ih

section Cons

variable {history : History} {client other : Nat} {request : Request}

/-- A request of a client is its latest. -/
theorem requestsOf_cons_self : requestsOf client ((client, request) :: history) =
    history.requestsOf client ++ [request] := if_pos rfl

/-- A request of another client is none of its own. -/
theorem requestsOf_cons_of_ne (hne : other ≠ client) :
    requestsOf client ((other, request) :: history) = history.requestsOf client := if_neg hne

/-- The reply to a request of a client is its latest. -/
theorem repliesOf_cons_self : repliesOf client ((client, request) :: history) =
    history.repliesOf client ++ [history.replyTo request] := if_pos rfl

/-- The reply to another client is none of its own. -/
theorem repliesOf_cons_of_ne (hne : other ≠ client) :
    repliesOf client ((other, request) :: history) = history.repliesOf client := if_neg hne

end Cons

/-- What is held after a write is its value at its key. -/
theorem held_cons_set (history : History) (client : Nat) (key value : ByteArray) :
    held ((client, .set key value) :: history) =
      Function.update history.held key (some value) := lastValue_put _ key value

end History

/-! ## Performing requests -/

namespace CacheInstance

variable {cache : CacheInstance} {config : InstanceConfig} {opened : Nat} {history : History}
  {request : Request}

/-- What is held can be framed. -/
def Framable (held : ByteArray → Option ByteArray) : Prop :=
  ∀ key value, held key = some value → value.size < wordLimit

/-- A value that fits a frame leaves all values so. -/
theorem Framable.set {held : ByteArray → Option ByteArray} {key value : ByteArray}
    (h : Framable held) (hvalue : value.size < wordLimit) :
    Framable (Function.update held key (some value)) := by
  intro other found hfound
  rw [Function.update_apply] at hfound
  split at hfound
  next =>
    obtain rfl := Option.some.inj hfound
    exact hvalue
  next => exact h other found hfound

/-- A request within the limits is performed, and answered as the history tells. -/
theorem Serving.exists_perform (h : cache.Serving config opened history.held)
    (hframable : Framable history.held) (hconfig : config.store.Lossless)
    (hopened : opened < wordLimit) (haccepts : Wire.Accepts cache.frameLimits request)
    (client : Nat) :
    ∃ frame cache', cache.perform request = (.ok frame, cache') ∧
      Wire.encodeReply (history.replyTo request) = .ok frame ∧
      cache'.Serving config (opened + RamTier.opens cache.store.ram cache'.store.ram)
        (History.held ((client, request) :: history)) ∧
      Framable (History.held ((client, request) :: history)) := by
  cases request with
  | get key =>
    obtain ⟨cache', hget, hserving⟩ := h.exists_get hopened key
    obtain ⟨frame, hframe⟩ := Wire.exists_getReply (hframable key)
    refine ⟨frame, cache', ?_, hframe, hserving, hframable⟩
    simp only [perform, hget, hframe]
  | set key value =>
    unfold frameLimits at haccepts
    rw [h.config_eq] at haccepts
    obtain ⟨tier, cache', hset, hserving⟩ :=
      h.exists_set hconfig hopened haccepts.1 haccepts.2
    have hvalue : value.size < wordLimit := by
      have hlimit := hconfig.maxValueSize_lt
      have hmark : tombstoneMark < wordLimit := by decide
      have hsize := haccepts.2
      dsimp only at hsize
      omega
    rw [History.held_cons_set]
    refine ⟨Wire.setReply true, cache', ?_, rfl, hserving, hframable.set hvalue⟩
    simp only [perform, hset]
    rfl

end CacheInstance

/-! ## Runs -/

/-- What an instance and the connections of its clients can come to, with the slabs opened and the
requests performed on the way. Each client sends a stream of bytes. -/
inductive ServiceRun (config : InstanceConfig) (streams : Nat → Incoming) :
    Nat → History → (Nat → Connection) → CacheInstance → Prop
  | opened {cache : CacheInstance}
      (opens : (CacheInstance.openIn config .empty).run = .ok (.ok cache)) :
    ServiceRun config streams 0 [] (fun client => { incoming := streams client }) cache
  | served {opened : Nat} {history : History} {connections : Nat → Connection}
      {cache cache' : CacheInstance} {client : Nat} {request : Request} {rest : Incoming}
      {connection : Connection} (run : ServiceRun config streams opened history connections cache)
      (isOpen : (connections client).isOpen)
      (read : Wire.readRequest cache.frameLimits (connections client).incoming =
        .ok (some request, rest))
      (serve : (connections client).serveNext cache = (connection, cache')) :
    ServiceRun config streams (opened + RamTier.opens cache.store.ram cache'.store.ram)
      ((client, request) :: history) (Function.update connections client connection) cache'
  | ended {opened : Nat} {history : History} {connections : Nat → Connection}
      {cache cache' : CacheInstance} {client : Nat} {connection : Connection}
      (run : ServiceRun config streams opened history connections cache)
      (isOpen : (connections client).isOpen)
      (noRequest : ∀ request rest,
        Wire.readRequest cache.frameLimits (connections client).incoming ≠ .ok (some request, rest))
      (serve : (connections client).serveNext cache = (connection, cache')) :
    ServiceRun config streams (opened + RamTier.opens cache.store.ram cache'.store.ram) history
      (Function.update connections client connection) cache'
  | resized {opened : Nat} {history : History} {connections : Nat → Connection}
      {cache : CacheInstance} (bytes : Nat)
      (run : ServiceRun config streams opened history connections cache) :
    ServiceRun config streams
      (opened + RamTier.opens cache.store.ram (cache.after (CacheInstance.resize bytes)).store.ram)
      history connections (cache.after (CacheInstance.resize bytes))
  | ticked {opened : Nat} {history : History} {connections : Nat → Connection}
      {cache cache' : CacheInstance} {report : TickReport} {traffic : TierTraffic}
      (run : ServiceRun config streams opened history connections cache)
      (tick : cache.tick = .ok (report, traffic, cache')) :
    ServiceRun config streams (opened + RamTier.opens cache.store.ram cache'.store.ram) history
      connections cache'

/-- What holds of an instance and its clients. The requests that a client sent are those performed
and, until its connection is closed, those still to be read. -/
structure InService (config : InstanceConfig) (streams : Nat → Incoming) (opened : Nat)
    (history : History) (connections : Nat → Connection) (cache : CacheInstance) : Prop where
  serving : cache.Serving config opened history.held
  framable : CacheInstance.Framable history.held
  answered : ∀ client, Wire.encodeReplies (history.repliesOf client) =
    .ok (connections client).answered
  sent : ∀ client, (Wire.readRequests cache.frameLimits (streams client)).1 =
    history.requestsOf client ++
      if (connections client).isOpen then
        (Wire.readRequests cache.frameLimits (connections client).incoming).1
      else []

section Service

variable {config : InstanceConfig} {streams : Nat → Incoming} {opened opened' : Nat}
  {history : History} {connections : Nat → Connection} {cache cache' : CacheInstance}

/-- The limits of frames are those of the store. -/
theorem CacheInstance.Serving.frameLimits_eq {held : ByteArray → Option ByteArray}
    (h : cache.Serving config opened held) :
    cache.frameLimits = ⟨config.store.maxKeySize, config.store.maxValueSize⟩ := by
  rw [frameLimits, h.config_eq]

/-- What a request does to a connection: it is performed and answered. What is still to be read
stays what it was, since no request moves the limits of frames. -/
theorem InService.exists_served (h : InService config streams opened history connections cache)
    (hconfig : config.store.Lossless) (hopened : opened < wordLimit) {client : Nat}
    {request : Request} {rest : Incoming}
    (hread : Wire.readRequest cache.frameLimits (connections client).incoming =
      .ok (some request, rest)) (hopen : (connections client).isOpen) :
    ∃ frame cache', Wire.encodeReply (history.replyTo request) = .ok frame ∧
      (connections client).serveNext cache = ({ connections client with
        incoming := rest
        answered := (connections client).answered ++ frame }, cache') ∧
      InService config streams (opened + RamTier.opens cache.store.ram cache'.store.ram)
        ((client, request) :: history)
        (Function.update connections client { connections client with
          incoming := rest
          answered := (connections client).answered ++ frame }) cache' := by
  obtain ⟨frame, cache', hperform, hframe, hserving, hframable⟩ :=
    h.serving.exists_perform h.framable hconfig hopened (Wire.accepts_of_readRequest hread) client
  have hlimits : cache'.frameLimits = cache.frameLimits :=
    hserving.frameLimits_eq.trans h.serving.frameLimits_eq.symm
  refine ⟨frame, cache', hframe, ?_, hserving, hframable, ?_, ?_⟩
  · simp only [Connection.serveNext, h.serving.running, Bool.false_eq_true, if_false, hread,
      hperform]
  · intro other
    obtain rfl | hne := eq_or_ne other client
    · rw [Function.update_self, History.repliesOf_cons_self]
      exact Wire.encodeReplies_snoc (h.answered other) hframe
    · rw [Function.update_of_ne hne, History.repliesOf_cons_of_ne hne.symm]
      exact h.answered other
  · intro other
    rw [hlimits, h.sent other]
    obtain rfl | hne := eq_or_ne other client
    · rw [Function.update_self, History.requestsOf_cons_self, if_pos hopen, if_pos hopen,
        Wire.readRequests_of_some hread, List.append_assoc, List.singleton_append]
    · rw [Function.update_of_ne hne, History.requestsOf_cons_of_ne hne.symm]

/-- What is not a request ends its connection and does nothing else. -/
theorem InService.serveNext_of_noRequest
    (h : InService config streams opened history connections cache) {client : Nat}
    (hnone : ∀ request rest, Wire.readRequest cache.frameLimits (connections client).incoming ≠
      .ok (some request, rest)) :
    (connections client).serveNext cache =
      ({ connections client with isOpen := false }, cache) := by
  simp only [Connection.serveNext, h.serving.running, Bool.false_eq_true, if_false]

/-- An end of a connection leaves the others as they are. -/
theorem InService.ended (h : InService config streams opened history connections cache)
    {client : Nat} (hopen : (connections client).isOpen)
    (hnone : ∀ request rest, Wire.readRequest cache.frameLimits (connections client).incoming ≠
      .ok (some request, rest)) :
    InService config streams opened history
      (Function.update connections client { connections client with isOpen := false }) cache := by
  refine ⟨h.serving, h.framable, ?_, ?_⟩
  · intro other
    obtain rfl | hne := eq_or_ne other client
    · rw [Function.update_self]
      exact h.answered other
    · rw [Function.update_of_ne hne]
      exact h.answered other
  · intro other
    rw [h.sent other]
    obtain rfl | hne := eq_or_ne other client
    · rw [Function.update_self, if_pos hopen, Wire.readRequests_of_none hnone, if_neg]
      exact Bool.false_ne_true
    · rw [Function.update_of_ne hne]

/-- What only the instance does leaves the connections as they are. -/
theorem InService.of_serving (h : InService config streams opened history connections cache)
    (hserving : cache'.Serving config opened' history.held) :
    InService config streams opened' history connections cache' := by
  refine ⟨hserving, h.framable, h.answered, ?_⟩
  rw [hserving.frameLimits_eq, ← h.serving.frameLimits_eq]
  exact h.sent

namespace ServiceRun

/-- What holds after every step of a run, as long as the numbers of slabs do not wrap around. -/
theorem inService (run : ServiceRun config streams opened history connections cache)
    (hconfig : config.store.Lossless) (hopened : opened < wordLimit) :
    InService config streams opened history connections cache := by
  induction run with
  | opened opens =>
    refine ⟨CacheInstance.serving_of_openIn hconfig opens, nofun, fun _ => rfl, fun client => ?_⟩
    rw [if_pos rfl]
    rfl
  | served run isOpen read serve ih =>
    have hbefore := ih (by omega)
    obtain ⟨frame, cache₁, _, hserve, hservice⟩ :=
      hbefore.exists_served hconfig (by omega) read isOpen
    obtain ⟨rfl, rfl⟩ := Prod.mk.inj (serve.symm.trans hserve)
    exact hservice
  | ended run isOpen noRequest serve ih =>
    have hbefore := ih (by omega)
    obtain ⟨rfl, rfl⟩ :=
      Prod.mk.inj (serve.symm.trans (hbefore.serveNext_of_noRequest noRequest))
    rw [RamTier.opens_self]
    exact hbefore.ended isOpen noRequest
  | resized bytes run ih =>
    have hbefore := ih (by omega)
    exact hbefore.of_serving (hbefore.serving.resize bytes)
  | ticked run tick ih =>
    have hbefore := ih (by omega)
    exact hbefore.of_serving (hbefore.serving.tick tick)

/-- **What clients see.** After every step of a run that opened fewer slabs than a word can number,
a client was answered exactly its requests so far, in their order, and once its connection ended
these are all requests that its bytes start with. It reads that every write was stored, and of each
read the last value that was written before by any client, or none when there is none or it was
empty. The next request is performed and answered, and what is not a request changes nothing. -/
theorem answers_clients (run : ServiceRun config streams opened history connections cache)
    (hconfig : config.store.Lossless) (hopened : opened < wordLimit) (client : Nat) :
    let connection := connections client
    let requests := history.requestsOf client
    let replies := history.repliesOf client
    (∃ later, (Wire.readRequests cache.frameLimits (streams client)).1 = requests ++ later ∧
        (connection.isOpen = false → later = [])) ∧
      Wire.encodeReplies replies = .ok connection.answered ∧
      (∀ pieces : Incoming, pieces.flatten = connection.answered.data.toList →
        ∃ left, Wire.readReplies (requests.map fun request => request matches .set ..) pieces =
          (replies.map fun reply => .ok reply.asRead, left) ∧ left.flatten = []) ∧
      (∀ request rest, connection.isOpen →
        Wire.readRequest cache.frameLimits connection.incoming = .ok (some request, rest) →
        ∃ frame cache', Wire.encodeReply (history.replyTo request) = .ok frame ∧
          connection.serveNext cache = ({ connection with
            incoming := rest
            answered := connection.answered ++ frame }, cache')) ∧
      ((∀ request rest,
          Wire.readRequest cache.frameLimits connection.incoming ≠ .ok (some request, rest)) →
        connection.serveNext cache = ({ connection with isOpen := false }, cache)) := by
  intro connection requests replies
  have hservice := run.inService hconfig hopened
  refine ⟨?_, hservice.answered client, ?_, ?_, hservice.serveNext_of_noRequest⟩
  · refine ⟨_, hservice.sent client, fun hclosed => ?_⟩
    rw [if_neg]
    rw [hclosed]
    exact Bool.false_ne_true
  · intro pieces hflatten
    obtain ⟨framed, hbytes, hreads⟩ := Wire.readReplies_eq (hservice.answered client)
    obtain rfl : framed = (connections client).answered.data.toList := hbytes.symm
    rw [← History.toWrite_repliesOf]
    exact hreads pieces [] (by rw [hflatten, List.append_nil])
  · intro request rest hopen hread
    obtain ⟨frame, cache', hframe, hserve, _⟩ :=
      hservice.exists_served hconfig hopened hread hopen
    exact ⟨frame, cache', hframe, hserve⟩

/-- The bytes of a client that writes a value of one byte, in two pieces, of a client that reads it,
and of clients that send nothing. -/
def pairStreams : Nat → Incoming
  | 0 => [[115, 1, 0, 0], [0, 107, 1, 0, 0, 0, 118]]
  | 1 => [[103, 1, 0, 0, 0, 107]]
  | _ => []

/-- The second client reads what the first one wrote, though RAM was emptied in between. -/
theorem answers_clients_of_pair :
    let config : InstanceConfig := { store := { trackedKeys := 1 } }
    config.store.Lossless ∧ ∃ opened connections cache, opened < wordLimit ∧
      ServiceRun config pairStreams opened [(1, .get ⟨#[107]⟩), (0, .set ⟨#[107]⟩ ⟨#[118]⟩)]
        connections cache ∧
      ∃ left, Wire.readReplies [false] [(connections 1).answered.data.toList] =
        ([.ok (.value (some ⟨#[118]⟩))], left) := by
  intro config
  have hconfig : config.store.Lossless := ⟨by decide, by decide, by decide, rfl⟩
  obtain ⟨store, hstore⟩ :=
    TieredStore.exists_openIn config.store (by decide) (by decide +kernel)
  have hopens : (CacheInstance.openIn config .empty).run = .ok (.ok { config, store }) := by
    rw [CacheInstance.openIn, ExceptT.run_bind, hstore]
    rfl
  let cache : CacheInstance := { config, store }
  let sending (client : Nat) : Connection := { incoming := pairStreams client }
  have run : ServiceRun config pairStreams 0 [] sending cache := .opened hopens
  have hservice := run.inService hconfig (by decide)
  have hwrite : Wire.readRequest cache.frameLimits (sending 0).incoming =
      .ok (some (.set ⟨#[107]⟩ ⟨#[118]⟩), [[]]) := rfl
  obtain ⟨frame₁, cache₁, _, hserve₁, _⟩ := hservice.exists_served hconfig (by decide) hwrite rfl
  let cache₂ := cache₁.after (CacheInstance.resize 0)
  let written := Function.update sending 0 { incoming := [[]], answered := .empty ++ frame₁ }
  have run₂ : ServiceRun config pairStreams _ _ written cache₂ :=
    (run.served rfl hwrite hserve₁).resized 0
  have hfirst := RamTier.opens_le_one cache.store.ram cache₁.store.ram
  have hsecond := RamTier.opens_le_one cache₁.store.ram cache₂.store.ram
  have hfew : 0 + RamTier.opens cache.store.ram cache₁.store.ram +
      RamTier.opens cache₁.store.ram cache₂.store.ram < wordLimit := by
    rw [wordLimit]
    omega
  have hservice₂ := run₂.inService hconfig hfew
  have hread : Wire.readRequest cache₂.frameLimits (written 1).incoming =
      .ok (some (.get ⟨#[107]⟩), [[]]) := by
    rw [hservice₂.serving.frameLimits_eq]
    rfl
  obtain ⟨_, cache₃, _, hserve₃, _⟩ := hservice₂.exists_served hconfig hfew hread rfl
  have run₃ := run₂.served rfl hread hserve₃
  have hthird := RamTier.opens_le_one cache₂.store.ram cache₃.store.ram
  have hfew' : 0 + RamTier.opens cache.store.ram cache₁.store.ram +
      RamTier.opens cache₁.store.ram cache₂.store.ram +
      RamTier.opens cache₂.store.ram cache₃.store.ram < wordLimit := by
    rw [wordLimit]
    omega
  obtain ⟨_, _, hreads, _⟩ := run₃.answers_clients hconfig hfew' 1
  obtain ⟨left, hreplies, _⟩ := hreads [_] (List.append_nil _)
  exact ⟨hconfig, _, _, cache₃, hfew', run₃, left, hreplies⟩

end ServiceRun

end Service

end ElasticCache
