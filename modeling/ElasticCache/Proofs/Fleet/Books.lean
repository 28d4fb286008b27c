import ElasticCache.Proofs.Fleet.Contacts

/-!
# The books of a fleet

Whatever the instances answer, the members of a fleet are the instances of its market, and each of
them runs with the size that the market has for it: allocations are pushed when they move, and an
instance that does not take its allocation is dropped. So the instances never run with more than the
pool, and with all of it after a round in which every allocation was taken.
-/

namespace ElasticCache.Scene

variable {ω η : Type}

/-- The scenes of instances that are reached under tickets. -/
abbrev Recorded (ω η : Type) : Type := Scene (ω × List Contact) (Nat × η)

/-- The requests that were sent so far, the latest first. -/
def contacts (scene : Recorded ω η) : List Contact := scene.world.2

/-! ## The books -/

/-- The members are the instances of the market, and each is reached under its uid, one of those
assigned so far. No size was sent under another ticket. -/
structure Enrolled (scene : Recorded ω η) (assigned : List Nat) : Prop where
  uids : ∀ uid, uid ∈ scene.fleet.members ↔ uid ∈ scene.fleet.market.accounts
  tickets : ∀ uid peer, scene.fleet.members[uid]? = some peer → peer.1 = uid ∧ uid ∈ assigned
  sent : ∀ ticket size accepted, .pushed ticket size accepted ∈ scene.contacts → ticket ∈ assigned
  pool : scene.fleet.market.config.poolSize = scene.fleet.poolSize

/-- Every instance was last given its allocation, those still to be served the one from before the
round. -/
def Agrees (scene : Recorded ω η) (unserved : List Nat) : Prop :=
  ∀ uid account, scene.fleet.market.account? uid = some account →
    lastAccepted scene.contacts uid = if uid ∈ unserved then account.last else account.size

/-- The allocations together are within the pool. -/
def WithinPool (scene : Recorded ω η) : Prop :=
  scene.fleet.market.total (·.size) ≤ scene.fleet.poolSize

/-- The books after a whole operation: everyone is enrolled, everyone was last given its allocation,
and the allocations are within the pool. -/
structure Balanced (scene : Recorded ω η) (assigned : List Nat) : Prop where
  enrolled : scene.Enrolled assigned
  agrees : scene.Agrees []
  within : scene.WithinPool

/-- The books read the members, the market, the pool and the record. -/
theorem Balanced.congr {scene scene' : Recorded ω η} {assigned : List Nat}
    (h : scene.Balanced assigned) (hmembers : scene'.fleet.members = scene.fleet.members)
    (hmarket : scene'.fleet.market = scene.fleet.market)
    (hpool : scene'.fleet.poolSize = scene.fleet.poolSize)
    (hcontacts : scene'.contacts = scene.contacts) : scene'.Balanced assigned := by
  obtain ⟨⟨huids, htickets, hsent, hpoolSize⟩, hagrees, hwithin⟩ := h
  rw [← hmembers] at huids htickets
  rw [← hmarket] at huids hpoolSize
  rw [← hcontacts] at hsent
  rw [← hpool] at hpoolSize
  refine ⟨⟨huids, htickets, hsent, hpoolSize⟩, ?_, ?_⟩
  · rw [Agrees, hmarket, hcontacts]
    exact hagrees
  · rw [WithinPool, hmarket, hpool]
    exact hwithin

section Dropping

variable {peers : Peers ω η} {scene : Recorded ω η} {assigned unserved : List Nat}

/-- An instance that is dropped is asked to stop, which leaves the record as it is. -/
theorem contacts_dropDead (scene : Recorded ω η) (uid : Nat) (cause : Error) :
    (scene.dropDead peers.recorded uid cause).contacts = scene.contacts := by
  simp only [contacts, dropDead]
  split <;> rfl

/-- Taking an instance out of the members and of the market keeps the others enrolled. -/
theorem Enrolled.erase {scene' : Recorded ω η} {uid : Nat} (h : scene.Enrolled assigned)
    (hmembers : scene'.fleet.members = scene.fleet.members.erase uid)
    (hmarket : scene'.fleet.market = scene.fleet.market.remove uid)
    (hcontacts : scene'.contacts = scene.contacts)
    (hpool : scene'.fleet.poolSize = scene.fleet.poolSize) : scene'.Enrolled assigned := by
  constructor
  · intro other
    rw [hmembers, hmarket, Market.remove, Std.TreeMap.mem_erase, Std.TreeMap.mem_erase, h.uids]
  · intro other peer hfind
    rw [hmembers, Std.TreeMap.getElem?_erase] at hfind
    split at hfind
    · cases hfind
    · exact h.tickets other peer hfind
  · rw [hcontacts]
    exact h.sent
  · rw [hmarket, hpool]
    exact h.pool

/-- Without one instance, the others were last given their allocations still. -/
theorem Agrees.remove {scene' : Recorded ω η} {uid : Nat} (h : scene.Agrees unserved)
    (hmarket : scene'.fleet.market = scene.fleet.market.remove uid)
    (hcontacts : scene'.contacts = scene.contacts) : scene'.Agrees unserved := by
  intro other account hfind
  rw [hmarket, Market.account?_remove] at hfind
  split at hfind
  · cases hfind
  · rw [hcontacts]
    exact h other account hfind

/-- Without one instance, the allocations are within the pool still. -/
theorem WithinPool.remove {scene' : Recorded ω η} {uid : Nat} (h : scene.WithinPool)
    (hmarket : scene'.fleet.market = scene.fleet.market.remove uid)
    (hpool : scene'.fleet.poolSize = scene.fleet.poolSize) : scene'.WithinPool := by
  rw [WithinPool, hmarket, hpool]
  exact Nat.le_trans (Market.total_remove_le _ uid) h

/-- Taking out an instance without sending a size to anyone leaves the books right. -/
theorem Balanced.erase {scene' : Recorded ω η} {uid : Nat} (h : scene.Balanced assigned)
    (hmembers : scene'.fleet.members = scene.fleet.members.erase uid)
    (hmarket : scene'.fleet.market = scene.fleet.market.remove uid)
    (hcontacts : scene'.contacts = scene.contacts)
    (hpool : scene'.fleet.poolSize = scene.fleet.poolSize) : scene'.Balanced assigned :=
  ⟨h.enrolled.erase hmembers hmarket hcontacts hpool, h.agrees.remove hmarket hcontacts,
    h.within.remove hmarket hpool⟩

end Dropping

/-! ## Polling -/

section Polling

variable {peers : Peers ω η} {scene : Recorded ω η} {assigned : List Nat}

/-- The polls of some instances that are reached under their uids are put on record, each with
whether it was answered. -/
theorem exists_pollAll (peers : Peers ω η) (members : List (Nat × Nat × η))
    (htickets : ∀ member ∈ members, member.2.1 = member.1) (world : ω) (contacts : List Contact) :
    ∃ responses world', pollAll peers.recorded members (world, contacts) =
        (responses, world', (responses.map fun (uid, response) =>
          Contact.polled uid response.isAnswered).reverse ++ contacts) ∧
      responses.map (·.1) = members.map (·.1) := by
  induction members generalizing world contacts with
  | nil => exact ⟨[], world, rfl, rfl⟩
  | cons member rest ih =>
    obtain ⟨uid, ticket, peer⟩ := member
    obtain rfl : ticket = uid := htickets _ List.mem_cons_self
    let first := peers.poll peer world
    obtain ⟨responses, world', hrest, huids⟩ :=
      ih (fun member hmember => htickets member (List.mem_cons_of_mem _ hmember)) first.2
        (.polled ticket first.1.isAnswered :: contacts)
    refine ⟨(ticket, first.1) :: responses, world', ?_, ?_⟩
    · have hpoll : peers.recorded.poll (ticket, peer) (world, contacts) =
          (first.1, first.2, .polled ticket first.1.isAnswered :: contacts) := rfl
      simp only [pollAll, hpoll, hrest, List.map_cons, List.reverse_cons, List.append_assoc,
        List.cons_append, List.nil_append]
    · rw [List.map_cons, List.map_cons, huids]

/-- What the responses to the polls leave: the same record, and no instance with another size. -/
structure Settled (scene scene' : Recorded ω η) (assigned : List Nat) : Prop where
  balanced : scene'.Balanced assigned
  contacts_eq : scene'.contacts = scene.contacts
  pool_eq : scene'.fleet.poolSize = scene.fleet.poolSize
  next_eq : scene'.fleet.nextUid = scene.fleet.nextUid

/-- The response to one poll leaves the books balanced. A usage sample changes neither who is there
nor what anybody was given. -/
theorem Settled.settlePoll {first : Recorded ω η} (h : first.Settled scene assigned)
    (poll : Nat × Response UsageReport) :
    first.Settled (settlePoll peers.recorded scene poll) assigned := by
  obtain ⟨uid, response⟩ := poll
  unfold Scene.settlePoll
  dsimp only
  split
  next report _ =>
    have hsize := Market.size_account?_reportUsage scene.fleet.market uid report.usage
    obtain ⟨henrolled, hagrees, hwithin⟩ := h.balanced
    refine ⟨⟨⟨?_, henrolled.tickets, henrolled.sent, henrolled.pool⟩, ?_, ?_⟩, h.contacts_eq,
      h.pool_eq, h.next_eq⟩
    · intro other
      rw [henrolled.uids other]
      exact Std.TreeMap.mem_modify.symm
    · intro other account hfind
      obtain ⟨before, hfind', hsame⟩ := Market.exists_account_of_reportUsage hfind
      rw [if_neg List.not_mem_nil, ← hsame]
      exact hagrees other before hfind'
    · have htotal := Market.total_congr hsize
      exact (Nat.le_of_eq htotal).trans hwithin
  next cause _ =>
    have hcontacts : (scene.dropDead peers.recorded uid cause).contacts = scene.contacts :=
      contacts_dropDead scene uid cause
    exact ⟨h.balanced.erase rfl rfl hcontacts rfl, hcontacts.trans h.contacts_eq, h.pool_eq,
      h.next_eq⟩

/-- The responses to all polls leave the books settled. -/
theorem Settled.foldl_settlePoll {first : Recorded ω η} (h : first.Settled scene assigned)
    (responses : List (Nat × Response UsageReport)) :
    first.Settled (responses.foldl (Scene.settlePoll peers.recorded) scene) assigned := by
  induction responses generalizing scene with
  | nil => exact h
  | cons poll rest ih => exact ih (h.settlePoll poll)

/-- Only an instance that did not answer is dropped. -/
theorem mem_members_settlePoll {uid : Nat} (hmem : uid ∈ scene.fleet.members)
    (poll : Nat × Response UsageReport) (hanswered : poll.1 = uid → poll.2.isAnswered) :
    uid ∈ (settlePoll peers.recorded scene poll).fleet.members := by
  obtain ⟨other, response⟩ := poll
  cases response with
  | answered report => exact hmem
  | failed error =>
    refine Std.TreeMap.mem_erase.2 ⟨fun heq => ?_, hmem⟩
    cases hanswered (Nat.compare_eq_eq.1 heq)
  | silent =>
    refine Std.TreeMap.mem_erase.2 ⟨fun heq => ?_, hmem⟩
    cases hanswered (Nat.compare_eq_eq.1 heq)

/-- A member that answered its poll stays. -/
theorem mem_members_foldl_settlePoll {uid : Nat} {responses : List (Nat × Response UsageReport)}
    (hmem : uid ∈ scene.fleet.members)
    (hanswered : ∀ poll ∈ responses, poll.1 = uid → poll.2.isAnswered) :
    uid ∈ (responses.foldl (settlePoll peers.recorded) scene).fleet.members := by
  induction responses generalizing scene with
  | nil => exact hmem
  | cons poll rest ih =>
    apply ih (mem_members_settlePoll hmem poll (hanswered poll List.mem_cons_self))
    exact fun other hother => hanswered other (List.mem_cons_of_mem _ hother)

/-- **The polls of a round.** They leave the books right and are put on record, and the market keeps
an instance as soon as one answered. Each member is polled once, so that there is one response of it
that counts. -/
theorem Balanced.exists_polled (peers : Peers ω η) (h : scene.Balanced assigned) :
    ∃ responses world polls,
      pollAll peers.recorded scene.fleet.members.toList scene.world = (responses, world) ∧
      let after := responses.foldl (Scene.settlePoll peers.recorded) { scene with world }
      after.Balanced assigned ∧ after.fleet.poolSize = scene.fleet.poolSize ∧
        after.fleet.nextUid = scene.fleet.nextUid ∧ after.contacts = polls ++ scene.contacts ∧
        (∀ contact ∈ polls, ∃ ticket answered, contact = .polled ticket answered) ∧
        ((∃ ticket, .polled ticket true ∈ polls) →
          after.fleet.market.accounts.isEmpty = false) := by
  have htickets : ∀ member ∈ scene.fleet.members.toList, member.2.1 = member.1 := by
    intro member hmem
    rw [Std.TreeMap.mem_toList_iff_getElem?_eq_some] at hmem
    exact (h.enrolled.tickets _ _ hmem).1
  obtain ⟨responses, world, hpolls, huids⟩ :=
    exists_pollAll peers scene.fleet.members.toList htickets scene.world.1 scene.contacts
  let polls := (responses.map fun (uid, response) =>
    Contact.polled uid response.isAnswered).reverse
  have hshape : ∀ contact ∈ polls, ∃ ticket answered, contact = .polled ticket answered := by
    intro contact hmem
    obtain ⟨⟨uid, response⟩, _, rfl⟩ := List.mem_map.1 (List.mem_reverse.1 hmem)
    exact ⟨uid, response.isAnswered, rfl⟩
  let polled : Recorded ω η := { scene with world := (world, polls ++ scene.contacts) }
  have hpolled : polled.Balanced assigned := by
    refine ⟨⟨h.enrolled.uids, h.enrolled.tickets, ?_, h.enrolled.pool⟩, ?_, h.within⟩
    · intro ticket size accepted hmem
      rcases List.mem_append.1 hmem with hmem | hmem
      · obtain ⟨_, _, heq⟩ := hshape _ hmem
        cases heq
      · exact h.enrolled.sent ticket size accepted hmem
    · intro uid account hfind
      have hsame : lastAccepted polled.contacts uid = lastAccepted scene.contacts uid :=
        lastAccepted_polls polls scene.contacts uid hshape
      rw [hsame]
      exact h.agrees uid account hfind
  have hsettled : polled.Settled (responses.foldl (Scene.settlePoll peers.recorded) polled)
      assigned := Settled.foldl_settlePoll ⟨hpolled, rfl, rfl, rfl⟩ responses
  refine ⟨responses, _, polls, hpolls, hsettled.balanced, hsettled.pool_eq, hsettled.next_eq,
    hsettled.contacts_eq, hshape, ?_⟩
  rintro ⟨ticket, hmem⟩
  obtain ⟨⟨uid, response⟩, hresponse, heq⟩ := List.mem_map.1 (List.mem_reverse.1 hmem)
  obtain ⟨rfl, hanswered⟩ := Contact.polled.inj heq
  have hnodup : (responses.map (·.1)).Nodup := by
    rw [huids, Std.TreeMap.map_fst_toList_eq_keys]
    exact Std.TreeMap.nodup_keys
  have hmember : uid ∈ polled.fleet.members := by
    change uid ∈ scene.fleet.members
    rw [← Std.TreeMap.mem_keys, ← Std.TreeMap.map_fst_toList_eq_keys, ← huids]
    exact List.mem_map_of_mem hresponse
  have hkept : uid ∈ (responses.foldl (Scene.settlePoll peers.recorded) polled).fleet.members := by
    apply mem_members_foldl_settlePoll hmember
    intro poll hpoll hsame
    obtain rfl := List.inj_on_of_nodup_map hnodup hresponse hpoll hsame.symm
    exact hanswered
  rw [hsettled.balanced.enrolled.uids] at hkept
  exact Std.TreeMap.isEmpty_eq_false_of_contains hkept

end Polling

end ElasticCache.Scene
