import ElasticCache.Proofs.Fleet.Books

/-!
# Runs of a fleet

A fleet is opened without instances. Instances join and leave, rounds are run, and the fleet is shut
down, in any order and with whatever the instances answer; between two of these the instances may do
anything. The books are right after each of them.
-/

namespace ElasticCache

namespace Scene

variable {ω η : Type}

/-! ## Pushing -/

section Pushing

variable {peers : Peers ω η} {first scene : Recorded ω η} {assigned : List Nat}

/-- What a push does: an instance that is not in the market is passed over, one that accepts keeps
its place, and one that does not is dropped. -/
theorem pushTo_cases (peers : Peers ω η) (scene : Recorded ω η) (uid : Nat) (peer : η) :
    let after := pushTo peers.recorded scene (uid, uid, peer)
    (scene.fleet.market.account? uid = none ∧ after = scene) ∨
      ∃ account, scene.fleet.market.account? uid = some account ∧
        after.fleet.config = scene.fleet.config ∧ after.fleet.nextUid = scene.fleet.nextUid ∧
        ((after.contacts = .pushed uid account.size true :: scene.contacts ∧
            after.fleet.market = scene.fleet.market ∧ after.fleet.members = scene.fleet.members) ∨
          (after.contacts = .pushed uid account.size false :: scene.contacts ∧
            after.fleet.market = scene.fleet.market.remove uid ∧
            after.fleet.members = scene.fleet.members.erase uid)) := by
  cases hfind : scene.fleet.market.account? uid with
  | none =>
    left
    simp only [pushTo, hfind, and_self]
  | some account =>
    right
    refine ⟨account, rfl, ?_⟩
    cases hpush : peers.push peer account.size scene.world.1 with
    | mk response world =>
      cases response with
      | answered value =>
        simp only [pushTo, hfind, Peers.recorded, hpush, Response.outcome, Response.isAnswered]
        exact ⟨rfl, rfl, .inl ⟨rfl, rfl, rfl⟩⟩
      | failed error =>
        simp only [pushTo, hfind, Peers.recorded, hpush, Response.outcome, Response.isAnswered]
        exact ⟨rfl, rfl, .inr ⟨contacts_dropDead .., rfl, rfl⟩⟩
      | silent =>
        simp only [pushTo, hfind, Peers.recorded, hpush, Response.outcome, Response.isAnswered]
        exact ⟨rfl, rfl, .inr ⟨contacts_dropDead .., rfl, rfl⟩⟩

/-- The state of the books while allocations are pushed. Each push is on record, and as long as all
of them are accepted the allocations keep their sum. -/
structure Pushing (first scene : Recorded ω η) (assigned unserved : List Nat) : Prop where
  enrolled : scene.Enrolled assigned
  agrees : scene.Agrees unserved
  within : scene.WithinPool
  pool_eq : scene.fleet.poolSize = first.fleet.poolSize
  next_eq : scene.fleet.nextUid = first.fleet.nextUid
  pushes : ∃ pushes, scene.contacts = pushes ++ first.contacts ∧
    (∀ contact ∈ pushes, ∃ ticket size accepted, contact = .pushed ticket size accepted) ∧
    ((∀ ticket size, .pushed ticket size false ∉ pushes) →
      scene.fleet.market.total (·.size) = first.fleet.market.total (·.size))

/-- A push under the uid of an instance keeps everyone enrolled. -/
theorem Enrolled.send {scene' : Recorded ω η} {uid size : Nat} {accepted : Bool}
    (h : scene.Enrolled assigned) (huid : uid ∈ assigned)
    (hcontacts : scene'.contacts = .pushed uid size accepted :: scene.contacts)
    (hmarket : scene'.fleet.market = scene.fleet.market)
    (hmembers : scene'.fleet.members = scene.fleet.members)
    (hpool : scene'.fleet.poolSize = scene.fleet.poolSize) : scene'.Enrolled assigned := by
  constructor
  · rw [hmembers, hmarket]
    exact h.uids
  · rw [hmembers]
    exact h.tickets
  · intro ticket size' accepted' hmem
    rw [hcontacts] at hmem
    rcases List.mem_cons.1 hmem with heq | hmem
    · obtain ⟨rfl, _, _⟩ := Contact.pushed.inj heq
      exact huid
    · exact h.sent ticket size' accepted' hmem
  · rw [hmarket, hpool]
    exact h.pool

/-- A push serves one instance: with its allocation when it accepts, and not at all when it is not
in the market. The others are left to be served. -/
theorem Agrees.serve {scene' : Recorded ω η} {uid size : Nat} {accepted : Bool}
    {unserved : List Nat} (h : scene.Agrees (uid :: unserved)) (huid : uid ∉ unserved)
    (hcontacts : scene'.contacts = .pushed uid size accepted :: scene.contacts)
    (hmarket : ∀ other account, scene'.fleet.market.account? other = some account →
      scene.fleet.market.account? other = some account ∧
        (other = uid → accepted = true ∧ account.size = size)) : scene'.Agrees unserved := by
  intro other account hfind
  obtain ⟨hfind, hserved⟩ := hmarket other account hfind
  rw [hcontacts, lastAccepted]
  by_cases heq : other = uid
  · obtain ⟨rfl, rfl⟩ := hserved heq
    subst heq
    rw [if_pos ⟨rfl, rfl⟩, if_neg huid]
  · rw [if_neg fun hsame => heq hsame.1.symm, h other account hfind]
    simp only [List.mem_cons, heq, false_or]

/-- A push serves its instance, or drops it, and puts itself on record. -/
theorem Pushing.pushTo {uid : Nat} {peer : η} {unserved : List Nat}
    (h : Pushing first scene assigned (uid :: unserved)) (huid : uid ∉ unserved)
    (hassigned : uid ∈ assigned) :
    Pushing first (Scene.pushTo peers.recorded scene (uid, uid, peer)) assigned unserved := by
  obtain ⟨pushes, hcontacts, hpushes, htotal⟩ := h.pushes
  rcases pushTo_cases peers scene uid peer with
    ⟨hnone, heq⟩ | ⟨account, hfind, hconfig, hnext, hdone⟩
  · rw [heq]
    refine ⟨h.enrolled, ?_, h.within, h.pool_eq, h.next_eq, h.pushes⟩
    intro other account hfind
    have hne : other ≠ uid := by
      rintro rfl
      rw [hnone] at hfind
      cases hfind
    simpa only [List.mem_cons, hne, false_or] using h.agrees other account hfind
  · generalize Scene.pushTo peers.recorded scene (uid, uid, peer) = after at hconfig hnext hdone
    have hpool : after.fleet.poolSize = scene.fleet.poolSize := by rw [Fleet.poolSize, hconfig]; rfl
    have hrecord (accepted : Bool) : ∀ contact ∈ .pushed uid account.size accepted :: pushes,
        ∃ ticket size accepted, contact = .pushed ticket size accepted := by
      intro contact hmem
      rcases List.mem_cons.1 hmem with rfl | hmem
      · exact ⟨uid, account.size, accepted, rfl⟩
      · exact hpushes contact hmem
    rcases hdone with ⟨hsent, hmarket, hmembers⟩ | ⟨hsent, hmarket, hmembers⟩
    · refine ⟨h.enrolled.send hassigned hsent hmarket hmembers hpool, ?_, ?_,
        hpool.trans h.pool_eq, hnext.trans h.next_eq, .pushed uid account.size true :: pushes, ?_,
        hrecord true, ?_⟩
      · apply h.agrees.serve huid hsent
        intro other account' hfind'
        rw [hmarket] at hfind'
        refine ⟨hfind', ?_⟩
        rintro rfl
        obtain rfl := Option.some.inj (hfind.symm.trans hfind')
        exact ⟨rfl, rfl⟩
      · rw [WithinPool, hmarket, hpool]
        exact h.within
      · rw [hsent, hcontacts, List.cons_append]
      · intro hall
        rw [hmarket]
        exact htotal fun ticket size hmem => hall ticket size (List.mem_cons_of_mem _ hmem)
    · let sent : Recorded ω η := { scene with world := (after.world.1, after.contacts) }
      have henrolled : sent.Enrolled assigned := h.enrolled.send hassigned hsent rfl rfl rfl
      refine ⟨henrolled.erase hmembers hmarket rfl hpool, ?_, h.within.remove hmarket hpool,
        hpool.trans h.pool_eq, hnext.trans h.next_eq, .pushed uid account.size false :: pushes, ?_,
        hrecord false, ?_⟩
      · apply h.agrees.serve huid hsent
        intro other account' hfind'
        rw [hmarket, Market.account?_remove] at hfind'
        split at hfind'
        next => cases hfind'
        next hne => exact ⟨hfind', fun heq => absurd heq.symm hne⟩
      · rw [hsent, hcontacts, List.cons_append]
      · intro hall
        exact absurd List.mem_cons_self (hall uid account.size)

/-- Serving all instances whose allocations are to be pushed leaves nobody unserved. -/
theorem Pushing.foldl_pushTo {members : List (Nat × Nat × η)}
    (h : Pushing first scene assigned (members.map (·.1))) (hnodup : (members.map (·.1)).Nodup)
    (htickets : ∀ uid peer, (uid, peer) ∈ members → peer.1 = uid ∧ uid ∈ assigned) :
    Pushing first (members.foldl (Scene.pushTo peers.recorded) scene) assigned [] := by
  induction members generalizing scene with
  | nil => exact h
  | cons member rest ih =>
    obtain ⟨uid, ticket, peer⟩ := member
    obtain ⟨rfl, hassigned⟩ := htickets uid (ticket, peer) List.mem_cons_self
    obtain ⟨huid, hnodup⟩ := List.nodup_cons.1 hnodup
    exact ih (h.pushTo huid hassigned) hnodup fun uid peer hmem =>
      htickets uid peer (List.mem_cons_of_mem _ hmem)

end Pushing

/-! ## Rounds -/

section Rounds

variable {peers : Peers ω η} {scene scene' : Recorded ω η} {assigned : List Nat}

/-- The members have different uids. -/
theorem nodup_uids_members {α : Type} (members : Std.TreeMap Nat α) :
    (members.toList.map (·.1)).Nodup := by
  rw [Std.TreeMap.map_fst_toList_eq_keys]
  exact members.nodup_keys

/-- A round of the market keeps its configuration, and its allocations take the whole pool when
anyone is in it. -/
theorem Balanced.total_of_runWith {target : Account → Nat} {report : RoundReport} {market : Market}
    (h : scene.Balanced assigned)
    (hround : scene.fleet.market.runWith target = .ok (report, market)) :
    market.config = scene.fleet.market.config ∧
      market.total (·.size) ≤ scene.fleet.poolSize ∧
      (scene.fleet.market.accounts.isEmpty = false →
        market.total (·.size) = scene.fleet.poolSize) := by
  rcases Market.runWith_cases hround with ⟨hempty, rfl⟩ | ⟨_, hconfig, htotal⟩
  · exact ⟨rfl, h.within, fun hsome => by rw [hempty] at hsome; cases hsome⟩
  · rw [h.enrolled.pool] at htotal
    exact ⟨hconfig, Nat.le_of_eq htotal, fun _ => htotal⟩

/-- Who is not told its allocation has the size from before. -/
theorem last_eq_of_not_moved {fleet : Fleet η} {uid : Nat} {peer : η} {account : Account}
    (hpeer : fleet.members[uid]? = some peer) (hfind : fleet.market.account? uid = some account)
    (hstays : uid ∉ (moved fleet).map (·.1)) : account.last = account.size := by
  by_contra hne
  apply hstays
  refine List.mem_map.2 ⟨(uid, peer), List.mem_filter.2 ⟨?_, ?_⟩, rfl⟩
  · exact Std.TreeMap.mem_toList_iff_getElem?_eq_some.2 hpeer
  · simp only [Market.hasChanged, hfind, ne_eq, decide_not, Bool.not_eq_true',
      decide_eq_false_iff_not]
    exact fun heq => hne heq.symm

/-- After the market's round, the instances whose allocation moved are to be served. Who has the
size from before need not be told. -/
theorem Balanced.runWith {target : Account → Nat} {report : RoundReport} {market : Market}
    (h : scene.Balanced assigned)
    (hround : scene.fleet.market.runWith target = .ok (report, market)) :
    let after : Recorded ω η := { scene with fleet := { scene.fleet with market } }
    Pushing after after assigned ((moved after.fleet).map (·.1)) := by
  intro after
  obtain ⟨hconfig, hwithin, _⟩ := h.total_of_runWith hround
  have huids (uid : Nat) : uid ∈ after.fleet.members ↔ uid ∈ market.accounts :=
    (h.enrolled.uids uid).trans (Market.mem_accounts_of_runWith hround uid).symm
  have hpool : market.config.poolSize = after.fleet.poolSize := by
    rw [hconfig, h.enrolled.pool]
    rfl
  refine ⟨⟨huids, h.enrolled.tickets, h.enrolled.sent, hpool⟩, ?_, hwithin, rfl, rfl,
    [], rfl, nofun, fun _ => rfl⟩
  intro uid account hfind
  have hbefore : lastAccepted scene.contacts uid = account.last := by
    obtain ⟨before, hfind', hsame⟩ := Market.exists_account_of_runWith hround hfind
    rw [← hsame]
    exact h.agrees uid before hfind'
  refine hbefore.trans ?_
  split
  next => rfl
  next hstays =>
    have hmem : uid ∈ after.fleet.members := by
      rw [huids, Market.mem_accounts_iff]
      exact Option.isSome_of_mem hfind
    obtain ⟨peer, hpeer⟩ := Option.isSome_iff_exists.1 (Std.TreeMap.mem_iff_isSome_getElem?.1 hmem)
    exact last_eq_of_not_moved hpeer hfind hstays

/-- **A round.** It leaves the books right, and puts its requests on record. Once someone answered
its poll and every push was accepted, the allocations take the whole pool. -/
theorem Balanced.roundWith {target : Account → Nat} {elapsed : Duration} {report : RoundReport}
    (h : scene.Balanced assigned)
    (hround : scene.roundWith peers.recorded target elapsed = .ok (report, scene')) :
    scene'.Balanced assigned ∧ scene'.fleet.poolSize = scene.fleet.poolSize ∧
      scene'.fleet.nextUid = scene.fleet.nextUid ∧
      ∃ contacts, scene'.contacts = contacts ++ scene.contacts ∧
        ((∀ ticket size, .pushed ticket size false ∉ contacts) →
          (∃ ticket, .polled ticket true ∈ contacts) →
          scene'.fleet.market.total (·.size) = scene'.fleet.poolSize) := by
  obtain ⟨responses, world, polls, hpolls, hpolled, hpolledPool, hpolledNext, hpolledContacts,
    hpollShape, hsome⟩ := h.exists_polled peers
  simp only [Scene.roundWith, hpolls] at hround
  generalize responses.foldl (settlePoll peers.recorded) { scene with world } = polled at *
  obtain ⟨⟨report', market⟩, hmarket, hround⟩ := bind_eq_ok_iff.1 hround
  obtain ⟨_, _, hfull⟩ := hpolled.total_of_runWith hmarket
  let sold : Recorded ω η := { polled with fleet := { polled.fleet with market } }
  let served := (moved sold.fleet).foldl (pushTo peers.recorded) sold
  obtain ⟨rfl, rfl⟩ : report' = report ∧
      { served with fleet := conclude elapsed report' served.fleet } = scene' := by
    simpa only [pure, Except.pure, Except.ok.injEq, Prod.mk.injEq] using hround
  have hserved : Pushing sold served assigned [] := by
    apply (hpolled.runWith hmarket).foldl_pushTo
    · exact (nodup_uids_members sold.fleet.members).sublist (List.filter_sublist.map _)
    · intro uid peer hmem
      apply hpolled.enrolled.tickets uid peer
      exact Std.TreeMap.mem_toList_iff_getElem?_eq_some.1 (List.mem_of_mem_filter hmem)
  obtain ⟨pushes, hpushes, hpushShape, htotal⟩ := hserved.pushes
  have hbalanced : served.Balanced assigned := ⟨hserved.enrolled, hserved.agrees, hserved.within⟩
  have hpoolEq : served.fleet.poolSize = scene.fleet.poolSize := hserved.pool_eq.trans hpolledPool
  refine ⟨hbalanced.congr rfl rfl rfl rfl, hpoolEq, hserved.next_eq.trans hpolledNext,
    pushes ++ polls, ?_, ?_⟩
  · change served.contacts = _
    have hsold : sold.contacts = polled.contacts := rfl
    rw [hpushes, hsold, hpolledContacts, List.append_assoc]
  · rintro haccepted ⟨ticket, hanswered⟩
    have hpolled : .polled ticket true ∈ polls := by
      rcases List.mem_append.1 hanswered with hmem | hmem
      · obtain ⟨_, _, _, heq⟩ := hpushShape _ hmem
        cases heq
      · exact hmem
    have hsold := htotal fun ticket size hmem =>
      haccepted ticket size (List.mem_append_left _ hmem)
    have hpoolSize := hfull (hsome ⟨ticket, hpolled⟩)
    exact hsold.trans (hpoolSize.trans hserved.pool_eq.symm)

end Rounds

/-! ## Joining and leaving -/

section Membership

variable {peers : Peers ω η} {scene scene' : Recorded ω η} {assigned : List Nat}

/-- A request for nothing is turned away. Any other makes an instance join: it has the next uid, it
is a member, it has an account without an allocation, and its registration is published. -/
theorem register_cases {fleet : Fleet η} {requested : Nat} {peer : η}
    {outcome : Except Error (Registration × Fleet η)}
    (h : (fleet.register requested peer).run = .ok outcome) :
    (requested = 0 ∧ ∃ error, outcome = .error error) ∨
      requested ≠ 0 ∧ ∃ registration fleet' account, outcome = .ok (registration, fleet') ∧
        account.size = 0 ∧ registration.uid = fleet.nextUid ∧
        fleet'.nextUid = (fleet.nextUid + 1) % longLimit ∧ fleet'.config = fleet.config ∧
        fleet'.journal = fleet.journal.publish
          (.registered fleet.nextUid requested registration.maxSize) ∧
        fleet'.members = fleet.members.insert fleet.nextUid peer ∧
        fleet'.market = { fleet.market with
          accounts := fleet.market.accounts.insert fleet.nextUid account } := by
  unfold Fleet.register at h
  by_cases hzero : requested = 0
  · simp only [hzero, if_true] at h
    cases h
    exact .inl ⟨hzero, _, rfl⟩
  · simp only [hzero, if_false, Market.register] at h
    cases hnew : Account.new fleet.market.config.historySize (min requested fleet.poolSize) 0 with
    | error fault =>
      rw [hnew] at h
      cases h
    | ok account =>
      rw [hnew] at h
      cases h
      exact .inr ⟨hzero, _, _, account, rfl, (Account.size_of_new hnew).1, rfl, rfl, rfl, rfl, rfl,
        rfl⟩

/-- What an instance that joins is told, and what it changes. -/
theorem exists_account_of_register {fleet fleet' : Fleet η} {requested : Nat} {peer : η}
    {registration : Registration}
    (h : (fleet.register requested peer).run = .ok (.ok (registration, fleet'))) :
    ∃ account, account.size = 0 ∧ registration.uid = fleet.nextUid ∧
      fleet'.nextUid = (fleet.nextUid + 1) % longLimit ∧ fleet'.config = fleet.config ∧
      fleet'.journal = fleet.journal.publish
        (.registered fleet.nextUid requested registration.maxSize) ∧
      fleet'.members = fleet.members.insert fleet.nextUid peer ∧
      fleet'.market = { fleet.market with
        accounts := fleet.market.accounts.insert fleet.nextUid account } := by
  rcases register_cases h with ⟨_, _, heq⟩ | ⟨_, _, _, account, heq, hjoined⟩
  · cases heq
  · cases heq
    exact ⟨account, hjoined⟩

/-- An instance joins under a new uid, without an allocation. -/
theorem Balanced.register {requested : Nat} {peer : η} {registration : Registration}
    {fleet : Fleet (Nat × η)} (h : scene.Balanced assigned)
    (hfresh : scene.fleet.nextUid ∉ assigned)
    (hregister : (scene.fleet.register requested (scene.fleet.nextUid, peer)).run =
      .ok (.ok (registration, fleet))) :
    ({ scene with fleet } : Recorded ω η).Balanced (registration.uid :: assigned) := by
  obtain ⟨account, hzero, huid, _, hconfig, _, hmembers, hmarket⟩ :=
    exists_account_of_register hregister
  have hpool : fleet.poolSize = scene.fleet.poolSize := by
    rw [Fleet.poolSize, hconfig]
    rfl
  rw [huid]
  refine ⟨⟨?_, ?_, ?_, ?_⟩, ?_, ?_⟩
  · intro uid
    dsimp only
    rw [hmembers, hmarket, Std.TreeMap.mem_insert, Std.TreeMap.mem_insert, h.enrolled.uids]
  · intro uid member hfind
    dsimp only at hfind
    rw [hmembers, Std.TreeMap.getElem?_insert] at hfind
    split at hfind
    next heq =>
      obtain rfl := Nat.compare_eq_eq.1 heq
      obtain rfl := Option.some.inj hfind
      exact ⟨rfl, List.mem_cons_self⟩
    next =>
      obtain ⟨hticket, hassigned⟩ := h.enrolled.tickets uid member hfind
      exact ⟨hticket, List.mem_cons_of_mem _ hassigned⟩
  · intro ticket size accepted hmem
    exact List.mem_cons_of_mem _ (h.enrolled.sent ticket size accepted hmem)
  · dsimp only
    rw [hmarket, hpool]
    exact h.enrolled.pool
  · intro uid account' hfind
    dsimp only at hfind
    rw [hmarket, Market.account?, Std.TreeMap.getElem?_insert] at hfind
    split at hfind
    next heq =>
      obtain rfl := Nat.compare_eq_eq.1 heq
      obtain rfl := Option.some.inj hfind
      rw [if_neg List.not_mem_nil, hzero]
      apply lastAccepted_eq_zero
      intro size accepted hmem
      exact hfresh (h.enrolled.sent _ size accepted hmem)
    next => exact h.agrees uid account' hfind
  · have htotal : fleet.market.total (·.size) ≤
        account.size + scene.fleet.market.total (·.size) := by
      rw [hmarket]
      exact Market.total_insert_le scene.fleet.market scene.fleet.nextUid account
    rw [hzero, Nat.zero_add] at htotal
    rw [WithinPool, hpool]
    exact htotal.trans h.within

/-- Taking an instance out keeps the configuration and the next uid. -/
theorem remove_eq (fleet : Fleet η) (uid : Nat) :
    (fleet.remove uid).2.members = fleet.members.erase uid ∧
      (fleet.remove uid).2.market = fleet.market.remove uid ∧
      (fleet.remove uid).2.config = fleet.config ∧
      (fleet.remove uid).2.nextUid = fleet.nextUid := by
  unfold Fleet.remove
  dsimp only
  split <;> exact ⟨rfl, rfl, rfl, rfl⟩

/-- Asking everyone to stop leaves the record as it is. -/
theorem contacts_shutdown (peers : Peers ω η) (scene : Recorded ω η) :
    (scene.shutdown peers.recorded).contacts = scene.contacts := by
  have hstop (members : List (Nat × Nat × η)) (world : ω × List Contact) :
      (members.foldl (fun world member => peers.recorded.stop member.2 world) world).2 =
        world.2 := by
    induction members generalizing world with
    | nil => rfl
    | cons member rest ih => exact ih _
  exact hstop _ _

/-- A shutdown takes every member out of the market. -/
theorem account?_shutdown (peers : Peers ω η) {scene : Scene ω η}
    (huids : ∀ uid, uid ∈ scene.fleet.members ↔ uid ∈ scene.fleet.market.accounts) (uid : Nat) :
    (scene.shutdown peers).fleet.market.account? uid = none := by
  refine (Market.account?_foldl_remove _ _ uid).trans ?_
  simp only [Std.TreeMap.mem_keys, huids]
  split
  next => rfl
  next hnot => exact Std.TreeMap.getElem?_eq_none hnot

/-- After a shutdown nobody is left. -/
theorem Balanced.shutdown (h : scene.Balanced assigned) :
    (scene.shutdown peers.recorded).Balanced assigned := by
  have hnone := account?_shutdown peers.recorded h.enrolled.uids
  refine ⟨⟨?_, ?_, ?_, ?_⟩, ?_, ?_⟩
  · intro uid
    rw [Market.mem_accounts_iff, hnone]
    exact ⟨nofun, nofun⟩
  · intro uid peer hfind
    cases hfind
  · rw [contacts_shutdown]
    exact h.enrolled.sent
  · exact (congrArg MarketConfig.poolSize (Market.config_foldl_remove _ _)).trans h.enrolled.pool
  · intro uid account hfind
    rw [hnone uid] at hfind
    cases hfind
  · refine Nat.le_trans (Market.total_le_of_forall ?_) h.within
    intro uid account hfind
    rw [hnone uid] at hfind
    cases hfind

end Membership

/-! ## Runs -/

/-- What a fleet and its instances can come to, with the uids assigned so far, the latest first. -/
inductive Run (peers : Peers ω η) (config : FleetConfig) : List Nat → Recorded ω η → Prop
  | opened (world : ω) (journal : Journal) (metrics : Metrics) :
    Run peers config []
      ⟨{ config, market := .new config.market, journal, metrics }, world, []⟩
  | registered {assigned : List Nat} {scene : Recorded ω η} {requested : Nat} {peer : η}
      {registration : Registration} {fleet : Fleet (Nat × η)}
      (run : Run peers config assigned scene)
      (register : (scene.fleet.register requested (scene.fleet.nextUid, peer)).run =
        .ok (.ok (registration, fleet))) :
    Run peers config (registration.uid :: assigned) { scene with fleet }
  | removed {assigned : List Nat} {scene : Recorded ω η} (uid : Nat)
      (run : Run peers config assigned scene) :
    Run peers config assigned { scene with fleet := (scene.fleet.remove uid).2 }
  | rounded {assigned : List Nat} {scene scene' : Recorded ω η} {target : Account → Nat}
      {elapsed : Duration} {report : RoundReport} (run : Run peers config assigned scene)
      (round : scene.roundWith peers.recorded target elapsed = .ok (report, scene')) :
    Run peers config assigned scene'
  | shutDown {assigned : List Nat} {scene : Recorded ω η} (run : Run peers config assigned scene) :
    Run peers config assigned (scene.shutdown peers.recorded)
  | drifted {assigned : List Nat} {scene : Recorded ω η} (world : ω)
      (run : Run peers config assigned scene) :
    Run peers config assigned { scene with world := (world, scene.contacts) }

/-- Uids are assigned in order, from one on. -/
structure Numbered (scene : Recorded ω η) (assigned : List Nat) : Prop where
  next : scene.fleet.nextUid = (assigned.length + 1) % longLimit
  le_length : ∀ uid ∈ assigned, uid ≤ assigned.length
  nodup : assigned.Nodup

namespace Run

variable {peers : Peers ω η} {config : FleetConfig} {assigned : List Nat}
  {scene scene' : Recorded ω η}

/-- A fleet that was opened is at the start of a run. -/
theorem of_new {fleet : Fleet (Nat × η)} (world : ω)
    (h : (Fleet.new config : ExceptT Error (Except Fault) (Fleet (Nat × η))).run =
      .ok (.ok fleet)) : Run peers fleet.config [] ⟨fleet, world, []⟩ := by
  rw [Fleet.new, ExceptT.run_bind] at h
  obtain ⟨outcome, _, h⟩ := bind_eq_ok_iff.1 h
  cases outcome with
  | error error => cases h
  | ok normalized =>
    cases h
    exact .opened world {} _

/-- What holds after every operation of a run, as long as the uids suffice. -/
theorem sound (run : Run peers config assigned scene) (hfew : assigned.length < longLimit) :
    scene.Balanced assigned ∧ scene.fleet.poolSize = config.market.poolSize ∧
      scene.Numbered assigned := by
  induction run with
  | opened world journal metrics =>
    refine ⟨⟨⟨fun uid => ⟨nofun, nofun⟩, nofun, nofun, rfl⟩, nofun, Nat.zero_le _⟩, rfl, ?_, nofun,
      List.nodup_nil⟩
    rfl
  | @registered assigned scene requested peer registration fleet run register ih =>
    rw [List.length_cons] at hfew
    obtain ⟨hbalanced, hpool, hnumbered⟩ := ih (Nat.lt_of_succ_lt hfew)
    obtain ⟨_, _, huid, hnext, hconfig, _⟩ := exists_account_of_register register
    have huid' : scene.fleet.nextUid = assigned.length + 1 := by
      rw [hnumbered.next, Nat.mod_eq_of_lt hfew]
    have hfresh : scene.fleet.nextUid ∉ assigned := by
      intro hmem
      have := hnumbered.le_length _ hmem
      omega
    refine ⟨hbalanced.register hfresh register, ?_, ?_, ?_, ?_⟩
    · rw [← hpool, Fleet.poolSize, hconfig]
      rfl
    · rw [hnext, huid', List.length_cons]
    · intro uid hmem
      rw [List.length_cons]
      rcases List.mem_cons.1 hmem with rfl | hmem
      · omega
      · exact Nat.le_succ_of_le (hnumbered.le_length uid hmem)
    · rw [huid]
      exact List.nodup_cons.2 ⟨hfresh, hnumbered.nodup⟩
  | @removed assigned scene uid run ih =>
    obtain ⟨hbalanced, hpool, hnumbered⟩ := ih hfew
    obtain ⟨hmembers, hmarket, hconfig, hnext⟩ := remove_eq scene.fleet uid
    have hpool' : (scene.fleet.remove uid).2.poolSize = scene.fleet.poolSize := by
      rw [Fleet.poolSize, hconfig]
      rfl
    exact ⟨hbalanced.erase hmembers hmarket rfl hpool', hpool'.trans hpool,
      hnext.trans hnumbered.next, hnumbered.le_length, hnumbered.nodup⟩
  | @rounded assigned scene scene' target elapsed report run round ih =>
    obtain ⟨hbalanced, hpool, hnumbered⟩ := ih hfew
    obtain ⟨hbalanced', hpool', hnext, _⟩ := hbalanced.roundWith round
    exact ⟨hbalanced', hpool'.trans hpool, hnext.trans hnumbered.next, hnumbered.le_length,
      hnumbered.nodup⟩
  | @shutDown assigned scene run ih =>
    obtain ⟨hbalanced, hpool, hnumbered⟩ := ih hfew
    exact ⟨hbalanced.shutdown, hpool, hnumbered.next, hnumbered.le_length, hnumbered.nodup⟩
  | @drifted assigned scene world run ih =>
    obtain ⟨hbalanced, hpool, hnumbered⟩ := ih hfew
    exact ⟨hbalanced.congr rfl rfl rfl rfl, hpool, hnumbered.next, hnumbered.le_length,
      hnumbered.nodup⟩

/-- Some rounds and a shutdown continue a run. -/
theorem of_runRounds {rounds : Nat} (run : Run peers config assigned scene)
    (h : scene.runRounds peers.recorded rounds = .ok scene') :
    Run peers config assigned scene' := by
  induction rounds generalizing scene with
  | zero =>
    rw [← Except.ok.inj h]
    exact run.shutDown
  | succ rounds ih =>
    obtain ⟨⟨report, between⟩, hround, hrest⟩ := bind_eq_ok_iff.1 h
    exact ih (run.rounded hround) hrest

/-- **The books of a fleet.** After every operation of a run, whatever the instances answered: no
uid was assigned twice, the members are the instances of the market, each member runs with the last
size that it accepted under its own ticket, zero when there is none, and these sizes are within the
pool. After a round in which every push was accepted and some poll answered, they take all of it. -/
theorem books_agree (run : Run peers config assigned scene)
    (hfew : assigned.length < longLimit) :
    assigned.Nodup ∧
      (∀ uid, uid ∈ scene.fleet.members ↔ (scene.fleet.market.account? uid).isSome) ∧
      (∀ uid peer, scene.fleet.members[uid]? = some peer →
        peer.1 = uid ∧ scene.fleet.allocation? uid = some (lastAccepted scene.contacts peer.1)) ∧
      scene.fleet.market.total (·.size) ≤ config.market.poolSize ∧
      ∀ target elapsed report scene',
        scene.roundWith peers.recorded target elapsed = .ok (report, scene') →
        ∃ contacts, scene'.contacts = contacts ++ scene.contacts ∧
          ((∀ ticket size, .pushed ticket size false ∉ contacts) →
            (∃ ticket, .polled ticket true ∈ contacts) →
            scene'.fleet.market.total (·.size) = config.market.poolSize) := by
  obtain ⟨hbalanced, hpool, hnumbered⟩ := run.sound hfew
  have huids (uid : Nat) :
      uid ∈ scene.fleet.members ↔ (scene.fleet.market.account? uid).isSome := by
    rw [hbalanced.enrolled.uids, Market.mem_accounts_iff]
  refine ⟨hnumbered.nodup, huids, ?_, ?_, ?_⟩
  · intro uid peer hfind
    obtain ⟨hticket, _⟩ := hbalanced.enrolled.tickets uid peer hfind
    refine ⟨hticket, ?_⟩
    have hmem : uid ∈ scene.fleet.members := by
      rw [Std.TreeMap.mem_iff_isSome_getElem?, hfind]
      rfl
    obtain ⟨account, haccount⟩ := Option.isSome_iff_exists.1 ((huids uid).1 hmem)
    rw [Fleet.allocation?, haccount, hticket, hbalanced.agrees uid account haccount,
      if_neg List.not_mem_nil, Option.map_some]
  · rw [← hpool]
    exact hbalanced.within
  · intro target elapsed report scene' hround
    obtain ⟨_, hpool', _, contacts, hcontacts, hfull⟩ := hbalanced.roundWith hround
    refine ⟨contacts, hcontacts, ?_⟩
    rw [← hpool, ← hpool']
    exact hfull

/-- Instances that use 5 bytes and take every allocation. -/
def obedientPeers : Peers Unit Unit where
  poll _ world := (.answered { usage := 5 }, world)
  push _ _ world := (.answered (), world)
  stop _ world := world

/-- A fleet of 100 bytes that two instances joined, which asked for 30 bytes and for 20. -/
def pairScene : Recorded Unit Unit where
  fleet := {
    config := { market := { poolSize := 100, minSlabSize := 10, maxWallet := 100 } }
    market := {
      config := { poolSize := 100, minSlabSize := 10, maxWallet := 100 }
      accounts := (∅ : Std.TreeMap Nat Account).insertMany
        [(1, (⟨30, 0, 0, 0, ⟨[0], 10⟩, 0⟩ : Account)), (2, ⟨20, 0, 0, 0, ⟨[0], 10⟩, 0⟩)] }
    members := (∅ : Std.TreeMap Nat (Nat × Unit)).insertMany [(1, (1, ())), (2, (2, ()))]
    nextUid := 3
    journal := ⟨[⟨.epoch, .registered 1 30 30⟩, ⟨.epoch, .registered 2 20 20⟩], true, .epoch⟩
    metrics := { instances := 2 } }
  world := ((), [])

/-- A fleet after a request to join, the same fleet when it is refused. -/
def afterRegister (fleet : Fleet η) (requested : Nat) (peer : η) : Fleet η :=
  match (fleet.register requested peer).run with
  | .ok (.ok (_, fleet)) => fleet
  | _ => fleet

/-- The pair comes about by two instances that join. -/
theorem pairScene_run : Run obedientPeers pairScene.fleet.config [2, 1] pairScene := by
  let config := pairScene.fleet.config
  let opened : Recorded Unit Unit := ⟨{ config, market := .new config.market }, (), []⟩
  let single : Recorded Unit Unit := { opened with
    fleet := afterRegister opened.fleet 30 (1, ()) }
  have hopened : Run obedientPeers config [] opened := .opened () {} {}
  have hfirst : (opened.fleet.register 30 (opened.fleet.nextUid, ())).run =
      .ok (.ok (⟨1, 30⟩, single.fleet)) := rfl
  have hsecond : (single.fleet.register 20 (single.fleet.nextUid, ())).run =
      .ok (.ok (⟨2, 20⟩, pairScene.fleet)) := rfl
  exact (hopened.registered hfirst).registered hsecond

/-- Both want 40 bytes, more than they asked for, and the round gives the pool to them in halves,
as both of them were told. -/
theorem books_agree_of_pair :
    [2, 1].length < longLimit ∧ Run obedientPeers pairScene.fleet.config [2, 1] pairScene ∧
      ∃ scene', pairScene.roundWith obedientPeers.recorded (fun _ => 40) .zero =
          .ok (⟨2, 50, 0, 30, 20, 30⟩, scene') ∧
        scene'.contacts = [.pushed 2 50 true, .pushed 1 50 true, .polled 2 true, .polled 1 true] ∧
        scene'.fleet.market.total (·.size) = 100 ∧
        ∀ uid peer, scene'.fleet.members[uid]? = some peer →
          scene'.fleet.allocation? uid = some (lastAccepted scene'.contacts peer.1) := by
  have hfew : [2, 1].length < longLimit := by decide
  have hresult : (pairScene.roundWith obedientPeers.recorded (fun _ => 40) .zero).map
      (fun (report, scene) => (report, scene.contacts)) =
      .ok (⟨2, 50, 0, 30, 20, 30⟩,
        [.pushed 2 50 true, .pushed 1 50 true, .polled 2 true, .polled 1 true]) := by
    decide +kernel
  refine ⟨hfew, pairScene_run, ?_⟩
  cases hround : pairScene.roundWith obedientPeers.recorded (fun _ => 40) .zero with
  | error fault => rw [hround] at hresult; cases hresult
  | ok result =>
    obtain ⟨report, scene'⟩ := result
    rw [hround] at hresult
    obtain ⟨rfl, hcontacts⟩ := Prod.mk.inj (Except.ok.inj hresult)
    obtain ⟨_, _, _, _, hrounds⟩ := books_agree pairScene_run hfew
    obtain ⟨contacts, happend, hfull⟩ := hrounds _ _ _ _ hround
    obtain rfl : contacts = scene'.contacts := by
      rw [happend]
      exact (List.append_nil contacts).symm
    obtain ⟨_, _, hagree, _⟩ := books_agree (pairScene_run.rounded hround) hfew
    refine ⟨scene', rfl, hcontacts, hfull ?_ ?_, fun uid peer hfind => (hagree uid peer hfind).2⟩
    · intro ticket size hmem
      simp [hcontacts] at hmem
    · exact ⟨1, by simp [hcontacts]⟩

end Run

end Scene

end ElasticCache
