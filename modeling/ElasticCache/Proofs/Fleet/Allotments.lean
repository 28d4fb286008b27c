import ElasticCache.Proofs.Fleet.FleetRuns

/-!
# Instances that heed their allocations

An instance heeds an allocation when it runs within it from the time it accepted it, whatever it
does besides. A fleet of such instances keeps each of them within the size that the market has for
it: an allocation that moved is pushed, one that did not is still heeded, and who does not accept is
dropped. Requests to others leave an instance as it is.
-/

namespace ElasticCache

variable {ω η : Type}

/-- What holds of an instance is left so by all requests but a new allocation for it. -/
structure Peers.Spares (peers : Peers ω η) (peer : η) (fact : ω → Prop) : Prop where
  poll : ∀ other world, fact world → fact (peers.poll other world).2
  stop : ∀ other world, fact world → fact (peers.stop other world)
  push : ∀ other size world, other ≠ peer → fact world → fact (peers.push other size world).2

/-- Instances run with a size until they accept another one. -/
structure Peers.Heeds (peers : Peers ω η) (runs : η → Nat → ω → Prop) : Prop where
  spares : ∀ peer size, peers.Spares peer (runs peer size)
  accepts : ∀ peer size given world, runs peer size world →
    (peers.push peer given world).1.isAnswered → runs peer given (peers.push peer given world).2

namespace Scene

/-! ## Requests to others -/

section Sparing

variable {peers : Peers ω η} {scene : Scene ω η} {peer : η} {fact : ω → Prop}

/-- All polls of a round leave an instance so. -/
theorem spares_pollAll (h : peers.Spares peer fact) (members : List (Nat × η)) {world : ω}
    (hfact : fact world) : fact (pollAll peers members world).2 := by
  induction members generalizing world with
  | nil => exact hfact
  | cons member rest ih => exact ih (h.poll member.2 world hfact)

/-- Dropping a member leaves an instance so, though that member is asked to stop. -/
theorem spares_dropDead (h : peers.Spares peer fact) (uid : Nat) (cause : Error)
    (hfact : fact scene.world) : fact (scene.dropDead peers uid cause).world := by
  unfold dropDead
  dsimp only
  split
  · exact h.stop _ _ hfact
  · exact hfact

/-- Settling the answer to a poll leaves an instance so. -/
theorem spares_settlePoll (h : peers.Spares peer fact) (poll : Nat × Response UsageReport)
    (hfact : fact scene.world) : fact (settlePoll peers scene poll).world := by
  unfold settlePoll
  dsimp only
  split
  · exact hfact
  · exact spares_dropDead h _ _ hfact

/-- Settling the answers to all polls leaves an instance so. -/
theorem spares_foldl_settlePoll (h : peers.Spares peer fact)
    (responses : List (Nat × Response UsageReport)) (hfact : fact scene.world) :
    fact (responses.foldl (settlePoll peers) scene).world := by
  induction responses generalizing scene with
  | nil => exact hfact
  | cons poll rest ih => exact ih (spares_settlePoll h poll hfact)

/-- Pushing an allocation to another instance leaves an instance so. -/
theorem spares_pushTo (h : peers.Spares peer fact) {member : Nat × η} (hne : member.2 ≠ peer)
    (hfact : fact scene.world) : fact (pushTo peers scene member).world := by
  obtain ⟨uid, other⟩ := member
  unfold pushTo
  dsimp only
  split
  next => exact hfact
  next account _ =>
    have hpushed := h.push other account.size scene.world hne hfact
    split
    next => exact hpushed
    next => exact spares_dropDead h _ _ hpushed

/-- Pushing allocations to others leaves an instance so. -/
theorem spares_foldl_pushTo (h : peers.Spares peer fact) {members : List (Nat × η)}
    (hne : ∀ member ∈ members, member.2 ≠ peer) (hfact : fact scene.world) :
    fact (members.foldl (pushTo peers) scene).world := by
  induction members generalizing scene with
  | nil => exact hfact
  | cons member rest ih =>
    apply ih
    · exact fun other hother => hne other (List.mem_cons_of_mem _ hother)
    · exact spares_pushTo h (hne member List.mem_cons_self) hfact

/-- The end of a fleet leaves an instance so, though all members are asked to stop. -/
theorem spares_shutdown (h : peers.Spares peer fact) (hfact : fact scene.world) :
    fact (scene.shutdown peers).world := by
  have hstops (members : List (Nat × η)) (world : ω) (hworld : fact world) :
      fact (members.foldl (fun world member => peers.stop member.2 world) world) := by
    induction members generalizing world with
    | nil => exact hworld
    | cons member rest ih => exact ih _ (h.stop member.2 world hworld)
  exact hstops _ _ hfact

end Sparing

/-- A push takes at most the instance that it is for out of the members. -/
theorem getElem?_members_pushTo (peers : Peers ω η) (scene : Scene ω η) {member : Nat × η}
    {uid : Nat} (hne : member.1 ≠ uid) :
    (pushTo peers scene member).fleet.members[uid]? = scene.fleet.members[uid]? := by
  obtain ⟨other, peer⟩ := member
  unfold pushTo
  dsimp only
  split
  next => rfl
  next =>
    split
    next => rfl
    next =>
      refine Std.TreeMap.getElem?_erase.trans (if_neg ?_)
      rwa [Nat.compare_eq_eq]

/-! ## Allotments -/

/-- The members are the instances of the market, different ones of those that joined so far. Each
runs with its allocation, those still to be served with the one from before the round, and the
allocations are within the pool. -/
structure Allotted (runs : η → Nat → ω → Prop) (pool : Nat) (scene : Scene ω η) (joined : List η)
    (unserved : List Nat) : Prop where
  uids : ∀ uid, uid ∈ scene.fleet.members ↔ uid ∈ scene.fleet.market.accounts
  joined : ∀ (uid : Nat) (peer : η), scene.fleet.members[uid]? = some peer → peer ∈ joined
  apart : ∀ (uid uid' : Nat) (peer : η), scene.fleet.members[uid]? = some peer →
    scene.fleet.members[uid']? = some peer → uid = uid'
  running : ∀ (uid : Nat) (peer : η) account, scene.fleet.members[uid]? = some peer →
    scene.fleet.market.account? uid = some account →
    runs peer (if uid ∈ unserved then account.last else account.size) scene.world
  pool_eq : scene.fleet.poolSize = pool
  market_eq : scene.fleet.market.config.poolSize = pool
  within : scene.fleet.market.total (·.size) ≤ pool

section Allotted

variable {peers : Peers ω η} {runs : η → Nat → ω → Prop} {scene scene' : Scene ω η}
  {joined : List η} {unserved : List Nat} {pool : Nat}

/-- A member has an account. -/
theorem Allotted.exists_account {uid : Nat} {peer : η}
    (h : Allotted runs pool scene joined unserved)
    (hpeer : scene.fleet.members[uid]? = some peer) :
    ∃ account, scene.fleet.market.account? uid = some account := by
  rw [← Option.isSome_iff_exists, ← Market.mem_accounts_iff, ← h.uids,
    Std.TreeMap.mem_iff_isSome_getElem?, hpeer]
  rfl

/-- The allotments read the members, the market, the pool and how the members run. -/
theorem Allotted.congr (h : Allotted runs pool scene joined unserved)
    (hmembers : scene'.fleet.members = scene.fleet.members)
    (hmarket : scene'.fleet.market = scene.fleet.market)
    (hpool : scene'.fleet.poolSize = scene.fleet.poolSize)
    (hworld : ∀ (uid : Nat) (peer : η) size, scene.fleet.members[uid]? = some peer →
      runs peer size scene.world → runs peer size scene'.world) :
    Allotted runs pool scene' joined unserved := by
  constructor
  · rw [hmembers, hmarket]
    exact h.uids
  · rw [hmembers]
    exact h.joined
  · rw [hmembers]
    exact h.apart
  · rw [hmembers, hmarket]
    intro uid peer account hpeer haccount
    exact hworld uid peer _ hpeer (h.running uid peer account hpeer haccount)
  · exact hpool.trans h.pool_eq
  · rw [hmarket]
    exact h.market_eq
  · rw [hmarket]
    exact h.within

/-- Whoever leaves, it need not be served, and the others run as they did. -/
theorem Allotted.erase {unserved' : List Nat} {uid : Nat}
    (h : Allotted runs pool scene joined unserved)
    (hunserved : ∀ other, other ≠ uid → (other ∈ unserved' ↔ other ∈ unserved))
    (hmembers : scene'.fleet.members = scene.fleet.members.erase uid)
    (hmarket : scene'.fleet.market = scene.fleet.market.remove uid)
    (hpool : scene'.fleet.poolSize = scene.fleet.poolSize)
    (hworld : ∀ (other : Nat) (peer : η) size, other ≠ uid →
      scene.fleet.members[other]? = some peer → runs peer size scene.world →
      runs peer size scene'.world) : Allotted runs pool scene' joined unserved' := by
  have hstays {other : Nat} {peer : η} (hpeer : scene'.fleet.members[other]? = some peer) :
      other ≠ uid ∧ scene.fleet.members[other]? = some peer := by
    rw [hmembers, Std.TreeMap.getElem?_erase] at hpeer
    split at hpeer
    next => cases hpeer
    next hne => exact ⟨fun heq => hne (Nat.compare_eq_eq.2 heq.symm), hpeer⟩
  constructor
  · intro other
    rw [hmembers, hmarket, Market.remove, Std.TreeMap.mem_erase, Std.TreeMap.mem_erase, h.uids]
  · exact fun other peer hpeer => h.joined other peer (hstays hpeer).2
  · exact fun other other' peer hpeer hpeer' =>
      h.apart other other' peer (hstays hpeer).2 (hstays hpeer').2
  · intro other peer account hpeer haccount
    obtain ⟨hne, hpeer⟩ := hstays hpeer
    rw [hmarket, Market.account?_remove, if_neg hne.symm] at haccount
    have hruns := h.running other peer account hpeer haccount
    simp only [← hunserved other hne] at hruns
    exact hworld other peer _ hne hpeer hruns
  · exact hpool.trans h.pool_eq
  · rw [hmarket]
    exact h.market_eq
  · rw [hmarket]
    exact (Market.total_remove_le _ uid).trans h.within

/-- Without a member that is dropped, the others run with their allocations still. -/
theorem Allotted.dropDead (h : Allotted runs pool scene joined unserved) (hheeds : peers.Heeds runs)
    (uid : Nat) (cause : Error) :
    Allotted runs pool (scene.dropDead peers uid cause) joined unserved := by
  apply h.erase (fun _ _ => Iff.rfl : ∀ other, other ≠ uid → _)
  · rfl
  · rfl
  · rfl
  · exact fun _ peer size _ _ hruns => spares_dropDead (hheeds.spares peer size) uid cause hruns

/-- The answer to a poll changes no allocation, or drops the member. -/
theorem Allotted.settlePoll (h : Allotted runs pool scene joined []) (hheeds : peers.Heeds runs)
    (poll : Nat × Response UsageReport) :
    Allotted runs pool (settlePoll peers scene poll) joined [] := by
  obtain ⟨uid, response⟩ := poll
  unfold Scene.settlePoll
  dsimp only
  split
  next report _ =>
    have hsize := Market.size_account?_reportUsage scene.fleet.market uid report.usage
    constructor
    · intro other
      rw [h.uids other]
      exact Std.TreeMap.mem_modify.symm
    · exact h.joined
    · exact h.apart
    · intro other peer account hpeer haccount
      obtain ⟨before, hbefore, hsame⟩ := Market.exists_account_of_reportUsage haccount
      have hruns := h.running other peer before hpeer hbefore
      rw [if_neg List.not_mem_nil] at hruns ⊢
      rwa [← hsame]
    · exact h.pool_eq
    · exact h.market_eq
    · exact (Nat.le_of_eq (Market.total_congr hsize)).trans h.within
  next cause _ => exact h.dropDead hheeds uid cause

/-- The polls of a round leave every instance that stays with its allocation. -/
theorem Allotted.poll (h : Allotted runs pool scene joined []) (hheeds : peers.Heeds runs)
    (responses : List (Nat × Response UsageReport)) :
    Allotted runs pool (responses.foldl (Scene.settlePoll peers) scene) joined [] := by
  induction responses generalizing scene with
  | nil => exact h
  | cons poll rest ih => exact ih (h.settlePoll hheeds poll)

/-- After the market's round, the instances whose allocation moved are to be served. They still run
with the sizes from before. -/
theorem Allotted.runWith {target : Account → Nat} {report : RoundReport} {market : Market}
    (h : Allotted runs pool scene joined [])
    (hround : scene.fleet.market.runWith target = .ok (report, market)) :
    let after : Scene ω η := { scene with fleet := { scene.fleet with market } }
    Allotted runs pool after joined ((moved after.fleet).map (·.1)) := by
  intro after
  have hwithin : market.config = scene.fleet.market.config ∧
      market.total (·.size) ≤ pool := by
    rcases Market.runWith_cases hround with ⟨_, rfl⟩ | ⟨_, hconfig, htotal⟩
    · exact ⟨rfl, h.within⟩
    · exact ⟨hconfig, Nat.le_of_eq (htotal.trans h.market_eq)⟩
  constructor
  · intro uid
    exact (h.uids uid).trans (Market.mem_accounts_of_runWith hround uid).symm
  · exact h.joined
  · exact h.apart
  · intro uid peer account hpeer haccount
    have hruns : runs peer account.last scene.world := by
      obtain ⟨before, hbefore, hsame⟩ := Market.exists_account_of_runWith hround haccount
      rw [← hsame]
      exact h.running uid peer before hpeer hbefore
    split
    next => exact hruns
    next hstays =>
      rw [last_eq_of_not_moved hpeer haccount hstays] at hruns
      exact hruns
  · exact h.pool_eq
  · exact (congrArg MarketConfig.poolSize hwithin.1).trans h.market_eq
  · exact hwithin.2

/-- A push serves its instance: this one runs with its allocation from then on, or is dropped. Every
other member is another instance, which the push leaves as it is. -/
theorem Allotted.pushTo {uid : Nat} {peer : η}
    (h : Allotted runs pool scene joined (uid :: unserved))
    (hheeds : peers.Heeds runs) (huid : uid ∉ unserved)
    (hpeer : scene.fleet.members[uid]? = some peer) :
    Allotted runs pool (pushTo peers scene (uid, peer)) joined unserved := by
  obtain ⟨account, haccount⟩ := h.exists_account hpeer
  obtain ⟨response, world, hpush⟩ : ∃ response world,
    peers.push peer account.size scene.world = (response, world) := ⟨_, _, rfl⟩
  have hothers (other : Nat) (peer' : η) (size : Nat) (hne : other ≠ uid)
      (hpeer' : scene.fleet.members[other]? = some peer') (hruns : runs peer' size scene.world) :
      runs peer' size world := by
    have hapart : peer ≠ peer' := by
      rintro rfl
      exact hne (h.apart other uid peer hpeer' hpeer)
    have hspared := (hheeds.spares peer' size).push peer account.size scene.world hapart hruns
    rwa [hpush] at hspared
  have hserved (other : Nat) (hne : other ≠ uid) : other ∈ unserved ↔ other ∈ uid :: unserved := by
    rw [List.mem_cons, or_iff_right hne]
  have hdropped (cause : Error) :
      Allotted runs pool (Scene.dropDead peers { scene with world } uid cause) joined unserved := by
    apply h.erase hserved
    · rfl
    · rfl
    · rfl
    · intro other peer' size hne hpeer' hruns
      exact spares_dropDead (hheeds.spares peer' size) uid cause
        (hothers other peer' size hne hpeer' hruns)
  cases response with
  | answered value =>
    have hafter : Scene.pushTo peers scene (uid, peer) = { scene with
        fleet := scene.fleet.publish (.reallocated uid account.last account.size account.usage)
        world } := by
      simp only [Scene.pushTo, haccount, hpush, Response.outcome]
    rw [hafter]
    constructor
    · exact h.uids
    · exact h.joined
    · exact h.apart
    · intro other peer' account' hpeer' haccount'
      have hruns := h.running other peer' account' hpeer' haccount'
      by_cases heq : other = uid
      · subst heq
        obtain rfl := Option.some.inj (hpeer.symm.trans hpeer')
        obtain rfl := Option.some.inj (haccount.symm.trans haccount')
        have haccepted := hheeds.accepts peer _ account.size scene.world hruns
        rw [hpush] at haccepted
        rw [if_neg huid]
        exact haccepted rfl
      · simp only [← hserved other heq] at hruns
        exact hothers other peer' _ heq hpeer' hruns
    · exact h.pool_eq
    · exact h.market_eq
    · exact h.within
  | failed error =>
    have hafter : Scene.pushTo peers scene (uid, peer) =
        Scene.dropDead peers { scene with world } uid (.unavailable uid error.message) := by
      simp only [Scene.pushTo, haccount, hpush, Response.outcome]
    rw [hafter]
    exact hdropped _
  | silent =>
    have hafter : Scene.pushTo peers scene (uid, peer) = Scene.dropDead peers { scene with world }
        uid (.timeout uid scene.fleet.config.requestTimeout) := by
      simp only [Scene.pushTo, haccount, hpush, Response.outcome]
    rw [hafter]
    exact hdropped _

/-- Once all instances whose allocation moved are served, everyone runs with its allocation. -/
theorem Allotted.foldl_pushTo {members : List (Nat × η)}
    (h : Allotted runs pool scene joined (members.map (·.1))) (hheeds : peers.Heeds runs)
    (hnodup : (members.map (·.1)).Nodup)
    (hmembers : ∀ member ∈ members, scene.fleet.members[member.1]? = some member.2) :
    Allotted runs pool (members.foldl (Scene.pushTo peers) scene) joined [] := by
  induction members generalizing scene with
  | nil => exact h
  | cons member rest ih =>
    obtain ⟨huid, hnodup⟩ := List.nodup_cons.1 hnodup
    apply ih
    · exact h.pushTo hheeds huid (hmembers member List.mem_cons_self)
    · exact hnodup
    · intro other hother
      have hne : member.1 ≠ other.1 := by
        intro heq
        exact huid (List.mem_map.2 ⟨other, hother, heq.symm⟩)
      rw [getElem?_members_pushTo peers scene hne]
      exact hmembers other (List.mem_cons_of_mem _ hother)

/-- **A round.** It leaves every member with its allocation, and what requests to others leave so of
an instance that did not join. -/
theorem Allotted.roundWith {target : Account → Nat} {elapsed : Duration} {report : RoundReport}
    (h : Allotted runs pool scene joined []) (hheeds : peers.Heeds runs)
    (hround : scene.roundWith peers target elapsed = .ok (report, scene')) :
    Allotted runs pool scene' joined [] ∧ ∀ (peer : η) (fact : ω → Prop), peer ∉ joined →
      peers.Spares peer fact → fact scene.world → fact scene'.world := by
  obtain ⟨responses, world, hpolls⟩ : ∃ responses world,
    pollAll peers scene.fleet.members.toList scene.world = (responses, world) := ⟨_, _, rfl⟩
  have hpollWorld {peer : η} {fact : ω → Prop} (hspares : peers.Spares peer fact)
      (hfact : fact scene.world) : fact world := by
    have hspared := spares_pollAll hspares scene.fleet.members.toList hfact
    rwa [hpolls] at hspared
  let asked : Scene ω η := { scene with world }
  have hasked : Allotted runs pool asked joined [] :=
    h.congr rfl rfl rfl fun _ peer size _ => hpollWorld (hheeds.spares peer size)
  let polled := responses.foldl (Scene.settlePoll peers) asked
  have hpolled : Allotted runs pool polled joined [] := hasked.poll hheeds responses
  simp only [Scene.roundWith, hpolls] at hround
  obtain ⟨⟨report', market⟩, hmarket, hround⟩ := bind_eq_ok_iff.1 hround
  let sold : Scene ω η := { polled with fleet := { polled.fleet with market } }
  let served := (moved sold.fleet).foldl (Scene.pushTo peers) sold
  obtain ⟨_, rfl⟩ : report' = report ∧
      { served with fleet := conclude elapsed report' served.fleet } = scene' := by
    simpa only [pure, Except.pure, Except.ok.injEq, Prod.mk.injEq] using hround
  have hmoved : ∀ member ∈ moved sold.fleet, sold.fleet.members[member.1]? = some member.2 :=
    fun member hmember =>
      Std.TreeMap.mem_toList_iff_getElem?_eq_some.1 (List.mem_of_mem_filter hmember)
  have hsold : Allotted runs pool sold joined ((moved sold.fleet).map (·.1)) :=
    hpolled.runWith hmarket
  constructor
  · have hserved : Allotted runs pool served joined [] := by
      apply hsold.foldl_pushTo hheeds
      · exact (nodup_uids_members sold.fleet.members).sublist (List.filter_sublist.map _)
      · exact hmoved
    exact hserved.congr rfl rfl rfl fun _ _ _ _ hruns => hruns
  · intro peer fact hnew hspares hfact
    apply spares_foldl_pushTo hspares
    · rintro member hmember rfl
      exact hnew (hsold.joined member.1 member.2 (hmoved member hmember))
    · exact spares_foldl_settlePoll hspares responses (hpollWorld hspares hfact)

/-! ## Joining and leaving -/

/-- Before anyone joins, nobody has an allocation. -/
theorem allotted_new {config : FleetConfig} {fleet : Fleet η} (world : ω)
    (hmembers : fleet.members = ∅) (hconfig : fleet.config = config)
    (hmarket : fleet.market = .new config.market) :
    Allotted runs config.market.poolSize ⟨fleet, world⟩ [] [] := by
  constructor
  · intro uid
    simp [hmembers, hmarket, Market.new]
  · intro uid peer hpeer
    simp [hmembers] at hpeer
  · intro uid uid' peer hpeer
    simp [hmembers] at hpeer
  · intro uid peer account hpeer
    simp [hmembers] at hpeer
  · exact congrArg (·.market.poolSize) hconfig
  · rw [hmarket, Market.new]
  · rw [hmarket]
    exact Nat.zero_le _

/-- An instance that joins runs without an allocation. -/
theorem Allotted.register {requested : Nat} {peer : η} {registration : Registration}
    {fleet : Fleet η} (h : Allotted runs pool scene joined []) (hnew : peer ∉ joined)
    (hidle : runs peer 0 scene.world)
    (hregister : (scene.fleet.register requested peer).run = .ok (.ok (registration, fleet))) :
    Allotted runs pool { scene with fleet } (peer :: joined) [] := by
  obtain ⟨account, hzero, _, _, hconfig, _, hmembers, hmarket⟩ :=
    exists_account_of_register hregister
  constructor
  · intro uid
    dsimp only
    rw [hmembers, hmarket, Std.TreeMap.mem_insert, Std.TreeMap.mem_insert, h.uids]
  · intro uid member hmember
    dsimp only at hmember
    rw [hmembers, Std.TreeMap.getElem?_insert] at hmember
    split at hmember
    next =>
      obtain rfl := Option.some.inj hmember
      exact List.mem_cons_self
    next => exact List.mem_cons_of_mem _ (h.joined uid member hmember)
  · intro uid uid' member hmember hmember'
    dsimp only at hmember hmember'
    rw [hmembers, Std.TreeMap.getElem?_insert] at hmember hmember'
    split at hmember
    next heq =>
      obtain rfl := Option.some.inj hmember
      split at hmember'
      next heq' => exact (Nat.compare_eq_eq.1 heq).symm.trans (Nat.compare_eq_eq.1 heq')
      next => exact absurd (h.joined uid' _ hmember') hnew
    next =>
      split at hmember'
      next =>
        obtain rfl := Option.some.inj hmember'
        exact absurd (h.joined uid _ hmember) hnew
      next => exact h.apart uid uid' member hmember hmember'
  · intro uid member account' hmember haccount'
    dsimp only at hmember haccount' ⊢
    rw [hmembers, Std.TreeMap.getElem?_insert] at hmember
    rw [hmarket, Market.account?, Std.TreeMap.getElem?_insert] at haccount'
    split at hmember
    next heq =>
      rw [if_pos heq] at haccount'
      obtain rfl := Option.some.inj hmember
      obtain rfl := Option.some.inj haccount'
      rw [if_neg List.not_mem_nil, hzero]
      exact hidle
    next hne =>
      rw [if_neg hne] at haccount'
      exact h.running uid member account' hmember haccount'
  · exact (congrArg (·.market.poolSize) hconfig).trans h.pool_eq
  · dsimp only
    rw [hmarket]
    exact h.market_eq
  · have htotal : fleet.market.total (·.size) ≤
        account.size + scene.fleet.market.total (·.size) := by
      rw [hmarket]
      exact Market.total_insert_le scene.fleet.market scene.fleet.nextUid account
    rw [hzero, Nat.zero_add] at htotal
    exact htotal.trans h.within

/-- Without a member that is removed, the others run with their allocations still. -/
theorem Allotted.remove (h : Allotted runs pool scene joined []) (uid : Nat) :
    Allotted runs pool { scene with fleet := (scene.fleet.remove uid).2 } joined [] := by
  obtain ⟨hmembers, hmarket, hconfig, _⟩ := remove_eq scene.fleet uid
  apply h.erase (fun _ _ => Iff.rfl : ∀ other, other ≠ uid → _)
  · exact hmembers
  · exact hmarket
  · exact congrArg (·.market.poolSize) hconfig
  · exact fun _ _ _ _ _ hruns => hruns

/-- After a shutdown nobody is left. -/
theorem Allotted.shutdown (h : Allotted runs pool scene joined []) :
    Allotted runs pool (scene.shutdown peers) joined [] := by
  have hnone := account?_shutdown peers h.uids
  constructor
  · intro uid
    rw [Market.mem_accounts_iff, hnone]
    exact ⟨nofun, nofun⟩
  · exact nofun
  · exact nofun
  · exact nofun
  · exact h.pool_eq
  · exact (congrArg MarketConfig.poolSize (Market.config_foldl_remove _ _)).trans h.market_eq
  · refine Nat.le_trans (Market.total_le_of_forall ?_) h.within
    intro uid account haccount
    rw [hnone uid] at haccount
    cases haccount

/-- What all members take is within the pool when each takes no more than the size it runs with. -/
theorem Allotted.sum_le {taken : η → Nat} (h : Allotted runs pool scene joined [])
    (htaken : ∀ peer size, runs peer size scene.world → taken peer ≤ size) :
    (scene.fleet.members.toList.map fun member => taken member.2).sum ≤ pool := by
  let allocation (uid : Nat) : Nat := (scene.fleet.allocation? uid).getD 0
  have hkeys : scene.fleet.members.keys.Perm scene.fleet.market.accounts.keys := by
    rw [List.perm_ext_iff_of_nodup Std.TreeMap.nodup_keys Std.TreeMap.nodup_keys]
    intro uid
    rw [Std.TreeMap.mem_keys, Std.TreeMap.mem_keys, h.uids]
  calc (scene.fleet.members.toList.map fun member => taken member.2).sum
      ≤ (scene.fleet.members.toList.map fun member => allocation member.1).sum := by
        apply List.sum_le_sum
        rintro ⟨uid, peer⟩ hmember
        rw [Std.TreeMap.mem_toList_iff_getElem?_eq_some] at hmember
        obtain ⟨account, haccount⟩ := h.exists_account hmember
        have hruns := h.running uid peer account hmember haccount
        rw [if_neg List.not_mem_nil] at hruns
        simp only [allocation, Fleet.allocation?, haccount, Option.map_some, Option.getD_some]
        exact htaken peer _ hruns
    _ = (scene.fleet.members.keys.map allocation).sum := by
        rw [← Std.TreeMap.map_fst_toList_eq_keys, List.map_map]
        rfl
    _ = (scene.fleet.market.accounts.keys.map allocation).sum := (hkeys.map allocation).sum_nat
    _ = scene.fleet.market.total (·.size) := by
        rw [← Std.TreeMap.map_fst_toList_eq_keys, List.map_map, Market.total]
        congr 1
        apply List.map_congr_left
        rintro ⟨uid, account⟩ hmem
        rw [Std.TreeMap.mem_toList_iff_getElem?_eq_some] at hmem
        have haccount : scene.fleet.market.account? uid = some account := hmem
        simp only [Function.comp_apply, allocation, Fleet.allocation?, haccount, Option.map_some,
          Option.getD_some]
    _ ≤ pool := h.within

end Allotted

end Scene

end ElasticCache
