import ElasticCache.Proofs.Fleet.FleetRuns
import ElasticCache.Proofs.Fleet.Ledger

/-!
# Fleets that keep a journal

A fleet publishes who joins, who leaves, and each allocation that moved, once its instance has taken
it. An instance that does not take its allocation leaves. So the journal of a fleet replays to its
members with their allocations after every operation, whatever the instances answer.
-/

namespace ElasticCache

/-- The report of a round counts everyone in the market, and when there is anyone its phases account
for the whole pool. -/
theorem Market.report_of_runWith {target : Account → Nat} {market market' : Market}
    {report : RoundReport} (h : market.runWith target = .ok (report, market')) :
    report.instances = market.count ∧
      (report.instances ≠ 0 → report.givenAway = market.config.poolSize) := by
  have hinstances := instances_of_runWith h
  refine ⟨hinstances, fun hsome => ?_⟩
  have hnonempty : market.accounts.isEmpty = false := by
    rw [Std.TreeMap.isEmpty_eq_size_eq_zero, beq_eq_false_iff_ne]
    rwa [hinstances] at hsome
  obtain ⟨_, _, _, _, _, _, hphases, _⟩ := exists_accounts_of_runWith hnonempty h
  exact hphases

namespace Fleet

variable {η : Type} {fleet : Fleet η} {config : FleetConfig} {joined rounds uid : Nat}
  {unserved : List Nat}

/-- The journal of a fleet is right when it replays to the instances of the market, which are the
members, with their allocations, those still to be served with the one from before the round. The
latter have moved. The journal tells the stories of all that joined as long as the uids suffice, and
counts the rounds. -/
structure Logged (fleet : Fleet η) (config : FleetConfig) (joined rounds : Nat)
    (unserved : List Nat) : Prop where
  config_eq : fleet.config = config
  market_eq : fleet.market.config = config.market
  next_eq : fleet.nextUid = (joined + 1) % longLimit
  uids : ∀ uid, uid ∈ fleet.members ↔ uid ∈ fleet.market.accounts
  accepting : fleet.journal.accepting = true
  replays : ∀ uid, fleet.journal.replay[uid]? = (fleet.market.account? uid).map fun account =>
    if uid ∈ unserved then account.last else account.size
  moved : ∀ uid ∈ unserved, ∀ account, fleet.market.account? uid = some account →
    account.last ≠ account.size
  tells : joined < longLimit → fleet.journal.TellsStories joined
  counts : fleet.journal.CountsRounds config.market.poolSize rounds

namespace Logged

/-- The instances of the ledger are the members. -/
theorem mem_replay_iff (h : fleet.Logged config joined rounds unserved) :
    uid ∈ fleet.journal.replay ↔ uid ∈ fleet.members := by
  rw [Std.TreeMap.mem_iff_isSome_getElem?, h.replays, Option.isSome_map, ← Market.mem_accounts_iff,
    h.uids]

/-- As many instances are in the market as there are members. -/
theorem count_eq (h : fleet.Logged config joined rounds unserved) :
    fleet.market.count = fleet.members.size := by
  have hperm : fleet.market.accounts.keys.Perm fleet.members.keys := by
    rw [List.perm_ext_iff_of_nodup Std.TreeMap.nodup_keys Std.TreeMap.nodup_keys]
    intro uid
    rw [Std.TreeMap.mem_keys, Std.TreeMap.mem_keys, h.uids]
  have hlength := hperm.length_eq
  rwa [Std.TreeMap.length_keys, Std.TreeMap.length_keys] at hlength

/-! ## Leaving -/

/-- Taking an instance out of the fleet and of the ledger leaves the others as they are. -/
theorem erase {journal : Journal} (h : fleet.Logged config joined rounds unserved)
    (haccepting : journal.accepting = true)
    (hreplay : ∀ other, journal.replay[other]? =
      if uid = other then none else fleet.journal.replay[other]?)
    (htells : joined < longLimit → journal.TellsStories joined)
    (hcounts : journal.CountsRounds config.market.poolSize rounds) (metrics : Metrics) :
    ({ fleet.erase uid with journal, metrics } : Fleet η).Logged config joined rounds unserved where
  config_eq := h.config_eq
  market_eq := h.market_eq
  next_eq := h.next_eq
  uids other := by
    rw [Fleet.erase, Market.remove, Std.TreeMap.mem_erase, Std.TreeMap.mem_erase, h.uids]
  accepting := haccepting
  replays other := by
    rw [hreplay, Fleet.erase, Market.account?_remove]
    split
    next => rfl
    next => exact h.replays other
  moved other hmem account hfind := by
    rw [Fleet.erase, Market.account?_remove] at hfind
    split at hfind
    next => cases hfind
    next => exact h.moved other hmem account hfind
  tells := htells
  counts := hcounts

/-- A member may leave. -/
theorem leave {change : Change} (h : fleet.Logged config joined rounds unserved)
    (hmem : uid ∈ fleet.members) (hleaves : change.Leaves uid) (metrics : Metrics) :
    ({ fleet.erase uid with journal := fleet.journal.publish change, metrics } : Fleet η).Logged
      config joined rounds unserved := by
  have hstarts : change.StartsFrom fleet.journal.replay :=
    hleaves.startsFrom (h.mem_replay_iff.2 hmem)
  have habout : change.uid? ≠ none := by
    rw [hleaves.uid?_eq]
    exact Option.some_ne_none uid
  apply h.erase
  · exact Journal.accepting_publish h.accepting change
  · intro other
    rw [Journal.replay_publish h.accepting, hleaves.enter_eq, Std.TreeMap.getElem?_erase]
    simp only [Nat.compare_eq_eq]
  · exact fun hfew => (h.tells hfew).publish h.accepting hstarts
  · exact h.counts.publish h.accepting habout

/-- Whether or not it removes anyone, a removal leaves the journal right. -/
theorem remove (h : fleet.Logged config joined rounds unserved) (uid : Nat) :
    (fleet.remove uid).2.Logged config joined rounds unserved := by
  unfold Fleet.remove
  dsimp only
  split
  next hmem => exact h.leave hmem .removed _
  next hmem =>
    apply h.erase h.accepting _ h.tells h.counts
    intro other
    split
    next heq =>
      rw [← heq]
      exact Std.TreeMap.getElem?_eq_none (mt h.mem_replay_iff.1 hmem)
    next => rfl

/-! ## Joining -/

/-- An instance that joins is in the ledger without an allocation, whoever had its uid before. Only
while the uids suffice is it one that nobody had. -/
theorem register {fleet' : Fleet η} {requested : Nat} {peer : η} {registration : Registration}
    (h : fleet.Logged config joined rounds [])
    (hregister : (fleet.register requested peer).run = .ok (.ok (registration, fleet'))) :
    fleet'.Logged config (joined + 1) rounds [] := by
  obtain ⟨account, hzero, _, hnext, hconfig, hjournal, hmembers, hmarket⟩ :=
    Scene.exists_account_of_register hregister
  refine ⟨hconfig.trans h.config_eq, ?_, ?_, ?_, ?_, ?_, nofun, ?_, ?_⟩
  · rw [hmarket]
    exact h.market_eq
  · rw [hnext, h.next_eq, Nat.mod_add_mod]
  · intro uid
    rw [hmembers, hmarket, Std.TreeMap.mem_insert, Std.TreeMap.mem_insert, h.uids]
  · rw [hjournal]
    exact Journal.accepting_publish h.accepting _
  · intro uid
    rw [hjournal, Journal.replay_publish h.accepting, hmarket, Change.enter, Market.account?,
      Std.TreeMap.getElem?_insert, Std.TreeMap.getElem?_insert]
    split
    next => rw [Option.map_some, if_neg List.not_mem_nil, hzero]
    next => exact h.replays uid
  · intro hfew
    have huid : fleet.nextUid = joined + 1 := by rw [h.next_eq, Nat.mod_eq_of_lt hfew]
    rw [hjournal, huid]
    exact (h.tells (Nat.lt_of_succ_lt hfew)).join h.accepting requested registration.maxSize
  · rw [hjournal]
    exact h.counts.publish h.accepting (Option.some_ne_none fleet.nextUid)

/-! ## The steps of a round -/

/-- A usage sample leaves the allocations as they are. -/
theorem reportUsage (h : fleet.Logged config joined rounds []) (uid usage : Nat) :
    ({ fleet with market := fleet.market.reportUsage uid usage } : Fleet η).Logged config joined
      rounds [] where
  config_eq := h.config_eq
  market_eq := h.market_eq
  next_eq := h.next_eq
  uids other := (h.uids other).trans Std.TreeMap.mem_modify.symm
  accepting := h.accepting
  replays other := by
    have hsize := Market.size_account?_reportUsage fleet.market uid usage other
    have hreplay := h.replays other
    simp only [List.not_mem_nil, if_false] at hreplay ⊢
    rw [hreplay, hsize]
  moved := nofun
  tells := h.tells
  counts := h.counts

/-- After the market's round the instances whose allocations moved are to be served. Who is not to
be served has the size from before. -/
theorem runWith {target : Account → Nat} {report : RoundReport} {market : Market}
    (h : fleet.Logged config joined rounds [])
    (hround : fleet.market.runWith target = .ok (report, market)) :
    ({ fleet with market } : Fleet η).Logged config joined rounds
      ((Scene.moved { fleet with market }).map (·.1)) := by
  let after : Fleet η := { fleet with market }
  have huids (uid : Nat) : uid ∈ after.members ↔ uid ∈ after.market.accounts :=
    (h.uids uid).trans (Market.mem_accounts_of_runWith hround uid).symm
  refine ⟨h.config_eq, ?_, h.next_eq, huids, h.accepting, ?_, ?_, h.tells, h.counts⟩
  · rcases Market.runWith_cases hround with ⟨_, rfl⟩ | ⟨_, hconfig, _⟩
    · exact h.market_eq
    · exact hconfig.trans h.market_eq
  · intro uid
    have hreplay := h.replays uid
    simp only [List.not_mem_nil, if_false] at hreplay
    have hlast : fleet.journal.replay[uid]? = (after.market.account? uid).map (·.last) :=
      hreplay.trans (Market.last_of_runWith hround uid).symm
    refine hlast.trans ?_
    cases hfind : after.market.account? uid with
    | none => rfl
    | some account =>
      have hmem : uid ∈ after.members := by
        rw [huids, Market.mem_accounts_iff, hfind]
        rfl
      obtain ⟨peer, hpeer⟩ :=
        Option.isSome_iff_exists.1 (Std.TreeMap.mem_iff_isSome_getElem?.1 hmem)
      rw [Option.map_some, Option.map_some]
      split
      next => rfl
      next hstays => rw [Scene.last_eq_of_not_moved hpeer hfind hstays]
  · intro uid hmem account hfind
    obtain ⟨⟨_, peer⟩, hmoved, rfl⟩ := List.mem_map.1 hmem
    have hchanged := List.of_mem_filter hmoved
    simp only [Market.hasChanged, hfind, decide_eq_true_eq] at hchanged
    exact hchanged.symm

/-- Nobody is served who is not in the market. -/
theorem skip (h : fleet.Logged config joined rounds (uid :: unserved))
    (hgone : fleet.market.account? uid = none) : fleet.Logged config joined rounds unserved where
  config_eq := h.config_eq
  market_eq := h.market_eq
  next_eq := h.next_eq
  uids := h.uids
  accepting := h.accepting
  replays other := by
    rw [h.replays other]
    by_cases heq : other = uid
    · rw [heq, hgone]
      rfl
    · simp only [List.mem_cons, heq, false_or]
  moved other hmem := h.moved other (List.mem_cons_of_mem _ hmem)
  tells := h.tells
  counts := h.counts

/-- An instance that took its allocation is served, and the journal tells so. Before, the journal
told the size that it had when the round began. -/
theorem serve {account : Account} (h : fleet.Logged config joined rounds (uid :: unserved))
    (huid : uid ∉ unserved) (hfind : fleet.market.account? uid = some account) (usage : Nat) :
    (fleet.publish (.reallocated uid account.last account.size usage)).Logged config joined rounds
      unserved := by
  let change : Change := .reallocated uid account.last account.size usage
  have hlast : fleet.journal.replay[uid]? = some account.last := by
    rw [h.replays, hfind, Option.map_some, if_pos List.mem_cons_self]
  have hstarts : change.StartsFrom fleet.journal.replay :=
    ⟨hlast, h.moved uid List.mem_cons_self account hfind⟩
  refine ⟨h.config_eq, h.market_eq, h.next_eq, h.uids, ?_, ?_, ?_, ?_, ?_⟩
  · exact Journal.accepting_publish h.accepting change
  · intro other
    change (fleet.journal.publish change).replay[other]? = (fleet.market.account? other).map _
    rw [Journal.replay_publish h.accepting]
    by_cases heq : other = uid
    · rw [heq, hfind, Change.enter, Std.TreeMap.getElem?_insert_self, Option.map_some,
        if_neg huid]
    · have hother : change.uid? ≠ some other := fun hsame => heq (Option.some.inj hsame).symm
      rw [Change.getElem?_enter_of_ne _ hother, h.replays other]
      simp only [List.mem_cons, heq, false_or]
  · exact fun other hmem => h.moved other (List.mem_cons_of_mem _ hmem)
  · exact fun hfew => (h.tells hfew).publish h.accepting hstarts
  · exact h.counts.publish h.accepting (Option.some_ne_none uid)

/-- The end of a round is told, and its report counts when its phases account for the pool. -/
theorem conclude {report : RoundReport} (h : fleet.Logged config joined rounds unserved)
    (elapsed : Duration)
    (hreport : report.instances ≠ 0 → report.givenAway = config.market.poolSize) :
    (Scene.conclude elapsed report fleet).Logged config joined (rounds + 1) unserved where
  config_eq := h.config_eq
  market_eq := h.market_eq
  next_eq := h.next_eq
  uids := h.uids
  accepting := Journal.accepting_publish h.accepting _
  replays other :=
    (congrArg (·[other]?) (Journal.replay_publish h.accepting _)).trans (h.replays other)
  moved := h.moved
  tells hfew := (h.tells hfew).publish h.accepting trivial
  counts := h.counts.conclude h.accepting elapsed.toMillis hreport

end Logged

end Fleet

namespace Scene

variable {ω η : Type} {peers : Peers ω η} {scene scene' : Scene ω η} {config : FleetConfig}
  {joined rounds : Nat}

/-- An instance that fails a request leaves. -/
theorem logged_dropDead {uid : Nat} {unserved : List Nat}
    (h : scene.fleet.Logged config joined rounds unserved) (hmem : uid ∈ scene.fleet.members)
    (cause : Error) :
    (scene.dropDead peers uid cause).fleet.Logged config joined rounds unserved :=
  h.leave hmem (.unreachable cause.message) _

/-! ## Pushing -/

/-- A push serves its instance, which is told, or the instance leaves, which is told as well. -/
theorem logged_pushTo {uid : Nat} {peer : η} {unserved : List Nat}
    (h : scene.fleet.Logged config joined rounds (uid :: unserved)) (huid : uid ∉ unserved) :
    (pushTo peers scene (uid, peer)).fleet.Logged config joined rounds unserved := by
  unfold pushTo
  dsimp only
  split
  next hgone => exact h.skip hgone
  next account hfind =>
    have hmem : uid ∈ scene.fleet.members := by
      rw [h.uids, Market.mem_accounts_iff, hfind]
      rfl
    split
    next => exact h.serve huid hfind account.usage
    next cause _ =>
      let pushed : Scene ω η :=
        { scene with world := (peers.push peer account.size scene.world).2 }
      have hpushed : pushed.fleet.Logged config joined rounds (uid :: unserved) := h
      apply (logged_dropDead hpushed hmem cause).skip
      exact (Market.account?_remove scene.fleet.market uid uid).trans (if_pos rfl)

/-- All instances whose allocations moved are served or leave. -/
theorem logged_foldl_pushTo {members : List (Nat × η)}
    (h : scene.fleet.Logged config joined rounds (members.map (·.1)))
    (hnodup : (members.map (·.1)).Nodup) :
    (members.foldl (pushTo peers) scene).fleet.Logged config joined rounds [] := by
  induction members generalizing scene with
  | nil => exact h
  | cons member rest ih =>
    obtain ⟨huid, hnodup⟩ := List.nodup_cons.1 hnodup
    exact ih (logged_pushTo h huid) hnodup

/-! ## Polling -/

/-- Every instance is asked once, in the order of the members. -/
theorem map_fst_pollAll (members : List (Nat × η)) (world : ω) :
    (pollAll peers members world).1.map (·.1) = members.map (·.1) := by
  induction members generalizing world with
  | nil => rfl
  | cons member rest ih => exact congrArg (member.1 :: ·) (ih _)

/-- An instance that did not answer its poll leaves. -/
theorem logged_settlePoll {poll : Nat × Response UsageReport}
    (h : scene.fleet.Logged config joined rounds []) (hmem : poll.1 ∈ scene.fleet.members) :
    (settlePoll peers scene poll).fleet.Logged config joined rounds [] := by
  unfold settlePoll
  dsimp only
  split
  next report _ => exact h.reportUsage poll.1 report.usage
  next cause _ => exact logged_dropDead h hmem cause

/-- The response to a poll concerns nobody else. -/
theorem mem_settlePoll_of_ne {poll : Nat × Response UsageReport} {uid : Nat}
    (hmem : uid ∈ scene.fleet.members) (hne : poll.1 ≠ uid) :
    uid ∈ (settlePoll peers scene poll).fleet.members := by
  unfold settlePoll
  dsimp only
  split
  next => exact hmem
  next => exact Std.TreeMap.mem_erase.2 ⟨fun heq => hne (Nat.compare_eq_eq.1 heq), hmem⟩

/-- The journal keeps up with the answers to the polls. Nobody is asked twice, so that those whose
answers are left are still members. -/
theorem logged_foldl_settlePoll {responses : List (Nat × Response UsageReport)}
    (h : scene.fleet.Logged config joined rounds [])
    (hmem : ∀ poll ∈ responses, poll.1 ∈ scene.fleet.members)
    (hnodup : (responses.map (·.1)).Nodup) :
    (responses.foldl (settlePoll peers) scene).fleet.Logged config joined rounds [] := by
  induction responses generalizing scene with
  | nil => exact h
  | cons poll rest ih =>
    obtain ⟨hother, hnodup⟩ := List.nodup_cons.1 hnodup
    apply ih (logged_settlePoll h (hmem poll List.mem_cons_self)) _ hnodup
    intro other hrest
    apply mem_settlePoll_of_ne (hmem other (List.mem_cons_of_mem _ hrest))
    exact fun heq => hother (List.mem_map.2 ⟨other, hrest, heq.symm⟩)

/-! ## Rounds -/

/-- A fleet after the polls of a round. Its members are the instances that take part. -/
def polled (peers : Peers ω η) (scene : Scene ω η) : Scene ω η :=
  let polls := pollAll peers scene.fleet.members.toList scene.world
  polls.1.foldl (settlePoll peers) { scene with world := polls.2 }

/-- The journal keeps up with polling as a whole. -/
theorem logged_polled (peers : Peers ω η) (h : scene.fleet.Logged config joined rounds []) :
    (scene.polled peers).fleet.Logged config joined rounds [] := by
  let polls := pollAll peers scene.fleet.members.toList scene.world
  have huids : polls.1.map (·.1) = scene.fleet.members.toList.map (·.1) := map_fst_pollAll _ _
  have hasked : ({ scene with world := polls.2 } : Scene ω η).fleet.Logged config joined rounds
      [] := h
  apply logged_foldl_settlePoll hasked
  · intro poll hpoll
    have hmem := List.mem_map_of_mem (f := (·.1)) hpoll
    rwa [huids, Std.TreeMap.map_fst_toList_eq_keys, Std.TreeMap.mem_keys] at hmem
  · rw [huids]
    exact nodup_uids_members scene.fleet.members

/-- A round polls, lets the market divide the pool, pushes what moved, and ends. -/
theorem exists_of_roundWith {target : Account → Nat} {elapsed : Duration} {report : RoundReport}
    (hround : scene.roundWith peers target elapsed = .ok (report, scene')) :
    ∃ market, (scene.polled peers).fleet.market.runWith target = .ok (report, market) ∧
      let sold : Scene ω η := { scene.polled peers with
        fleet := { (scene.polled peers).fleet with market } }
      let served := (moved sold.fleet).foldl (pushTo peers) sold
      scene' = { served with fleet := conclude elapsed report served.fleet } := by
  obtain ⟨⟨report', market⟩, hmarket, hround⟩ := bind_eq_ok_iff.1 hround
  obtain ⟨rfl, rfl⟩ := by
    simpa only [pure, Except.pure, Except.ok.injEq, Prod.mk.injEq] using hround
  exact ⟨market, hmarket, rfl⟩

/-- **A round.** It leaves the journal right, and is told at its end, with the number of those who
answered its polls. -/
theorem logged_roundWith {target : Account → Nat} {elapsed : Duration} {report : RoundReport}
    (h : scene.fleet.Logged config joined rounds [])
    (hround : scene.roundWith peers target elapsed = .ok (report, scene')) :
    scene'.fleet.Logged config joined (rounds + 1) [] ∧
      report.instances = (scene.polled peers).fleet.members.size ∧
      ∃ time, scene'.fleet.journal.events.getLast? =
        some ⟨time, .roundCompleted report elapsed.toMillis⟩ := by
  obtain ⟨market, hmarket, rfl⟩ := exists_of_roundWith hround
  have hpolled := logged_polled peers h
  obtain ⟨hinstances, hgiven⟩ := Market.report_of_runWith hmarket
  rw [hpolled.market_eq] at hgiven
  let sold : Scene ω η := { scene.polled peers with
    fleet := { (scene.polled peers).fleet with market } }
  have hnodup : ((moved sold.fleet).map (·.1)).Nodup :=
    (nodup_uids_members sold.fleet.members).sublist (List.filter_sublist.map _)
  let served := (moved sold.fleet).foldl (pushTo peers) sold
  have hserved : served.fleet.Logged config joined rounds [] :=
    logged_foldl_pushTo (hpolled.runWith hmarket) hnodup
  have hevents := Journal.events_publish hserved.accepting (.roundCompleted report elapsed.toMillis)
  refine ⟨hserved.conclude elapsed hgiven, hinstances.trans hpolled.count_eq,
    served.fleet.journal.now, ?_⟩
  exact (congrArg List.getLast? hevents).trans List.getLast?_concat

/-! ## Operations -/

/-- What happens to a fleet: operations on it, of which a round may have any targets, and in between
whatever the instances do and the time that goes by. -/
inductive Operation (ω η : Type) where
  | register (requested : Nat) (peer : η)
  | remove (uid : Nat)
  | round (target : Account → Nat) (elapsed : Duration)
  | drift (world : ω) (now : Timestamp)

/-- Whether an operation makes an instance join. One that asks for nothing is turned away. -/
def Operation.joins : Operation ω η → Bool
  | .register requested _ => requested ≠ 0
  | _ => false

/-- Whether an operation is a round. -/
def Operation.isRound : Operation ω η → Bool
  | .round .. => true
  | _ => false

/-- What an operation leads to. -/
def perform (peers : Peers ω η) (scene : Scene ω η) : Operation ω η → Except Fault (Scene ω η)
  | .register requested peer => do
    match ← (scene.fleet.register requested peer).run with
    | .ok (_, fleet) => return { scene with fleet }
    | .error _ => return scene
  | .remove uid => return { scene with fleet := (scene.fleet.remove uid).2 }
  | .round target elapsed => do
    let (_, scene) ← scene.roundWith peers target elapsed
    return scene
  | .drift world now =>
    return ⟨{ scene.fleet with journal := { scene.fleet.journal with now } }, world⟩

/-- An operation leaves the journal right. -/
theorem logged_perform {operation : Operation ω η}
    (h : scene.fleet.Logged config joined rounds [])
    (hperform : scene.perform peers operation = .ok scene') :
    scene'.fleet.Logged config (joined + if operation.joins then 1 else 0)
      (rounds + if operation.isRound then 1 else 0) [] := by
  cases operation with
  | register requested peer =>
    obtain ⟨outcome, hregister, hperform⟩ := bind_eq_ok_iff.1 hperform
    rcases register_cases hregister with ⟨rfl, _, rfl⟩ | ⟨hrequested, _, fleet, _, rfl, _⟩
    · rw [← Except.ok.inj hperform]
      exact h
    · have hjoins : (Operation.register (ω := ω) requested peer).joins = true :=
        decide_eq_true hrequested
      rw [← Except.ok.inj hperform, hjoins]
      exact h.register hregister
  | remove uid =>
    rw [← Except.ok.inj hperform]
    exact h.remove uid
  | round target elapsed =>
    obtain ⟨⟨report, after⟩, hround, hperform⟩ := bind_eq_ok_iff.1 hperform
    rw [← Except.ok.inj hperform]
    exact (logged_roundWith h hround).1
  | drift world now =>
    rw [← Except.ok.inj hperform]
    exact ⟨h.config_eq, h.market_eq, h.next_eq, h.uids, h.accepting, h.replays, h.moved,
      fun hfew => ⟨(h.tells hfew).stories, (h.tells hfew).unheard⟩,
      ⟨h.counts.rounds_eq, h.counts.givenAway⟩⟩

/-- What has been performed leaves the journal right. -/
theorem logged_foldlM_perform {operations : List (Operation ω η)}
    (h : scene.fleet.Logged config joined rounds [])
    (hperform : operations.foldlM (perform peers) scene = .ok scene') :
    scene'.fleet.Logged config (joined + operations.countP Operation.joins)
      (rounds + operations.countP Operation.isRound) [] := by
  induction operations generalizing scene joined rounds with
  | nil =>
    rw [← Except.ok.inj hperform]
    exact h
  | cons operation rest ih =>
    obtain ⟨between, hfirst, hrest⟩ := bind_eq_ok_iff.1 hperform
    have hafter := ih (logged_perform h hfirst) hrest
    rwa [Nat.add_assoc, Nat.add_assoc, Nat.add_comm (ite _ _ _), Nat.add_comm (ite _ _ _),
      ← List.countP_cons, ← List.countP_cons] at hafter

end Scene

namespace Fleet

variable {η : Type}

/-- A fleet that nobody joined yet. -/
def opened (config : FleetConfig) (metrics : Metrics) : Fleet η where
  config
  market := .new config.market
  metrics

/-- A new fleet was opened with its own configuration. -/
theorem exists_opened_of_new {config : FleetConfig} {fleet : Fleet η}
    (h : (Fleet.new config : ExceptT Error (Except Fault) (Fleet η)).run = .ok (.ok fleet)) :
    ∃ metrics, fleet = opened fleet.config metrics := by
  rw [Fleet.new, ExceptT.run_bind] at h
  obtain ⟨outcome, _, h⟩ := bind_eq_ok_iff.1 h
  cases outcome with
  | error error => cases h
  | ok normalized =>
    cases h
    exact ⟨_, rfl⟩

/-- The journal of a new fleet tells of no one. -/
theorem logged_opened (config : FleetConfig) (metrics : Metrics) :
    (opened config metrics : Fleet η).Logged config 0 0 [] := by
  refine ⟨rfl, rfl, rfl, fun uid => ⟨nofun, nofun⟩, rfl, fun uid => rfl, nofun, fun _ => ?_, rfl,
    nofun⟩
  exact ⟨fun uid => .unheard, fun uid => ⟨fun _ => by omega, fun _ => rfl⟩⟩

end Fleet

namespace Scene

variable {ω η : Type}

/-- **Journals of fleets.** After any operations on a fleet, whatever the instances answered: the
ledger that its journal replays to has exactly the members, with their allocations. While the uids
suffice, those that joined have the uids from one on, and the journal tells of each how it joined,
how it was moved from one size to another until it has its allocation, and how it left, if it did.
The journal has one event for each round, and the phases of a round account for the whole pool when
anyone took part. The next round would be told at its end, with all that answered their polls. -/
theorem journal_replays_to_members {peers : Peers ω η} {config : FleetConfig} {metrics : Metrics}
    {world : ω} {operations : List (Operation ω η)} {scene : Scene ω η}
    (h : operations.foldlM (perform peers) ⟨.opened config metrics, world⟩ = .ok scene) :
    (∀ uid, uid ∈ scene.fleet.journal.replay ↔ uid ∈ scene.fleet.members) ∧
      (∀ uid, scene.fleet.journal.replay[uid]? = scene.fleet.allocation? uid) ∧
      (operations.countP Operation.joins < longLimit → ∀ uid,
        Story uid (scene.fleet.allocation? uid) (scene.fleet.journal.changesAbout uid) ∧
          (scene.fleet.journal.changesAbout uid = [] ↔
            uid = 0 ∨ operations.countP Operation.joins < uid)) ∧
      scene.fleet.journal.rounds = operations.countP Operation.isRound ∧
      (∀ event ∈ scene.fleet.journal.events, ∀ report milliseconds,
        event.change = .roundCompleted report milliseconds → report.instances ≠ 0 →
          report.baseSold + report.auctioned + report.redistributed + report.split =
            scene.fleet.poolSize) ∧
      ∀ target elapsed report scene', scene.roundWith peers target elapsed = .ok (report, scene') →
        report.instances = (scene.polled peers).fleet.members.size ∧
          ∃ time, scene'.fleet.journal.events.getLast? =
            some ⟨time, .roundCompleted report elapsed.toMillis⟩ := by
  have hlogged := logged_foldlM_perform (Fleet.logged_opened config metrics) h
  rw [Nat.zero_add, Nat.zero_add] at hlogged
  have hreplay (uid : Nat) : scene.fleet.journal.replay[uid]? = scene.fleet.allocation? uid := by
    simpa only [Fleet.allocation?, List.not_mem_nil, if_false] using hlogged.replays uid
  have hpool : scene.fleet.poolSize = config.market.poolSize := by
    rw [Fleet.poolSize, hlogged.config_eq]
  refine ⟨fun uid => hlogged.mem_replay_iff, hreplay, ?_, hlogged.counts.rounds_eq, ?_, ?_⟩
  · intro hfew uid
    have htells := hlogged.tells hfew
    rw [← hreplay]
    exact ⟨htells.stories uid, htells.unheard uid⟩
  · rw [hpool]
    exact hlogged.counts.givenAway
  · exact fun target elapsed report scene' hround => (logged_roundWith hlogged hround).2

/-- Instances that use 5 bytes. The compliant ones take every allocation, and the others none. -/
def choosyPeers : Peers Unit Bool where
  poll _ world := (.answered { usage := 5 }, world)
  push compliant _ world :=
    (if compliant then .answered () else .failed (.protocol "update refused"), world)
  stop _ world := world

/-- Two instances join, of which the second takes no allocation, and there are two rounds. -/
def choosyOperations : List (Operation Unit Bool) :=
  [.register 30 true, .register 20 false, .round (fun _ => 40) .zero, .round (fun _ => 40) .zero]

/-- A pool of 100 bytes. -/
def smallConfig : FleetConfig where
  market := { poolSize := 100, minSlabSize := 10, maxWallet := 100 }

/-- In the first round one instance is moved to half of the pool and the other one is dropped, and
in the second round the one that stayed is moved to all of the pool. -/
theorem journal_replays_to_members_of_refusal :
    ∃ scene, choosyOperations.foldlM (perform choosyPeers) ⟨.opened smallConfig {}, ()⟩ =
        .ok scene ∧
      choosyOperations.countP Operation.joins < longLimit ∧
      scene.fleet.journal.replay.toList = [(1, 100)] ∧
      (∀ uid, uid ∈ scene.fleet.members ↔ uid = 1) ∧ scene.fleet.allocation? 1 = some 100 ∧
      Story 1 (some 100) [.registered 1 30 30, .reallocated 1 0 50 5, .reallocated 1 50 100 5] ∧
      Story 2 none [.registered 2 20 20,
        .unreachable 2 "Instance 2 unavailable: Protocol error: update refused"] ∧
      scene.fleet.journal.rounds = 2 := by
  have hfew : choosyOperations.countP Operation.joins < longLimit := by decide
  have hresult : (choosyOperations.foldlM (perform choosyPeers)
        ⟨.opened smallConfig {}, ()⟩).map (fun scene =>
        (scene.fleet.journal.replay.toList, scene.fleet.journal.changesAbout 1,
          scene.fleet.journal.changesAbout 2)) =
      .ok ([(1, 100)], [.registered 1 30 30, .reallocated 1 0 50 5, .reallocated 1 50 100 5],
        [.registered 2 20 20,
          .unreachable 2 "Instance 2 unavailable: Protocol error: update refused"]) := by
    decide +kernel
  cases hrun : choosyOperations.foldlM (perform choosyPeers) ⟨.opened smallConfig {}, ()⟩ with
  | error fault => rw [hrun] at hresult; cases hresult
  | ok scene =>
    rw [hrun] at hresult
    obtain ⟨hledger, hfirst, hsecond⟩ : scene.fleet.journal.replay.toList = _ ∧
        scene.fleet.journal.changesAbout 1 = _ ∧ scene.fleet.journal.changesAbout 2 = _ := by
      simpa only [Except.map, Except.ok.injEq, Prod.mk.injEq] using hresult
    obtain ⟨hmembers, hsizes, hstories, hrounds, _⟩ := journal_replays_to_members hrun
    have hsize (uid size : Nat) :
        scene.fleet.allocation? uid = some size ↔ (uid, size) ∈ [(1, 100)] := by
      rw [← hsizes, ← hledger, Std.TreeMap.mem_toList_iff_getElem?_eq_some]
    have hone : scene.fleet.allocation? 1 = some 100 := (hsize 1 100).2 List.mem_cons_self
    have htwo : scene.fleet.allocation? 2 = none := by
      refine Option.eq_none_iff_forall_ne_some.2 fun size heq => ?_
      cases List.mem_singleton.1 ((hsize 2 size).1 heq)
    have hstory₁ := (hstories hfew 1).1
    have hstory₂ := (hstories hfew 2).1
    rw [hone, hfirst] at hstory₁
    rw [htwo, hsecond] at hstory₂
    refine ⟨scene, rfl, hfew, hledger, fun uid => ?_, hone, hstory₁, hstory₂, hrounds⟩
    rw [← hmembers, ← Std.TreeMap.mem_keys, ← Std.TreeMap.map_fst_toList_eq_keys, hledger]
    exact List.mem_singleton

end Scene

end ElasticCache
