import ElasticCache.Proofs.Fleet.LoggedRuns

/-!
# Dead instances

An instance that does not answer its poll has no part in a round: the round leaves the same market
and the same members, makes the same report and sends the same sizes in the same order as when the
instance is taken out before. An instance that does not take its allocation is missing afterwards,
and that is all: nobody else gets another size for it.

A fleet is read by uid, as the account and the peer that it has under each of them. The response to
a poll or to a push changes what is under one uid only, so that it does not matter in which order
the others are served.
-/

namespace ElasticCache

/-! ## Fleets by uid -/

namespace Fleet

variable {η : Type}

/-- The account and the peer that a fleet has under a uid. -/
def slot (fleet : Fleet η) (uid : Nat) : Option Account × Option η :=
  (fleet.market.account? uid, fleet.members[uid]?)

/-- The slots of a fleet are told by its market and its members. -/
theorem slot_congr {fleet fleet' : Fleet η} (hmarket : fleet'.market = fleet.market)
    (hmembers : fleet'.members = fleet.members) (uid : Nat) :
    fleet'.slot uid = fleet.slot uid := by
  rw [slot, hmarket, hmembers, slot]

/-- A member has a peer in its slot. -/
theorem mem_members_iff {fleet : Fleet η} {uid : Nat} :
    uid ∈ fleet.members ↔ (fleet.slot uid).2.isSome :=
  Std.TreeMap.mem_iff_isSome_getElem?

/-- Nothing is left under the uid of an instance that is taken out. -/
theorem slot_of_erase {fleet fleet' : Fleet η} {uid : Nat}
    (hmarket : fleet'.market = fleet.market.remove uid)
    (hmembers : fleet'.members = fleet.members.erase uid) (other : Nat) :
    fleet'.slot other = if uid = other then (none, none) else fleet.slot other := by
  unfold slot
  rw [hmarket, hmembers, Market.account?_remove, Std.TreeMap.getElem?_erase]
  simp only [Nat.compare_eq_eq]
  split <;> rfl

/-- Takes instances out, one after the other. -/
def without (fleet : Fleet η) (uids : List Nat) : Fleet η :=
  uids.foldl (fun fleet uid => (fleet.remove uid).2) fleet

/-- Without some instances, their slots are empty and the others as before. -/
theorem slot_without (fleet : Fleet η) (uids : List Nat) (uid : Nat) :
    (fleet.without uids).slot uid = if uid ∈ uids then (none, none) else fleet.slot uid := by
  induction uids generalizing fleet with
  | nil => rfl
  | cons other rest ih =>
    obtain ⟨hmembers, hmarket, _, _⟩ := Scene.remove_eq fleet other
    rw [without, List.foldl_cons, ← without, ih, slot_of_erase hmarket hmembers]
    by_cases hrest : uid ∈ rest
    · rw [if_pos hrest, if_pos (List.mem_cons_of_mem _ hrest)]
    · simp only [List.mem_cons, hrest, or_false, if_false, eq_comm]

/-- Removing instances keeps the configuration of the market. -/
theorem config_without (fleet : Fleet η) (uids : List Nat) :
    (fleet.without uids).market.config = fleet.market.config := by
  induction uids generalizing fleet with
  | nil => rfl
  | cons uid rest ih =>
    refine (ih _).trans ?_
    rw [(Scene.remove_eq fleet uid).2.1]
    rfl

/-- The fleet with each of its instances reached under its uid. -/
def ticketed (fleet : Fleet η) : Fleet (Nat × η) where
  config := fleet.config
  market := fleet.market
  members := fleet.members.map fun uid peer => (uid, peer)
  nextUid := fleet.nextUid
  journal := fleet.journal
  metrics := fleet.metrics

/-- In a fleet with tickets, the peer in a slot comes with the uid of the slot. -/
theorem slot_ticketed (fleet : Fleet η) (uid : Nat) :
    fleet.ticketed.slot uid =
      ((fleet.slot uid).1, (fleet.slot uid).2.map fun peer => (uid, peer)) := by
  unfold slot ticketed
  rw [Std.TreeMap.getElem?_map]

/-! ## Fleets that are alike -/

/-- Fleets with the same market and the same members. -/
structure Alike (fleet fleet' : Fleet η) : Prop where
  config_eq : fleet.market.config = fleet'.market.config
  slot_eq : ∀ uid, fleet.slot uid = fleet'.slot uid

namespace Alike

variable {fleet fleet' : Fleet η}

/-- Alike fleets have the same accounts. -/
theorem account?_eq (h : fleet.Alike fleet') (uid : Nat) :
    fleet.market.account? uid = fleet'.market.account? uid :=
  congrArg Prod.fst (h.slot_eq uid)

/-- Alike fleets list their accounts in the same order. -/
theorem toList_accounts (h : fleet.Alike fleet') :
    fleet.market.accounts.toList = fleet'.market.accounts.toList :=
  (Std.TreeMap.Equiv.of_forall_constGet?_eq h.account?_eq).toList_eq

/-- Alike fleets list their members in the same order. -/
theorem toList_members (h : fleet.Alike fleet') :
    fleet.members.toList = fleet'.members.toList :=
  have hpeers (uid : Nat) : fleet.members[uid]? = fleet'.members[uid]? :=
    congrArg Prod.snd (h.slot_eq uid)
  (Std.TreeMap.Equiv.of_forall_constGet?_eq hpeers).toList_eq

/-- In alike fleets, the same members are to be told a new allocation. -/
theorem moved_eq (h : fleet.Alike fleet') : Scene.moved fleet = Scene.moved fleet' := by
  have hchanged (uid : Nat) : fleet.market.hasChanged uid = fleet'.market.hasChanged uid := by
    unfold Market.hasChanged
    rw [h.account?_eq]
  unfold Scene.moved
  simp only [h.toList_members, hchanged]

end Alike

end Fleet

/-- A round of the market reads the configuration and the list of the accounts. -/
theorem Market.runWith_congr {market market' : Market} (hconfig : market.config = market'.config)
    (haccounts : market.accounts.toList = market'.accounts.toList) (target : Account → Nat) :
    (∃ fault, market.runWith target = .error fault ∧ market'.runWith target = .error fault) ∨
      ∃ report after after', market.runWith target = .ok (report, after) ∧
        market'.runWith target = .ok (report, after') ∧ after.config = after'.config ∧
        after.accounts.toList = after'.accounts.toList := by
  have hempty : market.accounts.isEmpty = market'.accounts.isEmpty :=
    (Std.TreeMap.equiv_iff_toList_eq.2 haccounts).isEmpty_eq
  cases hsome : market'.accounts.isEmpty with
  | true =>
    refine .inr ⟨{}, market, market', ?_, ?_, hconfig, haccounts⟩
    · rw [runWith, hempty, hsome]
      rfl
    · rw [runWith, hsome]
      rfl
  | false =>
    have hsame : market.runWith target = market'.runWith target := by
      simp only [runWith, hempty, hsome, hconfig, haccounts, Bool.false_eq_true, if_false]
    rw [hsame]
    cases market'.runWith target with
    | error fault => exact .inl ⟨fault, rfl, rfl⟩
    | ok result => exact .inr ⟨result.1, result.2, result.2, rfl, rfl, rfl, rfl⟩

/-! ## Polling -/

/-- The usage that an instance tells when it answers its poll. -/
def Response.usage? : Response UsageReport → Option Nat
  | .answered report => some report.usage
  | .failed _ => none
  | .silent => none

/-- The size that a request sends, with the ticket that it sends it under. -/
def Contact.sizeSent? : Contact → Option (Nat × Nat)
  | .polled .. => none
  | .pushed ticket size _ => some (ticket, size)

/-- The ticket of a size that was not accepted. -/
def Contact.refusal? : Contact → Option Nat
  | .polled .. => none
  | .pushed _ _ true => none
  | .pushed ticket _ false => some ticket

namespace Scene

variable {ω η : Type}

/-- Whether the polls of a round would tell these usages by uid, none where nothing is answered. -/
def Hears (peers : Peers ω η) (scene : Scene ω η) (answers : Nat → Option Nat) : Prop :=
  ∀ poll ∈ (pollAll peers scene.fleet.members.toList scene.world).1, poll.2.usage? = answers poll.1

/-- What the answer to a poll makes of an instance. -/
def settled (answer : Option Nat) (slot : Option Account × Option η) :
    Option Account × Option η :=
  match answer with
  | some usage => (slot.1.map fun a => { a with usages := a.usages.add usage }, slot.2)
  | none => (none, none)

section Polling

variable {peers : Peers ω η} {scene : Scene ω η} {answers : Nat → Option Nat}

/-- A response concerns the instance that it is from. -/
theorem slot_settlePoll (peers : Peers ω η) (scene : Scene ω η)
    (poll : Nat × Response UsageReport) (uid : Nat) :
    (settlePoll peers scene poll).fleet.slot uid =
      if poll.1 = uid then settled poll.2.usage? (scene.fleet.slot uid)
      else scene.fleet.slot uid := by
  obtain ⟨other, response⟩ := poll
  cases response with
  | answered report =>
    have hfind := Market.account?_reportUsage scene.fleet.market other report.usage uid
    simp only [settlePoll, Response.outcome, Response.usage?, settled, Fleet.slot, hfind]
    split
    next heq => rw [heq]
    next => rfl
  | failed error => exact Fleet.slot_of_erase rfl rfl uid
  | silent => exact Fleet.slot_of_erase rfl rfl uid

/-- The answer to a poll keeps the configuration of the market. -/
theorem config_settlePoll (peers : Peers ω η) (scene : Scene ω η)
    (poll : Nat × Response UsageReport) :
    (settlePoll peers scene poll).fleet.market.config = scene.fleet.market.config := by
  obtain ⟨uid, response⟩ := poll
  cases response <;> rfl

/-- When nobody is asked twice, everyone who was asked is settled by its own answer. -/
theorem slot_foldl_settlePoll {responses : List (Nat × Response UsageReport)}
    (hnodup : (responses.map (·.1)).Nodup)
    (hanswers : ∀ poll ∈ responses, poll.2.usage? = answers poll.1) (uid : Nat) :
    (responses.foldl (settlePoll peers) scene).fleet.slot uid =
      if uid ∈ responses.map (·.1) then settled (answers uid) (scene.fleet.slot uid)
      else scene.fleet.slot uid := by
  induction responses generalizing scene with
  | nil => rfl
  | cons poll rest ih =>
    obtain ⟨hother, hnodup⟩ := List.nodup_cons.1 hnodup
    have hrest : ∀ other ∈ rest, other.2.usage? = answers other.1 :=
      fun other hmem => hanswers other (List.mem_cons_of_mem _ hmem)
    rw [List.foldl_cons, ih hnodup hrest, slot_settlePoll, hanswers poll List.mem_cons_self]
    by_cases heq : poll.1 = uid
    · subst heq
      have hmem : poll.1 ∈ (poll :: rest).map (·.1) := List.mem_cons_self
      rw [if_neg hother, if_pos rfl, if_pos hmem]
    · have hiff : uid ∈ (poll :: rest).map (·.1) ↔ uid ∈ rest.map (·.1) := by
        rw [List.map_cons, List.mem_cons, or_iff_right (Ne.symm heq)]
      simp only [if_neg heq, hiff]

/-- The answers to all polls keep the configuration of the market. -/
theorem config_foldl_settlePoll (responses : List (Nat × Response UsageReport)) :
    (responses.foldl (settlePoll peers) scene).fleet.market.config = scene.fleet.market.config := by
  induction responses generalizing scene with
  | nil => rfl
  | cons poll rest ih => exact ih.trans (config_settlePoll peers scene poll)

/-- Polling as a whole keeps the configuration of the market. -/
theorem config_polled (peers : Peers ω η) (scene : Scene ω η) :
    (scene.polled peers).fleet.market.config = scene.fleet.market.config :=
  config_foldl_settlePoll _

/-- The polls of a round settle the members, each by its answer. -/
theorem slot_polled (h : scene.Hears peers answers) (uid : Nat) :
    (scene.polled peers).fleet.slot uid =
      if (scene.fleet.slot uid).2.isSome then settled (answers uid) (scene.fleet.slot uid)
      else scene.fleet.slot uid := by
  have huids : (pollAll peers scene.fleet.members.toList scene.world).1.map (·.1) =
      scene.fleet.members.toList.map (·.1) := map_fst_pollAll _ _
  have hmem : uid ∈ (pollAll peers scene.fleet.members.toList scene.world).1.map (·.1) ↔
      (scene.fleet.slot uid).2.isSome := by
    rw [huids, Std.TreeMap.map_fst_toList_eq_keys, Std.TreeMap.mem_keys, Fleet.mem_members_iff]
  have hnodup : ((pollAll peers scene.fleet.members.toList scene.world).1.map (·.1)).Nodup := by
    rw [huids]
    exact nodup_uids_members scene.fleet.members
  refine (slot_foldl_settlePoll hnodup h uid).trans ?_
  simp only [hmem]

/-- Who is a member after the polls was the same one before. -/
theorem member_of_polled (h : scene.Hears peers answers) {uid : Nat} {peer : η}
    (hfind : ((scene.polled peers).fleet.slot uid).2 = some peer) :
    (scene.fleet.slot uid).2 = some peer := by
  rw [slot_polled h] at hfind
  split at hfind
  · cases hanswer : answers uid with
    | none =>
      rw [hanswer] at hfind
      cases hfind
    | some usage =>
      rw [hanswer] at hfind
      exact hfind
  · exact hfind

end Polling

/-- Whether or not those who would not answer are taken out before, the polls leave the same market
and the same members. -/
theorem alike_polled {ω' : Type} {peers : Peers ω η} {peers' : Peers ω' η} {scene : Scene ω η}
    {scene' : Scene ω' η} {answers : Nat → Option Nat} {gone : List Nat}
    (hheard : scene.Hears peers answers) (hheard' : scene'.Hears peers' answers)
    (hgone : ∀ uid ∈ gone, uid ∈ scene.fleet.members ∧ answers uid = none)
    (hconfig : scene'.fleet.market.config = scene.fleet.market.config)
    (hslot : ∀ uid, scene'.fleet.slot uid =
      if uid ∈ gone then (none, none) else scene.fleet.slot uid) :
    (scene.polled peers).fleet.Alike (scene'.polled peers').fleet := by
  constructor
  · rw [config_polled, config_polled, hconfig]
  · intro uid
    rw [slot_polled hheard, slot_polled hheard', hslot]
    by_cases hmem : uid ∈ gone
    · obtain ⟨hmember, hsilent⟩ := hgone uid hmem
      rw [Fleet.mem_members_iff] at hmember
      simp only [if_pos hmem, if_pos hmember, hsilent, settled, Option.isSome_none,
        Bool.false_eq_true, if_false]
    · rw [if_neg hmem]

/-! ## Pushing -/

/-- The sizes that were sent, the first one first, each with its ticket. -/
def sizesSent (scene : Recorded ω η) : List (Nat × Nat) :=
  scene.contacts.reverse.filterMap Contact.sizeSent?

/-- The tickets under which a size was not accepted, the latest first. -/
def refusals (scene : Recorded ω η) : List Nat := scene.contacts.filterMap Contact.refusal?

/-- The size that the market has for an instance, with its uid. -/
def allotment? (fleet : Fleet (Nat × η)) (member : Nat × Nat × η) : Option (Nat × Nat) :=
  (fleet.allocation? member.1).map fun size => (member.1, size)

/-- The state of a fleet while allocations are pushed, after some members were served: each was sent
its allocation, and the only ones missing are among them, those that did not accept. -/
structure Serving (first scene : Recorded ω η) (served : List (Nat × Nat × η)) : Prop where
  config_eq : scene.fleet.market.config = first.fleet.market.config
  slot_eq : ∀ uid, scene.fleet.slot uid =
    if uid ∈ scene.refusals then (none, none) else first.fleet.slot uid
  sizesSent_eq : scene.sizesSent = served.filterMap (allotment? first.fleet)
  refusals_subset : scene.refusals ⊆ served.map (·.1)

section Pushing

variable {peers : Peers ω η} {first scene : Recorded ω η} {served : List (Nat × Nat × η)}

/-- One more push sends one more size, after those before. -/
theorem sizesSent_of_pushed {after : Recorded ω η} {ticket size : Nat} {accepted : Bool}
    (hsent : after.contacts = .pushed ticket size accepted :: scene.contacts) :
    after.sizesSent = scene.sizesSent ++ [(ticket, size)] := by
  rw [sizesSent, hsent, List.reverse_cons, List.filterMap_append]
  rfl

/-- One more push is refused when it is not accepted, besides those that were. -/
theorem mem_refusals_of_pushed {after : Recorded ω η} {ticket size uid : Nat} {accepted : Bool}
    (hsent : after.contacts = .pushed ticket size accepted :: scene.contacts) :
    uid ∈ after.refusals ↔ accepted = false ∧ uid = ticket ∨ uid ∈ scene.refusals := by
  rw [refusals, hsent]
  cases accepted with
  | true => exact ⟨.inr, fun h => h.resolve_left fun hfalse => nomatch hfalse.1⟩
  | false => simp only [List.filterMap_cons, Contact.refusal?, List.mem_cons, true_and, refusals]

/-- An instance is served when its allocation is sent to it. It is missing if it does not accept. -/
theorem Serving.send {after : Recorded ω η} {uid size : Nat} {peer : η} {accepted : Bool}
    (h : first.Serving scene served)
    (hallotment : allotment? first.fleet (uid, uid, peer) = some (uid, size))
    (hsent : after.contacts = .pushed uid size accepted :: scene.contacts)
    (hconfig : after.fleet.market.config = scene.fleet.market.config)
    (hslot : ∀ other, after.fleet.slot other =
      if accepted = false ∧ other = uid then (none, none) else scene.fleet.slot other) :
    first.Serving after (served ++ [(uid, uid, peer)]) := by
  refine ⟨hconfig.trans h.config_eq, fun other => ?_, ?_, fun other hmem => ?_⟩
  · rw [hslot, h.slot_eq]
    simp only [mem_refusals_of_pushed hsent]
    split
    next hrefused => rw [if_pos (.inl hrefused)]
    next hnot => simp only [or_iff_right hnot]
  · rw [sizesSent_of_pushed hsent, h.sizesSent_eq, List.filterMap_append,
      List.filterMap_cons_some hallotment, List.filterMap_nil]
  · rw [List.map_append, List.mem_append]
    rcases (mem_refusals_of_pushed hsent).1 hmem with ⟨_, rfl⟩ | hmem
    · exact .inr List.mem_cons_self
    · exact .inl (h.refusals_subset hmem)

/-- A push sends the size that the instance had before all pushes, whatever became of the others. -/
theorem Serving.pushTo {uid : Nat} {peer : η} (h : first.Serving scene served)
    (huid : uid ∉ served.map (·.1)) :
    first.Serving (Scene.pushTo peers.recorded scene (uid, uid, peer))
      (served ++ [(uid, uid, peer)]) := by
  have hfirst : scene.fleet.market.account? uid = first.fleet.market.account? uid := by
    have hslot := h.slot_eq uid
    rw [if_neg fun hmem => huid (h.refusals_subset hmem)] at hslot
    exact congrArg Prod.fst hslot
  have hallotment : allotment? first.fleet (uid, uid, peer) =
      (scene.fleet.market.account? uid).map fun account => (uid, account.size) := by
    rw [allotment?, Fleet.allocation?, hfirst, Option.map_map]
    rfl
  rcases pushTo_cases peers scene uid peer with
    ⟨hnone, heq⟩ | ⟨account, hfind, _, _, ⟨hsent, hmarket, hmembers⟩ | ⟨hsent, hmarket, hmembers⟩⟩
  · rw [hnone] at hallotment
    rw [heq]
    refine ⟨h.config_eq, h.slot_eq, ?_, ?_⟩
    · rw [h.sizesSent_eq, List.filterMap_append, List.filterMap_cons_none hallotment,
        List.filterMap_nil, List.append_nil]
    · rw [List.map_append]
      exact List.subset_append_of_subset_left _ h.refusals_subset
  · rw [hfind] at hallotment
    apply h.send hallotment hsent
    · rw [hmarket]
    · intro other
      simp only [Bool.true_eq_false, false_and, if_false]
      exact Fleet.slot_congr hmarket hmembers other
  · rw [hfind] at hallotment
    apply h.send hallotment hsent
    · rw [hmarket]
      rfl
    · intro other
      simpa only [true_and, eq_comm] using Fleet.slot_of_erase hmarket hmembers other

/-- Members with different uids are served one after the other. -/
theorem Serving.foldl_pushTo {members : List (Nat × Nat × η)} (h : first.Serving scene served)
    (hnodup : ((served ++ members).map (·.1)).Nodup)
    (htickets : ∀ member ∈ members, member.2.1 = member.1) :
    first.Serving (members.foldl (Scene.pushTo peers.recorded) scene) (served ++ members) := by
  induction members generalizing scene served with
  | nil =>
    rw [List.append_nil]
    exact h
  | cons member rest ih =>
    obtain ⟨uid, ticket, peer⟩ := member
    obtain rfl : ticket = uid := htickets _ List.mem_cons_self
    have hfresh : ticket ∉ served.map (·.1) := by
      rw [List.map_append, List.nodup_append] at hnodup
      exact fun hmem => hnodup.2.2 ticket hmem ticket List.mem_cons_self rfl
    rw [List.append_cons] at hnodup ⊢
    exact ih (h.pushTo hfresh) hnodup fun member hmem =>
      htickets member (List.mem_cons_of_mem _ hmem)

end Pushing

/-! ## Rounds -/

/-- The instances after the market divided the pool. -/
def sold (scene : Scene ω η) (market : Market) : Scene ω η :=
  { scene with fleet := { scene.fleet with market } }

/-- What is left of a round once the market divided the pool. -/
def deal (peers : Peers ω η) (elapsed : Duration) (scene : Scene ω η)
    (result : RoundReport × Market) : RoundReport × Scene ω η :=
  let sold := scene.sold result.2
  let served := (moved sold.fleet).foldl (pushTo peers) sold
  (result.1, { served with fleet := conclude elapsed result.1 served.fleet })

/-- A round polls, has the market divide the pool, and deals out what came of it. -/
theorem roundWith_eq_map (peers : Peers ω η) (target : Account → Nat) (elapsed : Duration)
    (scene : Scene ω η) :
    scene.roundWith peers target elapsed =
      ((scene.polled peers).fleet.market.runWith target).map
        ((scene.polled peers).deal peers elapsed) := by
  change (scene.polled peers).fleet.market.runWith target >>= _ = _
  cases (scene.polled peers).fleet.market.runWith target with
  | error fault => rfl
  | ok result => rfl

section Rounds

variable {peers : Peers ω η} {scene : Recorded ω η}

/-- Asking instances for their usage puts polls on record. -/
theorem mem_or_eq_polled_of_mem_pollAll {members : List (Nat × Nat × η)} {world : ω × List Contact}
    {contact : Contact} (hmem : contact ∈ (pollAll peers.recorded members world).2.2) :
    contact ∈ world.2 ∨ ∃ ticket answered, contact = .polled ticket answered := by
  induction members generalizing world with
  | nil => exact .inl hmem
  | cons member rest ih =>
    rcases ih hmem with hmem | hpolled
    · rcases List.mem_cons.1 hmem with heq | hmem
      · exact .inr ⟨_, _, heq⟩
      · exact .inl hmem
    · exact .inr hpolled

/-- The responses to polls lead to nothing that is put on record. -/
theorem contacts_foldl_settlePoll (responses : List (Nat × Response UsageReport)) :
    (responses.foldl (settlePoll peers.recorded) scene).contacts = scene.contacts := by
  induction responses generalizing scene with
  | nil => rfl
  | cons poll rest ih =>
    refine ih.trans ?_
    obtain ⟨uid, response⟩ := poll
    cases response with
    | answered report => rfl
    | failed error => exact contacts_dropDead scene uid _
    | silent => exact contacts_dropDead scene uid _

/-- Only polls are put on record before allocations are pushed. -/
theorem eq_polled_of_mem_contacts (hnone : scene.contacts = []) {contact : Contact}
    (hmem : contact ∈ (scene.polled peers.recorded).contacts) :
    ∃ ticket answered, contact = .polled ticket answered := by
  unfold polled at hmem
  rw [contacts_foldl_settlePoll] at hmem
  rcases mem_or_eq_polled_of_mem_pollAll hmem with hmem | hpolled
  · have hempty : scene.world.2 = [] := hnone
    rw [hempty] at hmem
    cases hmem
  · exact hpolled

/-- Before allocations are pushed, no size is on record and the members are reached under their
uids. -/
structure Ready (scene : Recorded ω η) : Prop where
  sizesSent_eq : scene.sizesSent = []
  refusals_eq : scene.refusals = []
  tickets : ∀ uid member, (scene.fleet.slot uid).2 = some member → member.1 = uid

/-- Everyone whose allocation moved is served. -/
theorem Ready.serving_deal (h : scene.Ready) (peers : Peers ω η) (elapsed : Duration)
    (report : RoundReport) (market : Market) :
    (scene.sold market).Serving (scene.deal peers.recorded elapsed (report, market)).2
      (moved (scene.sold market).fleet) := by
  have hsold : (scene.sold market).Serving (scene.sold market) [] := by
    have hrefusals : (scene.sold market).refusals = [] := h.refusals_eq
    refine ⟨rfl, fun uid => ?_, h.sizesSent_eq, ?_⟩
    · rw [hrefusals, if_neg List.not_mem_nil]
    · rw [hrefusals]
      exact List.nil_subset _
  have hserved : (scene.sold market).Serving
      ((moved (scene.sold market).fleet).foldl (pushTo peers.recorded) (scene.sold market))
      ([] ++ moved (scene.sold market).fleet) := by
    apply hsold.foldl_pushTo
    · exact (nodup_uids_members scene.fleet.members).sublist (List.filter_sublist.map _)
    · intro member hmem
      apply h.tickets member.1 member.2
      exact Std.TreeMap.mem_toList_iff_getElem?_eq_some.1 (List.mem_of_mem_filter hmem)
  exact ⟨hserved.config_eq, hserved.slot_eq, hserved.sizesSent_eq, hserved.refusals_subset⟩

end Rounds

end Scene

/-! ## What is left of a round -/

/-- What a round reports, what it leaves in the market and in the table of the members, and which
sizes it sent. -/
structure RoundTrace (η : Type) where
  report : RoundReport
  config : MarketConfig
  accounts : List (Nat × Account)
  members : List (Nat × η)
  sizesSent : List (Nat × Nat)

/-- A round after which some instances are missing in addition. -/
def RoundTrace.without {η : Type} (trace : RoundTrace η) (uids : List Nat) : RoundTrace η :=
  { trace with
    accounts := trace.accounts.filter fun entry => entry.1 ∉ uids
    members := trace.members.filter fun entry => entry.1 ∉ uids }

/-- Leaving out no instance leaves a round as it was. -/
theorem RoundTrace.without_nil {η : Type} (trace : RoundTrace η) : trace.without [] = trace := by
  simp only [without, List.not_mem_nil, not_false_eq_true, decide_true, List.filter_true]

/-- A table that has the entries of another one under some keys only lists just these. -/
theorem toList_eq_filter {α : Type} {table table' : Std.TreeMap Nat α} {missing : List Nat}
    (h : ∀ uid, table[uid]? = if uid ∈ missing then none else table'[uid]?) :
    table.toList = table'.toList.filter fun entry => entry.1 ∉ missing := by
  have hequiv : table.Equiv (table'.filter fun uid _ => uid ∉ missing) := by
    refine .of_forall_constGet?_eq fun uid => ?_
    rw [h, Std.TreeMap.getElem?_filter']
    cases table'[uid]? <;> simp [Option.filter]
  rw [hequiv.toList_eq, Std.TreeMap.toList_filter]

namespace Scene

variable {ω ω' η : Type}

/-- What is left of a round with this report and the requests on record. -/
def trace (report : RoundReport) (scene : Recorded ω η) : RoundTrace (Nat × η) where
  report
  config := scene.fleet.market.config
  accounts := scene.fleet.market.accounts.toList
  members := scene.fleet.members.toList
  sizesSent := scene.sizesSent

/-- When alike fleets serve the same members, the sizes sent are the same, and the instances that
accepted in one of them only are all that they differ in. -/
theorem Serving.trace_eq {first scene : Recorded ω η} {first' scene' : Recorded ω' η}
    {served : List (Nat × Nat × η)} (h : first.Serving scene served)
    (h' : first'.Serving scene' served) (halike : first.fleet.Alike first'.fleet)
    (hsubset : scene'.refusals ⊆ scene.refusals) (report : RoundReport) :
    scene.trace report = (scene'.trace report).without scene.refusals := by
  have hslot (uid : Nat) : scene.fleet.slot uid =
      if uid ∈ scene.refusals then (none, none) else scene'.fleet.slot uid := by
    rw [h.slot_eq, h'.slot_eq, halike.slot_eq]
    split
    next => rfl
    next hkept => rw [if_neg fun hmem => hkept (hsubset hmem)]
  have hconfig : scene.fleet.market.config = scene'.fleet.market.config := by
    rw [h.config_eq, h'.config_eq, halike.config_eq]
  have haccounts : scene.fleet.market.accounts.toList =
      scene'.fleet.market.accounts.toList.filter fun entry => entry.1 ∉ scene.refusals := by
    refine toList_eq_filter fun uid => (congrArg Prod.fst (hslot uid)).trans ?_
    split <;> rfl
  have hmembers : scene.fleet.members.toList =
      scene'.fleet.members.toList.filter fun entry => entry.1 ∉ scene.refusals := by
    refine toList_eq_filter fun uid => (congrArg Prod.snd (hslot uid)).trans ?_
    split <;> rfl
  have hsizes : scene.sizesSent = scene'.sizesSent := by
    have hallotment : allotment? first.fleet = allotment? first'.fleet := by
      funext member
      rw [allotment?, allotment?, Fleet.allocation?, Fleet.allocation?, halike.account?_eq]
    rw [h.sizesSent_eq, h'.sizesSent_eq, hallotment]
  simp only [trace, RoundTrace.without, hconfig, haccounts, hmembers, hsizes]

/-- A fleet whose requests are put on record from now on. -/
def onRecord (fleet : Fleet η) (world : ω) : Recorded ω η := ⟨fleet.ticketed, world, []⟩

/-- The polls of a round leave a fleet ready. -/
theorem ready_polled {peers : Peers ω η} {fleet : Fleet η} {world : ω} {answers : Nat → Option Nat}
    (h : (onRecord fleet world).Hears peers.recorded answers) :
    ((onRecord fleet world).polled peers.recorded).Ready := by
  constructor
  · refine List.filterMap_eq_nil_iff.2 fun contact hmem => ?_
    obtain ⟨_, _, rfl⟩ := eq_polled_of_mem_contacts rfl (List.mem_reverse.1 hmem)
    rfl
  · refine List.filterMap_eq_nil_iff.2 fun contact hmem => ?_
    obtain ⟨_, _, rfl⟩ := eq_polled_of_mem_contacts rfl hmem
    rfl
  · intro uid member hfind
    have hbefore : (fleet.ticketed.slot uid).2 = some member := member_of_polled h hfind
    rw [Fleet.slot_ticketed] at hbefore
    obtain ⟨peer, _, rfl⟩ := Option.map_eq_some_iff.1 hbefore
    rfl

/-- Rounds whose polls leave fleets alike have the same fault, or the same report and the same trace
but for the instances that accepted in one of them only. -/
theorem rounds_agree {peers : Peers ω η} {peers' : Peers ω' η} {scene : Recorded ω η}
    {scene' : Recorded ω' η} (halike : (scene.polled peers.recorded).fleet.Alike
      (scene'.polled peers'.recorded).fleet)
    (hready : (scene.polled peers.recorded).Ready) (hready' : (scene'.polled peers'.recorded).Ready)
    (target : Account → Nat) (elapsed elapsed' : Duration) :
    (∃ fault, scene.roundWith peers.recorded target elapsed = .error fault ∧
        scene'.roundWith peers'.recorded target elapsed' = .error fault) ∨
      ∃ report after after', scene.roundWith peers.recorded target elapsed = .ok (report, after) ∧
        scene'.roundWith peers'.recorded target elapsed' = .ok (report, after') ∧
        (after'.refusals ⊆ after.refusals →
          after.trace report = (after'.trace report).without after.refusals) := by
  rw [roundWith_eq_map, roundWith_eq_map]
  rcases Market.runWith_congr halike.config_eq halike.toList_accounts target with
    ⟨fault, hrun, hrun'⟩ | ⟨report, market, market', hrun, hrun', hconfig, haccounts⟩
  · rw [hrun, hrun']
    exact .inl ⟨fault, rfl, rfl⟩
  · rw [hrun, hrun']
    refine .inr ⟨report, _, _, rfl, rfl, fun hsubset => ?_⟩
    have hsold : ((scene.polled peers.recorded).sold market).fleet.Alike
        ((scene'.polled peers'.recorded).sold market').fleet := by
      refine ⟨hconfig, fun uid => ?_⟩
      have hmember := congrArg Prod.snd (halike.slot_eq uid)
      exact Prod.ext (Std.TreeMap.equiv_iff_toList_eq.2 haccounts).getElem?_eq hmember
    have hserved := hready.serving_deal peers elapsed report market
    have hserved' := hready'.serving_deal peers' elapsed' report market'
    rw [← hsold.moved_eq] at hserved'
    exact hserved.trace_eq hserved' hsold hsubset report

/-- **Dead instances.** Some members of a fleet do not answer their polls. Compare a round with a
round after some of them, or all, were taken out, in which the others tell the same usages; the
instances may be different ones in all other respects, and their targets may be any that follow from
the configuration. One round has a fault when the other one has it. When every size is accepted in
both, they report the same, leave the same market and the same members, and send the same sizes in
the same order. And when more sizes are refused in the first one, then it sends the same sizes
still, and it differs from the other one in the absence of those who refused. -/
theorem dead_instances_leave_no_trace {peers : Peers ω η} {peers' : Peers ω' η} {fleet : Fleet η}
    {world : ω} {world' : ω'} {answers : Nat → Option Nat} {gone : List Nat}
    (hgone : ∀ uid ∈ gone, uid ∈ fleet.members ∧ answers uid = none)
    (hheard : (onRecord fleet world).Hears peers.recorded answers)
    (hheard' : (onRecord (fleet.without gone) world').Hears peers'.recorded answers)
    (target : MarketConfig → Account → Nat) (elapsed elapsed' : Duration) :
    let full := (onRecord fleet world).roundWith peers.recorded (target fleet.market.config) elapsed
    let rest := (onRecord (fleet.without gone) world').roundWith peers'.recorded
      (target (fleet.without gone).market.config) elapsed'
    (∀ fault, full = .error fault ↔ rest = .error fault) ∧
      ∀ report scene report' scene', full = .ok (report, scene) → rest = .ok (report', scene') →
        (scene.refusals = [] → scene'.refusals = [] → scene.trace report = scene'.trace report') ∧
        ((∀ uid ∈ scene'.refusals, uid ∈ scene.refusals) →
          scene.trace report = (scene'.trace report').without scene.refusals) := by
  intro full rest
  have hpolled : ((onRecord fleet world).polled peers.recorded).fleet.Alike
      ((onRecord (fleet.without gone) world').polled peers'.recorded).fleet := by
    have hmembers : ∀ uid ∈ gone, uid ∈ fleet.ticketed.members ∧ answers uid = none :=
      fun uid hmem => (hgone uid hmem).imp_left Std.TreeMap.mem_map.2
    apply alike_polled hheard hheard' hmembers (Fleet.config_without fleet gone)
    intro uid
    change (fleet.without gone).ticketed.slot uid =
      if uid ∈ gone then (none, none) else fleet.ticketed.slot uid
    rw [Fleet.slot_ticketed, Fleet.slot_ticketed, Fleet.slot_without]
    split <;> rfl
  have hrounds := rounds_agree hpolled (ready_polled hheard) (ready_polled hheard')
    (target fleet.market.config) elapsed elapsed'
  have hrest : rest = (onRecord (fleet.without gone) world').roundWith peers'.recorded
      (target fleet.market.config) elapsed' := by
    rw [← Fleet.config_without fleet gone]
  rw [← hrest] at hrounds
  change (∃ fault, full = _ ∧ _) ∨ ∃ report after after', full = _ ∧ _ at hrounds
  clear_value full rest
  rcases hrounds with ⟨fault, rfl, rfl⟩ | ⟨report, after, after', rfl, rfl, htrace⟩
  · refine ⟨fun other => ?_, fun _ _ _ _ hfull => nomatch hfull⟩
    rw [Except.error.injEq, Except.error.injEq]
  · refine ⟨fun fault => ⟨nofun, nofun⟩, ?_⟩
    rintro _ _ _ _ ⟨⟩ ⟨⟩
    refine ⟨fun hnone hnone' => ?_, htrace⟩
    have hsame := htrace fun uid hmem => by rwa [hnone', ← hnone] at hmem
    rwa [hnone, RoundTrace.without_nil] at hsame

/-- Instances that use 5 bytes. Some do not answer polls, and some take no allocation. -/
def frailPeers : Peers Unit (Bool × Bool) where
  poll peer world := (if peer.1 then .answered { usage := 5 } else .silent, world)
  push peer _ world :=
    (if peer.2 then .answered () else .failed (.protocol "update refused"), world)
  stop _ world := world

/-- Instances that answer everything. -/
def soundPeers : Peers Unit (Bool × Bool) where
  poll _ world := (.answered { usage := 5 }, world)
  push _ _ world := (.answered (), world)
  stop _ world := world

/-- Three instances of which the second answers no poll and the third takes no allocation. -/
def frailFleet : Fleet (Bool × Bool) where
  config := smallConfig
  market := {
    config := smallConfig.market
    accounts := (∅ : Std.TreeMap Nat Account).insertMany
      [(1, (⟨30, 0, 0, 0, ⟨[0], 10⟩, 0⟩ : Account)), (2, ⟨20, 0, 0, 0, ⟨[0], 10⟩, 0⟩),
        (3, ⟨20, 0, 0, 0, ⟨[0], 10⟩, 0⟩)] }
  members := (∅ : Std.TreeMap Nat (Bool × Bool)).insertMany
    [(1, (true, true)), (2, (false, true)), (3, (true, false))]
  nextUid := 4

/-- The second instance is dropped, and the first and the third one are sent half of the pool. The
third one refuses and is dropped as well, of which the first one takes no notice. -/
theorem dead_instances_leave_no_trace_of_three :
    ∃ report scene scene',
      (onRecord frailFleet ()).roundWith frailPeers.recorded (fun _ => 40) .zero =
        .ok (report, scene) ∧
      (onRecord (frailFleet.without [2]) ()).roundWith soundPeers.recorded (fun _ => 40) .zero =
        .ok (report, scene') ∧
      scene.sizesSent = [(1, 50), (3, 50)] ∧ scene.refusals = [3] ∧ scene'.refusals = [] ∧
      scene.trace report = (scene'.trace report).without [3] := by
  let answers (uid : Nat) : Option Nat := if uid = 2 then none else some 5
  have hgone : ∀ uid ∈ [2], uid ∈ frailFleet.members ∧ answers uid = none := by decide
  have hheard : (onRecord frailFleet ()).Hears frailPeers.recorded answers := by
    unfold Hears
    decide +kernel
  have hheard' : (onRecord (frailFleet.without [2]) ()).Hears soundPeers.recorded answers := by
    unfold Hears
    decide +kernel
  have hfull : ((onRecord frailFleet ()).roundWith frailPeers.recorded (fun _ => 40) .zero).map
      (fun (_, scene) => (scene.sizesSent, scene.refusals)) = .ok ([(1, 50), (3, 50)], [3]) := by
    decide +kernel
  have hrest : ((onRecord (frailFleet.without [2]) ()).roundWith soundPeers.recorded (fun _ => 40)
      .zero).map (fun (_, scene) => scene.refusals) = .ok [] := by
    decide +kernel
  have hcompared := dead_instances_leave_no_trace hgone hheard hheard' (fun _ _ => 40) .zero .zero
  dsimp only at hcompared
  cases hround : (onRecord frailFleet ()).roundWith frailPeers.recorded (fun _ => 40) .zero with
  | error fault => rw [hround] at hfull; cases hfull
  | ok result =>
    cases hround' : (onRecord (frailFleet.without [2]) ()).roundWith soundPeers.recorded
        (fun _ => 40) .zero with
    | error fault => rw [hround'] at hrest; cases hrest
    | ok result' =>
      obtain ⟨report, scene⟩ := result
      obtain ⟨report', scene'⟩ := result'
      rw [hround] at hfull
      rw [hround'] at hrest
      obtain ⟨hsent, hrefused⟩ := Prod.mk.inj (Except.ok.inj hfull)
      have hnone : scene'.refusals = [] := Except.ok.inj hrest
      obtain ⟨_, hbetween⟩ := hcompared
      obtain ⟨_, htrace⟩ := hbetween report scene report' scene' hround hround'
      have hsame := htrace fun uid hmem => by
        rw [hnone] at hmem
        cases hmem
      obtain rfl : report = report' := congrArg RoundTrace.report hsame
      rw [hrefused] at hsame
      exact ⟨report, scene, scene', rfl, rfl, hsent, hrefused, hnone, hsame⟩

end Scene

end ElasticCache
