import ElasticCache.Proofs.Market.Redistribution

/-!
# Auctions in which all credit fits

As long as the base sale leaves enough for all that the buyers ordered and can pay, everyone buys
just that, in windows of any size. Auctions with different windows still end at different points:
when the credit is exactly what was left, a buyer that ran out of it may have gone away unpaid, or
the pool may have ended before its next turn. But then nothing is left to give to anyone, so that
the rounds end alike.
-/

namespace ElasticCache

namespace Participant

/-- Bytes that an instance ordered and can pay. -/
def affordable (p : Participant) : Nat := min p.order p.account.wallet

/-- An instance that bought all that it ordered and could pay, with the rest of its order unpaid. -/
def satisfied (p : Participant) : Participant where
  uid := p.uid
  account := { p.account with wallet := p.account.wallet - p.affordable }
  bought := p.bought + p.affordable
  order := 0
  unmet := p.order - p.account.wallet

/-- An instance with what it has got, whatever it still wants. -/
def settled (p : Participant) : Participant := { p with order := 0, unmet := 0 }

end Participant

/-- What all participants ordered and can pay. -/
def totalAffordable (participants : List Participant) : Nat :=
  (participants.map Participant.affordable).sum

section Settled

variable {participants participants' : List Participant}

/-- What the participants have got between them is seen without what they still want. -/
theorem totalBought_congr
    (h : participants.map Participant.settled = participants'.map Participant.settled) :
    totalBought participants = totalBought participants' := by
  have hsettled (participants : List Participant) : totalBought participants =
      ((participants.map Participant.settled).map (·.bought)).sum := by
    rw [List.map_map]
    rfl
  rw [hsettled, hsettled, h]

/-- Two phases that begin with the same till and give as much end with the same till. -/
theorem Moves.till_eq {before after before' after' : List Participant} {till till₁ till₂ : Till}
    (h : Moves before till after till₁) (h' : Moves before' till after' till₂)
    (hbefore : totalBought before' = totalBought before)
    (hafter : totalBought after' = totalBought after) : till₂ = till₁ := by
  obtain ⟨hremaining, hsold, -⟩ := h
  obtain ⟨hremaining', hsold', -⟩ := h'
  obtain ⟨remaining₁, sold₁⟩ := till₁
  obtain ⟨remaining₂, sold₂⟩ := till₂
  simp only [Till.mk.injEq]
  dsimp only at *
  omega

/-- The even split does not see what the participants still want. -/
theorem splitEvenly_congr
    (h : participants.map Participant.settled = participants'.map Participant.settled)
    (share extra given : Nat) :
    splitEvenly share extra participants given = splitEvenly share extra participants' given := by
  have hsettled (participants : List Participant) (extra given : Nat) :
      splitEvenly share extra participants given =
        splitEvenly share extra (participants.map Participant.settled) given := by
    induction participants generalizing extra given with
    | nil => rfl
    | cons p rest ih =>
      simp only [List.map_cons, splitEvenly, ih]
      rfl
  rw [hsettled, hsettled participants', h]

end Settled

section Auction

variable {window : Nat} {participants : List Participant} {till : Till} {closed : Auction}

/-- When all credit fits, everyone buys all that it ordered and can pay. If that used up the pool,
nobody can have bought less than it could pay. -/
theorem gain_eq_affordable (hwindow : window ≠ 0)
    (hfits : totalAffordable participants ≤ till.remaining)
    (houtcome : closed.Outcome window participants)
    (h : runAuction window ⟨participants, till.next, 0⟩ = .ok closed) :
    ∀ t ∈ trades participants closed.participants, t.gain = t.before.affordable := by
  obtain ⟨hended, ⟨_, hstands⟩, -⟩ := houtcome
  have hall := forall_mem_trades hstands
  rcases hended with hsoldOut | hnobody
  · have hgains := sum_gain (hstands.imp fun _ _ h => h.bought_le)
    have hremaining := (runAuction_moves h).remaining
    have haffordable : ((trades participants closed.participants).map fun t =>
        t.before.affordable).sum = totalAffordable participants := by
      rw [totalAffordable]
      nth_rewrite 2 [← (map_trades hstands).1]
      rw [List.map_map]
      rfl
    have hle (t : Trade) (ht : t ∈ trades participants closed.participants) :
        t.gain ≤ t.before.affordable :=
      Nat.le_min.2 ⟨(hall t ht).pays.le_order, (hall t ht).pays.le_wallet⟩
    by_contra hless
    simp only [not_forall] at hless
    obtain ⟨t, ht, hne⟩ := hless
    have hlt := List.sum_lt_sum Trade.gain (fun t => t.before.affordable) hle
      ⟨t, ht, Nat.lt_of_le_of_ne (hle t ht) hne⟩
    dsimp only [Till.next] at hremaining
    omega
  · intro t ht
    exact ((hall t ht).gain_eq hwindow
      (order_eq_zero_of_countBuyers hnobody (mem_of_mem_trades hstands ht).2)).1

/-- Everyone has got what a satisfied buyer has, and when bytes are left everyone is one. -/
theorem closed_eq_satisfied (hwindow : window ≠ 0)
    (hfits : totalAffordable participants ≤ till.remaining)
    (houtcome : closed.Outcome window participants)
    (h : runAuction window ⟨participants, till.next, 0⟩ = .ok closed) :
    closed.participants.map Participant.settled =
        (participants.map Participant.satisfied).map Participant.settled ∧
      (closed.till.remaining ≠ 0 →
        closed.participants = participants.map Participant.satisfied) := by
  have hgains := gain_eq_affordable hwindow hfits houtcome h
  obtain ⟨hended, ⟨_, hstands⟩, -⟩ := houtcome
  have hall := forall_mem_trades hstands
  obtain ⟨hbefore, hafter⟩ := map_trades hstands
  generalize trades participants closed.participants = trades at hgains hall hbefore hafter
  subst hbefore
  rw [← hafter]
  simp only [List.map_map]
  constructor
  · refine List.map_congr_left fun t ht => ?_
    obtain ⟨huid, haccount, hbought, -, -⟩ := (hall t ht).pays
    simp only [Function.comp_apply, Participant.settled, Participant.satisfied, huid, haccount,
      hbought, hgains t ht]
  · intro hleft
    refine List.map_congr_left fun t ht => ?_
    have hclosed : t.after.order = 0 :=
      order_eq_zero_of_countBuyers (hended.resolve_left hleft) (hafter ▸ List.mem_map_of_mem ht)
    obtain ⟨huid, haccount, hbought, -, -⟩ := (hall t ht).pays
    obtain ⟨-, hunmet⟩ := (hall t ht).gain_eq hwindow hclosed
    rw [hgains t ht] at haccount hbought
    obtain ⟨before, ⟨uid, account, bought, order, unmet⟩⟩ := t
    dsimp only at huid haccount hbought hclosed hunmet
    simp only [Function.comp_apply, Participant.satisfied, huid, haccount, hbought, hclosed, hunmet]

end Auction

namespace Market

/-- The same market with another window for its auctions. -/
def withWindow (market : Market) (window : Option Nat) : Market :=
  { market with config := { market.config with windowSize := window } }

/-- What the base sale leaves covers all that the buyers ordered and can pay. -/
def CreditFits (target : Account → Nat) (market : Market) : Prop :=
  ∃ opened till,
    sellBase market.config target market.accounts.toList ⟨market.config.poolSize, 0⟩ =
      .ok (opened, till) ∧ totalAffordable opened ≤ till.remaining

/-- The window has no part in the base sale. -/
theorem sellBase_withWindow (config : MarketConfig) (window : Option Nat) (target : Account → Nat)
    (accounts : List (Nat × Account)) (till : Till) :
    sellBase { config with windowSize := window } target accounts till =
      sellBase config target accounts till := by
  induction accounts generalizing till with
  | nil => rfl
  | cons entry rest ih =>
    simp only [sellBase, ih]
    rfl

namespace Phases

variable {target : Account → Nat} {market : Market}

/-- What all can pay is left when the auction opens. -/
theorem fits_of_creditFits (phases : market.Phases target) (h : market.CreditFits target) :
    totalAffordable phases.opened ≤ phases.base.remaining := by
  obtain ⟨opened, till, hsells, hfits⟩ := h
  obtain ⟨rfl, rfl⟩ : opened = phases.opened ∧ till = phases.base := by
    simpa using hsells.symm.trans phases.sells
  exact hfits

/-- After the auction everyone has got what a satisfied buyer has. -/
theorem closed_eq (phases : market.Phases target) (hpool : market.config.poolSize < longLimit)
    (hwindow : market.config.windowSize ≠ some 0)
    (hfits : totalAffordable phases.opened ≤ phases.base.remaining) :
    phases.auction.participants.map Participant.settled =
        (phases.opened.map Participant.satisfied).map Participant.settled ∧
      (phases.left ≠ 0 →
        phases.auction.participants = phases.opened.map Participant.satisfied) :=
  closed_eq_satisfied (mt windowFor_eq_zero_iff.1 hwindow) hfits (phases.outcome hpool)
    phases.auctions

/-- With nothing left everyone keeps what it has. -/
theorem served_of_left_eq_zero (phases : market.Phases target) (hleft : phases.left = 0) :
    phases.served = phases.auction.participants := by
  rw [phases.served_eq, hleft]
  refine List.map_id'' (fun p => ?_) _
  rw [Participant.topUp, Participant.share_eq_zero (.inl rfl), Nat.add_zero]

/-- Two rounds that begin alike have the same auction and redistribution, as far as the even split
sees them, when each satisfies its buyers. With nothing left they may leave different orders unpaid,
but none of these is given anything. -/
theorem agree {other : Market} (phases : market.Phases target) (phases' : other.Phases target)
    (hpool : market.config.poolSize < longLimit)
    (hpool' : other.config.poolSize < longLimit) (hwindow : market.config.windowSize ≠ some 0)
    (hwindow' : other.config.windowSize ≠ some 0) (hopened : phases'.opened = phases.opened)
    (hbase : phases'.base = phases.base)
    (hfits : totalAffordable phases.opened ≤ phases.base.remaining) :
    phases'.auction.till = phases.auction.till ∧ phases'.rest = phases.rest ∧
      phases'.served.map Participant.settled = phases.served.map Participant.settled := by
  obtain ⟨hclosed, hsatisfied⟩ := phases.closed_eq hpool hwindow hfits
  obtain ⟨hclosed', hsatisfied'⟩ :=
    phases'.closed_eq hpool' hwindow' (by rw [hopened, hbase]; exact hfits)
  rw [hopened, ← hclosed] at hclosed'
  have hauctions := runAuction_moves phases'.auctions
  rw [hbase] at hauctions
  have htill : phases'.auction.till = phases.auction.till :=
    (runAuction_moves phases.auctions).till_eq hauctions (congrArg totalBought hopened)
      (totalBought_congr hclosed')
  have hleft : phases'.left = phases.left := congrArg Till.remaining htill
  have hserved :
      phases'.served.map Participant.settled = phases.served.map Participant.settled := by
    by_cases hzero : phases.left = 0
    · rw [phases.served_of_left_eq_zero hzero,
        phases'.served_of_left_eq_zero (hleft.trans hzero), hclosed']
    · have hsame : phases'.auction.participants = phases.auction.participants := by
        rw [hsatisfied hzero, hsatisfied' (hleft ▸ hzero), hopened]
      rw [phases.served_eq, phases'.served_eq, hsame, hleft, ← (phases.outcome hpool).unmet_eq,
        ← (phases'.outcome hpool').unmet_eq, hsame]
  refine ⟨htill, ?_, hserved⟩
  have hgives := redistribute_moves phases'.gives
  rw [htill] at hgives
  exact (redistribute_moves phases.gives).till_eq hgives (totalBought_congr hclosed')
    (totalBought_congr hserved)

end Phases

/-- Two rounds moved the same bytes and left the same accounts. -/
structure SameAllocation (result result' : RoundReport × Market) : Prop where
  auctioned_eq : result'.1.auctioned = result.1.auctioned
  redistributed_eq : result'.1.redistributed = result.1.redistributed
  split_eq : result'.1.split = result.1.split
  account?_eq : ∀ uid, result'.2.account? uid = result.2.account? uid

/-- Markets with the same accounts up to order have them under the same uids. -/
theorem account?_eq_of_perm {market other : Market} {accounts : List (Nat × Account)}
    (h : market.accounts.toList.Perm accounts) (h' : other.accounts.toList.Perm accounts)
    (uid : Nat) : other.account? uid = market.account? uid := by
  refine Option.ext fun account => ?_
  rw [account?, account?, ← Std.TreeMap.mem_toList_iff_getElem?_eq_some,
    ← Std.TreeMap.mem_toList_iff_getElem?_eq_some, h'.mem_iff, h.mem_iff]

/-- Two rounds that end well allocate the same, whatever their windows. -/
theorem sameAllocation_of_runWith {target : Account → Nat} {market : Market} {window : Option Nat}
    {result result' : RoundReport × Market} (hpool : market.config.poolSize < longLimit)
    (hwindow : market.config.windowSize ≠ some 0) (hwindow' : window ≠ some 0)
    (hcredit : market.CreditFits target) (h : market.runWith target = .ok result)
    (h' : (market.withWindow window).runWith target = .ok result') :
    SameAllocation result result' := by
  obtain ⟨phases, accounts, hsplit, hperm, hreport⟩ := Phases.exists_of_runWith h
  obtain ⟨phases', accounts', hsplit', hperm', hreport'⟩ := Phases.exists_of_runWith h'
  have hsells := (sellBase_withWindow market.config window target market.accounts.toList
    ⟨market.config.poolSize, 0⟩).symm.trans phases'.sells
  rw [phases.sells] at hsells
  obtain ⟨hopened, hbase⟩ := Prod.mk.inj (Except.ok.inj hsells)
  obtain ⟨htill, hrest, hserved⟩ := phases.agree phases' hpool hpool hwindow hwindow' hopened.symm
    hbase.symm (phases.fits_of_creditFits hcredit)
  have hlength := congrArg List.length hserved
  rw [List.length_map, List.length_map] at hlength
  rw [hrest, hlength, splitEvenly_congr hserved, hsplit] at hsplit'
  obtain ⟨rfl, hsame⟩ := Prod.mk.inj (Except.ok.inj hsplit')
  exact ⟨by rw [hreport, hreport', htill], by rw [hreport, hreport', hrest], hsame.symm,
    account?_eq_of_perm hperm hperm'⟩

/-- **The window does not matter** when what the base sale leaves covers all that the buyers ordered
and can pay. Two rounds that return, of markets that differ in their windows alone, move the same
bytes and leave everyone the same account, whatever the targets are. So do the rounds of the markets
themselves, since no target depends on the window. -/
theorem window_irrelevant (market : Market) (window : Option Nat)
    (hpool : market.config.poolSize < longLimit) (hwindow : market.config.windowSize ≠ some 0)
    (hwindow' : window ≠ some 0) :
    (∀ target result result', market.CreditFits target → market.runWith target = .ok result →
      (market.withWindow window).runWith target = .ok result' → SameAllocation result result') ∧
    ∀ result result', market.CreditFits (Account.target market.config) → market.run = .ok result →
      (market.withWindow window).run = .ok result' → SameAllocation result result' := by
  constructor
  · intro target result result' hcredit h h'
    exact sameAllocation_of_runWith hpool hwindow hwindow' hcredit h h'
  · intro result result' hcredit h h'
    exact sameAllocation_of_runWith hpool hwindow hwindow' hcredit h h'

/-- Two buyers with credit for 5 and 15 bytes in a market that has just these 20 bytes left. -/
def exactCredit : Market where
  config := { poolSize := 70, minSlabSize := 10, windowSize := some 5 }
  accounts :=
    (∅ : Std.TreeMap Nat Account).insertMany
      [(1, (⟨30, 30, 30, 30, ⟨[30], 10⟩, 5⟩ : Account)), (2, ⟨20, 20, 20, 20, ⟨[20], 10⟩, 15⟩)]

/-- In turns of five bytes the first buyer goes away unpaid before the pool ends, and in turns of
twenty bytes it does not. Both rounds leave everyone the same. -/
theorem window_irrelevant_of_exact_credit :
    ∃ market market', exactCredit.runWith (·.requested + 25) = .ok (⟨2, 50, 20, 0, 0, 20⟩, market) ∧
      (exactCredit.withWindow (some 20)).runWith (·.requested + 25) =
        .ok (⟨2, 50, 20, 0, 0, 0⟩, market') ∧
      SameAllocation (⟨2, 50, 20, 0, 0, 20⟩, market) (⟨2, 50, 20, 0, 0, 0⟩, market') := by
  have hcredit : exactCredit.CreditFits (·.requested + 25) := by
    refine ⟨_, _, sellBase_eq _ _ _ _ ⟨?_, ?_⟩, ?_⟩
    · decide
    · decide
    · decide +kernel
  have hreport : (exactCredit.runWith (·.requested + 25)).map (·.1) =
      .ok ⟨2, 50, 20, 0, 0, 20⟩ := by decide +kernel
  have hreport' : ((exactCredit.withWindow (some 20)).runWith (·.requested + 25)).map (·.1) =
      .ok ⟨2, 50, 20, 0, 0, 0⟩ := by decide +kernel
  cases hrun : exactCredit.runWith (·.requested + 25) with
  | error fault => rw [hrun] at hreport; cases hreport
  | ok result =>
    cases hrun' : (exactCredit.withWindow (some 20)).runWith (·.requested + 25) with
    | error fault => rw [hrun'] at hreport'; cases hreport'
    | ok result' =>
      have hsame := (exactCredit.window_irrelevant (some 20) (by decide) (by decide)
        (by decide)).1 _ result result' hcredit hrun hrun'
      obtain ⟨report, market⟩ := result
      obtain ⟨report', market'⟩ := result'
      rw [hrun] at hreport
      rw [hrun'] at hreport'
      obtain rfl := Except.ok.inj hreport
      obtain rfl := Except.ok.inj hreport'
      exact ⟨market, market', rfl, rfl, hsame⟩

end Market

end ElasticCache
