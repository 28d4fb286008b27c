import ElasticCache.Proofs.Market.CheckedRound
import Mathlib.Logic.Function.Iterate

/-!
# When a round completes

Almost every amount of a round is bounded by the pool: bytes sold, bytes bought, shares and what is
split. Only the unpaid orders add up over the instances. This file runs the auction in exact
numbers, with no bound on this sum, and shows that a round completes exactly when the sum fits.
-/

namespace ElasticCache

/-! ## The auction in exact numbers -/

/-- A till after a sale. -/
def Till.take (till : Till) (amount : Nat) : Till := ⟨till.remaining - amount, till.sold + amount⟩

namespace Participant

/-- Bytes that an instance buys in its turn. -/
def bid (p : Participant) (window remaining : Nat) : Nat :=
  min (min window p.account.wallet) (min p.order remaining)

/-- The order that an instance leaves unpaid in its turn: all of it when it can buy nothing. -/
def lost (p : Participant) (window remaining : Nat) : Nat :=
  if remaining ≠ 0 ∧ p.bid window remaining = 0 then p.order else 0

/-- An instance after its turn. -/
def afterTurn (p : Participant) (window remaining : Nat) : Participant :=
  if p.lost window remaining = 0 then
    { p with
      account := { p.account with wallet := p.account.wallet - p.bid window remaining }
      bought := p.bought + p.bid window remaining
      order := p.order - p.bid window remaining }
  else { p with order := 0, unmet := p.order }

end Participant

/-- One turn of every instance. -/
def turns (window : Nat) : List Participant → Till → Nat → Auction
  | [], till, unmet => ⟨[], till, unmet⟩
  | p :: rest, till, unmet =>
    let after := turns window rest (till.take (p.bid window till.remaining))
      (unmet + p.lost window till.remaining)
    { after with participants := p.afterTurn window till.remaining :: after.participants }

namespace Auction

/-- An auction after one turn of every instance. -/
def turned (window : Nat) (auction : Auction) : Auction :=
  turns window auction.participants auction.till auction.unmet

/-- Nothing is left to sell, or nobody wants to buy. -/
def Ended (auction : Auction) : Prop :=
  auction.till.remaining = 0 ∨ countBuyers auction.participants = 0

/-- An auction after as many turns as there are bytes to sell and buyers to serve. -/
def served (window : Nat) (auction : Auction) : Auction :=
  (turned window)^[work auction.participants auction.till] auction

/-- The auction as a result: its unpaid orders must fit a 64-bit amount. -/
def checked (auction : Auction) : Except Fault Auction :=
  if auction.unmet < longLimit then .ok auction else .error .overflow

end Auction

/-- The base sale to all instances. -/
def enter (config : MarketConfig) (target : Account → Nat) :
    List (Nat × Account) → Till → List Participant × Till
  | [], till => ([], till)
  | (uid, account) :: rest, till =>
    let goal := target account
    let base := min (entitlement config account goal) till.remaining
    let (participants, after) := enter config target rest (till.take base)
    (⟨uid, { account with wallet := credited config account goal }, base,
      orderFor config account goal, 0⟩ :: participants, after)

namespace Market

/-- The auction of a round as it opens. -/
def opening (target : Account → Nat) (market : Market) : Auction :=
  let (participants, till) :=
    enter market.config target market.accounts.toList ⟨market.config.poolSize, 0⟩
  ⟨participants, till.next, 0⟩

/-- The auction of a round as it closes. -/
def closing (target : Account → Nat) (market : Market) : Auction :=
  let auction := market.opening target
  auction.served (windowFor market.config auction.participants auction.till)

end Market

/-! ## What turns keep -/

/-- Unpaid orders of all participants. -/
def totalUnmet (participants : List Participant) : Nat := (participants.map (·.unmet)).sum

/-- Open orders of all participants. -/
def totalOrder (participants : List Participant) : Nat := (participants.map (·.order)).sum

/-- What is in the till can be sold to anyone without a sum that does not fit. -/
structure Till.Serves (till : Till) (participants : List Participant) : Prop where
  sold : till.sold + till.remaining < longLimit
  bought : ∀ p ∈ participants, p.bought + till.remaining < longLimit

/-- What holds between an auction and a later state of it. -/
structure Auction.Leads (before after : Auction) : Prop where
  remaining : after.till.remaining ≤ before.till.remaining
  unmet : before.unmet ≤ after.unmet
  entries : totalUnmet after.participants + before.unmet ≤
    totalUnmet before.participants + after.unmet
  orders : after.unmet + totalOrder after.participants + after.till.sold =
    before.unmet + totalOrder before.participants + before.till.sold
  serves : before.till.Serves before.participants → after.till.Serves after.participants

section Turns

variable {window : Nat} {p : Participant} {participants : List Participant} {till : Till}
  {remaining unmet : Nat} {auction : Auction}

/-- A further participant adds its unpaid order. -/
@[simp] theorem totalUnmet_cons :
    totalUnmet (p :: participants) = p.unmet + totalUnmet participants := by
  simp [totalUnmet]

/-- A further participant adds its open order. -/
@[simp] theorem totalOrder_cons :
    totalOrder (p :: participants) = p.order + totalOrder participants := by
  simp [totalOrder]

/-- Nobody bids more than is left. -/
theorem Participant.bid_le (p : Participant) (window remaining : Nat) :
    p.bid window remaining ≤ remaining := by
  simp only [bid]
  omega

/-- Nobody bids more than it wants. -/
theorem Participant.bid_le_order (p : Participant) (window remaining : Nat) :
    p.bid window remaining ≤ p.order := by
  simp only [bid]
  omega

/-- An instance that leaves the auction buys nothing in its last turn. -/
theorem Participant.bid_eq_zero_of_lost (h : p.lost window remaining ≠ 0) :
    p.bid window remaining = 0 := by
  unfold lost at h
  split at h
  next hnothing => exact hnothing.2
  next => contradiction

/-- A turn adds the bid to what was bought. -/
theorem Participant.bought_afterTurn :
    (p.afterTurn window remaining).bought = p.bought + p.bid window remaining := by
  unfold afterTurn
  split
  next => rfl
  next hlost => simp [bid_eq_zero_of_lost hlost]

/-- An instance that leaves an order unpaid leaves all of it. -/
theorem Participant.lost_eq_order (h : p.lost window remaining ≠ 0) :
    p.lost window remaining = p.order := by
  unfold lost at h ⊢
  split at h
  next hnothing => rw [if_pos hnothing]
  next => contradiction

/-- In its turn an instance pays for a part of its order, keeps it, or leaves all of it unpaid. -/
theorem Participant.order_afterTurn (p : Participant) (window remaining : Nat) :
    (p.afterTurn window remaining).order + p.lost window remaining + p.bid window remaining =
      p.order := by
  have horder := p.bid_le_order window remaining
  unfold afterTurn
  split
  next hzero =>
    simp only [hzero]
    omega
  next hlost => simp [lost_eq_order hlost, bid_eq_zero_of_lost hlost]

/-- A turn adds to the unpaid order at most what is lost. -/
theorem Participant.unmet_afterTurn (p : Participant) (window remaining : Nat) :
    (p.afterTurn window remaining).unmet ≤ p.unmet + p.lost window remaining := by
  unfold afterTurn
  split
  next => simp
  next hlost => simp [lost_eq_order hlost]

/-- In a turn with nothing to sell or nothing to order, nothing happens. -/
theorem Participant.idle (window : Nat) (h : p.order = 0 ∨ remaining = 0) :
    p.bid window remaining = 0 ∧ p.lost window remaining = 0 ∧
      p.afterTurn window remaining = p := by
  have hbid : p.bid window remaining = 0 := by
    simp only [bid]
    omega
  have hlost : p.lost window remaining = 0 := by
    unfold lost
    split <;> omega
  refine ⟨hbid, hlost, ?_⟩
  simp [afterTurn, hlost, hbid]

/-- A till that serves everyone does so after a sale. -/
theorem Till.Serves.take (h : till.Serves participants) {amount : Nat}
    (hle : amount ≤ till.remaining) : (till.take amount).Serves participants := by
  obtain ⟨hsold, hbought⟩ := h
  refine ⟨?_, fun p hp => ?_⟩
  · simp only [Till.take]
    omega
  · have := hbought p hp
    simp only [Till.take]
    omega

/-- A till at the start of a phase serves participants who can get no more than the pool. -/
theorem Till.Serves.of_total (hsold : till.sold = 0)
    (htotal : till.remaining + totalBought participants < longLimit) :
    till.Serves participants := by
  refine ⟨by omega, fun p hp => ?_⟩
  have hle : p.bought ≤ totalBought participants := List.le_sum_of_mem (List.mem_map_of_mem hp)
  omega

/-- An auction leads to itself. -/
theorem Auction.Leads.refl : auction.Leads auction := by
  constructor <;> simp

/-- What an auction leads to leads on. -/
theorem Auction.Leads.trans {middle after : Auction} (h : auction.Leads middle)
    (h' : middle.Leads after) : auction.Leads after := by
  obtain ⟨hremaining, hunmet, hentries, horders, hserves⟩ := h
  obtain ⟨hremaining', hunmet', hentries', horders', hserves'⟩ := h'
  exact ⟨by omega, by omega, by omega, by omega, hserves' ∘ hserves⟩

/-- One turn of every instance leads on. -/
theorem leads_turns (window : Nat) (participants : List Participant) (till : Till) (unmet : Nat) :
    Auction.Leads ⟨participants, till, unmet⟩ (turns window participants till unmet) := by
  induction participants generalizing till unmet with
  | nil => exact Auction.Leads.refl
  | cons p rest ih =>
    have hbid := p.bid_le window till.remaining
    have horder := p.order_afterTurn window till.remaining
    have hentry := p.unmet_afterTurn window till.remaining
    have hrest := ih (till.take (p.bid window till.remaining))
      (unmet + p.lost window till.remaining)
    simp only [turns]
    generalize turns window rest (till.take (p.bid window till.remaining))
      (unmet + p.lost window till.remaining) = after at hrest ⊢
    obtain ⟨hremaining, hunmet, hentries, horders, hserves⟩ := hrest
    dsimp only at *
    have htake : (till.take (p.bid window till.remaining)).remaining =
        till.remaining - p.bid window till.remaining := rfl
    have hsold : (till.take (p.bid window till.remaining)).sold =
        till.sold + p.bid window till.remaining := rfl
    constructor <;> dsimp only [totalUnmet_cons, totalOrder_cons]
    · omega
    · omega
    · simp only [totalUnmet_cons]
      omega
    · simp only [totalOrder_cons]
      omega
    · rintro ⟨hsold, hbought⟩
      have hserved := hserves (Till.Serves.take ⟨hsold, fun q hq => hbought q (by simp [hq])⟩ hbid)
      refine ⟨hserved.sold, fun q hq => ?_⟩
      rcases List.mem_cons.1 hq with rfl | hq
      · have hp := hbought p List.mem_cons_self
        rw [Participant.bought_afterTurn]
        omega
      · exact hserved.bought q hq

/-- Any number of turns leads on. -/
theorem leads_iterate (window : Nat) (auction : Auction) (n : Nat) :
    auction.Leads ((Auction.turned window)^[n] auction) := by
  induction n generalizing auction with
  | zero => exact Auction.Leads.refl
  | succ n ih => exact (leads_turns window _ _ _).trans (ih (auction.turned window))

end Turns

/-! ## The auction and the exact auction -/

section Auctions

variable {window : Nat} {p : Participant} {participants : List Participant} {till : Till}
  {unmet : Nat} {auction : Auction}

/-- A till that serves everyone can sell what it has. -/
theorem Till.Serves.sell_eq_ok {amount : Nat} (h : till.Serves participants)
    (hle : amount ≤ till.remaining) : till.sell amount = .ok (till.take amount) := by
  have hsold := h.sold
  simp only [Till.sell, minus_eq_ok hle, ok_bind,
    fitLong_eq_ok (show till.sold + amount < longLimit by omega)]
  rfl

/-- A turn fails only when the sum of unpaid orders does not fit. -/
theorem takeTurn_eq (hserves : till.Serves [p]) (hunmet : unmet < longLimit) :
    takeTurn window p till unmet = (do
      let unmet ← fitLong (unmet + p.lost window till.remaining)
      return (p.afterTurn window till.remaining, till.take (p.bid window till.remaining),
        unmet)) := by
  have hbought := hserves.bought p List.mem_cons_self
  have hbid := p.bid_le window till.remaining
  unfold takeTurn
  split
  next hidle =>
    obtain ⟨hbid, hlost, hafter⟩ := Participant.idle window hidle
    simp [hafter, hlost, hbid, Till.take, fitLong_eq_ok hunmet]
    rfl
  next hbuys =>
    have hamount : min (min window p.account.wallet) (min p.order till.remaining) =
        p.bid window till.remaining := rfl
    simp only [hamount]
    split
    next hnothing =>
      have hlost : p.lost window till.remaining = p.order := if_pos ⟨by omega, hnothing⟩
      have horder : p.order ≠ 0 := by omega
      simp [Participant.afterTurn, hlost, horder, hnothing, Till.take]
    next hsome =>
      have hlost : p.lost window till.remaining = 0 := if_neg fun h => hsome h.2
      have hwallet : p.bid window till.remaining ≤ p.account.wallet := by
        simp only [Participant.bid]
        omega
      rw [minus_eq_ok hwallet, hserves.sell_eq_ok hbid, hlost, Nat.add_zero, fitLong_eq_ok hunmet]
      simp only [ok_bind, fitLong_eq_ok (show p.bought + p.bid window till.remaining < longLimit
        by omega), Participant.afterTurn, hlost, if_true]

/-- Turns fail only when the sum of unpaid orders does not fit. -/
theorem takeTurns_eq (hserves : till.Serves participants) (hunmet : unmet < longLimit) :
    takeTurns window participants till unmet = (turns window participants till unmet).checked := by
  induction participants generalizing till unmet with
  | nil => exact (if_pos hunmet).symm
  | cons p rest ih =>
    obtain ⟨hsold, hbought⟩ := hserves
    have hp : till.Serves [p] := ⟨hsold, fun q hq => hbought q (by simp_all)⟩
    have hrest : till.Serves rest := ⟨hsold, fun q hq => hbought q (by simp [hq])⟩
    have hleads := leads_turns window rest (till.take (p.bid window till.remaining))
      (unmet + p.lost window till.remaining)
    rw [takeTurns, takeTurn_eq hp hunmet, turns]
    by_cases hlost : unmet + p.lost window till.remaining < longLimit
    · simp only [fitLong_eq_ok hlost, ok_bind, pure_bind, ih (hrest.take (p.bid_le _ _)) hlost]
      unfold Auction.checked
      split <;> rfl
    · have hunmet := hleads.unmet
      dsimp only at hunmet
      have hover : fitLong (unmet + p.lost window till.remaining) = .error .overflow := if_neg hlost
      rw [hover, Auction.checked, if_neg (by dsimp only; omega)]
      rfl

/-- When an auction has ended, turns change nothing. -/
theorem turns_of_ended (h : till.remaining = 0 ∨ countBuyers participants = 0) :
    turns window participants till unmet = ⟨participants, till, unmet⟩ := by
  induction participants with
  | nil => rfl
  | cons p rest ih =>
    have hrest : till.remaining = 0 ∨ countBuyers rest = 0 := by
      rw [countBuyers_cons] at h
      omega
    have hp : p.order = 0 ∨ till.remaining = 0 := by
      rw [countBuyers_cons] at h
      split at h <;> omega
    obtain ⟨hbid, hlost, hafter⟩ := Participant.idle window hp
    simp [turns, hbid, hlost, hafter, Till.take, ih hrest]

/-- A turn leaves at most as much to do, and less when the instance could buy. -/
theorem Participant.work_afterTurn (p : Participant) (window remaining : Nat) :
    remaining - p.bid window remaining +
        (if 0 < (p.afterTurn window remaining).order then 1 else 0) ≤
      remaining + (if 0 < p.order then 1 else 0) ∧
    (0 < p.order → 0 < remaining → remaining - p.bid window remaining +
      (if 0 < (p.afterTurn window remaining).order then 1 else 0) < remaining + 1) := by
  have hbid := p.bid_le window remaining
  have horder := p.order_afterTurn window remaining
  have hlost : remaining ≠ 0 → p.bid window remaining = 0 → p.lost window remaining = p.order :=
    fun hremaining hnothing => if_pos ⟨hremaining, hnothing⟩
  split_ifs <;> omega

/-- Turns of all instances leave at most as much to do, and less unless the auction has ended. -/
theorem work_turns (window : Nat) (participants : List Participant) (till : Till) (unmet : Nat) :
    Auction.work (turns window participants till unmet).participants
        (turns window participants till unmet).till ≤ Auction.work participants till ∧
      (0 < countBuyers participants → 0 < till.remaining →
        Auction.work (turns window participants till unmet).participants
          (turns window participants till unmet).till < Auction.work participants till) := by
  induction participants generalizing till unmet with
  | nil => simp [turns, countBuyers]
  | cons p rest ih =>
    have hp := p.work_afterTurn window till.remaining
    have hrest := ih (till.take (p.bid window till.remaining))
      (unmet + p.lost window till.remaining)
    have hbid := p.bid_le window till.remaining
    have horder := p.bid_le_order window till.remaining
    simp only [turns]
    generalize turns window rest (till.take (p.bid window till.remaining))
      (unmet + p.lost window till.remaining) = after at hrest ⊢
    simp only [Auction.work, Till.take, countBuyers_cons] at *
    split_ifs at hp ⊢ <;> omega

/-- When an auction has ended, it stays as it is for any number of turns. -/
theorem iterate_turned_of_ended (h : auction.Ended) (n : Nat) :
    (Auction.turned window)^[n] auction = auction :=
  Function.iterate_fixed (turns_of_ended h) n

/-- The exact auction has ended after as many turns as there is work to do. -/
theorem ended_iterate {n : Nat} (hwork : Auction.work auction.participants auction.till ≤ n) :
    ((Auction.turned window)^[n] auction).Ended := by
  induction n generalizing auction with
  | zero =>
    simp only [Auction.work] at hwork
    left
    show auction.till.remaining = 0
    omega
  | succ n ih =>
    by_cases hended : auction.Ended
    · rwa [iterate_turned_of_ended hended]
    · have hless := (work_turns window auction.participants auction.till auction.unmet).2
      simp only [Auction.Ended] at hended
      rw [Function.iterate_succ_apply]
      apply ih
      simp only [Auction.turned]
      omega

/-- The auction fails only when the sum of unpaid orders does not fit, and then it does. -/
theorem runAuction_eq {n : Nat} (hserves : auction.till.Serves auction.participants)
    (hunmet : auction.unmet < longLimit)
    (hwork : Auction.work auction.participants auction.till ≤ n) :
    runAuction window auction = ((Auction.turned window)^[n] auction).checked := by
  fun_induction runAuction window auction generalizing n with
  | case1 auction hgoing fault hturns =>
    obtain ⟨n, rfl⟩ : ∃ m, n = m + 1 := ⟨n - 1, by simp only [Auction.work] at hwork; omega⟩
    rw [takeTurns_eq hserves hunmet, Auction.checked] at hturns
    split at hturns
    next => cases hturns
    next hover =>
      have hlater := (leads_iterate window (auction.turned window) n).unmet
      have hfirst : ¬(auction.turned window).unmet < longLimit := hover
      rw [Function.iterate_succ_apply, Auction.checked, if_neg (by omega)]
      exact hturns.symm
  | case2 auction hgoing after hturns ih =>
    obtain ⟨n, rfl⟩ : ∃ m, n = m + 1 := ⟨n - 1, by simp only [Auction.work] at hwork; omega⟩
    have hless := (work_takeTurns hturns).2 hgoing.2 hgoing.1
    have hleads := leads_turns window auction.participants auction.till auction.unmet
    rw [takeTurns_eq hserves hunmet, Auction.checked] at hturns
    split at hturns
    next hfits =>
      obtain rfl := Except.ok.inj hturns
      exact ih (hleads.serves hserves) hfits (by omega)
    next => cases hturns
  | case3 auction hended =>
    rw [iterate_turned_of_ended (by simp only [Auction.Ended]; omega), Auction.checked,
      if_pos hunmet]

end Auctions

/-! ## The other phases -/

section Phases

variable {config : MarketConfig} {target : Account → Nat} {participants : List Participant}
  {till : Till}

/-- The base sale always succeeds. -/
theorem sellBase_eq (config : MarketConfig) (target : Account → Nat)
    (accounts : List (Nat × Account)) (till : Till) (hserves : till.Serves []) :
    sellBase config target accounts till = .ok (enter config target accounts till) := by
  induction accounts generalizing till with
  | nil => rfl
  | cons entry rest ih =>
    obtain ⟨uid, account⟩ := entry
    have hle : min (entitlement config account (target account)) till.remaining ≤ till.remaining :=
      Nat.min_le_right _ _
    simp only [sellBase, sellBaseTo, hserves.sell_eq_ok hle, ok_bind, pure_bind,
      ih _ (hserves.take hle), enter]
    rfl

/-- Who enters the auction has no unpaid order yet, and orders what it lacks. -/
theorem totals_enter (config : MarketConfig) (target : Account → Nat)
    (accounts : List (Nat × Account)) (till : Till) :
    totalUnmet (enter config target accounts till).1 = 0 ∧
      totalOrder (enter config target accounts till).1 =
        (accounts.map fun (_, account) => orderFor config account (target account)).sum := by
  induction accounts generalizing till with
  | nil => simp [enter, totalUnmet, totalOrder]
  | cons entry rest ih => simp [enter, ih]

/-- Shares that are rounded down add up to no more than what is given. -/
theorem sum_shares_le (give demand : Nat) (participants : List Participant) :
    (participants.map fun p => give * p.unmet / demand).sum ≤
      give * totalUnmet participants / demand := by
  induction participants with
  | nil => simp
  | cons p rest ih =>
    calc ((p :: rest).map fun p => give * p.unmet / demand).sum
      _ = give * p.unmet / demand + (rest.map fun p => give * p.unmet / demand).sum := by simp
      _ ≤ give * p.unmet / demand + give * totalUnmet rest / demand := by omega
      _ ≤ (give * p.unmet + give * totalUnmet rest) / demand := Nat.div_add_div_le_add_div
      _ = give * totalUnmet (p :: rest) / demand := by rw [totalUnmet_cons, Nat.mul_add]

/-- Shares that are left in the till can be given out. -/
theorem exists_shareOut {give demand : Nat} (hserves : till.Serves participants)
    (hshares : (participants.map fun p => give * p.unmet / demand).sum ≤ till.remaining) :
    ∃ after till', shareOut give demand participants till = .ok (after, till') := by
  induction participants generalizing till with
  | nil => exact ⟨[], till, rfl⟩
  | cons p rest ih =>
    rw [List.map_cons, List.sum_cons] at hshares
    have hle : give * p.unmet / demand ≤ till.remaining := by omega
    have hbought := hserves.bought p List.mem_cons_self
    have hrest : till.Serves rest := ⟨hserves.sold, fun q hq => hserves.bought q (by simp [hq])⟩
    obtain ⟨after, till', hshared⟩ := ih (hrest.take hle) (by simp only [Till.take]; omega)
    simp only [shareOut, hserves.sell_eq_ok hle, ok_bind, hshared,
      fitLong_eq_ok (show p.bought + give * p.unmet / demand < longLimit by omega)]
    exact ⟨_, till', rfl⟩

/-- The redistribution always succeeds, with every step checked. -/
theorem exists_redistribute {demand : Nat} (hserves : till.Serves participants)
    (hunmet : totalUnmet participants ≤ demand) (hdemand : demand < longLimit) :
    ∃ after till', redistribute participants demand till = .ok (after, till') ∧
      redistributeIn participants demand till = .ok (after, till') := by
  unfold redistribute redistributeIn
  split
  next => exact ⟨participants, till, rfl, rfl⟩
  next hgives =>
    have hpos : 0 < demand := by omega
    have heach (p : Participant) (hp : p ∈ participants) : p.unmet ≤ demand := by
      have hle : p.unmet ≤ totalUnmet participants := List.le_sum_of_mem (List.mem_map_of_mem hp)
      omega
    have hsold := hserves.sold
    have hshares : (participants.map fun p =>
        min demand till.remaining * p.unmet / demand).sum ≤ till.remaining := by
      calc (participants.map fun p => min demand till.remaining * p.unmet / demand).sum
        _ ≤ min demand till.remaining * totalUnmet participants / demand := sum_shares_le _ _ _
        _ ≤ min demand till.remaining * demand / demand :=
          Nat.div_le_div_right (Nat.mul_le_mul_left _ hunmet)
        _ = min demand till.remaining := Nat.mul_div_cancel _ hpos
        _ ≤ till.remaining := Nat.min_le_right _ _
    obtain ⟨after, till', hshared⟩ := exists_shareOut hserves hshares
    refine ⟨after, till', hshared, ?_⟩
    rw [shareOutIn_eq (by omega) hpos hdemand heach, hshared]

/-- The even split comes to its end when all sums fit a long word. -/
theorem exists_splitEvenly {share extra given : Nat}
    (hbought : ∀ p ∈ participants, p.bought + (share + min extra 1) < longLimit)
    (hgiven : given + (participants.length * share + min extra participants.length) < longLimit) :
    ∃ accounts split, splitEvenly share extra participants given = .ok (accounts, split) := by
  induction participants generalizing extra given with
  | nil => exact ⟨[], given, rfl⟩
  | cons p rest ih =>
    have hp := hbought p List.mem_cons_self
    rw [List.length_cons, Nat.succ_mul] at hgiven
    have hfree : (if 0 < extra then 1 else 0) = min extra 1 := by
      split <;> omega
    obtain ⟨accounts, split, hsplit⟩ : ∃ accounts split, splitEvenly share (extra - 1) rest
        (given + (share + min extra 1)) = .ok (accounts, split) :=
      ih (fun q hq => by have := hbought q (by simp [hq]); omega) (by omega)
    simp only [splitEvenly, Participant.settle, hfree, fitLong_eq_ok hp, ok_bind,
      fitLong_eq_ok (show given + (share + min extra 1) < longLimit by omega), hsplit]
    exact ⟨_, split, rfl⟩

/-- The even split always succeeds, with every step checked. -/
theorem exists_even_split (till : Till) (hcount : participants ≠ [])
    (htotal : till.remaining + totalBought participants < longLimit) :
    ∃ accounts split, splitEvenly (till.remaining / participants.length)
        (till.remaining % participants.length) participants 0 = .ok (accounts, split) ∧
      (do
        let share ← quotient till.remaining participants.length
        let extra ← remainder till.remaining participants.length
        splitEvenlyIn share extra participants 0) = .ok (accounts, split) := by
  have hpos : 0 < participants.length := List.length_pos_iff.2 hcount
  have hdiv := Nat.div_add_mod till.remaining participants.length
  have hmod := Nat.mod_lt till.remaining hpos
  have hshare : till.remaining / participants.length ≤
      participants.length * (till.remaining / participants.length) :=
    Nat.le_mul_of_pos_left _ hpos
  have hbought (p : Participant) (hp : p ∈ participants) : p.bought ≤ totalBought participants :=
    List.le_sum_of_mem (List.mem_map_of_mem hp)
  obtain ⟨accounts, split, hsplit⟩ : ∃ accounts split,
      splitEvenly (till.remaining / participants.length) (till.remaining % participants.length)
        participants 0 = .ok (accounts, split) :=
    exists_splitEvenly (fun p hp => by have := hbought p hp; omega) (by omega)
  refine ⟨accounts, split, hsplit, ?_⟩
  simp only [quotient, remainder, if_neg (Nat.ne_of_gt hpos), ok_bind]
  rw [splitEvenlyIn_eq (by omega), hsplit]

end Phases

/-! ## The whole round -/

namespace Market

variable (target : Account → Nat) (market : Market)

/-- What the auction of a round starts from. -/
theorem opening_spec (hpool : market.config.poolSize < longLimit) :
    ∃ participants base,
      sellBase market.config target market.accounts.toList ⟨market.config.poolSize, 0⟩ =
        .ok (participants, base) ∧
      market.opening target = ⟨participants, base.next, 0⟩ ∧
      base.next.Serves participants ∧ totalUnmet participants = 0 ∧
      totalOrder participants =
        market.total fun account => orderFor market.config account (target account) := by
  have hsell := sellBase_eq market.config target market.accounts.toList
    ⟨market.config.poolSize, 0⟩ (.of_total rfl (by simpa [totalBought] using hpool))
  obtain ⟨hremaining, -, -⟩ := sellBase_conserves hsell
  obtain ⟨hunmet, horder⟩ := totals_enter market.config target market.accounts.toList
    ⟨market.config.poolSize, 0⟩
  refine ⟨_, _, hsell, rfl, .of_total rfl ?_, hunmet, horder⟩
  dsimp only [Till.next] at hremaining ⊢
  omega

/-- A round goes from the base sale to its closing auction, if the unpaid orders fit. -/
theorem exists_closing (hpool : market.config.poolSize < longLimit) :
    ∃ participants base,
      sellBase market.config target market.accounts.toList ⟨market.config.poolSize, 0⟩ =
        .ok (participants, base) ∧
      runAuction (windowFor market.config participants base) ⟨participants, base.next, 0⟩ =
        (market.closing target).checked ∧
      (market.closing target).Ended ∧
      totalUnmet (market.closing target).participants ≤ (market.closing target).unmet ∧
      (market.closing target).unmet ≤
        market.total fun account => orderFor market.config account (target account) := by
  obtain ⟨participants, base, hsell, hopening, hserves, hunmet, horder⟩ :=
    market.opening_spec target hpool
  have hclosing : market.closing target = Auction.served
      (windowFor market.config participants base) ⟨participants, base.next, 0⟩ := by
    simp only [closing, hopening]
    rfl
  have hleads : Auction.Leads ⟨participants, base.next, 0⟩ (market.closing target) := by
    rw [hclosing]
    exact leads_iterate _ _ _
  obtain ⟨-, -, hentries, horders, -⟩ := hleads
  have hunsold : base.next.sold = 0 := rfl
  dsimp only at hentries horders
  refine ⟨participants, base, hsell, ?_, ?_, by omega, by omega⟩
  · rw [hclosing]
    exact runAuction_eq hserves (show 0 < longLimit by decide) (Nat.le_refl _)
  · rw [hclosing]
    exact ended_iterate (Nat.le_refl _)

/-- A round whose unpaid orders fit succeeds, with every step checked. Whoever has an account takes
part to the end. -/
theorem exists_runWith (hpool : market.config.poolSize < longLimit)
    (hsome : market.accounts.isEmpty = false)
    (hfits : (market.closing target).unmet < longLimit) :
    ∃ report market', market.runWith target = .ok (report, market') ∧
      market.runIn target = .ok (report, market') ∧
      report.unmetDemand = (market.closing target).unmet := by
  obtain ⟨participants, base, hsell, hauction, -, hentered, -⟩ :=
    market.exists_closing target hpool
  rw [Auction.checked, if_pos hfits] at hauction
  obtain ⟨hbaseRemaining, -, hbaseSeats⟩ := sellBase_conserves hsell
  obtain ⟨hremaining, -, hseats⟩ := runAuction_moves hauction
  dsimp only [Till.next] at hbaseRemaining hremaining
  have hserves : (market.closing target).till.next.Serves (market.closing target).participants :=
    .of_total rfl (by dsimp only [Till.next]; omega)
  obtain ⟨served, rest, hgive, hgiveIn⟩ := exists_redistribute hserves hentered hfits
  obtain ⟨hrestRemaining, -, hservedSeats⟩ := redistribute_moves hgive
  dsimp only [Till.next] at hrestRemaining
  have hserved : served ≠ [] :=
    ne_nil_of_seats hsome (hservedSeats.trans (hseats.trans hbaseSeats))
  obtain ⟨accounts, split, hsplit, hsplitIn⟩ := exists_even_split rest hserved (by omega)
  obtain ⟨share, hshare, hsplitIn⟩ := bind_eq_ok_iff.1 hsplitIn
  obtain ⟨extra, hextra, hsplitIn⟩ := bind_eq_ok_iff.1 hsplitIn
  refine ⟨⟨served.length, base.sold, (market.closing target).till.sold, rest.sold, split,
    (market.closing target).unmet⟩, { market with accounts := .ofList accounts }, ?_, ?_, rfl⟩
  · simp only [runWith, hsome, Bool.false_eq_true, if_false, hsell, ok_bind, hauction, hgive,
      hsplit]
    rfl
  · simp only [runIn, hsome, Bool.false_eq_true, if_false, sellBaseIn_eq, hsell, ok_bind,
      auctionIn_eq, hauction, hgiveIn, hshare, hextra, hsplitIn]
    rfl

/-- A round whose unpaid orders do not fit has no result, with every step checked or not. -/
theorem runWith_eq_error (hpool : market.config.poolSize < longLimit)
    (hsome : market.accounts.isEmpty = false)
    (hover : longLimit ≤ (market.closing target).unmet) :
    market.runWith target = .error .overflow ∧ market.runIn target = .error .overflow := by
  obtain ⟨participants, base, hsell, hauction, -⟩ := market.exists_closing target hpool
  rw [Auction.checked, if_neg (Nat.not_lt.2 hover)] at hauction
  constructor
  · simp only [runWith, hsome, Bool.false_eq_true, if_false, hsell, ok_bind, hauction]
    rfl
  · simp only [runIn, hsome, Bool.false_eq_true, if_false, sellBaseIn_eq, hsell, ok_bind,
      auctionIn_eq, hauction]
    rfl

/-- **Completion of a round.** The pool may be any 64-bit amount, and the accounts and targets are
arbitrary. The auction ends. A round answers the same with every quotient, difference, product and
pair of bounds checked. It completes when the sum of the unpaid orders fits 64 bits, and reports
this sum; when it does not fit, it is the one thing that fails. The sum is at most that of the
orders, each of which the pool bounds. -/
theorem completes_iff_unpaid_fits (hpool : market.config.poolSize < longLimit) :
    (market.closing target).Ended ∧
    market.runIn target = market.runWith target ∧
    ((market.closing target).unmet < longLimit → ∃ report market',
      market.runWith target = .ok (report, market') ∧
        report.unmetDemand = (market.closing target).unmet) ∧
    (longLimit ≤ (market.closing target).unmet → market.runWith target = .error .overflow) ∧
    (market.closing target).unmet ≤
      market.total fun account => orderFor market.config account (target account) := by
  obtain ⟨_, _, -, -, hended, -, horders⟩ := market.exists_closing target hpool
  cases hempty : market.accounts.isEmpty with
  | true =>
    have hzero : (market.closing target).unmet = 0 := by
      have htoList : market.accounts.toList = [] := by
        rw [← List.isEmpty_iff, Std.TreeMap.isEmpty_toList, hempty]
      simpa [total, htoList] using horders
    have hlimit : 0 < longLimit := by decide
    simp only [hzero, runWith, runIn, hempty, if_true]
    exact ⟨hended, trivial, fun _ => ⟨{}, market, rfl, rfl⟩, by omega, by omega⟩
  | false =>
    refine ⟨hended, ?_, fun hfits => ?_, fun hover => ?_, horders⟩
    · by_cases hfits : (market.closing target).unmet < longLimit
      · obtain ⟨report, market', hrun, hrunIn, -⟩ := market.exists_runWith target hpool hempty hfits
        rw [hrun, hrunIn]
      · obtain ⟨hrun, hrunIn⟩ := market.runWith_eq_error target hpool hempty (Nat.not_lt.1 hfits)
        rw [hrun, hrunIn]
    · obtain ⟨report, market', hrun, -, hunmet⟩ := market.exists_runWith target hpool hempty hfits
      exact ⟨report, market', hrun, hunmet⟩
    · exact (market.runWith_eq_error target hpool hempty hover).1

/-- The saver leaves five bytes of its order unpaid, and the round reports them. -/
theorem completes_iff_unpaid_fits_of_saver :
    ∃ report market', saverMarket.runWith (fun a => if a.wallet = 0 then 10 else a.requested + 25) =
        .ok (report, market') ∧ report.unmetDemand = 5 := by
  have hunmet : (saverMarket.closing fun a => if a.wallet = 0 then 10 else a.requested + 25).unmet =
      5 := by decide +kernel
  obtain ⟨-, -, hcompletes, -⟩ := saverMarket.completes_iff_unpaid_fits
    (fun a => if a.wallet = 0 then 10 else a.requested + 25) (by decide)
  rw [hunmet] at hcompletes
  exact hcompletes (by decide)

/-- Two instances that asked for nothing and use as much as the largest pool order all of it each.
Neither has credit, the sum of the unpaid orders does not fit, and the round has no result. -/
theorem run_of_two_full_orders :
    (do
      let market ← (Market.new (.withPoolSize longMax)).register 1 0 longMax
      let market ← market.register 2 0 longMax
      let (report, _) ← market.run
      return report) = .error .overflow := by
  decide +kernel

end Market

end ElasticCache
