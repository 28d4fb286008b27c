import ElasticCache.Proofs.Market.UnpaidDemand
import Mathlib.Data.List.Forall2

/-!
# What the auction sells to whom

Every instance keeps its place in the auction, so what it got is read off by comparing it before and
after. A buyer pays a full window in each of its turns until its order, its wallet or the pool ends.
So all buyers that can go on have paid the same when a round of turns begins, and when the pool ends
in the middle of one, nobody is ahead of a waiting buyer by more than one window.
-/

namespace ElasticCache

/-- An instance before and after a phase of a round. -/
structure Trade where
  before : Participant
  after : Participant

namespace Trade

/-- Bytes that the instance has got. -/
def gain (t : Trade) : Nat := t.after.bought - t.before.bought

/-- What the instance got fills a part of its order and was paid from its wallet. -/
structure Pays (t : Trade) : Prop where
  uid_eq : t.after.uid = t.before.uid
  account_eq : t.after.account =
    { t.before.account with wallet := t.before.account.wallet - t.gain }
  bought_eq : t.after.bought = t.before.bought + t.gain
  le_order : t.gain ≤ t.before.order
  le_wallet : t.gain ≤ t.before.account.wallet

/-- A part of the order is not filled, and there is credit left to pay for it. -/
def Waits (t : Trade) : Prop := t.gain < t.before.order ∧ t.gain < t.before.account.wallet

/-- How an instance stands after some rounds of turns, with `left` bytes still to sell. -/
structure Stands (window rounds left : Nat) (t : Trade) : Prop where
  uid_eq : t.after.uid = t.before.uid
  account_eq : t.after.account = { t.before.account with wallet := t.after.account.wallet }
  bought_le : t.before.bought ≤ t.after.bought
  wallet_eq : t.after.account.wallet + t.gain = t.before.account.wallet
  /-- Every byte of an order is open, unpaid or bought. -/
  order_eq : t.after.order + t.after.unmet + t.gain = t.before.order
  given_up : t.after.unmet ≠ 0 → t.after.order = 0 ∧ (window = 0 ∨ t.after.account.wallet = 0)
  gain_le : t.gain ≤ rounds * window
  keeps_up : 0 < t.after.order → 0 < t.after.account.wallet → rounds * window ≤ t.gain + window
  in_step : 0 < left → 0 < t.after.order → 0 < t.after.account.wallet → t.gain = rounds * window

end Trade

/-- What became of each participant. -/
def trades (before after : List Participant) : List Trade := List.zipWith Trade.mk before after

/-! ## One turn -/

section Turn

variable {window rounds left left' remaining : Nat} {t : Trade}

/-- Nobody bids more than it can pay. -/
theorem Participant.bid_le_wallet (p : Participant) (window remaining : Nat) :
    p.bid window remaining ≤ p.account.wallet := by
  simp only [bid]
  omega

/-- Nobody bids more than one window. -/
theorem Participant.bid_le_window (p : Participant) (window remaining : Nat) :
    p.bid window remaining ≤ window := by
  simp only [bid]
  omega

/-- Who runs out neither of credit nor of its order pays a full window, unless the pool ends. -/
theorem Participant.bid_eq_window {p : Participant}
    (hwallet : p.bid window remaining < p.account.wallet)
    (horder : p.bid window remaining < p.order) (hpool : p.bid window remaining < remaining) :
    p.bid window remaining = window := by
  simp only [bid] at *
  omega

/-- A turn keeps the uid of its instance. -/
theorem Participant.uid_afterTurn (p : Participant) (window remaining : Nat) :
    (p.afterTurn window remaining).uid = p.uid := by
  unfold afterTurn
  split <;> rfl

/-- A turn takes the bid out of the wallet, and leaves the rest of the account. -/
theorem Participant.account_afterTurn (p : Participant) (window remaining : Nat) :
    (p.afterTurn window remaining).account =
      { p.account with wallet := p.account.wallet - p.bid window remaining } := by
  unfold afterTurn
  split
  next => rfl
  next hlost => simp [bid_eq_zero_of_lost hlost]

/-- An instance leaves an order unpaid only when it has an open order and nothing to pay it with. -/
theorem Participant.unmet_cases (p : Participant) (window remaining : Nat) :
    (p.lost window remaining = 0 ∧ (p.afterTurn window remaining).unmet = p.unmet) ∨
      (0 < p.order ∧ (window = 0 ∨ p.account.wallet = 0) ∧ p.lost window remaining = p.order ∧
        (p.afterTurn window remaining).unmet = p.order) := by
  by_cases hlost : p.lost window remaining = 0
  · exact .inl ⟨hlost, by rw [afterTurn, if_pos hlost]⟩
  · have hall := lost_eq_order hlost
    have hnothing := bid_eq_zero_of_lost hlost
    have hpool : remaining ≠ 0 := fun hzero => hlost (p.idle window (.inr hzero)).2.1
    simp only [bid] at hnothing
    exact .inr ⟨by omega, by omega, hall, by rw [afterTurn, if_neg hlost]⟩

/-- Before the first turn, an instance with nothing unpaid stands where it is. -/
theorem Trade.stands_self (p : Participant) (window left : Nat) (h : p.unmet = 0) :
    Trade.Stands window 0 left ⟨p, p⟩ := by
  constructor <;> simp [gain, h]

/-- A turn in a round that began with bytes to sell. What is left after the round was left after the
turn, too. -/
theorem Trade.Stands.turn (h : t.Stands window rounds left) (hleft : 0 < left)
    (hremaining : left' + t.after.bid window remaining ≤ remaining) :
    Trade.Stands window (rounds + 1) left' ⟨t.before, t.after.afterTurn window remaining⟩ := by
  obtain ⟨huid, haccount, hbought, hwallet, horder, hgivenUp, hgain, -, hstep⟩ := h
  have hbidWallet := t.after.bid_le_wallet window remaining
  have hbidWindow := t.after.bid_le_window window remaining
  have hrounds : (rounds + 1) * window = rounds * window + window := Nat.succ_mul rounds window
  have huid' := t.after.uid_afterTurn window remaining
  have haccount' := t.after.account_afterTurn window remaining
  have hwallet' : (t.after.afterTurn window remaining).account.wallet =
      t.after.account.wallet - t.after.bid window remaining := by rw [haccount']
  have hbought' : (t.after.afterTurn window remaining).bought =
      t.after.bought + t.after.bid window remaining := Participant.bought_afterTurn
  have horder' := t.after.order_afterTurn window remaining
  have hunmet' := t.after.unmet_cases window remaining
  have hgain' : (⟨t.before, t.after.afterTurn window remaining⟩ : Trade).gain =
      t.gain + t.after.bid window remaining := by
    simp only [gain, hbought']
    omega
  constructor <;> simp only [hgain']
  · exact huid'.trans huid
  · rw [haccount', haccount]
  · omega
  · omega
  · omega
  · intro hunmet
    rcases hunmet' with ⟨hlost, hsame⟩ | ⟨hopen, hcredit, hlost, -⟩
    · have hclosed := hgivenUp (by omega)
      omega
    · omega
  · omega
  · intro hopen hcredit
    have hlevel := hstep hleft (by omega) (by omega)
    omega
  · intro hmore hopen hcredit
    have hlevel := hstep hleft (by omega) (by omega)
    have hfull : t.after.bid window remaining = window :=
      Participant.bid_eq_window (by omega) (by omega) (by omega)
    omega

end Turn

/-! ## Rounds of turns -/

section Rounds

variable {window rounds : Nat} {participants before middle after : List Participant} {till : Till}
  {auction closed : Auction}

/-- Two relations along lists compose. -/
theorem forall₂_trans {R S T : Participant → Participant → Prop}
    (hRS : ∀ p q r, R p q → S q r → T p r) (h : List.Forall₂ R before middle)
    (h' : List.Forall₂ S middle after) : List.Forall₂ T before after := by
  induction h generalizing after with
  | nil =>
    cases h'
    exact .nil
  | cons hR _ ih =>
    cases h' with
    | cons hS hrest => exact .cons (hRS _ _ _ hR hS) (ih hrest)

/-- What holds of each participant and what became of it holds of all trades. -/
theorem forall_mem_trades {R : Trade → Prop}
    (h : List.Forall₂ (fun p p' => R ⟨p, p'⟩) before after) : ∀ t ∈ trades before after, R t := by
  induction h with
  | nil => simp [trades]
  | cons hp _ ih =>
    intro t ht
    rcases List.mem_cons.1 ht with rfl | ht
    · exact hp
    · exact ih t ht

/-- Everyone is part of one trade. -/
theorem map_trades {R : Participant → Participant → Prop} (h : List.Forall₂ R before after) :
    (trades before after).map Trade.before = before ∧
      (trades before after).map Trade.after = after := by
  induction h with
  | nil => exact ⟨rfl, rfl⟩
  | cons _ _ ih =>
    simp only [trades, List.zipWith_cons_cons, List.map_cons, List.cons.injEq, true_and] at ih ⊢
    exact ih

/-- A trade is of a participant and of what became of it. -/
theorem mem_of_mem_trades {R : Participant → Participant → Prop} (h : List.Forall₂ R before after)
    {t : Trade} (ht : t ∈ trades before after) : t.before ∈ before ∧ t.after ∈ after := by
  obtain ⟨hbefore, hafter⟩ := map_trades h
  have hin := List.mem_map_of_mem (f := Trade.before) ht
  have hout := List.mem_map_of_mem (f := Trade.after) ht
  rw [hbefore] at hin
  rw [hafter] at hout
  exact ⟨hin, hout⟩

/-- What the participants got between them is the sum of what each of them got. -/
theorem sum_gain (h : List.Forall₂ (fun p p' => p.bought ≤ p'.bought) before after) :
    ((trades before after).map Trade.gain).sum + totalBought before = totalBought after := by
  induction h with
  | nil => rfl
  | cons hle _ ih =>
    simp only [trades, List.zipWith_cons_cons, List.map_cons, List.sum_cons, totalBought_cons,
      Trade.gain] at ih ⊢
    omega

/-- Everyone takes its turn with the bytes that are left, and leaves enough for those behind it. -/
theorem forall₂_turns (window : Nat) (participants : List Participant) (till : Till) (unmet : Nat) :
    List.Forall₂ (fun p p' => ∃ remaining, p' = p.afterTurn window remaining ∧
        (turns window participants till unmet).till.remaining + p.bid window remaining ≤ remaining)
      participants (turns window participants till unmet).participants := by
  induction participants generalizing till unmet with
  | nil => exact .nil
  | cons p rest ih =>
    have hbid := p.bid_le window till.remaining
    have hrest := (leads_turns window rest (till.take (p.bid window till.remaining))
      (unmet + p.lost window till.remaining)).remaining
    refine .cons ⟨till.remaining, rfl, ?_⟩ (ih _ _)
    simp only [Till.take, turns] at hrest ⊢
    omega

/-- After any number of turns there is a number of rounds after which everyone stands. -/
theorem exists_stands (window : Nat) (auction : Auction)
    (hfresh : ∀ p ∈ auction.participants, p.unmet = 0) (n : Nat) :
    ∃ rounds, List.Forall₂ (fun p p' => Trade.Stands window rounds
        ((Auction.turned window)^[n] auction).till.remaining ⟨p, p'⟩)
      auction.participants ((Auction.turned window)^[n] auction).participants := by
  induction n with
  | zero => exact ⟨0, List.forall₂_same.2 fun p hp => Trade.stands_self p window _ (hfresh p hp)⟩
  | succ n ih =>
    obtain ⟨rounds, hstands⟩ := ih
    rw [Function.iterate_succ_apply']
    generalize (Auction.turned window)^[n] auction = current at hstands ⊢
    by_cases hended : current.Ended
    · exact ⟨rounds, by rwa [show current.turned window = current from turns_of_ended hended]⟩
    · have hleft : 0 < current.till.remaining := by
        simp only [Auction.Ended] at hended
        omega
      refine ⟨rounds + 1, forall₂_trans ?_ hstands (forall₂_turns window _ _ _)⟩
      rintro p q r hstand ⟨remaining, rfl, hremaining⟩
      exact hstand.turn hleft hremaining

/-- What an auction with a window has made of some participants. -/
structure Auction.Outcome (window : Nat) (participants : List Participant) (closed : Auction) :
    Prop where
  ended : closed.Ended
  stands : ∃ rounds, List.Forall₂
    (fun p p' => Trade.Stands window rounds closed.till.remaining ⟨p, p'⟩)
    participants closed.participants
  unmet_eq : totalUnmet closed.participants = closed.unmet

/-- What is not bought of the orders is open or unpaid. -/
theorem totals_of_stands {left : Nat}
    (h : List.Forall₂ (fun p p' => Trade.Stands window rounds left ⟨p, p'⟩) before after) :
    totalOrder after + totalUnmet after + totalBought after =
      totalOrder before + totalBought before := by
  induction h with
  | nil => rfl
  | cons hp _ ih =>
    have horder := hp.order_eq
    have hbought := hp.bought_le
    simp only [Trade.gain] at horder hbought
    simp only [totalOrder_cons, totalUnmet_cons, totalBought_cons]
    omega

/-- An auction that returns has an outcome. -/
theorem outcome_of_runAuction (hserves : till.Serves participants)
    (hfresh : ∀ p ∈ participants, p.unmet = 0)
    (h : runAuction window ⟨participants, till, 0⟩ = .ok closed) :
    closed.Outcome window participants := by
  have hsold := (runAuction_moves h).sold
  rw [runAuction_eq hserves (show 0 < longLimit by decide) (Nat.le_refl _), Auction.checked] at h
  split at h
  next =>
    obtain rfl := Except.ok.inj h
    obtain ⟨rounds, hstands⟩ := exists_stands window ⟨participants, till, 0⟩ hfresh
      (Auction.work participants till)
    refine ⟨ended_iterate (Nat.le_refl _), ⟨rounds, hstands⟩, ?_⟩
    have horders := (leads_iterate window ⟨participants, till, 0⟩
      (Auction.work participants till)).orders
    have htotals := totals_of_stands hstands
    dsimp only at *
    omega
  next => cases h

end Rounds

/-! ## The whole auction -/

section Auction

variable {window rounds left : Nat} {participants : List Participant} {till : Till} {t u : Trade}

/-- What an instance got in its turns was paid from its wallet. -/
theorem Trade.Stands.pays (h : t.Stands window rounds left) : t.Pays := by
  obtain ⟨huid, haccount, hbought, hwallet, horder, -, -, -, -⟩ := h
  refine ⟨huid, ?_, ?_, by omega, by omega⟩
  · rw [haccount, ← hwallet, Nat.add_sub_cancel]
  · simp only [gain]
    omega

/-- Nobody is ahead of a waiting buyer by more than one window. Where someone gave up with credit
left, it was offered nothing, and so was everyone. -/
theorem Trade.Stands.gain_le_of_waits (ht : t.Stands window rounds left)
    (hu : u.Stands window rounds left) (hwaits : u.Waits) : t.gain ≤ u.gain + window := by
  obtain ⟨hunfilled, hcredit⟩ := hwaits
  have hwallet := hu.wallet_eq
  have horder := hu.order_eq
  have hgain := ht.gain_le
  by_cases hunmet : u.after.unmet = 0
  · have hlevel := hu.keeps_up (by omega) (by omega)
    omega
  · obtain ⟨-, hnothing⟩ := hu.given_up hunmet
    have hwindow : window = 0 := by omega
    rw [hwindow, Nat.mul_zero] at hgain
    omega

/-- Without an open order a buyer has got all that it ordered or could pay. -/
theorem Trade.Stands.gain_eq (h : t.Stands window rounds left) (hwindow : window ≠ 0)
    (hclosed : t.after.order = 0) :
    t.gain = min t.before.order t.before.account.wallet ∧
      t.after.unmet = t.before.order - t.before.account.wallet := by
  have hwallet := h.wallet_eq
  have horder := h.order_eq
  by_cases hunmet : t.after.unmet = 0
  · omega
  · have hcredit := (h.given_up hunmet).2
    omega

/-- Without buyers, nobody has an open order. -/
theorem order_eq_zero_of_countBuyers (h : countBuyers participants = 0) {p : Participant}
    (hp : p ∈ participants) : p.order = 0 := by
  have hnone := List.countP_eq_zero.1 h p hp
  simpa using hnone

/-- Only an auction that is configured to sell nothing per turn has no window. -/
theorem windowFor_eq_zero_iff {config : MarketConfig} :
    windowFor config participants till = 0 ↔ config.windowSize = some 0 := by
  unfold windowFor
  cases config.windowSize with
  | none => simp
  | some window => simp

/-- An auction returns when the sum of all orders fits a 64-bit amount. -/
theorem exists_outcome (window : Nat) (hserves : till.next.Serves participants)
    (hfresh : ∀ p ∈ participants, p.unmet = 0) (horders : totalOrder participants < longLimit) :
    ∃ closed, runAuction window ⟨participants, till.next, 0⟩ = .ok closed ∧
      closed.Outcome window participants := by
  let opening : Auction := ⟨participants, till.next, 0⟩
  have hfits : ((Auction.turned window)^[Auction.work participants till.next] opening).unmet <
      longLimit := by
    have hleads := (leads_iterate window opening (Auction.work participants till.next)).orders
    have hunpaid : opening.unmet + totalOrder opening.participants + opening.till.sold =
        totalOrder participants := by
      simp [opening, Till.next]
    omega
  have hrun : runAuction window opening = .ok _ :=
    (runAuction_eq hserves (show 0 < longLimit by decide) (Nat.le_refl _)).trans (if_pos hfits)
  exact ⟨_, hrun, outcome_of_runAuction hserves hfresh hrun⟩

/-- An efficient and fair auction. The orders, wallets and bytes to sell are arbitrary, as long as
the sum of the orders fits 64 bits and so does the pool that the bytes belong to. The auction ends,
and everyone gets at most what it ordered and could pay, for just as much of its wallet; together
they get what was sold. The unpaid orders are those reported. Nobody is ahead of a waiting buyer by
more than one window. With a window, the pool is sold out or everyone has got what it ordered and
could pay, and only the rest of its order is unpaid. With a window of zero, nobody gets anything,
and all orders are unpaid if there was anything to sell. -/
theorem runAuction_efficient_and_fair (config : MarketConfig) (participants : List Participant)
    (till : Till) (hpool : till.remaining + totalBought participants < longLimit)
    (hfresh : ∀ p ∈ participants, p.unmet = 0) (horders : totalOrder participants < longLimit) :
    ∃ closed, runAuction (windowFor config participants till) ⟨participants, till.next, 0⟩ =
        .ok closed ∧
      closed.participants.length = participants.length ∧
      (∀ t ∈ trades participants closed.participants, t.Pays) ∧
      ((trades participants closed.participants).map Trade.gain).sum = closed.till.sold ∧
      closed.till.sold ≤ till.remaining ∧
      totalUnmet closed.participants = closed.unmet ∧
      (∀ t ∈ trades participants closed.participants,
        ∀ u ∈ trades participants closed.participants,
          u.Waits → t.gain ≤ u.gain + windowFor config participants till) ∧
      (config.windowSize ≠ some 0 → closed.till.sold = till.remaining ∨
        ∀ t ∈ trades participants closed.participants,
          t.gain = min t.before.order t.before.account.wallet ∧
            t.after.unmet = t.before.order - t.before.account.wallet) ∧
      (config.windowSize = some 0 → ∀ t ∈ trades participants closed.participants,
        t.gain = 0 ∧ (0 < till.remaining → t.after.unmet = t.before.order)) := by
  obtain ⟨closed, hrun, hended, ⟨rounds, hstands⟩, hunmet⟩ :=
    exists_outcome (windowFor config participants till) (.of_total rfl hpool) hfresh horders
  obtain ⟨hremaining, hsold, -⟩ := runAuction_moves hrun
  have hgains := sum_gain (hstands.imp fun _ _ h => h.bought_le)
  have hall := forall_mem_trades hstands
  have hmem (t : Trade) (ht : t ∈ trades participants closed.participants) :
      t.after ∈ closed.participants := (mem_of_mem_trades hstands ht).2
  dsimp only [Till.next] at hremaining hsold
  refine ⟨closed, hrun, hstands.length_eq.symm, fun t ht => (hall t ht).pays, by omega, by omega,
    hunmet, fun t ht u hu => (hall t ht).gain_le_of_waits (hall u hu), ?_, ?_⟩
  · intro hwindow
    rcases hended with hsoldOut | hnobody
    · left
      omega
    · right
      intro t ht
      exact (hall t ht).gain_eq (mt windowFor_eq_zero_iff.1 hwindow)
        (order_eq_zero_of_countBuyers hnobody (hmem t ht))
  · intro hwindow t ht
    have hnothing (u : Trade) (hu : u ∈ trades participants closed.participants) : u.gain = 0 := by
      have hgain := (hall u hu).gain_le
      rw [windowFor_eq_zero_iff.2 hwindow] at hgain
      omega
    refine ⟨hnothing t ht, fun hpositive => ?_⟩
    have hnone : ((trades participants closed.participants).map Trade.gain).sum = 0 := by
      refine List.sum_eq_zero fun gain hgain => ?_
      obtain ⟨u, hu, rfl⟩ := List.mem_map.1 hgain
      exact hnothing u hu
    have hleft : closed.till.remaining ≠ 0 := by omega
    have hopen := order_eq_zero_of_countBuyers (hended.resolve_left hleft) (hmem t ht)
    have horder := (hall t ht).order_eq
    rw [hnothing t ht] at horder
    omega

/-- Three buyers who already have ten bytes each: two with an order of thirty bytes and credit for
all of it, and between them one that orders five. -/
def threeBuyers : List Participant :=
  let account (wallet : Nat) : Account := ⟨10, 10, 10, 10, ⟨[10], 10⟩, wallet⟩
  [⟨1, account 30, 10, 30, 0⟩, ⟨2, account 50, 10, 5, 0⟩, ⟨3, account 30, 10, 30, 0⟩]

/-- Twenty bytes end in the second round of turns, right behind the first buyer. The third one still
waits, and the first is ahead of it by one byte of a window of seven. -/
theorem runAuction_efficient_and_fair_of_three :
    ∃ closed, runAuction 7 ⟨threeBuyers, ⟨20, 0⟩, 0⟩ = .ok closed ∧
      (trades threeBuyers closed.participants).map Trade.gain = [8, 5, 7] ∧
      closed.till.sold = 20 ∧
      ∀ t ∈ trades threeBuyers closed.participants, ∀ u ∈ trades threeBuyers closed.participants,
        u.Waits → t.gain ≤ u.gain + 7 := by
  have hanswers : (runAuction 7 ⟨threeBuyers, ⟨20, 0⟩, 0⟩).map (fun closed =>
      ((trades threeBuyers closed.participants).map Trade.gain, closed.till.sold)) =
        .ok ([8, 5, 7], 20) := by decide +kernel
  obtain ⟨closed, hrun, -, -, -, -, -, hfair, -, -⟩ :=
    runAuction_efficient_and_fair { windowSize := some 7 } threeBuyers ⟨20, 0⟩ (by decide)
      (by decide) (by decide)
  have hwindow : windowFor { windowSize := some 7 } threeBuyers ⟨20, 0⟩ = 7 := rfl
  rw [hwindow] at hrun hfair
  have hrun' : runAuction 7 ⟨threeBuyers, ⟨20, 0⟩, 0⟩ = .ok closed := hrun
  rw [hrun'] at hanswers
  obtain ⟨hgains, hsold⟩ := Prod.mk.inj (Except.ok.inj hanswers)
  exact ⟨closed, hrun', hgains, hsold, hfair⟩

end Auction

end ElasticCache
