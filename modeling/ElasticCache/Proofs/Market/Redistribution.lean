import ElasticCache.Proofs.Market.Trades

/-!
# Unpaid orders come before the even split

What the auction leaves goes to the orders that it left unpaid. If it covers them, they are filled.
If not, each gets its share of it, and rounding the shares down loses less than one byte for each
of them. So the even split has next to nothing to give away as long as any order is open.
-/

namespace ElasticCache

/-! ## Shares -/

namespace Participant

/-- Share of an instance in what the auction left, when all unpaid orders add up to `demand`. -/
def share (left demand : Nat) (p : Participant) : Nat := min demand left * p.unmet / demand

/-- An instance with its share. -/
def topUp (left demand : Nat) (p : Participant) : Participant :=
  { p with bought := p.bought + p.share left demand }

variable {p : Participant} {left demand : Nat}

/-- With nothing left, no demand or nothing unpaid there is no share. -/
theorem share_eq_zero (h : left = 0 ∨ demand = 0 ∨ p.unmet = 0) : p.share left demand = 0 := by
  rcases h with h | h | h <;> simp [share, h]

/-- A share is not above what is unpaid. -/
theorem share_le_unmet : p.share left demand ≤ p.unmet := by
  cases demand with
  | zero => simp [share]
  | succ demand =>
    calc p.share left (demand + 1)
      _ ≤ (demand + 1) * p.unmet / (demand + 1) :=
        Nat.div_le_div_right (Nat.mul_le_mul_right _ (Nat.min_le_left _ _))
      _ = p.unmet := Nat.mul_div_cancel_left _ demand.succ_pos

/-- Everyone gets all that it lacks when there is enough for everyone. -/
theorem share_eq_unmet (hcovers : demand ≤ left) (hunmet : p.unmet ≤ demand) :
    p.share left demand = p.unmet := by
  by_cases hnone : demand = 0
  · rw [share_eq_zero (.inr (.inl hnone))]
    omega
  · rw [share, Nat.min_eq_left hcovers, Nat.mul_div_cancel_left _ (Nat.pos_of_ne_zero hnone)]

end Participant

section Shares

variable {give left demand : Nat} {participants after : List Participant} {till till' : Till}

/-- Everyone gets its share in addition to what it bought. -/
theorem eq_map_of_shareOut (h : shareOut give demand participants till = .ok (after, till')) :
    after = participants.map fun p => { p with bought := p.bought + give * p.unmet / demand } := by
  induction participants generalizing till after till' with
  | nil =>
    obtain ⟨rfl, rfl⟩ : [] = after ∧ till = till' := by simpa [shareOut] using h
    rfl
  | cons p rest ih =>
    obtain ⟨till₁, -, h⟩ := bind_eq_ok_iff.1 h
    obtain ⟨bought, hbought, h⟩ := bind_eq_ok_iff.1 h
    obtain ⟨⟨others, till₂⟩, hrest, h⟩ := bind_eq_ok_iff.1 h
    obtain ⟨rfl, rfl⟩ : { p with bought } :: others = after ∧ till₂ = till' := by
      simpa [pure, Except.pure] using h
    obtain ⟨-, rfl⟩ := fitLong_eq_ok_iff.1 hbought
    rw [ih hrest, List.map_cons]

/-- The redistribution gives everyone its share. -/
theorem eq_map_topUp_of_redistribute
    (h : redistribute participants demand till = .ok (after, till')) :
    after = participants.map (Participant.topUp till.remaining demand) := by
  unfold redistribute at h
  split at h
  next hnothing =>
    obtain ⟨rfl, rfl⟩ : participants = after ∧ till = till' := by simpa using h
    refine (List.map_id'' (fun p => ?_) participants).symm
    rw [Participant.topUp, Participant.share_eq_zero (by omega), Nat.add_zero]
  next => exact eq_map_of_shareOut h

/-- Number of instances with an unpaid order. -/
def countUnpaid (participants : List Participant) : Nat :=
  participants.countP fun p => 0 < p.unmet

/-- A participant with an unpaid order is one more. -/
theorem countUnpaid_cons (p : Participant) (rest : List Participant) :
    countUnpaid (p :: rest) = countUnpaid rest + if 0 < p.unmet then 1 else 0 := by
  simp [countUnpaid, List.countP_cons]

/-- The shares are bought in addition to what was. -/
theorem totalBought_topUp (left demand : Nat) (participants : List Participant) :
    totalBought (participants.map (Participant.topUp left demand)) =
      totalBought participants + (participants.map (Participant.share left demand)).sum := by
  induction participants with
  | nil => rfl
  | cons p rest ih =>
    simp only [List.map_cons, List.sum_cons, totalBought_cons, ih, Participant.topUp]
    omega

/-- A share that is rounded down lacks less than one byte, and nothing lacks without an order. -/
theorem add_le_mul_share (left : Nat) (hdemand : 0 < demand) (p : Participant) :
    min demand left * p.unmet + (if 0 < p.unmet then 1 else 0) ≤
      demand * (p.share left demand + if 0 < p.unmet then 1 else 0) := by
  split
  next => exact Nat.lt_mul_div_succ _ hdemand
  next hnone =>
    have hzero : p.unmet = 0 := by omega
    simp [hzero]

/-- All shares lack less than one byte for each unpaid order. -/
theorem sum_add_le_mul_shares (left : Nat) (hdemand : 0 < demand)
    (participants : List Participant) :
    min demand left * totalUnmet participants + countUnpaid participants ≤
      demand * ((participants.map (Participant.share left demand)).sum +
        countUnpaid participants) := by
  induction participants with
  | nil => simp [totalUnmet, countUnpaid]
  | cons p rest ih =>
    have hp := add_le_mul_share left hdemand p
    simp only [totalUnmet_cons, countUnpaid_cons, List.map_cons, List.sum_cons, Nat.mul_add] at *
    omega

/-- When the unpaid orders cannot all be filled, rounding loses less than one byte for each. -/
theorem lt_sum_shares (hshort : left < demand) (hunmet : totalUnmet participants = demand) :
    left < (participants.map (Participant.share left demand)).sum + countUnpaid participants := by
  have hdemand : 0 < demand := by omega
  have hsome : 0 < countUnpaid participants := by
    by_contra hnone
    have hzero : totalUnmet participants = 0 := by
      refine List.sum_eq_zero fun unmet hmem => ?_
      obtain ⟨p, hp, rfl⟩ := List.mem_map.1 hmem
      have hp := List.countP_eq_zero.1 (Nat.eq_zero_of_not_pos hnone) p hp
      simpa using hp
    omega
  have hshares := sum_add_le_mul_shares left hdemand participants
  rw [hunmet, Nat.min_eq_right (Nat.le_of_lt hshort), Nat.mul_comm left] at hshares
  exact Nat.lt_of_mul_lt_mul_left (a := demand) (by omega)

/-- Only who ordered can have an unpaid order. -/
theorem countUnpaid_le_countBuyers {before : List Participant}
    (h : List.Forall₂ (fun p p' => 0 < p'.unmet → 0 < p.order) before after) :
    countUnpaid after ≤ countBuyers before := by
  induction h with
  | nil => exact Nat.le_refl _
  | cons hp _ ih =>
    rw [countUnpaid_cons, countBuyers_cons]
    split_ifs <;> omega

end Shares

/-! ## The phases of a round -/

/-- A round up to the even split: the participants after the base sale, the auction as it closed,
and the participants after the redistribution with the bytes left for the even split. -/
structure Market.Phases (target : Account → Nat) (market : Market) where
  opened : List Participant
  base : Till
  auction : Auction
  served : List Participant
  rest : Till
  sells : sellBase market.config target market.accounts.toList ⟨market.config.poolSize, 0⟩ =
    .ok (opened, base)
  auctions : runAuction (windowFor market.config opened base) ⟨opened, base.next, 0⟩ = .ok auction
  gives : redistribute auction.participants auction.unmet auction.till.next = .ok (served, rest)

/-- What one instance got in the auction and after it. -/
structure Deal extends Trade where
  served : Participant

namespace Deal

/-- The instance itself. -/
def uid (d : Deal) : Nat := d.before.uid

/-- Bytes from the base sale. -/
def base (d : Deal) : Nat := d.before.bought

/-- Bytes that the base sale ordered on top. -/
def order (d : Deal) : Nat := d.before.order

/-- Bytes bought in the auction. -/
def paid (d : Deal) : Nat := d.gain

/-- Bytes of the order that the auction left unpaid. -/
def unmet (d : Deal) : Nat := d.after.unmet

/-- Bytes from the redistribution. -/
def given (d : Deal) : Nat := d.served.bought - d.after.bought

end Deal

namespace Market.Phases

variable {target : Account → Nat} {market market' : Market} {report : RoundReport}
  (phases : market.Phases target)

/-- Bytes that the auction left. -/
def left : Nat := phases.auction.till.remaining

/-- What each instance got. -/
def deals : List Deal :=
  List.zipWith Deal.mk (trades phases.opened phases.auction.participants) phases.served

/-- A round goes through its phases in one way. -/
instance : Subsingleton (market.Phases target) := by
  refine ⟨fun ⟨opened, base, auction, served, rest, hsells, hauctions, hgives⟩
    ⟨opened', base', auction', served', rest', hsells', hauctions', hgives'⟩ => ?_⟩
  obtain ⟨rfl, rfl⟩ : opened = opened' ∧ base = base' := by simpa using hsells.symm.trans hsells'
  obtain rfl : auction = auction' := by simpa using hauctions.symm.trans hauctions'
  obtain ⟨rfl, rfl⟩ : served = served' ∧ rest = rest' := by simpa using hgives.symm.trans hgives'
  rfl

/-- Every round that returns went through its phases, and the accounts that it leaves are those of
its even split. The report tells what each phase sold. -/
theorem exists_of_runWith (h : market.runWith target = .ok (report, market')) :
    ∃ (phases : market.Phases target) (accounts : List (Nat × Account)),
      splitEvenly (phases.rest.remaining / phases.served.length)
        (phases.rest.remaining % phases.served.length) phases.served 0 =
          .ok (accounts, report.split) ∧
      market'.accounts.toList.Perm accounts ∧
      report = ⟨phases.served.length, phases.base.sold, phases.auction.till.sold,
        phases.rest.sold, report.split, phases.auction.unmet⟩ := by
  cases hempty : market.accounts.isEmpty with
  | true =>
    simp only [runWith, hempty, if_true, pure, Except.pure, Except.ok.injEq, Prod.mk.injEq] at h
    obtain ⟨rfl, rfl⟩ := h
    have htoList : market.accounts.toList = [] := by
      rw [← List.isEmpty_iff, Std.TreeMap.isEmpty_toList, hempty]
    have hauction (window : Nat) (till : Till) :
        runAuction window ⟨[], till, 0⟩ = .ok ⟨[], till, 0⟩ := by
      rw [runAuction]
      exact dif_neg (by simp [countBuyers])
    let till : Till := ⟨market.config.poolSize, 0⟩
    exact ⟨⟨[], till, ⟨[], till.next, 0⟩, [], till.next.next, by rw [htoList]; rfl,
      hauction _ _, by simp [redistribute]⟩, [], rfl, by rw [htoList], rfl⟩
  | false =>
    obtain ⟨opened, base, auction, served, rest, accounts, split, hsells, hauctions, hgives, hsplit,
      rfl, rfl, hseats⟩ := exists_phases_of_runWith hempty h
    exact ⟨⟨opened, base, auction, served, rest, hsells, hauctions, hgives⟩, accounts, hsplit,
      toList_of_even_split hsplit hseats, rfl⟩

/-- The auction of a round has an outcome. -/
theorem outcome (hpool : market.config.poolSize < longLimit) :
    phases.auction.Outcome (windowFor market.config phases.opened phases.base) phases.opened := by
  obtain ⟨opened, base, hsells, -, hserves, hunmet, -⟩ := market.opening_spec target hpool
  obtain ⟨rfl, rfl⟩ : opened = phases.opened ∧ base = phases.base := by
    simpa using hsells.symm.trans phases.sells
  refine outcome_of_runAuction hserves (fun p hp => ?_) phases.auctions
  have hle : p.unmet ≤ totalUnmet phases.opened := List.le_sum_of_mem (List.mem_map_of_mem hp)
  omega

/-- After the redistribution everyone has got its share of what the auction left. -/
theorem served_eq :
    phases.served = phases.auction.participants.map
      (Participant.topUp phases.left phases.auction.unmet) := by
  have hgives := eq_map_topUp_of_redistribute phases.gives
  exact hgives

/-- After its trade in the auction everyone gets its share. -/
theorem deals_eq (hpool : market.config.poolSize < longLimit) :
    phases.deals = (trades phases.opened phases.auction.participants).map fun t =>
      ⟨t, t.after.topUp phases.left phases.auction.unmet⟩ := by
  obtain ⟨-, ⟨_, hstands⟩, -⟩ := phases.outcome hpool
  rw [deals, served_eq]
  nth_rewrite 2 [← (map_trades hstands).2]
  rw [List.map_map, List.zipWith_map_right, List.zipWith_self]
  rfl

/-- Everyone is part of one deal. -/
theorem map_deals (hpool : market.config.poolSize < longLimit) :
    phases.deals.map (fun d => d.before) = phases.opened ∧
      phases.deals.map (fun d => d.after) = phases.auction.participants ∧
      phases.deals.map Deal.served = phases.served := by
  obtain ⟨-, ⟨_, hstands⟩, -⟩ := phases.outcome hpool
  obtain ⟨hbefore, hafter⟩ := map_trades hstands
  rw [phases.deals_eq hpool, List.map_map, List.map_map, List.map_map]
  refine ⟨hbefore, hafter, ?_⟩
  rw [served_eq]
  nth_rewrite 2 [← hafter]
  rw [List.map_map]
  rfl

/-- After the auction everyone gets its share and nothing else. -/
theorem served_of_mem_deals (hpool : market.config.poolSize < longLimit) {d : Deal}
    (hd : d ∈ phases.deals) : d.served = d.after.topUp phases.left phases.auction.unmet := by
  rw [phases.deals_eq hpool] at hd
  obtain ⟨t, -, rfl⟩ := List.mem_map.1 hd
  rfl

/-- The deals begin with what the base sale gave. -/
theorem base_deals (hpool : market.config.poolSize < longLimit) :
    phases.deals.map (fun d => (d.uid, d.base)) =
      phases.opened.map fun p => (p.uid, p.bought) := by
  rw [← (phases.map_deals hpool).1, List.map_map]
  rfl

/-- How an instance stood after some rounds of turns, and what it got then. -/
structure Settles (rounds : Nat) (d : Deal) : Prop where
  stands : d.Stands (windowFor market.config phases.opened phases.base) rounds phases.left
  opened : d.before ∈ phases.opened
  closed : d.after ∈ phases.auction.participants
  unmet_le : d.unmet ≤ phases.auction.unmet
  given_eq : d.given = d.after.share phases.left phases.auction.unmet

/-- Everyone stands after the auction, and then gets its share. -/
theorem exists_settles (hpool : market.config.poolSize < longLimit) :
    ∃ rounds, ∀ d ∈ phases.deals, phases.Settles rounds d := by
  obtain ⟨-, ⟨rounds, hstands⟩, hunmet⟩ := phases.outcome hpool
  refine ⟨rounds, fun d hd => ?_⟩
  rw [phases.deals_eq hpool] at hd
  obtain ⟨t, ht, rfl⟩ := List.mem_map.1 hd
  obtain ⟨hopened, hclosed⟩ := mem_of_mem_trades hstands ht
  have hle : t.after.unmet ≤ totalUnmet phases.auction.participants :=
    List.le_sum_of_mem (List.mem_map_of_mem hclosed)
  exact ⟨forall_mem_trades hstands t ht, hopened, hclosed, hunmet ▸ hle,
    Nat.add_sub_cancel_left _ _⟩

/-- In the end everyone has what it got in the phases. -/
theorem bought_served (hpool : market.config.poolSize < longLimit) :
    phases.served.map (fun p => (p.uid, p.bought)) =
      phases.deals.map fun d => (d.uid, d.base + d.paid + d.given) := by
  obtain ⟨rounds, hsettles⟩ := phases.exists_settles hpool
  rw [← (phases.map_deals hpool).2.2, List.map_map]
  refine List.map_congr_left fun d hd => ?_
  obtain ⟨huid, -, hbought, -, -⟩ := (hsettles d hd).stands.pays
  simp only [Function.comp_apply, phases.served_of_mem_deals hpool hd, Participant.topUp, Deal.uid,
    Deal.base, Deal.paid, Deal.given, Prod.mk.injEq]
  omega

/-- A round that returns gives every instance what it got in the phases, and its even split no more
than these left. -/
theorem exists_deals_of_runWith (hpool : market.config.poolSize < longLimit)
    (h : market.runWith target = .ok (report, market')) :
    ∃ phases : market.Phases target, report.unmetDemand = phases.auction.unmet ∧
      report.split ≤ phases.rest.remaining ∧
      ∀ uid n, (market'.account? uid).map (·.buyingSize) = some n ↔
        ∃ d ∈ phases.deals, d.uid = uid ∧ d.base + d.paid + d.given = n := by
  obtain ⟨phases, accounts, hsplit, hperm, hreport⟩ := exists_of_runWith h
  refine ⟨phases, by rw [hreport], le_of_even_split hsplit, fun uid n => ?_⟩
  rw [map_account?_of_even_split (fun _ _ => rfl) hsplit hperm]
  simp only [phases.bought_served hpool, List.mem_map, Prod.mk.injEq]

variable {phases} {rounds : Nat} {d : Deal}

/-- Nobody gets more than it ordered. -/
theorem Settles.paid_add_given_le (h : phases.Settles rounds d) : d.paid + d.given ≤ d.order := by
  have hgiven : d.given ≤ d.unmet := h.given_eq ▸ Participant.share_le_unmet
  have horder := h.stands.order_eq
  simp only [Deal.paid, Deal.order, Deal.unmet] at hgiven ⊢
  omega

/-- Only unpaid orders get shares. -/
theorem Settles.given_eq_zero (h : phases.Settles rounds d) (hnone : d.unmet = 0) : d.given = 0 :=
  h.given_eq.trans (Participant.share_eq_zero (.inr (.inr hnone)))

/-- With enough for all unpaid orders, only an order that is still open is not filled. -/
theorem Settles.paid_add_given_eq (h : phases.Settles rounds d)
    (hcovers : phases.auction.unmet ≤ phases.left) :
    d.after.order + d.paid + d.given = d.order := by
  have hgiven := h.given_eq
  rw [Participant.share_eq_unmet hcovers h.unmet_le] at hgiven
  have horder := h.stands.order_eq
  simp only [Deal.paid, Deal.order]
  omega

variable (phases)

/-- What is left after the redistribution was not given. -/
theorem rest_add_shares :
    phases.rest.remaining + (phases.auction.participants.map
      (Participant.share phases.left phases.auction.unmet)).sum = phases.left := by
  have hmoves := (redistribute_moves phases.gives).remaining
  rw [served_eq, totalBought_topUp] at hmoves
  simp only [Till.next, left] at hmoves ⊢
  omega

/-- With any order not filled, less is left for the even split than there are buyers. Rounding down
costs every unpaid order less than a byte. -/
theorem rest_lt_countBuyers (hpool : market.config.poolSize < longLimit)
    (hsettles : phases.Settles rounds d) (hopen : d.paid + d.given < d.order) :
    phases.rest.remaining < countBuyers phases.opened := by
  obtain ⟨hended, ⟨_, hstands⟩, hunmet⟩ := phases.outcome hpool
  have hrest := phases.rest_add_shares
  by_cases hshort : phases.left < phases.auction.unmet
  · have hloss := lt_sum_shares hshort hunmet
    have hunpaid := countUnpaid_le_countBuyers
      (hstands.imp fun p p' h (hpos : 0 < p'.unmet) => show 0 < p.order by
        have horder := h.order_eq
        dsimp only at horder
        omega)
    omega
  · have horder := hsettles.paid_add_given_eq (Nat.le_of_not_lt hshort)
    have hpending : d.after.order ≠ 0 := by omega
    have hsoldOut : phases.left = 0 := hended.resolve_right fun hnobody =>
      hpending (order_eq_zero_of_countBuyers hnobody hsettles.closed)
    have hbuys : countBuyers phases.opened ≠ 0 := fun hnobody => by
      have hnone : d.order = 0 := order_eq_zero_of_countBuyers hnobody hsettles.opened
      omega
    omega

end Market.Phases

/-- **Unpaid orders come first.** In a round that returns, the auction and the redistribution never
give an instance more than it ordered, and only unpaid orders get shares. If the auction leaves
enough for all of them, they are filled. If not, each gets its share in proportion, rounded down.
With any order not filled in the end, the even split gives away fewer bytes than there are buyers.
What an instance has without this split is what it got in the phases, and at most its base and its
order. -/
theorem Market.fills_unpaid_orders_first (target : Account → Nat) {market market' : Market}
    {report : RoundReport} (hpool : market.config.poolSize < longLimit)
    (h : market.runWith target = .ok (report, market')) :
    ∃ phases : market.Phases target, phases.auction.unmet = report.unmetDemand ∧
      (∀ d ∈ phases.deals, d.paid + d.given ≤ d.order ∧ (d.unmet = 0 → d.given = 0)) ∧
      (report.unmetDemand ≤ phases.left → ∀ d ∈ phases.deals, d.unmet ≠ 0 →
        d.paid + d.given = d.order) ∧
      (phases.left < report.unmetDemand → ∀ d ∈ phases.deals, d.unmet ≠ 0 →
        d.given = phases.left * d.unmet / report.unmetDemand) ∧
      ((∃ d ∈ phases.deals, d.paid + d.given < d.order) →
        report.split < countBuyers phases.opened) ∧
      (∀ uid n, (market'.account? uid).map (·.buyingSize) = some n ↔
        ∃ d ∈ phases.deals, d.uid = uid ∧ d.base + d.paid + d.given = n) ∧
      ∀ uid account, market'.account? uid = some account →
        ∃ d ∈ phases.deals, d.uid = uid ∧ account.buyingSize ≤ d.base + d.order := by
  obtain ⟨phases, hunmet, hsplit, hbought⟩ := Phases.exists_deals_of_runWith hpool h
  obtain ⟨rounds, hsettles⟩ := phases.exists_settles hpool
  refine ⟨phases, hunmet.symm, ?_, ?_, ?_, ?_, hbought, ?_⟩
  · intro d hd
    exact ⟨(hsettles d hd).paid_add_given_le, (hsettles d hd).given_eq_zero⟩
  · intro hcovers d hd hunpaid
    have hclosed := ((hsettles d hd).stands.given_up hunpaid).1
    have hfilled := (hsettles d hd).paid_add_given_eq (hunmet ▸ hcovers)
    omega
  · intro hshort d hd _
    rw [(hsettles d hd).given_eq, Participant.share, ← hunmet, Nat.min_eq_right (by omega),
      Deal.unmet]
  · rintro ⟨d, hd, hopen⟩
    exact Nat.lt_of_le_of_lt hsplit (phases.rest_lt_countBuyers hpool (hsettles d hd) hopen)
  · intro uid account hfind
    obtain ⟨d, hd, huid, hgot⟩ := (hbought uid account.buyingSize).1 (by rw [hfind]; rfl)
    have hle := (hsettles d hd).paid_add_given_le
    exact ⟨d, hd, huid, by omega⟩

/-- A market of a pool of 100 bytes without credit, in which each instance asked for 30 bytes. -/
def threeOrders : Market where
  config := { poolSize := 100, minSlabSize := 10 }
  accounts :=
    let account (size : Nat) : Account := ⟨30, size, size, size, ⟨[30], 10⟩, 0⟩
    (∅ : Std.TreeMap Nat Account).insertMany [(1, account 47), (2, account 50), (3, account 36)]

/-- Everyone has its size as the target. Ten bytes are left for orders of 17, 20 and 6 bytes, and
two of them are lost to rounding. -/
def threeOrders.phases : threeOrders.Phases (·.size) :=
  let account (size : Nat) : Account := ⟨30, size, size, size, ⟨[30], 10⟩, 0⟩
  { opened := [⟨1, account 47, 30, 17, 0⟩, ⟨2, account 50, 30, 20, 0⟩, ⟨3, account 36, 30, 6, 0⟩]
    base := ⟨10, 90⟩
    auction := ⟨[⟨1, account 47, 30, 0, 17⟩, ⟨2, account 50, 30, 0, 20⟩,
      ⟨3, account 36, 30, 0, 6⟩], ⟨10, 0⟩, 43⟩
    served := [⟨1, account 47, 33, 0, 17⟩, ⟨2, account 50, 34, 0, 20⟩, ⟨3, account 36, 31, 0, 6⟩]
    rest := ⟨2, 8⟩
    sells := by decide +kernel
    auctions := by decide +kernel
    gives := by decide +kernel }

/-- Each order gets its share of the ten bytes, and fewer bytes than there are orders are split. -/
theorem Market.fills_unpaid_orders_first_of_three :
    ∃ report market', threeOrders.runWith (·.size) = .ok (report, market') ∧
      report.unmetDemand = 43 ∧
      (∀ d ∈ threeOrders.phases.deals, d.given = 10 * d.unmet / 43) ∧ report.split < 3 := by
  have hunmet : (threeOrders.runWith (·.size)).map (·.1.unmetDemand) = .ok 43 := by decide +kernel
  cases hrun : threeOrders.runWith (·.size) with
  | error fault => rw [hrun] at hunmet; cases hunmet
  | ok result =>
    obtain ⟨report, market'⟩ := result
    rw [hrun] at hunmet
    obtain ⟨phases, -, -, -, hshares, hsplit, -, -⟩ :=
      Market.fills_unpaid_orders_first (·.size) (by decide) hrun
    obtain rfl : phases = threeOrders.phases := Subsingleton.elim _ _
    have hdemand : report.unmetDemand = 43 := Except.ok.inj hunmet
    rw [hdemand] at hshares
    have hsome : ∀ d ∈ threeOrders.phases.deals, d.unmet ≠ 0 ∧ d.paid + d.given < d.order := by
      decide
    refine ⟨report, market', rfl, hdemand, fun d hd => ?_, ?_⟩
    · exact hshares (by decide) d hd (hsome d hd).1
    · exact hsplit ⟨_, List.mem_cons_self, (hsome _ List.mem_cons_self).2⟩

end ElasticCache
