import ElasticCache.Proofs.Market.Accounts
import ElasticCache.Proofs.Market.Redistribution

/-!
# Wallets are exact ledgers

The base sale credits a wallet with the part of a guarantee that its instance leaves unused, up to
the ceiling of a wallet, and the auction takes out of it what the instance pays. A round does one of
the two or neither, and nothing else touches a wallet. So what the wallets of the buyers lose is
what the auction sold, and no wallet ever passes the ceiling.
-/

namespace ElasticCache

section Credits

variable {config : MarketConfig} {account : Account} {target : Nat}

/-- An unused part of a guarantee is saved, up to the ceiling. -/
theorem credited_of_lt (hceiling : config.maxWallet < longLimit)
    (hlt : target < account.requested) :
    credited config account target =
      min config.maxWallet (account.wallet + account.requested - target) := by
  rw [credited, if_pos hlt]
  simp only [saturatingSum, longMax]
  omega

/-- Whoever needs its whole guarantee saves nothing. -/
theorem credited_of_le (hle : account.requested ≤ target) :
    credited config account target = account.wallet := if_neg (Nat.not_lt.2 hle)

/-- A credit within the ceiling stays within it. -/
theorem credited_le (target : Nat) (hwallet : account.wallet ≤ config.maxWallet) :
    credited config account target ≤ config.maxWallet := by
  unfold credited
  split
  next => exact Nat.min_le_right _ _
  next => exact hwallet

/-- Whoever does not need more than it requested orders nothing. -/
theorem orderFor_of_le (hle : target ≤ account.requested) :
    orderFor config account target = 0 := by
  simp only [orderFor]
  omega

end Credits

/-- Everyone enters the auction with its credit and its order. -/
theorem accounts_enter (config : MarketConfig) (target : Account → Nat)
    (accounts : List (Nat × Account)) (till : Till) :
    (enter config target accounts till).1.map (fun p => (p.uid, p.account, p.order)) =
      accounts.map fun (uid, account) =>
        (uid, { account with wallet := credited config account (target account) },
          orderFor config account (target account)) := by
  induction accounts generalizing till with
  | nil => rfl
  | cons entry rest ih => simp only [enter, List.map_cons, ih]

namespace Market

variable {target : Account → Nat} {market market' : Market} {report : RoundReport}
  {config : MarketConfig} {d : Deal}

/-! ## What a round does to a wallet -/

namespace Phases

/-- The deals are those of the accounts, with the credit and the order of each. -/
theorem accounts_deals (phases : market.Phases target)
    (hpool : market.config.poolSize < longLimit) :
    phases.deals.map (fun d => (d.uid, d.before.account, d.order)) =
      market.accounts.toList.map fun (uid, account) =>
        (uid, { account with wallet := credited market.config account (target account) },
          orderFor market.config account (target account)) := by
  have hsells := sellBase_eq market.config target market.accounts.toList
    ⟨market.config.poolSize, 0⟩ (.of_total rfl (by simpa [totalBought] using hpool))
  have hopened := (Prod.mk.inj (Except.ok.inj (phases.sells.symm.trans hsells))).1
  rw [← accounts_enter market.config target market.accounts.toList ⟨market.config.poolSize, 0⟩,
    ← hopened, ← (phases.map_deals hpool).1, List.map_map]
  rfl

/-- Everyone with an account has a deal, which begins with its credit and its order. -/
theorem exists_deal (phases : market.Phases target) (hpool : market.config.poolSize < longLimit)
    {uid : Nat} {account : Account} (hfind : market.account? uid = some account) :
    ∃ d ∈ phases.deals, d.uid = uid ∧
      d.before.account.wallet = credited market.config account (target account) ∧
      d.order = orderFor market.config account (target account) := by
  have hentry : (uid, account) ∈ market.accounts.toList :=
    Std.TreeMap.mem_toList_iff_getElem?_eq_some.2 hfind
  have hmem := List.mem_map_of_mem (f := fun (uid, account) =>
    (uid, { account with wallet := credited market.config account (target account) },
      orderFor market.config account (target account))) hentry
  rw [← phases.accounts_deals hpool] at hmem
  obtain ⟨d, hd, heq⟩ := List.mem_map.1 hmem
  simp only [Prod.mk.injEq] at heq
  obtain ⟨huid, hbefore, horder⟩ := heq
  exact ⟨d, hd, huid, by rw [hbefore], horder⟩

/-- An instance pays for what it buys in the auction out of its credit, and for nothing else. -/
theorem wallet_of_mem_deals (phases : market.Phases target)
    (hpool : market.config.poolSize < longLimit) (hd : d ∈ phases.deals) :
    d.served.account = d.after.account ∧
      d.after.account.wallet + d.paid = d.before.account.wallet ∧ d.paid ≤ d.order := by
  obtain ⟨rounds, hsettles⟩ := phases.exists_settles hpool
  have hstands := (hsettles d hd).stands
  refine ⟨?_, hstands.wallet_eq, hstands.pays.le_order⟩
  rw [phases.served_of_mem_deals hpool hd, Participant.topUp]

/-- What everyone pays adds up to what the auction sold. -/
theorem sum_paid (phases : market.Phases target) (hpool : market.config.poolSize < longLimit) :
    (phases.deals.map Deal.paid).sum = phases.auction.till.sold := by
  obtain ⟨-, ⟨_, hstands⟩, -⟩ := phases.outcome hpool
  have hgains := sum_gain (hstands.imp fun _ _ h => h.bought_le)
  have hsold := (runAuction_moves phases.auctions).sold
  have hpaid : (phases.deals.map Deal.paid).sum =
      ((trades phases.opened phases.auction.participants).map Trade.gain).sum := by
    rw [phases.deals_eq hpool, List.map_map]
    rfl
  dsimp only [Till.next] at hsold
  omega

end Phases

/-- A round that returns leaves everyone the wallet of its deal. -/
theorem exists_wallets_of_runWith (hpool : market.config.poolSize < longLimit)
    (h : market.runWith target = .ok (report, market')) :
    ∃ phases : market.Phases target, report.auctioned = phases.auction.till.sold ∧
      ∀ uid n, (market'.account? uid).map (·.wallet) = some n ↔
        ∃ d ∈ phases.deals, d.uid = uid ∧ d.after.account.wallet = n := by
  obtain ⟨phases, accounts, hsplit, hperm, hreport⟩ := Phases.exists_of_runWith h
  refine ⟨phases, by rw [hreport], fun uid n => ?_⟩
  have hserved : phases.served.map (fun p => (p.uid, p.account.wallet)) =
      phases.deals.map fun d => (d.uid, d.after.account.wallet) := by
    rw [← (phases.map_deals hpool).2.2, List.map_map]
    refine List.map_congr_left fun d hd => ?_
    obtain ⟨rounds, hsettles⟩ := phases.exists_settles hpool
    have huid := (hsettles d hd).stands.uid_eq
    rw [Function.comp_apply, phases.served_of_mem_deals hpool hd]
    simp only [Participant.topUp, Deal.uid, huid]
  rw [map_account?_of_even_split (fun _ _ => rfl) hsplit hperm, hserved]
  simp only [List.mem_map, Prod.mk.injEq]

/-! ## Reachable markets -/

/-- The markets that any sequence of registrations, removals, reports and rounds leads to. The
targets of a round are arbitrary. -/
inductive Reachable (config : MarketConfig) : Market → Prop
  | new : Reachable config (.new config)
  | registered {market market' : Market} {uid requested usage : Nat}
      (reachable : Reachable config market)
      (h : market.register uid requested usage = .ok market') : Reachable config market'
  | removed {market : Market} (reachable : Reachable config market) (uid : Nat) :
      Reachable config (market.remove uid)
  | usageReported {market : Market} (reachable : Reachable config market) (uid usage : Nat) :
      Reachable config (market.reportUsage uid usage)
  | sizeReported {market : Market} (reachable : Reachable config market) (uid size : Nat) :
      Reachable config (market.reportSize uid size)
  | ran {market market' : Market} {target : Account → Nat} {report : RoundReport}
      (reachable : Reachable config market)
      (h : market.runWith target = .ok (report, market')) : Reachable config market'

/-- No wallet is above the ceiling. -/
def Capped (market : Market) : Prop :=
  ∀ uid account, market.account? uid = some account → account.wallet ≤ market.config.maxWallet

/-- A market stays capped when every wallet in it was there before. -/
theorem Capped.of_wallets (h : market.Capped) (hconfig : market'.config = market.config)
    (hwallets : ∀ uid account', market'.account? uid = some account' → account'.wallet = 0 ∨
      ∃ account, market.account? uid = some account ∧ account.wallet = account'.wallet) :
    market'.Capped := by
  intro uid account' hfind
  rw [hconfig]
  rcases hwallets uid account' hfind with hzero | ⟨account, hbefore, hsame⟩
  · omega
  · rw [← hsame]
    exact h uid account hbefore

/-- Every account after a round was one before, and has at most what that one was credited. -/
theorem exists_credited_of_runWith (hpool : market.config.poolSize < longLimit)
    (h : market.runWith target = .ok (report, market')) {uid : Nat} {account' : Account}
    (hfind : market'.account? uid = some account') :
    ∃ account, market.account? uid = some account ∧
      account'.wallet ≤ credited market.config account (target account) := by
  obtain ⟨phases, -, hwallets⟩ := exists_wallets_of_runWith hpool h
  obtain ⟨d, hd, huid, hwallet⟩ := (hwallets uid account'.wallet).1 (by rw [hfind]; rfl)
  have hmem := List.mem_map_of_mem (f := fun d : Deal => (d.uid, d.before.account, d.order)) hd
  rw [phases.accounts_deals hpool] at hmem
  obtain ⟨⟨uid', account⟩, hentry, heq⟩ := List.mem_map.1 hmem
  simp only [Prod.mk.injEq] at heq
  obtain ⟨rfl, hbefore, -⟩ := heq
  obtain ⟨-, hpays, -⟩ := phases.wallet_of_mem_deals hpool hd
  have hcredit : d.before.account.wallet = credited market.config account (target account) := by
    rw [← hbefore]
  refine ⟨account, ?_, by omega⟩
  rw [← huid]
  exact Std.TreeMap.mem_toList_iff_getElem?_eq_some.1 hentry

/-- In every market that can come about, no wallet is above the ceiling. -/
theorem Reachable.capped (hpool : config.poolSize < longLimit)
    (reachable : Reachable config market) :
    market.config = config ∧ market.Capped := by
  induction reachable with
  | new =>
    refine ⟨rfl, fun uid account hfind => ?_⟩
    simp [Market.new, account?] at hfind
  | @registered market market' uid requested usage _ h ih =>
    obtain ⟨account, hnew, hconfig, haccounts⟩ := account?_register h
    refine ⟨hconfig.trans ih.1, ih.2.of_wallets hconfig fun other account' hfind => ?_⟩
    rw [haccounts] at hfind
    split at hfind
    next =>
      obtain rfl := Option.some.inj hfind
      exact .inl (Account.wallet_of_new hnew)
    next => exact .inr ⟨account', hfind, rfl⟩
  | @removed market _ uid ih =>
    refine ⟨ih.1, ih.2.of_wallets rfl fun other account' hfind => ?_⟩
    rw [account?_remove] at hfind
    split at hfind
    next => cases hfind
    next => exact .inr ⟨account', hfind, rfl⟩
  | @usageReported market _ uid usage ih =>
    refine ⟨ih.1, ih.2.of_wallets rfl fun other account' hfind => ?_⟩
    rw [account?_reportUsage] at hfind
    split at hfind
    next heq =>
      obtain ⟨account, hbefore, rfl⟩ := Option.map_eq_some_iff.1 hfind
      exact .inr ⟨account, heq ▸ hbefore, rfl⟩
    next => exact .inr ⟨account', hfind, rfl⟩
  | @sizeReported market _ uid size ih =>
    refine ⟨ih.1, ih.2.of_wallets rfl fun other account' hfind => ?_⟩
    rw [account?_reportSize] at hfind
    split at hfind
    next heq =>
      obtain ⟨account, hbefore, rfl⟩ := Option.map_eq_some_iff.1 hfind
      exact .inr ⟨account, heq ▸ hbefore, rfl⟩
    next => exact .inr ⟨account', hfind, rfl⟩
  | @ran market market' target report _ h ih =>
    obtain ⟨hconfig, hcapped⟩ := ih
    have hsame : market'.config = market.config := by
      rcases runWith_cases h with ⟨-, rfl⟩ | ⟨-, hsame, -⟩
      · rfl
      · exact hsame
    refine ⟨hsame.trans hconfig, fun uid account' hfind => ?_⟩
    obtain ⟨account, hbefore, hle⟩ := exists_credited_of_runWith (hconfig ▸ hpool) h hfind
    have hcredited := credited_le (target account) (hcapped uid account hbefore)
    rw [hsame]
    omega

/-! ## The ledger of a round -/

/-- Credit of an instance, zero when it is not registered. -/
def credit (market : Market) (uid : Nat) : Nat := ((market.account? uid).map (·.wallet)).getD 0

/-- What the wallets of all buyers lose on the way from one market to another. -/
def spent (target : Account → Nat) (market market' : Market) : Nat :=
  ((market.accounts.toList.filter fun (_, account) => account.requested < target account).map
    fun (uid, account) => account.wallet - market'.credit uid).sum

/-- What one wallet is before and after a round in which its instance pays `paid` bytes. -/
structure Books (config : MarketConfig) (account : Account) (target paid wallet : Nat) : Prop where
  saves : target < account.requested →
    paid = 0 ∧ wallet = min config.maxWallet (account.wallet + account.requested - target)
  keeps : target = account.requested → paid = 0 ∧ wallet = account.wallet
  pays : account.requested < target → paid ≤ account.wallet ∧ wallet = account.wallet - paid

/-- A wallet that paid no more than its order out of its credit is in the books. -/
theorem books_of_credited {account : Account} {target paid wallet : Nat}
    (hceiling : config.maxWallet < longLimit)
    (hwallet : wallet + paid = credited config account target)
    (hpaid : paid ≤ orderFor config account target) : Books config account target paid wallet := by
  constructor
  · intro hlt
    rw [orderFor_of_le (Nat.le_of_lt hlt)] at hpaid
    rw [credited_of_lt hceiling hlt] at hwallet
    omega
  · intro heq
    rw [orderFor_of_le (Nat.le_of_eq heq)] at hpaid
    rw [credited_of_le (Nat.le_of_eq heq.symm)] at hwallet
    omega
  · intro hlt
    rw [credited_of_le (Nat.le_of_lt hlt)] at hwallet
    omega

/-- What the wallet of an instance loses behind the base sale. -/
def loss (target : Account → Nat) (market market' : Market) (entry : Nat × Account) : Nat :=
  credited market.config entry.2 (target entry.2) - market'.credit entry.1

/-- Everyone loses what it pays. -/
theorem loss_eq_paid (hpool : market.config.poolSize < longLimit)
    (h : market.runWith target = .ok (report, market')) :
    ∃ phases : market.Phases target, report.auctioned = phases.auction.till.sold ∧
      market.accounts.toList.map (loss target market market') = phases.deals.map Deal.paid ∧
      ∀ uid account, market.account? uid = some account →
        loss target market market' (uid, account) ≤
          orderFor market.config account (target account) := by
  obtain ⟨phases, hauctioned, hwallets⟩ := exists_wallets_of_runWith hpool h
  have hpaid (d : Deal) (hd : d ∈ phases.deals) :
      d.before.account.wallet - market'.credit d.uid = d.paid := by
    obtain ⟨-, hpays, -⟩ := phases.wallet_of_mem_deals hpool hd
    rw [credit, (hwallets d.uid _).2 ⟨d, hd, rfl, rfl⟩, Option.getD_some]
    omega
  refine ⟨phases, hauctioned, ?_, fun uid account hfind => ?_⟩
  · have hloss : market.accounts.toList.map (loss target market market') =
        (market.accounts.toList.map fun (uid, account) =>
          (uid, { account with wallet := credited market.config account (target account) },
            orderFor market.config account (target account))).map
          fun (uid, account, _) => account.wallet - market'.credit uid := by
      rw [List.map_map]
      rfl
    rw [hloss, ← phases.accounts_deals hpool, List.map_map]
    exact List.map_congr_left hpaid
  · obtain ⟨d, hd, rfl, hbefore, horder⟩ := phases.exists_deal hpool hfind
    rw [loss, ← hbefore, ← horder, hpaid d hd]
    exact (phases.wallet_of_mem_deals hpool hd).2.2

/-- What the buyers lose is what the auction sold, since no one else pays anything. -/
theorem spent_eq_auctioned (hpool : market.config.poolSize < longLimit)
    (h : market.runWith target = .ok (report, market')) :
    market.spent target market' = report.auctioned := by
  obtain ⟨phases, hauctioned, hloss, horders⟩ := loss_eq_paid hpool h
  let buys (entry : Nat × Account) : Prop := entry.2.requested < target entry.2
  have hothers : ((market.accounts.toList.filter fun entry => ¬buys entry).map
      (loss target market market')).sum = 0 := by
    refine List.sum_eq_zero fun n hn => ?_
    obtain ⟨⟨uid, account⟩, hentry, rfl⟩ := List.mem_map.1 hn
    obtain ⟨hmem, hkeeps⟩ := List.mem_filter.1 hentry
    have hle := horders uid account (Std.TreeMap.mem_toList_iff_getElem?_eq_some.1 hmem)
    rw [orderFor_of_le (Nat.not_lt.1 (of_decide_eq_true hkeeps))] at hle
    omega
  have hbuyers : (market.accounts.toList.filter fun entry => buys entry).map
      (loss target market market') = (market.accounts.toList.filter fun entry => buys entry).map
        fun entry => entry.2.wallet - market'.credit entry.1 := by
    refine List.map_congr_left fun ⟨uid, account⟩ hentry => ?_
    have hbuys : account.requested < target account :=
      of_decide_eq_true (List.mem_filter.1 hentry).2
    rw [loss, credited_of_le (Nat.le_of_lt hbuys)]
  calc market.spent target market'
    _ = ((market.accounts.toList.filter fun entry => buys entry).map
          (loss target market market')).sum := by rw [hbuyers]; rfl
    _ = (market.accounts.toList.map (loss target market market')).sum := by
        rw [← List.sum_map_filter_add_sum_map_filter_not buys _ market.accounts.toList, hothers,
          Nat.add_zero]
    _ = report.auctioned := by rw [hloss, phases.sum_paid hpool, hauctioned]

/-- **Wallets are exact ledgers**, whatever the targets are. In a market that any sequence of
operations led to, no wallet is above the ceiling, and none is after a round that returns. A target
below the request adds the difference to the wallet, up to the ceiling, and a target above the
request takes out of it exactly what the instance bought in the auction; in between nothing changes.
The redistribution and the even split leave the wallets as the auction did, and the buyers lose
between them what was auctioned. -/
theorem Reachable.wallets_exact (hpool : config.poolSize < longLimit)
    (hceiling : config.maxWallet < longLimit) (reachable : Reachable config market)
    (h : market.runWith target = .ok (report, market')) :
    (∀ uid account, market.account? uid = some account → account.wallet ≤ config.maxWallet) ∧
    (∀ uid account, market'.account? uid = some account → account.wallet ≤ config.maxWallet) ∧
    market.spent target market' = report.auctioned ∧
    ∃ phases : market.Phases target, phases.auction.till.sold = report.auctioned ∧
      ∀ uid account, market.account? uid = some account →
        ∃ d ∈ phases.deals, ∃ account', d.uid = uid ∧ market'.account? uid = some account' ∧
          Books config account (target account) d.paid account'.wallet ∧
          d.served.account.wallet = d.after.account.wallet ∧
          account'.wallet = d.served.account.wallet := by
  obtain ⟨rfl, hcapped⟩ := reachable.capped hpool
  obtain ⟨hsame, hcapped'⟩ := (reachable.ran h).capped hpool
  obtain ⟨phases, hauctioned, hwallets⟩ := exists_wallets_of_runWith hpool h
  refine ⟨hcapped, hsame ▸ hcapped', spent_eq_auctioned hpool h, phases, hauctioned.symm, ?_⟩
  intro uid account hfind
  obtain ⟨d, hd, rfl, hbefore, horder⟩ := phases.exists_deal hpool hfind
  obtain ⟨hserved, hpays, hpaid⟩ := phases.wallet_of_mem_deals hpool hd
  obtain ⟨account', hfind', hwallet⟩ :=
    Option.map_eq_some_iff.1 ((hwallets d.uid _).2 ⟨d, hd, rfl, rfl⟩)
  have hbooks : Books market.config account (target account) d.paid account'.wallet :=
    books_of_credited hceiling (by omega) (by omega)
  exact ⟨d, hd, account', rfl, hfind', hbooks, by rw [hserved], by rw [hserved, hwallet]⟩

/-- A pool of 100 bytes and wallets of 15. -/
def saversConfig : MarketConfig :=
  { poolSize := 100, minSlabSize := 10, windowSize := some 7, maxWallet := 15 }

/-- A market in which two instances registered and saved for one round. -/
def twoSavers : Except Fault Market := do
  let market ← (Market.new saversConfig).register 1 30 25
  let market ← market.register 2 20 5
  let (_, market) ← market.runWith fun _ => 10
  return market

/-- The first instance orders 25 bytes and spends all its credit, held at the ceiling of 15 bytes.
The second one saves ten bytes and gets five of them, up to the ceiling. -/
theorem Reachable.wallets_exact_of_savers :
    ∃ market report market', twoSavers = .ok market ∧ Reachable saversConfig market ∧
      market.runWith (fun a => if a.requested = 30 then 55 else 10) = .ok (report, market') ∧
      (market.credit 1, market.credit 2) = (15, 10) ∧
      (market'.credit 1, market'.credit 2) = (0, 15) ∧
      market.spent (fun a => if a.requested = 30 then 55 else 10) market' = 15 ∧
      ∀ uid account, market'.account? uid = some account → account.wallet ≤ 15 := by
  have hcourse : (do
      let market ← twoSavers
      let (report, market') ← market.runWith fun a => if a.requested = 30 then 55 else 10
      return ((market.credit 1, market.credit 2), (market'.credit 1, market'.credit 2),
        report.auctioned)) = .ok ((15, 10), (0, 15), 15) := by decide +kernel
  obtain ⟨market, hsavers, hcourse⟩ := bind_eq_ok_iff.1 hcourse
  obtain ⟨⟨report, market'⟩, hrun, hcourse⟩ := bind_eq_ok_iff.1 hcourse
  simp only [pure, Except.pure, Except.ok.injEq, Prod.mk.injEq] at hcourse
  obtain ⟨hbefore, hafter, hauctioned⟩ := hcourse
  obtain ⟨first, hfirst, hrest⟩ := bind_eq_ok_iff.1 hsavers
  obtain ⟨second, hsecond, hrest⟩ := bind_eq_ok_iff.1 hrest
  obtain ⟨⟨saved, market₁⟩, hround, heq⟩ := bind_eq_ok_iff.1 hrest
  obtain rfl := Except.ok.inj heq
  have reachable := ((Reachable.new.registered hfirst).registered hsecond).ran hround
  obtain ⟨-, hcapped, hspent, -⟩ := reachable.wallets_exact (by decide) (by decide) hrun
  exact ⟨market₁, report, market', hsavers, reachable, hrun, Prod.ext hbefore.1 hbefore.2,
    Prod.ext hafter.1 hafter.2, hspent.trans hauctioned, hcapped⟩

end Market

end ElasticCache
