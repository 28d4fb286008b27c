import ElasticCache.Proofs.Market.Redistribution

/-!
# Guarantees that fit the pool

The base sale serves the instances in ascending order, each from what the earlier ones left. Nobody
gets more than it requested. So as long as all requests fit the pool, what is left covers the
requests of those who still wait, and nobody's base allocation depends on who else takes part.
-/

namespace ElasticCache

/-- Nobody is entitled to more than it requested. -/
theorem entitlement_le (config : MarketConfig) (account : Account) (target : Nat) :
    entitlement config account target ≤ account.requested := by
  simp only [entitlement, Account.floor]
  omega

/-- When the requests fit, everyone enters the auction with what it is entitled to. Those behind a
request still fit what its base allocation leaves. -/
theorem bought_enter (config : MarketConfig) (target : Account → Nat)
    (accounts : List (Nat × Account)) (till : Till)
    (hfits : (accounts.map fun (_, account) => account.requested).sum ≤ till.remaining) :
    (enter config target accounts till).1.map (fun p => (p.uid, p.bought)) =
      accounts.map fun (uid, account) => (uid, entitlement config account (target account)) := by
  induction accounts generalizing till with
  | nil => rfl
  | cons entry rest ih =>
    obtain ⟨uid, account⟩ := entry
    simp only [List.map_cons, List.sum_cons] at hfits
    have hbase := entitlement_le config account (target account)
    have hrest := ih (till.take (entitlement config account (target account)))
      (by simp only [Till.take]; omega)
    simp only [enter, Nat.min_eq_left (show entitlement config account (target account) ≤
      till.remaining by omega), List.map_cons, hrest]

/-- A target depends on no other part of an account than the allocation that was bought and the
usage. -/
theorem Account.target_congr (config : MarketConfig) {a b : Account}
    (hbuying : a.buyingSize = b.buyingSize) (husages : a.usages = b.usages) :
    a.target config = b.target config := by
  obtain ⟨_, _, _, buyingSize, usages, _⟩ := a
  obtain ⟨_, _, _, buyingSize', usages', _⟩ := b
  obtain rfl : buyingSize = buyingSize' := hbuying
  obtain rfl : usages = usages' := husages
  rfl

namespace Market

variable {target : Account → Nat} {market : Market}

/-- The base sale of a round gives `base` bytes to an instance. -/
def SellsBase (target : Account → Nat) (market : Market) (uid base : Nat) : Prop :=
  ∃ opened till,
    sellBase market.config target market.accounts.toList ⟨market.config.poolSize, 0⟩ =
      .ok (opened, till) ∧
    (uid, base) ∈ opened.map fun p => (p.uid, p.bought)

/-- What the base sale gives an instance is what it has got when the auction opens. -/
theorem Phases.sellsBase_iff (phases : market.Phases target) {uid base : Nat} :
    market.SellsBase target uid base ↔
      (uid, base) ∈ phases.opened.map fun p => (p.uid, p.bought) := by
  constructor
  · rintro ⟨opened, till, hsells, hmem⟩
    obtain ⟨rfl, -⟩ : opened = phases.opened ∧ till = phases.base := by
      simpa using hsells.symm.trans phases.sells
    exact hmem
  · exact fun hmem => ⟨phases.opened, phases.base, phases.sells, hmem⟩

/-- When the requests fit, everyone gets from the base sale what it is entitled to. -/
theorem sellsBase_iff (hpool : market.config.poolSize < longLimit)
    (hfits : market.total (·.requested) ≤ market.config.poolSize) {uid base : Nat} :
    market.SellsBase target uid base ↔
      (market.account? uid).map (fun account =>
        entitlement market.config account (target account)) = some base := by
  have hsells := sellBase_eq market.config target market.accounts.toList
    ⟨market.config.poolSize, 0⟩ (.of_total rfl (by simpa [totalBought] using hpool))
  have hbought := bought_enter market.config target market.accounts.toList
    ⟨market.config.poolSize, 0⟩ hfits
  rw [account?, map_account?_eq_some_iff, ← hbought]
  constructor
  · rintro ⟨opened, till, hsells', hmem⟩
    rw [hsells] at hsells'
    rwa [Except.ok.inj hsells']
  · exact fun hmem => ⟨_, _, hsells, hmem⟩

/-- After a round everyone has at least its base allocation. -/
theorem le_buyingSize_of_sellsBase {market' : Market} {report : RoundReport}
    (hpool : market.config.poolSize < longLimit)
    (h : market.runWith target = .ok (report, market')) {uid base : Nat}
    (hbase : market.SellsBase target uid base) :
    ∃ account, market'.account? uid = some account ∧ base ≤ account.buyingSize := by
  obtain ⟨phases, -, -, hbought⟩ := Phases.exists_deals_of_runWith hpool h
  rw [phases.sellsBase_iff, ← phases.base_deals hpool] at hbase
  obtain ⟨d, hd, hdeal⟩ := List.mem_map.1 hbase
  obtain ⟨rfl, rfl⟩ := Prod.mk.inj hdeal
  obtain ⟨account, hfind, hbuying⟩ :=
    Option.map_eq_some_iff.1 ((hbought d.uid _).2 ⟨d, hd, rfl, rfl⟩)
  exact ⟨account, hfind, by omega⟩

/-- **Guarantees do not depend on the other instances** when all requests fit the pool, whatever the
configuration and the targets are. The base sale gives everyone its target, held between its floor
and its request. So in a round that returns, everyone's bought size reaches its floor, and its
target unless it requested less. With the targets of the market itself, two instances that agree in
bought size, usage and request get the same base allocation in any two markets of one configuration
that their requests fit. -/
theorem guarantees_independent (target : Account → Nat) (market : Market)
    (hpool : market.config.poolSize < longLimit)
    (hfits : market.total (·.requested) ≤ market.config.poolSize) :
    (∀ uid base, market.SellsBase target uid base ↔ ∃ account,
      market.account? uid = some account ∧
        base = max (min market.config.minSlabSize account.requested)
          (min (target account) account.requested)) ∧
    (∀ report market', market.runWith target = .ok (report, market') →
      ∀ uid account, market.account? uid = some account →
        ∃ account', market'.account? uid = some account' ∧
          min market.config.minSlabSize account.requested ≤ account'.buyingSize ∧
          min (target account) account.requested ≤ account'.buyingSize) ∧
    ∀ other : Market, other.config = market.config →
      other.total (·.requested) ≤ other.config.poolSize →
      ∀ uid uid' account account', market.account? uid = some account →
        other.account? uid' = some account' → account'.buyingSize = account.buyingSize →
        account'.usages = account.usages → account'.requested = account.requested →
        ∀ base, market.SellsBase (Account.target market.config) uid base ↔
          other.SellsBase (Account.target other.config) uid' base := by
  refine ⟨fun uid base => ?_, fun report market' hrun uid account hfind => ?_, ?_⟩
  · rw [sellsBase_iff hpool hfits, Option.map_eq_some_iff]
    simp only [entitlement, Account.floor, eq_comm]
  · have hbase : market.SellsBase target uid
        (entitlement market.config account (target account)) :=
      (sellsBase_iff hpool hfits).2 (congrArg (Option.map _) hfind)
    obtain ⟨account', hfind', hle⟩ := le_buyingSize_of_sellsBase hpool hrun hbase
    simp only [entitlement, Account.floor] at hle
    exact ⟨account', hfind', by omega, by omega⟩
  · intro other hconfig hfits' uid uid' account account' hfind hfind' hbuying husages hrequested
      base
    rw [sellsBase_iff hpool hfits, sellsBase_iff (hconfig ▸ hpool) hfits', hfind, hfind', hconfig]
    simp only [Option.map_some, entitlement, Account.floor, hrequested,
      Account.target_congr market.config hbuying husages]

/-- The saver gets all 30 bytes that it requested, and no other base allocation when it is alone. -/
theorem guarantees_independent_of_saver :
    saverMarket.SellsBase (fun a => if a.wallet = 0 then 10 else a.requested + 25) 1 30 ∧
      (∃ report market', saverMarket.runWith (fun a =>
          if a.wallet = 0 then 10 else a.requested + 25) = .ok (report, market') ∧
        ∃ account, market'.account? 1 = some account ∧ 30 ≤ account.buyingSize) ∧
      ∀ base, saverMarket.SellsBase (Account.target saverMarket.config) 1 base ↔
        (saverMarket.remove 2).SellsBase (Account.target saverMarket.config) 1 base := by
  have hsaver : saverMarket.account? 1 = some ⟨30, 40, 40, 30, ⟨[25], 10⟩, 20⟩ := by
    decide +kernel
  have halone : (saverMarket.remove 2).account? 1 = some ⟨30, 40, 40, 30, ⟨[25], 10⟩, 20⟩ := by
    decide +kernel
  obtain ⟨hbases, hrounds, hothers⟩ := guarantees_independent
    (fun a => if a.wallet = 0 then 10 else a.requested + 25) saverMarket (by decide)
    (by decide +kernel)
  refine ⟨(hbases 1 30).2 ⟨_, hsaver, by decide⟩, ?_, fun base => ?_⟩
  · have hreturns : (saverMarket.runWith fun a => if a.wallet = 0 then 10 else a.requested + 25).map
        (·.1) = .ok ⟨2, 40, 20, 5, 35, 5⟩ := by decide +kernel
    cases hrun : saverMarket.runWith fun a => if a.wallet = 0 then 10 else a.requested + 25 with
    | error fault => rw [hrun] at hreturns; cases hreturns
    | ok result =>
      obtain ⟨account, hfind, -, hle⟩ := hrounds result.1 result.2 hrun 1 _ hsaver
      exact ⟨result.1, result.2, rfl, account, hfind, hle⟩
  · exact hothers (saverMarket.remove 2) rfl (by decide +kernel) 1 1 _ _ hsaver halone rfl rfl rfl
      base

end Market

end ElasticCache
