import ElasticCache.Market.Round
import Mathlib.Algebra.GroupWithZero.Nat
import Mathlib.Algebra.Order.BigOperators.Group.List
import Mathlib.Algebra.Order.Group.Nat
import Mathlib.Data.List.Nodup
import Mathlib.Data.List.Perm.Basic

/-!
# A round gives away exactly the pool

Each phase of a round takes bytes out of the till and gives them to participants. The auction and
the redistribution only move bytes, so what the till still holds and what the participants have got
add up to the pool throughout. The even split then empties the till.
-/

namespace ElasticCache

/-- The sum of an amount over all accounts of a market. -/
def Market.total (market : Market) (amount : Account → Nat) : Nat :=
  (market.accounts.toList.map fun (_, account) => amount account).sum

/-- Bytes that all participants have got so far. -/
def totalBought (participants : List Participant) : Nat := (participants.map (·.bought)).sum

/-- Who takes part, with the allocation from before the round. -/
def seats (participants : List Participant) : List (Nat × Nat) :=
  participants.map fun p => (p.uid, p.account.size)

/-- A further participant adds the bytes that it bought. -/
theorem totalBought_cons (p : Participant) (rest : List Participant) :
    totalBought (p :: rest) = p.bought + totalBought rest := by
  simp only [totalBought, List.map_cons, List.sum_cons]

/-- A further participant takes a further seat. -/
theorem seats_cons (p : Participant) (rest : List Participant) :
    seats (p :: rest) = (p.uid, p.account.size) :: seats rest := by
  simp only [seats, List.map_cons]

/-- Bytes went from the till to the participants, who are the same as before. -/
structure Moves (before : List Participant) (till : Till) (after : List Participant)
    (till' : Till) : Prop where
  remaining : till'.remaining + totalBought after = till.remaining + totalBought before
  sold : till'.sold + totalBought before = till.sold + totalBought after
  seats_eq : seats after = seats before

/-- A sale takes the amount out of the till and counts it. -/
theorem Till.sold_of_sell {till till' : Till} {amount : Nat} (h : till.sell amount = .ok till') :
    till'.sold = till.sold + amount := by
  simp only [sell, bind_eq_ok_iff, fitLong_eq_ok_iff] at h
  obtain ⟨_, _, sold, ⟨_, rfl⟩, h⟩ := h
  rw [← Except.ok.inj h]

namespace Moves

variable {before middle after : List Participant} {till till₁ till₂ : Till}

/-- Without a sale, nothing moves. -/
theorem refl (participants : List Participant) (till : Till) :
    Moves participants till participants till := ⟨rfl, rfl, rfl⟩

/-- What moves in two phases moves in both together. -/
theorem trans (h₁ : Moves before till middle till₁) (h₂ : Moves middle till₁ after till₂) :
    Moves before till after till₂ := by
  obtain ⟨hr₁, hs₁, hseats₁⟩ := h₁
  obtain ⟨hr₂, hs₂, hseats₂⟩ := h₂
  exact ⟨by omega, by omega, hseats₂.trans hseats₁⟩

/-- The first participant moves, then the others do. -/
theorem cons {p p' : Participant} (h : Moves [p] till [p'] till₁)
    (hrest : Moves before till₁ after till₂) : Moves (p :: before) till (p' :: after) till₂ := by
  obtain ⟨hr₁, hs₁, hseats₁⟩ := h
  obtain ⟨hr₂, hs₂, hseats₂⟩ := hrest
  simp only [totalBought_cons, seats_cons, List.cons.injEq] at hr₁ hs₁ hseats₁
  refine ⟨?_, ?_, ?_⟩
  · simp only [totalBought_cons]
    omega
  · simp only [totalBought_cons]
    omega
  · simp only [seats_cons, hseats₂, hseats₁.1]

/-- A sale of as many bytes as a participant gets. -/
theorem of_sell {p p' : Participant} {amount : Nat} (h : till.sell amount = .ok till₁)
    (huid : p'.uid = p.uid) (hsize : p'.account.size = p.account.size)
    (hbought : p'.bought = p.bought + amount) : Moves [p] till [p'] till₁ := by
  have hremaining := Till.remaining_of_sell h
  have hsold := Till.sold_of_sell h
  refine ⟨?_, ?_, ?_⟩
  · simp only [totalBought_cons]
    omega
  · simp only [totalBought_cons]
    omega
  · simp only [seats_cons, huid, hsize]

end Moves

/-! ## The phases -/

/-- The base sale gives the participants what it takes out of the till, and keeps their sizes. -/
theorem sellBase_conserves {config : MarketConfig} {target : Account → Nat}
    {accounts : List (Nat × Account)} {till till' : Till} {participants : List Participant}
    (h : sellBase config target accounts till = .ok (participants, till')) :
    till'.remaining + totalBought participants = till.remaining ∧
      till'.sold = till.sold + totalBought participants ∧
      seats participants = accounts.map fun (uid, account) => (uid, account.size) := by
  induction accounts generalizing till participants till' with
  | nil =>
    obtain ⟨rfl, rfl⟩ : [] = participants ∧ till = till' := by simpa [sellBase] using h
    exact ⟨rfl, rfl, rfl⟩
  | cons entry rest ih =>
    obtain ⟨uid, account⟩ := entry
    obtain ⟨⟨p, till₁⟩, hp, h⟩ := bind_eq_ok_iff.1 h
    obtain ⟨⟨others, till₂⟩, hrest, h⟩ := bind_eq_ok_iff.1 h
    obtain ⟨rfl, rfl⟩ : p :: others = participants ∧ till₂ = till' := by
      simpa [pure, Except.pure] using h
    obtain ⟨till₃, hsell, hp⟩ := bind_eq_ok_iff.1 hp
    have hpair := Except.ok.inj hp
    simp only [Prod.mk.injEq] at hpair
    obtain ⟨rfl, rfl⟩ := hpair
    obtain ⟨hremaining, hsold, hseats⟩ := ih hrest
    have hremaining₁ := Till.remaining_of_sell hsell
    have hsold₁ := Till.sold_of_sell hsell
    refine ⟨?_, ?_, ?_⟩
    · simp only [totalBought_cons]
      omega
    · simp only [totalBought_cons]
      omega
    · simp only [seats_cons, hseats, List.map_cons]

/-- A turn of the auction only moves bytes. -/
theorem takeTurn_moves {window : Nat} {p p' : Participant} {till till' : Till} {unmet unmet' : Nat}
    (h : takeTurn window p till unmet = .ok (p', till', unmet')) : Moves [p] till [p'] till' := by
  unfold takeTurn at h
  split at h
  next =>
    obtain ⟨rfl, rfl, rfl⟩ : p = p' ∧ till = till' ∧ unmet = unmet' := by
      simpa [pure, Except.pure] using h
    exact Moves.refl [p] till
  next =>
    dsimp only at h
    split at h
    next =>
      obtain ⟨_, _, h⟩ := bind_eq_ok_iff.1 h
      obtain ⟨rfl, rfl, _⟩ := by simpa [pure, Except.pure] using h
      exact ⟨rfl, rfl, rfl⟩
    next =>
      obtain ⟨wallet, _, h⟩ := bind_eq_ok_iff.1 h
      obtain ⟨till₁, hsell, h⟩ := bind_eq_ok_iff.1 h
      obtain ⟨bought, hbought, h⟩ := bind_eq_ok_iff.1 h
      obtain ⟨rfl, rfl, _⟩ := by simpa [pure, Except.pure] using h
      exact Moves.of_sell hsell rfl rfl (fitLong_eq_ok_iff.1 hbought).2.symm

/-- What the turns of all instances take out of the till, the instances have got. -/
theorem takeTurns_moves {window : Nat} {participants : List Participant} {till : Till} {unmet : Nat}
    {after : Auction} (h : takeTurns window participants till unmet = .ok after) :
    Moves participants till after.participants after.till := by
  induction participants generalizing till unmet after with
  | nil =>
    have hafter := Except.ok.inj h
    subst hafter
    exact Moves.refl [] till
  | cons p rest ih =>
    obtain ⟨⟨p', till', unmet'⟩, hturn, h⟩ := bind_eq_ok_iff.1 h
    obtain ⟨after', hrest, h⟩ := bind_eq_ok_iff.1 h
    have hafter := Except.ok.inj h
    subst hafter
    exact (takeTurn_moves hturn).cons (ih hrest)

/-- The whole auction only moves bytes, whatever the window is and for whichever reason it ends. -/
theorem runAuction_moves {window : Nat} {auction after : Auction}
    (h : runAuction window auction = .ok after) :
    Moves auction.participants auction.till after.participants after.till := by
  fun_induction runAuction window auction with
  | case1 => cases h
  | case2 auction _ turned hturns ih => exact (takeTurns_moves hturns).trans (ih h)
  | case3 auction =>
    have hafter := Except.ok.inj h
    subst hafter
    exact Moves.refl _ _

/-- What the shares take out of the till, the instances have got. -/
theorem shareOut_moves {give demand : Nat} {participants after : List Participant}
    {till till' : Till} (h : shareOut give demand participants till = .ok (after, till')) :
    Moves participants till after till' := by
  induction participants generalizing till after till' with
  | nil =>
    obtain ⟨rfl, rfl⟩ : [] = after ∧ till = till' := by simpa [shareOut] using h
    exact Moves.refl [] till
  | cons p rest ih =>
    obtain ⟨till₁, hsell, h⟩ := bind_eq_ok_iff.1 h
    obtain ⟨bought, hbought, h⟩ := bind_eq_ok_iff.1 h
    obtain ⟨⟨others, till₂⟩, hrest, h⟩ := bind_eq_ok_iff.1 h
    obtain ⟨rfl, rfl⟩ : { p with bought } :: others = after ∧ till₂ = till' := by
      simpa [pure, Except.pure] using h
    have hp : Moves [p] till [{ p with bought }] till₁ :=
      Moves.of_sell hsell rfl rfl (fitLong_eq_ok_iff.1 hbought).2.symm
    exact hp.cons (ih hrest)

/-- The redistribution only moves bytes. -/
theorem redistribute_moves {participants after : List Participant} {demand : Nat}
    {till till' : Till} (h : redistribute participants demand till = .ok (after, till')) :
    Moves participants till after till' := by
  unfold redistribute at h
  split at h
  next =>
    obtain ⟨rfl, rfl⟩ : participants = after ∧ till = till' := by simpa using h
    exact Moves.refl _ _
  next => exact shareOut_moves h

/-- What the even split makes of the participants: everyone keeps what it bought and gets `share`
bytes more, the first `extra` participants one byte on top. -/
theorem splitEvenly_conserves {share extra given given' : Nat} {participants : List Participant}
    {accounts : List (Nat × Account)}
    (h : splitEvenly share extra participants given = .ok (accounts, given')) :
    given' = given + participants.length * share + min extra participants.length ∧
      (accounts.map (·.2.size)).sum + given = totalBought participants + given' ∧
      (accounts.map (·.2.buyingSize)).sum = totalBought participants ∧
      accounts.map (fun (uid, account) => (uid, account.last)) = seats participants ∧
      ∀ entry ∈ accounts, entry.2.buyingSize ≤ entry.2.size := by
  induction participants generalizing extra given accounts given' with
  | nil =>
    obtain ⟨rfl, rfl⟩ : [] = accounts ∧ given = given' := by simpa [splitEvenly] using h
    simp [totalBought, seats]
  | cons p rest ih =>
    obtain ⟨account, hsettle, h⟩ := bind_eq_ok_iff.1 h
    obtain ⟨given₁, hgiven, h⟩ := bind_eq_ok_iff.1 h
    obtain ⟨⟨others, given₂⟩, hrest, h⟩ := bind_eq_ok_iff.1 h
    obtain ⟨rfl, rfl⟩ : (p.uid, account) :: others = accounts ∧ given₂ = given' := by
      simpa [pure, Except.pure] using h
    obtain ⟨size, hsize, hsettle⟩ := bind_eq_ok_iff.1 hsettle
    have haccount := Except.ok.inj hsettle
    subst haccount
    obtain ⟨_, rfl⟩ := fitLong_eq_ok_iff.1 hsize
    obtain ⟨_, rfl⟩ := fitLong_eq_ok_iff.1 hgiven
    obtain ⟨hgiven', hsizes, hbuying, hlast, hle⟩ := ih hrest
    have hfree : (if 0 < extra then 1 else 0) + min (extra - 1) rest.length =
        min extra (rest.length + 1) := by
      split <;> omega
    refine ⟨?_, ?_, ?_, ?_, ?_⟩
    · rw [List.length_cons, Nat.succ_mul]
      omega
    · simp only [List.map_cons, List.sum_cons, totalBought_cons]
      omega
    · simp only [List.map_cons, List.sum_cons, totalBought_cons, hbuying]
    · simp only [List.map_cons, seats_cons, hlast]
    · intro entry hentry
      rcases List.mem_cons.1 hentry with rfl | hentry
      · exact Nat.le_add_right _ _
      · exact hle entry hentry

/-- The even split changes no account but for its sizes: what is seen of an account without its
current size is what the participant brought. -/
theorem map_of_splitEvenly {α : Type} {seen : Account → α}
    (hseen : ∀ account size, seen { account with size } = seen account)
    {share extra given given' : Nat} {participants : List Participant}
    {accounts : List (Nat × Account)}
    (h : splitEvenly share extra participants given = .ok (accounts, given')) :
    accounts.map (fun (uid, account) => (uid, seen account)) = participants.map fun p =>
      (p.uid, seen { p.account with last := p.account.size, buyingSize := p.bought }) := by
  induction participants generalizing extra given accounts given' with
  | nil =>
    obtain ⟨rfl, rfl⟩ : [] = accounts ∧ given = given' := by simpa [splitEvenly] using h
    rfl
  | cons p rest ih =>
    obtain ⟨account, hsettle, h⟩ := bind_eq_ok_iff.1 h
    obtain ⟨given₁, hgiven, h⟩ := bind_eq_ok_iff.1 h
    obtain ⟨⟨others, given₂⟩, hrest, h⟩ := bind_eq_ok_iff.1 h
    obtain ⟨rfl, rfl⟩ : (p.uid, account) :: others = accounts ∧ given₂ = given' := by
      simpa [pure, Except.pure] using h
    obtain ⟨size, hsize, hsettle⟩ := bind_eq_ok_iff.1 hsettle
    obtain rfl := Except.ok.inj hsettle
    have hp := hseen { p.account with last := p.account.size, buyingSize := p.bought } size
    simp only [List.map_cons, ih hrest, hp]

/-- The even split empties the till. -/
theorem eq_of_even_split {remaining split : Nat} {participants : List Participant}
    {accounts : List (Nat × Account)} (hsome : participants ≠ [])
    (h : splitEvenly (remaining / participants.length) (remaining % participants.length)
      participants 0 = .ok (accounts, split)) : split = remaining := by
  have hmod := Nat.mod_lt remaining (List.length_pos_iff.2 hsome)
  have hdiv := Nat.div_add_mod remaining participants.length
  rw [(splitEvenly_conserves h).1, Nat.min_eq_left (Nat.le_of_lt hmod)]
  omega

/-- The even split never gives more than there is. -/
theorem le_of_even_split {remaining split : Nat} {participants : List Participant}
    {accounts : List (Nat × Account)}
    (h : splitEvenly (remaining / participants.length) (remaining % participants.length)
      participants 0 = .ok (accounts, split)) : split ≤ remaining := by
  have hdiv := Nat.div_add_mod remaining participants.length
  rw [(splitEvenly_conserves h).1]
  omega

/-! ## The accounts after a round -/

/-- Accounts with different uids are what a market made of them lists, up to order. -/
theorem toList_ofList_perm {accounts : List (Nat × Account)}
    (hnodup : (accounts.map (·.1)).Nodup) :
    (Std.TreeMap.ofList accounts compare).toList.Perm accounts := by
  have hdistinct : accounts.Pairwise fun a b => ¬ compare a.1 b.1 = .eq := by
    refine (List.pairwise_map.1 hnodup).imp fun hne heq => hne ?_
    exact Std.LawfulEqCmp.eq_of_compare heq
  have hfind {uid : Nat} {account : Account} (hmem : (uid, account) ∈ accounts) :
      (Std.TreeMap.ofList accounts compare)[uid]? = some account :=
    Std.TreeMap.getElem?_ofList_of_mem Std.ReflCmp.compare_self hdistinct hmem
  rw [List.perm_ext_iff_of_nodup _ (List.Nodup.of_map _ hnodup)]
  · rintro ⟨uid, account⟩
    rw [Std.TreeMap.mem_toList_iff_getElem?_eq_some]
    refine ⟨fun h => ?_, hfind⟩
    have huid : uid ∈ Std.TreeMap.ofList accounts compare := by
      rw [Std.TreeMap.mem_iff_isSome_getElem?, h]
      rfl
    rw [Std.TreeMap.mem_ofList, List.contains_iff_mem] at huid
    obtain ⟨⟨uid', account'⟩, hmem, rfl⟩ := List.mem_map.1 huid
    rw [hfind hmem] at h
    rwa [← Option.some.inj h]
  · have hkeys := (Std.TreeMap.ofList accounts compare).distinct_keys_toList
    refine hkeys.imp fun hne heq => hne ?_
    rw [heq]
    exact Std.ReflCmp.compare_self

/-- The uids of a market are different, and so are those of a list that has the same ones. -/
theorem nodup_uids {accounts : List (Nat × Account)} {market : Std.TreeMap Nat Account compare}
    (h : accounts.map (·.1) = market.toList.map (·.1)) : (accounts.map (·.1)).Nodup := by
  rw [h, List.nodup_iff_pairwise_ne, List.pairwise_map]
  refine market.distinct_keys_toList.imp fun hne heq => hne ?_
  rw [heq]
  exact Std.ReflCmp.compare_self

/-- What is seen of the account of a uid is what is listed with the uid. -/
theorem map_account?_eq_some_iff {α : Type} {accounts : Std.TreeMap Nat Account compare}
    {seen : Account → α} {uid : Nat} {n : α} :
    (accounts[uid]?).map seen = some n ↔
      (uid, n) ∈ accounts.toList.map fun (uid, account) => (uid, seen account) := by
  simp only [Option.map_eq_some_iff, List.mem_map, Prod.mk.injEq, Prod.exists,
    Std.TreeMap.mem_toList_iff_getElem?_eq_some]
  constructor
  · rintro ⟨account, hfind, rfl⟩
    exact ⟨uid, account, hfind, rfl, rfl⟩
  · rintro ⟨_, account, hfind, rfl, rfl⟩
    exact ⟨account, hfind, rfl⟩

/-- In a market with instances someone takes part. -/
theorem ne_nil_of_seats {market : Market} {participants : List Participant}
    (hsome : market.accounts.isEmpty = false)
    (hseats : seats participants =
      market.accounts.toList.map fun (uid, account) => (uid, account.size)) :
    participants ≠ [] := by
  rintro rfl
  have hlength := congrArg List.length hseats
  simp only [seats, List.map_nil, List.length_nil, List.length_map,
    Std.TreeMap.length_toList] at hlength
  simp [Std.TreeMap.isEmpty_eq_size_eq_zero, ← hlength] at hsome

/-- A market made of the accounts of its participants lists just these, up to order. -/
theorem toList_of_even_split {market : Market} {participants : List Participant}
    {accounts : List (Nat × Account)} {share extra given split : Nat}
    (h : splitEvenly share extra participants given = .ok (accounts, split))
    (hseats : seats participants =
      market.accounts.toList.map fun (uid, account) => (uid, account.size)) :
    (Std.TreeMap.ofList accounts compare).toList.Perm accounts := by
  have huids : accounts.map (·.1) = market.accounts.toList.map (·.1) := by
    have hfst := congrArg (List.map Prod.fst) ((splitEvenly_conserves h).2.2.2.1.trans hseats)
    simpa only [List.map_map, Function.comp_def] using hfst
  exact toList_ofList_perm (nodup_uids huids)

/-- What is seen of an account that the even split made is what the participant brought. -/
theorem map_account?_of_even_split {α : Type} {seen : Account → α}
    (hseen : ∀ account size, seen { account with size } = seen account) {market : Market}
    {participants : List Participant} {accounts : List (Nat × Account)}
    {share extra given split : Nat}
    (h : splitEvenly share extra participants given = .ok (accounts, split))
    (hperm : market.accounts.toList.Perm accounts) (uid : Nat) (n : α) :
    (market.account? uid).map seen = some n ↔ (uid, n) ∈ participants.map fun p =>
      (p.uid, seen { p.account with last := p.account.size, buyingSize := p.bought }) := by
  rw [← map_of_splitEvenly hseen h,
    ← (hperm.map fun entry : Nat × Account => (entry.1, seen entry.2)).mem_iff]
  exact map_account?_eq_some_iff

/-- A round of a market with instances, phase by phase. Every phase keeps the participants, and the
report counts them. -/
theorem exists_phases_of_runWith {target : Account → Nat} {market market' : Market}
    {report : RoundReport} (hsome : market.accounts.isEmpty = false)
    (h : market.runWith target = .ok (report, market')) :
    ∃ participants base auction served redistribution accounts split,
      sellBase market.config target market.accounts.toList ⟨market.config.poolSize, 0⟩ =
        .ok (participants, base) ∧
      runAuction (windowFor market.config participants base) ⟨participants, base.next, 0⟩ =
        .ok auction ∧
      redistribute auction.participants auction.unmet auction.till.next =
        .ok (served, redistribution) ∧
      splitEvenly (redistribution.remaining / served.length)
        (redistribution.remaining % served.length) served 0 = .ok (accounts, split) ∧
      report = ⟨served.length, base.sold, auction.till.sold, redistribution.sold, split,
        auction.unmet⟩ ∧
      market' = { market with accounts := .ofList accounts } ∧
      seats served = market.accounts.toList.map fun (uid, account) => (uid, account.size) := by
  simp only [Market.runWith, hsome, Bool.false_eq_true, if_false] at h
  obtain ⟨⟨participants, base⟩, hbase, h⟩ := bind_eq_ok_iff.1 h
  obtain ⟨auction, hauction, h⟩ := bind_eq_ok_iff.1 h
  obtain ⟨⟨served, redistribution⟩, hredistribute, h⟩ := bind_eq_ok_iff.1 h
  obtain ⟨⟨accounts, split⟩, hsplit, h⟩ := bind_eq_ok_iff.1 h
  obtain ⟨rfl, rfl⟩ := by simpa [pure, Except.pure] using h
  refine ⟨_, _, _, _, _, _, _, hbase, hauction, hredistribute, hsplit, rfl, rfl, ?_⟩
  rw [(redistribute_moves hredistribute).seats_eq, (runAuction_moves hauction).seats_eq,
    (sellBase_conserves hbase).2.2]

/-- What a round leaves: one account for each instance, as the even split made them. They hold the
whole pool between them, which the four phases account for, and each remembers its size. -/
theorem exists_accounts_of_runWith {target : Account → Nat} {market market' : Market}
    {report : RoundReport} (hsome : market.accounts.isEmpty = false)
    (h : market.runWith target = .ok (report, market')) :
    ∃ accounts : List (Nat × Account), market'.config = market.config ∧
      market'.accounts.toList.Perm accounts ∧
      accounts.map (fun (uid, account) => (uid, account.last)) =
        market.accounts.toList.map (fun (uid, account) => (uid, account.size)) ∧
      (accounts.map (·.2.size)).sum = market.config.poolSize ∧
      (accounts.map (·.2.buyingSize)).sum + report.split = market.config.poolSize ∧
      report.baseSold + report.auctioned + report.redistributed + report.split =
        market.config.poolSize ∧
      ∀ entry ∈ accounts, entry.2.buyingSize ≤ entry.2.size := by
  obtain ⟨participants, base, auction, served, redistribution, accounts, split, hbase, hauction,
    hredistribute, hsplit, rfl, rfl, hseats⟩ := exists_phases_of_runWith hsome h
  obtain ⟨hbaseRemaining, hbaseSold, _⟩ := sellBase_conserves hbase
  obtain ⟨hauctionRemaining, hauctionSold, _⟩ := runAuction_moves hauction
  obtain ⟨hshareRemaining, hshareSold, _⟩ := redistribute_moves hredistribute
  obtain ⟨hsplitGiven, hsizes, hbuying, hlast, hle⟩ := splitEvenly_conserves hsplit
  simp only [Till.next] at hauctionRemaining hauctionSold hshareRemaining hshareSold
  dsimp only at *
  have hsplitAll := eq_of_even_split (ne_nil_of_seats hsome hseats) hsplit
  refine ⟨accounts, rfl, toList_of_even_split hsplit hseats, hlast.trans hseats, ?_, ?_, ?_, hle⟩
  · omega
  · omega
  · omega

/-- The sum of an amount over the accounts that a round leaves. -/
theorem Market.total_eq_sum {market : Market} {accounts : List (Nat × Account)}
    (hperm : market.accounts.toList.Perm accounts) (amount : Account → Nat) :
    market.total amount = (accounts.map fun entry => amount entry.2).sum :=
  (hperm.map fun entry : Nat × Account => amount entry.2).sum_nat

/-- Every size from before a round is remembered, and nobody joins or leaves. -/
theorem Market.last_of_runWith {target : Account → Nat} {market market' : Market}
    {report : RoundReport} (h : market.runWith target = .ok (report, market')) (uid : Nat) :
    (market'.account? uid).map (·.last) = (market.account? uid).map (·.size) := by
  cases hempty : market.accounts.isEmpty with
  | true =>
    simp only [runWith, hempty, if_true, pure, Except.pure, Except.ok.injEq, Prod.mk.injEq] at h
    have hnone : market.account? uid = none := Std.TreeMap.getElem?_of_isEmpty hempty
    rw [← h.2, hnone]
    rfl
  | false =>
    obtain ⟨accounts, _, hperm, hlast, _⟩ := exists_accounts_of_runWith hempty h
    refine Option.ext fun n => ?_
    simp only [account?, map_account?_eq_some_iff, ← hlast,
      (hperm.map fun entry : Nat × Account => (entry.1, entry.2.last)).mem_iff]

/-- A market without accounts stays as it is, and any other gives away its whole pool. -/
theorem Market.runWith_cases {target : Account → Nat} {market market' : Market}
    {report : RoundReport} (h : market.runWith target = .ok (report, market')) :
    (market.accounts.isEmpty = true ∧ market' = market) ∨
      (market.accounts.isEmpty = false ∧ market'.config = market.config ∧
        market'.total (·.size) = market.config.poolSize) := by
  cases hempty : market.accounts.isEmpty with
  | true =>
    simp only [runWith, hempty, if_true, pure, Except.pure, Except.ok.injEq, Prod.mk.injEq] at h
    exact .inl ⟨rfl, h.2.symm⟩
  | false =>
    obtain ⟨accounts, hconfig, hperm, _, hpool, _⟩ := exists_accounts_of_runWith hempty h
    exact .inr ⟨rfl, hconfig, by rw [total_eq_sum hperm, hpool]⟩

/-- The report counts everyone in the market. -/
theorem Market.instances_of_runWith {target : Account → Nat} {market market' : Market}
    {report : RoundReport} (h : market.runWith target = .ok (report, market')) :
    report.instances = market.count := by
  cases hempty : market.accounts.isEmpty with
  | true =>
    simp only [runWith, hempty, if_true, pure, Except.pure, Except.ok.injEq, Prod.mk.injEq] at h
    rw [Std.TreeMap.isEmpty_eq_size_eq_zero, beq_iff_eq] at hempty
    rw [← h.1, count, hempty]
  | false =>
    obtain ⟨_, _, _, served, _, _, _, _, _, _, _, rfl, _, hseats⟩ :=
      exists_phases_of_runWith hempty h
    have hlength := congrArg List.length hseats
    simpa only [count, seats, List.length_map, Std.TreeMap.length_toList] using hlength

/-- **Pool conservation.** After every round that returns, the sizes add up to exactly the pool, the
four phases account for all of it, and the bought sizes miss just the bytes of the even split.
Nobody has more than the pool or less than it bought, and everyone's size from before is remembered.
The targets are arbitrary, and so are the market and its history. -/
theorem runWith_conserves_pool (target : Account → Nat) {market market' : Market}
    {report : RoundReport} (hsome : market.accounts.isEmpty = false)
    (h : market.runWith target = .ok (report, market')) :
    market'.total (·.size) = market.config.poolSize ∧
      report.baseSold + report.auctioned + report.redistributed + report.split =
        market.config.poolSize ∧
      market'.total (·.buyingSize) = market.config.poolSize - report.split ∧
      (∀ uid account, market'.account? uid = some account →
        account.buyingSize ≤ account.size ∧ account.size ≤ market.config.poolSize) ∧
      ∀ uid, (market'.account? uid).map (·.last) = (market.account? uid).map (·.size) := by
  obtain ⟨accounts, _, hperm, _, hpool, hbuying, hphases, hle⟩ := exists_accounts_of_runWith hsome h
  refine ⟨?_, hphases, ?_, ?_, Market.last_of_runWith h⟩
  · rw [Market.total_eq_sum hperm, hpool]
  · rw [Market.total_eq_sum hperm]
    omega
  · intro uid account hfind
    have hmem : (uid, account) ∈ accounts := by
      rw [← hperm.mem_iff, Std.TreeMap.mem_toList_iff_getElem?_eq_some]
      exact hfind
    refine ⟨hle _ hmem, ?_⟩
    rw [← hpool]
    exact List.le_sum_of_mem (List.mem_map.2 ⟨_, hmem, rfl⟩)

/-- A market of a pool of 100 bytes in which one instance saved credit for 20 bytes. -/
def saverMarket : Market where
  config := { poolSize := 100, minSlabSize := 10, windowSize := some 7, maxWallet := 100 }
  accounts :=
    (∅ : Std.TreeMap Nat Account).insertMany
      [(1, (⟨30, 40, 40, 30, ⟨[25], 10⟩, 20⟩ : Account)), (2, ⟨20, 60, 60, 20, ⟨[5], 10⟩, 0⟩)]

/-- In this round the saver orders 25 bytes over its request and can pay 20 of them, and the other
instance frees half of its guarantee, so that every phase moves bytes. -/
theorem runWith_conserves_pool_of_saver :
    saverMarket.accounts.isEmpty = false ∧
      ∃ market', saverMarket.runWith (fun a => if a.wallet = 0 then 10 else a.requested + 25) =
          .ok (⟨2, 40, 20, 5, 35, 5⟩, market') ∧
        market'.total (·.size) = 100 ∧ market'.total (·.buyingSize) = 65 := by
  have hsome : saverMarket.accounts.isEmpty = false := by decide +kernel
  have hreport : (saverMarket.runWith fun a => if a.wallet = 0 then 10 else a.requested + 25).map
      (·.1) = .ok ⟨2, 40, 20, 5, 35, 5⟩ := by decide +kernel
  refine ⟨hsome, ?_⟩
  cases hrun : saverMarket.runWith fun a => if a.wallet = 0 then 10 else a.requested + 25 with
  | error fault => rw [hrun] at hreport; cases hreport
  | ok result =>
    obtain ⟨report, market'⟩ := result
    rw [hrun] at hreport
    obtain rfl := Except.ok.inj hreport
    obtain ⟨hsize, _, hbuying, _⟩ := runWith_conserves_pool _ hsome hrun
    exact ⟨market', rfl, hsize, hbuying⟩

end ElasticCache
