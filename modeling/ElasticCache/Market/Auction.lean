import ElasticCache.Market.Account

/-!
# The phases of a market round

A round sells the pool in four phases, each to the instances in ascending order. The base sale gives
every instance what its target and its request allow, credits unused guarantees to its wallet and
turns a target above the request into an order. The auction serves the orders turn by turn from the
wallets. What is left goes to the orders that ran out of credit, in proportion, and the rest is
split evenly.

Every sum must fit a 64-bit amount; a round in which one does not is a fault.
-/

namespace ElasticCache

/-- An instance during a round. -/
structure Participant where
  uid : Nat
  account : Account
  /-- Bytes it has got so far. -/
  bought : Nat
  /-- Bytes it still wants to buy. -/
  order : Nat
  /-- Bytes it ordered and could not pay. -/
  unmet : Nat
  deriving DecidableEq, Repr

/-- Bytes not yet sold, and bytes sold in the current phase. -/
structure Till where
  remaining : Nat
  sold : Nat
  deriving DecidableEq, Repr

namespace Till

/-- Sells an amount. -/
def sell (till : Till) (amount : Nat) : Except Fault Till := do
  return ⟨← minus till.remaining amount, ← fitLong (till.sold + amount)⟩

/-- A till for the next phase. -/
def next (till : Till) : Till := ⟨till.remaining, 0⟩

/-- What is sold leaves the till. -/
theorem remaining_of_sell {till till' : Till} {amount : Nat} (h : till.sell amount = .ok till') :
    till'.remaining + amount = till.remaining := by
  simp only [sell, bind_eq_ok_iff, minus_eq_ok_iff, fitLong_eq_ok_iff] at h
  obtain ⟨_, ⟨hle, rfl⟩, _, _, h⟩ := h
  rw [← Except.ok.inj h]
  exact Nat.sub_add_cancel hle

end Till

/-! ## Base sale -/

/-- Bytes that an instance is entitled to: its target, held between its floor and its request. -/
def entitlement (config : MarketConfig) (account : Account) (target : Nat) : Nat :=
  max (account.floor config) (min target account.requested)

/-- Order of an instance whose target exceeds its request. -/
def orderFor (config : MarketConfig) (account : Account) (target : Nat) : Nat :=
  min (config.poolSize - account.requested) (target - account.requested)

/-- Wallet of an instance after the unused part of its guarantee was credited. -/
def credited (config : MarketConfig) (account : Account) (target : Nat) : Nat :=
  if target < account.requested then
    min (saturatingSum account.wallet (account.requested - target)) config.maxWallet
  else account.wallet

/-- Sells one instance its base allocation. -/
def sellBaseTo (config : MarketConfig) (target : Account → Nat) (uid : Nat) (account : Account)
    (till : Till) : Except Fault (Participant × Till) := do
  let goal := target account
  let base := min (entitlement config account goal) till.remaining
  let till ← till.sell base
  return (⟨uid, { account with wallet := credited config account goal }, base,
    orderFor config account goal, 0⟩, till)

/-- Sells all instances their base allocations. -/
def sellBase (config : MarketConfig) (target : Account → Nat) :
    List (Nat × Account) → Till → Except Fault (List Participant × Till)
  | [], till => .ok ([], till)
  | (uid, account) :: rest, till => do
    let (participant, till) ← sellBaseTo config target uid account till
    let (participants, till) ← sellBase config target rest till
    return (participant :: participants, till)

/-! ## Auction -/

/-- What the instances, the till and the sum of unpaid orders are during the auction. -/
structure Auction where
  participants : List Participant
  till : Till
  unmet : Nat
  deriving DecidableEq, Repr

/-- Number of instances that still want to buy. -/
def countBuyers (participants : List Participant) : Nat :=
  participants.countP fun p => 0 < p.order

/-- The turn of one instance: it buys at most a window, as its wallet and its order allow. A buyer
that can buy nothing leaves the auction with its order unpaid. -/
def takeTurn (window : Nat) (p : Participant) (till : Till) (unmet : Nat) :
    Except Fault (Participant × Till × Nat) := do
  if p.order = 0 ∨ till.remaining = 0 then return (p, till, unmet)
  let amount := min (min window p.account.wallet) (min p.order till.remaining)
  if amount = 0 then
    let unmet ← fitLong (unmet + p.order)
    return ({ p with order := 0, unmet := p.order }, till, unmet)
  else
    let wallet ← minus p.account.wallet amount
    let till ← till.sell amount
    let bought ← fitLong (p.bought + amount)
    return ({ p with account := { p.account with wallet }, bought, order := p.order - amount },
      till, unmet)

/-- One turn of every instance. -/
def takeTurns (window : Nat) : List Participant → Till → Nat → Except Fault Auction
  | [], till, unmet => .ok ⟨[], till, unmet⟩
  | p :: rest, till, unmet => do
    let (p, till, unmet) ← takeTurn window p till unmet
    let after ← takeTurns window rest till unmet
    return { after with participants := p :: after.participants }

/-- Bytes to sell and buyers to serve: what every turn of a buyer makes smaller. -/
def Auction.work (participants : List Participant) (till : Till) : Nat :=
  till.remaining + countBuyers participants

/-- A participant with an open order is one buyer more. -/
theorem countBuyers_cons (p : Participant) (rest : List Participant) :
    countBuyers (p :: rest) = countBuyers rest + if 0 < p.order then 1 else 0 := by
  simp [countBuyers, List.countP_cons]

/-- A turn leaves at most as much to do, and less when the instance could buy. -/
theorem work_takeTurn {window : Nat} {p p' : Participant} {till till' : Till} {unmet unmet' : Nat}
    (h : takeTurn window p till unmet = .ok (p', till', unmet')) :
    till'.remaining + (if 0 < p'.order then 1 else 0) ≤
        till.remaining + (if 0 < p.order then 1 else 0) ∧
      (0 < p.order → 0 < till.remaining →
        till'.remaining + (if 0 < p'.order then 1 else 0) < till.remaining + 1) := by
  unfold takeTurn at h
  split at h
  next hidle =>
    obtain ⟨rfl, rfl, rfl⟩ : p = p' ∧ till = till' ∧ unmet = unmet' := by
      simpa [pure, Except.pure] using h
    exact ⟨Nat.le_refl _, fun _ _ => by omega⟩
  next hidle =>
    dsimp only at h
    split at h
    next hzero =>
      obtain ⟨_, _, h⟩ := bind_eq_ok_iff.1 h
      obtain ⟨rfl, rfl, _⟩ := by simpa [pure, Except.pure] using h
      have : 0 < p.order := by omega
      simp only [this, if_true, Nat.lt_irrefl, if_false]
      omega
    next hzero =>
      obtain ⟨_, _, h⟩ := bind_eq_ok_iff.1 h
      obtain ⟨till₁, hsell, h⟩ := bind_eq_ok_iff.1 h
      obtain ⟨_, _, h⟩ := bind_eq_ok_iff.1 h
      obtain ⟨rfl, rfl, _⟩ := by simpa [pure, Except.pure] using h
      have := Till.remaining_of_sell hsell
      have : 0 < p.order := by omega
      simp only [this, if_true]
      constructor
      · split <;> omega
      · intro _ _
        split <;> omega

/-- Turns of all instances leave at most as much to do, and less when someone could buy. -/
theorem work_takeTurns {window : Nat} {participants : List Participant} {till : Till} {unmet : Nat}
    {after : Auction} (h : takeTurns window participants till unmet = .ok after) :
    Auction.work after.participants after.till ≤ Auction.work participants till ∧
      (0 < countBuyers participants → 0 < till.remaining →
        Auction.work after.participants after.till < Auction.work participants till) := by
  induction participants generalizing till unmet after with
  | nil =>
    simp only [takeTurns, Except.ok.injEq] at h
    subst h
    exact ⟨Nat.le_refl _, fun hbuyers => by simp [countBuyers] at hbuyers⟩
  | cons p rest ih =>
    obtain ⟨⟨p', till', unmet'⟩, hturn, h⟩ := bind_eq_ok_iff.1 h
    obtain ⟨after', hrest, h⟩ := bind_eq_ok_iff.1 h
    have hafter := Except.ok.inj h
    subst hafter
    have hp := work_takeTurn hturn
    have hr := ih hrest
    simp only [Auction.work, countBuyers_cons] at *
    refine ⟨by omega, fun hbuyers hremaining => ?_⟩
    by_cases horder : 0 < p.order
    · have := hp.2 horder hremaining
      simp only [horder, if_true]
      omega
    · have hidle : takeTurn window p till unmet = .ok (p, till, unmet) := by
        have : p.order = 0 := by omega
        simp [takeTurn, this, pure, Except.pure]
      rw [hidle] at hturn
      obtain ⟨rfl, rfl, rfl⟩ : p = p' ∧ till = till' ∧ unmet = unmet' := by simpa using hturn
      simp only [horder, if_false] at *
      have := hr.2 (by omega) hremaining
      omega

/-- Turns until the pool is sold or nobody wants to buy any more. -/
def runAuction (window : Nat) (auction : Auction) : Except Fault Auction :=
  if _hgoing : 0 < auction.till.remaining ∧ 0 < countBuyers auction.participants then
    match _h : takeTurns window auction.participants auction.till auction.unmet with
    | .error fault => .error fault
    | .ok after => runAuction window after
  else .ok auction
termination_by Auction.work auction.participants auction.till
decreasing_by exact (work_takeTurns _h).2 _hgoing.2 _hgoing.1

/-- Bytes per turn: the configured window, or an even part of the pool. -/
def windowFor (config : MarketConfig) (participants : List Participant) (till : Till) : Nat :=
  config.windowSize.getD (max (till.remaining / countBuyers participants) 1)

/-! ## What is left -/

/-- Gives the unpaid orders their shares of `give` bytes, in proportion. -/
def shareOut (give demand : Nat) :
    List Participant → Till → Except Fault (List Participant × Till)
  | [], till => .ok ([], till)
  | p :: rest, till => do
    let share := give * p.unmet / demand
    let till ← till.sell share
    let bought ← fitLong (p.bought + share)
    let (participants, till) ← shareOut give demand rest till
    return ({ p with bought } :: participants, till)

/-- Gives what is left to the unpaid orders, at most what they lack. -/
def redistribute (participants : List Participant) (demand : Nat) (till : Till) :
    Except Fault (List Participant × Till) :=
  if till.remaining = 0 ∨ demand = 0 then .ok (participants, till)
  else shareOut (min demand till.remaining) demand participants till

/-- The account of a participant that also gets `free` bytes. -/
def Participant.settle (p : Participant) (free : Nat) : Except Fault Account := do
  let size ← fitLong (p.bought + free)
  return { p.account with last := p.account.size, buyingSize := p.bought, size }

/-- Splits what is left evenly. The first `extra` instances get one byte more. Answers the accounts
and the bytes given. -/
def splitEvenly (share extra : Nat) :
    List Participant → (given : Nat) → Except Fault (List (Nat × Account) × Nat)
  | [], given => .ok ([], given)
  | p :: rest, given => do
    let free := share + if 0 < extra then 1 else 0
    let account ← p.settle free
    let given ← fitLong (given + free)
    let (accounts, given) ← splitEvenly share (extra - 1) rest given
    return ((p.uid, account) :: accounts, given)

end ElasticCache
