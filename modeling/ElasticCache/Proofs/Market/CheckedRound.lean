import ElasticCache.Proofs.Market.Conservation

/-!
# A round with every step checked

The phases of a round divide by counts and sums that they expect not to be zero, take differences
that they expect not to be negative, and hold targets between bounds that they expect in order. The
phases of this file do the same steps, but a quotient by zero, a negative difference, bounds in the
wrong order and a product beyond 128 bits are faults. Where both answer alike, no step of a round
depends on what such an operation gives.
-/

namespace ElasticCache

/-- A quotient, which must not be by zero. -/
def quotient (a b : Nat) : Except Fault Nat :=
  if b = 0 then .error .divisionByZero else .ok (a / b)

/-- A remainder, which must not be by zero. -/
def remainder (a b : Nat) : Except Fault Nat :=
  if b = 0 then .error .divisionByZero else .ok (a % b)

/-- An amount held between two bounds, the first of which must not be above the second. -/
def clampIn (amount floor ceiling : Nat) : Except Fault Nat :=
  if floor ≤ ceiling then .ok (max floor (min amount ceiling)) else .error .malformed

/-- A product that must fit two 64-bit words. -/
def fitProduct (n : Nat) : Except Fault Nat :=
  if n < longLimit * longLimit then .ok n else .error .overflow

/-- The order of an instance, with every difference checked. -/
def orderIn (config : MarketConfig) (account : Account) (target : Nat) : Except Fault Nat :=
  if account.requested < target then do
    let excess ← minus target account.requested
    return min (config.poolSize - account.requested) excess
  else return 0

/-- The wallet of an instance after the base sale, with every difference checked. -/
def creditedIn (config : MarketConfig) (account : Account) (target : Nat) : Except Fault Nat :=
  if target < account.requested then do
    let unused ← minus account.requested target
    return min (saturatingSum account.wallet unused) config.maxWallet
  else return account.wallet

/-- The base sale to one instance with every step checked. -/
def sellBaseToIn (config : MarketConfig) (target : Account → Nat) (uid : Nat) (account : Account)
    (till : Till) : Except Fault (Participant × Till) := do
  let goal := target account
  let entitled ← clampIn goal (account.floor config) account.requested
  let base := min entitled till.remaining
  let order ← orderIn config account goal
  let wallet ← creditedIn config account goal
  let till ← till.sell base
  return (⟨uid, { account with wallet }, base, order, 0⟩, till)

/-- The base sale with every step checked. -/
def sellBaseIn (config : MarketConfig) (target : Account → Nat) :
    List (Nat × Account) → Till → Except Fault (List Participant × Till)
  | [], till => .ok ([], till)
  | (uid, account) :: rest, till => do
    let (participant, till) ← sellBaseToIn config target uid account till
    let (participants, till) ← sellBaseIn config target rest till
    return (participant :: participants, till)

/-- A turn with every step checked. -/
def takeTurnIn (window : Nat) (p : Participant) (till : Till) (unmet : Nat) :
    Except Fault (Participant × Till × Nat) := do
  if p.order = 0 ∨ till.remaining = 0 then return (p, till, unmet)
  let amount := min (min window p.account.wallet) (min p.order till.remaining)
  if amount = 0 then
    let unmet ← fitLong (unmet + p.order)
    return ({ p with order := 0, unmet := p.order }, till, unmet)
  else
    let wallet ← minus p.account.wallet amount
    let till ← till.sell amount
    let bought ← fitLong (p.bought + amount)
    let order ← minus p.order amount
    return ({ p with account := { p.account with wallet }, bought, order }, till, unmet)

/-- One turn of every instance with every step checked. -/
def takeTurnsIn (window : Nat) : List Participant → Till → Nat → Except Fault Auction
  | [], till, unmet => .ok ⟨[], till, unmet⟩
  | p :: rest, till, unmet => do
    let (p, till, unmet) ← takeTurnIn window p till unmet
    let after ← takeTurnsIn window rest till unmet
    return { after with participants := p :: after.participants }

section Turns

variable {window : Nat} {participants : List Participant} {till : Till} {unmet : Nat}

/-- The checked turn of one instance is its turn. -/
theorem takeTurnIn_eq (window : Nat) (p : Participant) (till : Till) (unmet : Nat) :
    takeTurnIn window p till unmet = takeTurn window p till unmet := by
  have hle : min (min window p.account.wallet) (min p.order till.remaining) ≤ p.order := by omega
  simp only [takeTurnIn, takeTurn, minus_eq_ok hle, ok_bind]

/-- The checked turns of all instances are their turns. -/
theorem takeTurnsIn_eq (window : Nat) (participants : List Participant) (till : Till)
    (unmet : Nat) :
    takeTurnsIn window participants till unmet = takeTurns window participants till unmet := by
  induction participants generalizing till unmet with
  | nil => rfl
  | cons p rest ih => simp only [takeTurnsIn, takeTurns, takeTurnIn_eq, ih]

end Turns

/-- The auction with every step checked. -/
def runAuctionIn (window : Nat) (auction : Auction) : Except Fault Auction :=
  if _hgoing : 0 < auction.till.remaining ∧ 0 < countBuyers auction.participants then
    match _h : takeTurnsIn window auction.participants auction.till auction.unmet with
    | .error fault => .error fault
    | .ok after => runAuctionIn window after
  else .ok auction
termination_by Auction.work auction.participants auction.till
decreasing_by
  rw [takeTurnsIn_eq] at _h
  exact (work_takeTurns _h).2 _hgoing.2 _hgoing.1

/-- Bytes per turn, with the quotient checked. -/
def windowIn (config : MarketConfig) (participants : List Participant) (till : Till) :
    Except Fault Nat :=
  match config.windowSize with
  | some window => .ok window
  | none => do
    let even ← quotient till.remaining (countBuyers participants)
    return max even 1

/-- The auction phase with every step checked. Without buyers no window is computed. -/
def auctionIn (config : MarketConfig) (participants : List Participant) (till : Till) :
    Except Fault Auction := do
  if countBuyers participants = 0 then return ⟨participants, till.next, 0⟩
  let window ← windowIn config participants till
  runAuctionIn window ⟨participants, till.next, 0⟩

/-- The shares of the unpaid orders with every step checked. -/
def shareOutIn (give demand : Nat) :
    List Participant → Till → Except Fault (List Participant × Till)
  | [], till => .ok ([], till)
  | p :: rest, till => do
    let product ← fitProduct (give * p.unmet)
    let share ← quotient product demand
    let share ← fitLong share
    let till ← till.sell share
    let bought ← fitLong (p.bought + share)
    let (participants, till) ← shareOutIn give demand rest till
    return ({ p with bought } :: participants, till)

/-- The redistribution with every step checked. -/
def redistributeIn (participants : List Participant) (demand : Nat) (till : Till) :
    Except Fault (List Participant × Till) :=
  if till.remaining = 0 ∨ demand = 0 then .ok (participants, till)
  else shareOutIn (min demand till.remaining) demand participants till

/-- The even split with every step checked. -/
def splitEvenlyIn (share extra : Nat) :
    List Participant → (given : Nat) → Except Fault (List (Nat × Account) × Nat)
  | [], given => .ok ([], given)
  | p :: rest, given => do
    let free ← fitLong (share + if 0 < extra then 1 else 0)
    let account ← p.settle free
    let given ← fitLong (given + free)
    let (accounts, given) ← splitEvenlyIn share (extra - 1) rest given
    return ((p.uid, account) :: accounts, given)

/-- A round with every step checked. -/
def Market.runIn (target : Account → Nat) (market : Market) :
    Except Fault (RoundReport × Market) := do
  if market.accounts.isEmpty then return ({}, market)
  let config := market.config
  let (participants, base) ← sellBaseIn config target market.accounts.toList ⟨config.poolSize, 0⟩
  let auction ← auctionIn config participants base
  let (participants, redistribution) ←
    redistributeIn auction.participants auction.unmet auction.till.next
  let count := participants.length
  let remaining := redistribution.remaining
  let share ← quotient remaining count
  let extra ← remainder remaining count
  let (accounts, split) ← splitEvenlyIn share extra participants 0
  return ({
    instances := count
    baseSold := base.sold
    auctioned := auction.till.sold
    redistributed := redistribution.sold
    split
    unmetDemand := auction.unmet }, { market with accounts := .ofList accounts })

/-! ## The phases answer alike -/

section Phases

variable {config : MarketConfig} {target : Account → Nat} {participants : List Participant}
  {till : Till}

/-- The bounds of an entitlement are never the wrong way around. -/
theorem clampIn_floor_eq_ok (config : MarketConfig) (account : Account) (target : Nat) :
    clampIn target (account.floor config) account.requested =
      .ok (entitlement config account target) :=
  if_pos (Nat.min_le_right _ _)

/-- The difference in an order is never negative. -/
theorem orderIn_eq_ok (config : MarketConfig) (account : Account) (target : Nat) :
    orderIn config account target = .ok (orderFor config account target) := by
  unfold orderIn orderFor
  split
  next hlt => simp [minus_eq_ok (Nat.le_of_lt hlt), pure, Except.pure]
  next hle => simp [Nat.sub_eq_zero_of_le (Nat.le_of_not_lt hle), pure, Except.pure]

/-- The difference in a credit is never negative. -/
theorem creditedIn_eq_ok (config : MarketConfig) (account : Account) (target : Nat) :
    creditedIn config account target = .ok (credited config account target) := by
  unfold creditedIn credited
  split
  next hlt => simp [minus_eq_ok (Nat.le_of_lt hlt), pure, Except.pure]
  next => rfl

/-- The checked base sale is the base sale. -/
theorem sellBaseIn_eq (config : MarketConfig) (target : Account → Nat)
    (accounts : List (Nat × Account)) (till : Till) :
    sellBaseIn config target accounts till = sellBase config target accounts till := by
  induction accounts generalizing till with
  | nil => rfl
  | cons entry rest ih =>
    simp only [sellBaseIn, sellBase, sellBaseToIn, sellBaseTo, clampIn_floor_eq_ok, orderIn_eq_ok,
      creditedIn_eq_ok, ok_bind, ih]

/-- The checked auction is the auction, turn by turn. -/
theorem runAuctionIn_eq (window : Nat) (auction : Auction) :
    runAuctionIn window auction = runAuction window auction := by
  fun_induction runAuctionIn window auction with
  | case1 auction hgoing fault hturns =>
    rw [takeTurnsIn_eq] at hturns
    rw [runAuction, dif_pos hgoing]
    split
    next fault' hturns' =>
      rw [hturns] at hturns'
      exact hturns'
    next after hturns' =>
      rw [hturns] at hturns'
      cases hturns'
  | case2 auction hgoing after hturns ih =>
    rw [takeTurnsIn_eq] at hturns
    rw [runAuction, dif_pos hgoing, ih]
    split
    next fault hturns' =>
      rw [hturns] at hturns'
      cases hturns'
    next after' hturns' =>
      rw [hturns] at hturns'
      rw [Except.ok.inj hturns']
  | case3 auction hended => rw [runAuction, dif_neg hended]

/-- With a buyer, the window is not a quotient by zero. -/
theorem windowIn_eq_ok (h : countBuyers participants ≠ 0) :
    windowIn config participants till = .ok (windowFor config participants till) := by
  unfold windowIn windowFor
  split
  next window hwindow => simp [hwindow]
  next hwindow => simp [hwindow, quotient, h, pure, Except.pure]

/-- The checked auction with its window is the auction with its window, also when nobody buys. -/
theorem auctionIn_eq (config : MarketConfig) (participants : List Participant) (till : Till) :
    auctionIn config participants till =
      runAuction (windowFor config participants till) ⟨participants, till.next, 0⟩ := by
  unfold auctionIn
  by_cases hbuyers : countBuyers participants = 0
  · rw [if_pos hbuyers, runAuction, dif_neg (by simp [hbuyers])]
    rfl
  · rw [if_neg hbuyers, windowIn_eq_ok hbuyers]
    exact runAuctionIn_eq _ _

/-- No share is larger than what is given when no order exceeds the demand. -/
theorem shareOutIn_eq {give demand : Nat} (hgive : give < longLimit) (hpos : 0 < demand)
    (hdemand : demand < longLimit) (hunmet : ∀ p ∈ participants, p.unmet ≤ demand) :
    shareOutIn give demand participants till = shareOut give demand participants till := by
  induction participants generalizing till with
  | nil => rfl
  | cons p rest ih =>
    have hle : p.unmet ≤ demand := hunmet p List.mem_cons_self
    have hproduct : give * p.unmet < longLimit * longLimit :=
      Nat.mul_lt_mul_of_lt_of_le hgive (by omega) (by omega)
    have hshare : give * p.unmet / demand ≤ give :=
      Nat.div_le_of_le_mul (by rw [Nat.mul_comm demand]; exact Nat.mul_le_mul_left give hle)
    have hrest (till : Till) : shareOutIn give demand rest till = shareOut give demand rest till :=
      ih fun q hq => hunmet q (List.mem_cons_of_mem p hq)
    simp only [shareOutIn, shareOut, fitProduct, if_pos hproduct, quotient,
      if_neg (Nat.ne_of_gt hpos), ok_bind, fitLong_eq_ok (Nat.lt_of_le_of_lt hshare hgive), hrest]

/-- The checked even split is the even split when a share fits a long word. -/
theorem splitEvenlyIn_eq {share extra : Nat} (hfits : share + min extra 1 < longLimit)
    (participants : List Participant) (given : Nat) :
    splitEvenlyIn share extra participants given = splitEvenly share extra participants given := by
  induction participants generalizing extra given with
  | nil => rfl
  | cons p rest ih =>
    have hfree : share + (if 0 < extra then 1 else 0) < longLimit := by
      split <;> omega
    have hrest (given : Nat) : splitEvenlyIn share (extra - 1) rest given =
        splitEvenly share (extra - 1) rest given := ih (by omega) given
    simp only [splitEvenlyIn, splitEvenly, fitLong_eq_ok hfree, ok_bind, hrest]

end Phases

end ElasticCache
