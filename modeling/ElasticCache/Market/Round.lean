import ElasticCache.Market.Auction
import Std.Data.TreeMap

/-!
# The memory market

The market divides a fixed pool of bytes between the registered instances, once per round. The whole
pool is always allocated while anyone takes part.
-/

namespace ElasticCache

/-- Bytes moved by each phase of a round. -/
structure RoundReport where
  instances : Nat := 0
  baseSold : Nat := 0
  auctioned : Nat := 0
  redistributed : Nat := 0
  split : Nat := 0
  /-- Sum of the orders left unpaid by the auction. -/
  unmetDemand : Nat := 0
  deriving DecidableEq, Repr

/-- The accounts of all instances by uid. -/
structure Market where
  config : MarketConfig
  accounts : Std.TreeMap Nat Account

namespace Market

/-- A market without instances. -/
def new (config : MarketConfig) : Market := ⟨config, ∅⟩

/-- Number of instances. -/
def count (market : Market) : Nat := market.accounts.size

/-- The account of an instance. -/
def account? (market : Market) (uid : Nat) : Option Account := market.accounts[uid]?

/-- Registers an instance, in place of any earlier one of its uid. -/
def register (market : Market) (uid requested usage : Nat) : Except Fault Market := do
  let account ← Account.new market.config.historySize requested usage
  return { market with accounts := market.accounts.insert uid account }

/-- Forgets an instance. -/
def remove (market : Market) (uid : Nat) : Market :=
  { market with accounts := market.accounts.erase uid }

/-- Records a usage sample. -/
def reportUsage (market : Market) (uid usage : Nat) : Market :=
  { market with
    accounts := market.accounts.modify uid fun a => { a with usages := a.usages.add usage } }

/-- Records the size that an instance actually runs with. -/
def reportSize (market : Market) (uid size : Nat) : Market :=
  { market with
    accounts := market.accounts.modify uid fun a => { a with size, buyingSize := size } }

/-- Whether the last round moved the allocation of an instance. -/
def hasChanged (market : Market) (uid : Nat) : Bool :=
  match market.account? uid with
  | some account => account.size ≠ account.last
  | none => false

/-- Sum of all allocations. -/
def allocated (market : Market) : Except Fault Nat :=
  sumLongs (market.accounts.values.map (·.size))

/-- One round in which each instance has the target told by `target`. -/
def runWith (target : Account → Nat) (market : Market) : Except Fault (RoundReport × Market) := do
  if market.accounts.isEmpty then return ({}, market)
  let config := market.config
  let (participants, base) ← sellBase config target market.accounts.toList ⟨config.poolSize, 0⟩
  let window := windowFor config participants base
  let auction ← runAuction window ⟨participants, base.next, 0⟩
  let (participants, redistribution) ←
    redistribute auction.participants auction.unmet auction.till.next
  let count := participants.length
  let remaining := redistribution.remaining
  let (accounts, split) ← splitEvenly (remaining / count) (remaining % count) participants 0
  return ({
    instances := count
    baseSold := base.sold
    auctioned := auction.till.sold
    redistributed := redistribution.sold
    split
    unmetDemand := auction.unmet }, { market with accounts := .ofList accounts })

/-- One round. -/
def run (market : Market) : Except Fault (RoundReport × Market) :=
  market.runWith (Account.target market.config)

end Market

end ElasticCache
