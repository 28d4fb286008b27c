import ElasticCache.Fleet.Round
import ElasticCache.Proofs.Market.Accounts

/-!
# What a fleet told its instances

Every instance is reached under a ticket, its uid, and the world keeps a record of the requests
that were sent under each ticket. The books of a fleet are right when its members are the instances
of its market and each of them was last given the size that the market has for it.
-/

namespace ElasticCache

/-! ## Requests on record -/

/-- A request to an instance, with whether it was answered. -/
inductive Contact where
  | polled (ticket : Nat) (answered : Bool)
  | pushed (ticket size : Nat) (accepted : Bool)
  deriving DecidableEq, Repr

/-- Whether an instance answered. -/
def Response.isAnswered {α : Type} : Response α → Bool
  | .answered _ => true
  | .failed _ => false
  | .silent => false

/-- The size that was last accepted under a ticket, zero when none was, given all requests with the
latest first. -/
def lastAccepted : List Contact → (ticket : Nat) → Nat
  | [], _ => 0
  | .polled _ _ :: older, ticket => lastAccepted older ticket
  | .pushed other size accepted :: older, ticket =>
    if other = ticket ∧ accepted then size else lastAccepted older ticket

section Recording

variable {ω η : Type}

/-- Instances that are reached under tickets, in a world that also keeps the requests to them, the
latest first. -/
def Peers.recorded (peers : Peers ω η) : Peers (ω × List Contact) (Nat × η) where
  poll := fun (ticket, peer) (world, contacts) =>
    let (response, world) := peers.poll peer world
    (response, world, .polled ticket response.isAnswered :: contacts)
  push := fun (ticket, peer) size (world, contacts) =>
    let (response, world) := peers.push peer size world
    (response, world, .pushed ticket size response.isAnswered :: contacts)
  stop := fun (_, peer) (world, contacts) => (peers.stop peer world, contacts)

/-- Polls are on record and give nobody a size. -/
theorem lastAccepted_polls (polls : List Contact) (contacts : List Contact) (ticket : Nat)
    (hpolls : ∀ contact ∈ polls, ∃ other answered, contact = .polled other answered) :
    lastAccepted (polls ++ contacts) ticket = lastAccepted contacts ticket := by
  induction polls with
  | nil => rfl
  | cons contact rest ih =>
    obtain ⟨other, answered, rfl⟩ := hpolls contact List.mem_cons_self
    exact ih fun contact hcontact => hpolls contact (List.mem_cons_of_mem _ hcontact)

/-- Nothing was accepted under a ticket that no size was sent to. -/
theorem lastAccepted_eq_zero {contacts : List Contact} {ticket : Nat}
    (hfresh : ∀ size accepted, .pushed ticket size accepted ∉ contacts) :
    lastAccepted contacts ticket = 0 := by
  induction contacts with
  | nil => rfl
  | cons contact rest ih =>
    have hrest := ih fun size accepted hmem =>
      hfresh size accepted (List.mem_cons_of_mem _ hmem)
    cases contact with
    | polled other answered => exact hrest
    | pushed other size accepted =>
      have hne : other ≠ ticket := by
        rintro rfl
        exact hfresh size accepted List.mem_cons_self
      rw [lastAccepted, if_neg fun h => hne h.1, hrest]

end Recording

end ElasticCache
