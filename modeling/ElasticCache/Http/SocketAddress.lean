import ElasticCache.Error
import ElasticCache.Text.Json
import ElasticCache.Text.Scan

/-!
# Socket addresses

Texts of a host and a service on it: `127.0.0.1:80`, or `[::1]:80` with eight groups of hexadecimal
digits, of which two colons may replace one or more zero groups, and two may be written as four
octets. Octets have no leading zeros.

A service listens on one of them if the operating system lets it. The host is taken to be on no
network, and its one device, the loopback, to be switched off.
-/

namespace ElasticCache

/-- The address of a host. -/
inductive Host where
  | v4 (octets : List Nat)
  | v6 (groups : List Nat) (scope : Nat)
  deriving DecidableEq, Repr

namespace Host

/-- Number of the loopback device. -/
def loopbackDevice : Nat := 1

/-- Whether the groups stand for all addresses of a host. -/
def isUnspecified (groups : List Nat) : Bool := groups.all (· = 0)

/-- Whether the groups wrap four octets. -/
def isMapped (groups : List Nat) : Bool := groups.take 6 = [0, 0, 0, 0, 0, 0xffff]

/-- Whether the first group is of an address of many hosts. -/
def isMulticast (group : Nat) : Bool := group >>> 8 = 0xff

/-- Whether the first group is of an address that holds on one link alone. -/
def isLinkLocal (group : Nat) : Bool := group >>> 6 = 0xfe80 >>> 6

/-- Why the operating system refuses to let a service listen at an address. Without a network no
octets are known to be those of another host, so none are refused. Groups must be those of a device,
and an address that holds on one link must name the device of its link. -/
def refusal? : Host → Option IoFailure
  | .v4 _ => none
  | .v6 groups scope =>
    let first := groups.headD 0
    if isUnspecified groups || isMapped groups then none
    else if isMulticast first then some .invalidArgument
    else if isLinkLocal first && scope = 0 then some .invalidArgument
    else if isLinkLocal first && scope ≠ loopbackDevice then some .noSuchDevice
    else some .addressNotAvailable

end Host

/-- A host and the number of a service on it. -/
structure SocketAddress where
  host : Host
  service : Nat
  deriving DecidableEq, Repr

namespace SocketAddress

open Scan

/-- The value of a digit below a base. -/
def digit? (base : Nat) (c : Char) : Option Nat := (Json.hexValue? c).filter (· < base)

/-- Reads a number below `limit`, of at most `most` digits when there is such a bound. -/
def number (base limit : Nat) (most : Option Nat) : Scan Nat := do
  let found ← span fun c => (digit? base c).isSome
  let value := (found.filterMap (digit? base)).foldl (fun n d => base * n + d) 0
  if found.isEmpty || most.any (· < found.length) || limit ≤ value then failure
  return value

/-- Reads a number up to 255 without leading zeros. -/
def octet : Scan Nat := do
  let text ← get
  let value ← number 10 256 (some 3)
  if text.head? = some '0' ∧ (text.tail.head?.any Char.isDigit) then failure
  return value

/-- Reads four octets. -/
def octets : Scan (List Nat) := do
  let a ← octet
  char '.'
  let b ← octet
  char '.'
  let c ← octet
  char '.'
  return [a, b, c, ← octet]

/-- Reads at most `room` groups, and answers whether they ended with four octets. -/
def groups (isFirst : Bool) : (room : Nat) → Scan (List Nat × Bool)
  | 0 => return ([], false)
  | room + 1 => do
    let separated {α : Type} (scan : Scan α) : Scan α := do
      if !isFirst then char ':'
      scan
    let embedded? ← if room = 0 then pure none else attempt (separated octets)
    match embedded? with
    | some found =>
      let pairs := [found.take 2, found.drop 2].map fun pair => pair.foldl (256 * · + ·) 0
      return (pairs, true)
    | none =>
      match ← attempt (separated (number 16 65536 (some 4))) with
      | none => return ([], false)
      | some group =>
        let (rest, endsWithOctets) ← groups false room
        return (group :: rest, endsWithOctets)

/-- Reads eight groups, or fewer around two colons. -/
def eightGroups : Scan (List Nat) := do
  let (front, endsWithOctets) ← groups true 8
  if front.length = 8 then return front
  if endsWithOctets then failure
  char ':'
  char ':'
  let (back, _) ← groups true (7 - front.length)
  return front ++ List.replicate (8 - front.length - back.length) 0 ++ back

/-- Reads the scope of an address. -/
def scope : Scan Nat := do
  char '%'
  number 10 (1 <<< 32) none

/-- Reads an address in brackets. -/
def bracketed : Scan Host := do
  char '['
  let groups ← eightGroups
  let scope ← attempt scope
  char ']'
  return .v6 groups (scope.getD 0)

/-- Reads a host and a service on it. -/
def scan : Scan SocketAddress := do
  let host ←
    match ← attempt octets with
    | some octets => pure (.v4 octets)
    | none => bracketed
  char ':'
  return ⟨host, ← number 10 65536 none⟩

/-- The address that a whole text stands for. -/
def parse? (text : String) : Option SocketAddress := scan.whole? text

end SocketAddress

end ElasticCache
