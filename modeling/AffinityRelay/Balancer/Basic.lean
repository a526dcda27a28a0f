import AffinityRelay.Address.Order
import AffinityRelay.Affinity.Store
import AffinityRelay.Balancer.Attempts

/-!
# Balancers

- `Balancer`: a policy, the addresses resolved last, a count of the connections begun, and a table of assignments;
- `Balancer.install`: takes a new list of addresses, in the order of the policy (`Balancer.install_perm`);
- `Balancer.start`, `Balancer.next`: begin a connection, and choose the backend of its next attempt;
- `Balancer.succeed`, `Balancer.fail`: what an attempt came to, remembered and announced.

The first attempt of a connection goes to the backend that the table answers for the client, if that is on the list.
The policy that always takes the first address never asks the table.
-/

namespace AffinityRelay

/-- A decision that is announced to the cluster: the backend a client now has, or that it has none any more. -/
structure Announcement where
  key : Key
  client : Ip
  backend : Option Address
  deriving DecidableEq, Repr

/-- Chooses the backends of one forwarded port. -/
structure Balancer where
  policy : Policy := .first
  failover : Bool := false
  /-- Whether decisions are announced. -/
  announces : Bool := false
  store : Store := {}
  addresses : List Address := []
  started : UInt64 := 0
  chance : Chance

namespace Balancer

/-- A list of addresses in the order that the policy wants. -/
def arrange (list : List Address) (b : Balancer) : List Address × Chance :=
  match b.policy with
  | .sortedRing => (Address.sort list, b.chance)
  | .shuffledRing => b.chance.shuffle list
  | .first | .random | .ring => (list, b.chance)

/-- The balancer with a new list of addresses. -/
def install (list : List Address) (b : Balancer) : Balancer :=
  let (addresses, chance) := b.arrange list
  { b with addresses, chance }

/-- Begins a connection of a client. Connections on a ring start from one place after another. -/
def start (client : Ip) (b : Balancer) : Attempts × Balancer :=
  if b.policy.usesRing then
    ({ client, list := b.addresses, ring := some (Ring.ofCount b.started.toNat b.addresses.length) },
      { b with started := b.started + 1 })
  else ({ client, list := b.addresses }, b)

/-- Whether the next attempt of a connection asks the table. -/
def asksStore (a : Attempts) (b : Balancer) : Bool :=
  a.count == 0 && b.policy ≠ .first

/-- The backend assigned to the client, if the next attempt asks for it and it is on the list. -/
def assigned (now : Time) (a : Attempts) (b : Balancer) : Option Address :=
  if b.asksStore a then (b.store.answer now a.client).filter (a.list.contains ·) else none

/-- The balancer after the next attempt asked the table, if it does. -/
def asked (a : Attempts) (b : Balancer) : Balancer :=
  if b.asksStore a then { b with store := b.store.touch a.client } else b

/-- The backend of the policy's own choice. -/
def choose (a : Attempts) (b : Balancer) : Option Address × Attempts × Balancer :=
  let p := a.pick b.policy b.chance
  (p.1, { p.2.1 with remote := p.1 }, { b with chance := p.2.2 })

/-- The backend of the next attempt: the one assigned to the client, else one of the policy's choice. -/
def next (now : Time) (a : Attempts) (b : Balancer) : Option Address × Attempts × Balancer :=
  match b.assigned now a with
  | some backend => (some backend, { a with count := a.count + 1, remote := some backend }, b.asked a)
  | none => (b.asked a).choose { a with count := a.count + 1 }

/-- Whether another attempt may follow a failed one. -/
def mayRetry (b : Balancer) (a : Attempts) : Bool :=
  a.mayRetry b.policy b.failover

/-- What the cluster is told of a decision: nothing if the table is not shared. -/
def announce (client : Ip) (backend : Option Address) (b : Balancer) : List Announcement :=
  if b.announces && b.store.config.replicated then [⟨b.store.config.key, client, backend⟩] else []

/-- A decision about a client: it is announced, and then written. -/
def settle (now : Time) (client : Ip) (backend : Option Address) (b : Balancer) : List Announcement × Balancer :=
  (b.announce client backend, { b with store := b.store.settle now client backend })

/-- The attempt succeeded: its backend is assigned to the client. -/
def succeed (now : Time) (a : Attempts) (b : Balancer) : List Announcement × Balancer :=
  match a.remote with
  | some backend => b.settle now a.client (some backend)
  | none => ([], b)

/-- The attempt failed: the client has no backend any more. -/
def fail (now : Time) (a : Attempts) (b : Balancer) : Attempts × List Announcement × Balancer :=
  let (told, b) := b.settle now a.client none
  ({ a with remote := none }, told, b)

theorem install_perm (list : List Address) (b : Balancer) : (b.install list).addresses.Perm list := by
  simp only [install, arrange]
  cases b.policy with
  | sortedRing => exact Address.sort_perm list
  | shuffledRing => exact Chance.shuffle_perm list b.chance
  | first => exact List.Perm.refl _
  | random => exact List.Perm.refl _
  | ring => exact List.Perm.refl _

end Balancer

end AffinityRelay
