import AffinityRelay.Address.Basic
import AffinityRelay.Balancer.Policy
import AffinityRelay.Balancer.Ring
import AffinityRelay.Chance

/-!
# The attempts of one connection

- `Attempts`: the list of addresses as it was when the connection began, what is left of the walk over it, and the
  backend of the latest attempt;
- `Attempts.pick`: the choice of a policy;
- `Attempts.mayRetry`: whether another attempt may follow a failed one.

Nothing that happens to the balancer later changes the list or the walk of a connection that has begun.
-/

namespace AffinityRelay

/-- The attempts of one client to reach a backend. -/
structure Attempts where
  client : Ip
  list : List Address
  ring : Option Ring := none
  remote : Option Address := none
  count : Nat := 0
  budget : Nat := list.length
  deriving DecidableEq, Repr

namespace Attempts

/-- The backend that a policy chooses, the attempts after the choice, and what is left to chance. -/
def pick (policy : Policy) (a : Attempts) (chance : Chance) : Option Address × Attempts × Chance :=
  match policy with
  | .first => (a.list.head?, a, chance)
  | .random =>
    if a.list.isEmpty then (none, a, chance)
    else
      let (i, chance) := chance.below a.list.length
      (a.list[i]?, { a with budget := a.budget - 1 }, chance)
  | .ring | .sortedRing | .shuffledRing =>
    match a.ring.bind Ring.next? with
    | some (i, ring) => (a.list[i]?, { a with ring := some ring }, chance)
    | none => (none, a, chance)

/-- Whether another attempt may follow a failed one. -/
def mayRetry (policy : Policy) (failover : Bool) (a : Attempts) : Bool :=
  match policy with
  | .first => false
  | .random => failover && 0 < a.budget
  | .ring | .sortedRing | .shuffledRing => failover && a.ring.any Ring.hasNext

end Attempts

end AffinityRelay
