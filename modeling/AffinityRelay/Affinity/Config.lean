import AffinityRelay.Affinity.Key
import AffinityRelay.Clock
import AffinityRelay.Machine

/-!
# What a table of assignments is set to

- `StoreConfig`: the kind of table, the width of a client's network, how many entries and for how long, and the key;
- `StoreConfig.capacity`, `StoreConfig.lifetime`: the last two as a count and a length of time;
- `StoreConfig.fits`: whether there can be room for as many entries.
-/

namespace AffinityRelay

/-- Whether assignments are remembered at all. -/
inductive StoreKind where
  | disabled
  | memory
  deriving DecidableEq, Repr

/-- The settings of a table of assignments. Unless set otherwise it remembers nothing. -/
structure StoreConfig where
  kind : StoreKind := .disabled
  bits : UInt8 := 0
  elements : UInt64 := 0
  seconds : UInt64 := 0
  key : Key := {}
  deriving DecidableEq, Repr

namespace StoreConfig

/-- How many assignments are kept at most. -/
def capacity (c : StoreConfig) : Nat :=
  match c.kind with
  | .disabled => 0
  | .memory => c.elements.toNat

/-- The most assignments that there can be room for. Room is made for a power of two of them, sixteen bytes for each, and
one in eight stays free. -/
def most : Nat := Machine.memory / 32 / 8 * 7

/-- Whether there can be room for as many assignments as are kept. -/
def fits (c : StoreConfig) : Bool :=
  c.capacity ≤ most

/-- How old an assignment may be and still be answered. -/
def lifetime (c : StoreConfig) : Time :=
  c.seconds.toNat * second

def replicated (c : StoreConfig) : Bool :=
  c.key.replicated

end StoreConfig

end AffinityRelay
