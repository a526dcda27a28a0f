import AffinityRelay.Address.Basic

/-!
# The canonical order of addresses

- `Address.compare`: by the bytes of the address (`Address.compareBytes`), the shorter of two that agree as far as they
  go first, then by port;
- `Address.sort`: a list in that order, equals kept in their places.
-/

namespace AffinityRelay.Address

/-- By the first place where the two differ, else by length. -/
def compareBytes (xs ys : List UInt8) : Ordering :=
  ((xs.zip ys |>.map fun p => Ord.compare p.1 p.2).find? (· ≠ .eq)).getD (Ord.compare xs.length ys.length)

/-- By bytes, then by port. The scope does not count. -/
def compare (a b : Address) : Ordering :=
  (compareBytes a.ip.bytes b.ip.bytes).then (Ord.compare a.port b.port)

/-- The canonical order, as a test for two neighbours of a sorted list. -/
def le (a b : Address) : Bool :=
  (compare a b).isLE

/-- A list in canonical order. Addresses that compare equal keep the order they had. -/
def sort (xs : List Address) : List Address :=
  xs.mergeSort le

theorem sort_perm (xs : List Address) : (sort xs).Perm xs :=
  List.mergeSort_perm xs le

end AffinityRelay.Address
