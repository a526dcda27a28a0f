/-!
# The limits of a machine

- `Machine.words`: what can be counted;
- `Machine.memory`, `Machine.holds`: how large a thing can be, and whether there can be room for so many.

The library reckons with numbers and lists of any size. Where these limits show, a definition that looks at them stands
beside the one that does not, and has no answer where they are passed; within them both are the same.
-/

namespace AffinityRelay.Machine

/-- A machine counts below this number, which has one bit more than its words. -/
def words : Nat := UInt64.size

/-- Nothing has as many bytes as this: it is half of all that can have an address. -/
def memory : Nat := words / 2

/-- Whether there can be room for so many things of so many bytes each. -/
def holds (count bytes : Nat) : Bool :=
  count * bytes < memory

end AffinityRelay.Machine
