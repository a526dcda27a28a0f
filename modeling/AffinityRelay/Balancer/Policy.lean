import AffinityRelay.Text.Cut

/-!
# Policies

- `Policy`: how a backend is chosen from a list of addresses;
- `Policy.word`, `Policy.ofWord?`: the word a policy is written with, in letters of either case
  (`Policy.ofWord?_word`);
- `Policy.usesRing`: whether the list is walked as a ring.
-/

namespace AffinityRelay

/-- How a backend is chosen from a list of addresses: the first of the list, any of them, or by walking the list as a
ring: as it is, in canonical order, or in an order drawn anew with each list. -/
inductive Policy where
  | first
  | random
  | ring
  | sortedRing
  | shuffledRing
  deriving DecidableEq, Repr

namespace Policy

def usesRing : Policy → Bool
  | first | random => false
  | ring | sortedRing | shuffledRing => true

/-- The word that a policy is written with. -/
def word : Policy → String
  | first => "NONE"
  | random => "RAND"
  | ring => "RR"
  | sortedRing => "ORDER"
  | shuffledRing => "RANDRR"

def all : List Policy :=
  [first, random, ring, sortedRing, shuffledRing]

/-- The policy written with a word in letters of either case. -/
def ofWord? (s : List Char) : Option Policy :=
  all.find? fun p => p.word.toList = Text.upper s

theorem ofWord?_word (p : Policy) : ofWord? p.word.toList = some p := by
  cases p <;> decide

end Policy

end AffinityRelay
