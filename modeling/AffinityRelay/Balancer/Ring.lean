import AffinityRelay.Machine

/-!
# Rings

- `Ring`: a walk once around a ring of places from where it starts;
- `Ring.next?`: the next place and the rest of the walk;
- `Ring.course?`: the places of so many steps, within the limits of a machine.
-/

namespace AffinityRelay

/-- A walk around `size` places that begins at `start` and has passed `passed` of them. -/
structure Ring where
  start : Nat
  size : Nat
  passed : Nat := 0
  deriving DecidableEq, Repr

namespace Ring

/-- The walk that begins where a running count stands. -/
def ofCount (count size : Nat) : Ring :=
  { start := count % size, size }

/-- Whether a place is left. -/
def hasNext (r : Ring) : Bool :=
  r.passed < r.size

/-- The next place and the rest of the walk. -/
def next? (r : Ring) : Option (Nat × Ring) :=
  if r.hasNext then some ((r.start + r.passed) % r.size, { r with passed := r.passed + 1 }) else none

/-- How many places are left. -/
def left (r : Ring) : Nat :=
  r.size - r.passed

/-- What so many steps come to: before each whether a place is left, and the place. There is no answer where the steps from
the first place of the ring cannot be counted. -/
def course? : Nat → Ring → Option (List (Bool × Option Nat))
  | 0, _ => some []
  | n + 1, r =>
    match r.next? with
    | none => (course? n r).map ((false, none) :: ·)
    | some (i, after) =>
      if r.start + r.passed < Machine.words then (course? n after).map ((true, some i) :: ·) else none

theorem left_of_next? {r r' : Ring} {i : Nat} (h : r.next? = some (i, r')) : r.left = r'.left + 1 := by
  unfold next? at h
  split at h
  · rename_i hn
    simp only [hasNext, decide_eq_true_eq] at hn
    simp only [Option.some.injEq, Prod.mk.injEq] at h
    simp only [left, ← h.2]
    omega
  · cases h

end Ring

end AffinityRelay
