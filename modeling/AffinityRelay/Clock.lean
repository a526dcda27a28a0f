/-!
# Time

- `Time`: a moment, in nanoseconds from the start of a run, or a length of time;
- `Time.tick`: what timers see of the time, which is at most a millisecond old (`Time.tick_le`, `Time.lt_tick_add`).

Time never runs backwards. What is good until a moment is good as long as the clock has not passed it. A timer goes by
whole milliseconds: it never goes off before the moment that it is set for, and less than a millisecond after it.
-/

namespace AffinityRelay

/-- A moment, or a length of time, in nanoseconds. -/
abbrev Time := Nat

def millisecond : Time := 1000000

def second : Time := 1000 * millisecond

namespace Time

/-- The last whole millisecond. A timer that is set for a moment goes off once this has reached it. -/
def tick (now : Time) : Time :=
  now / millisecond * millisecond

theorem tick_le (now : Time) : now.tick ≤ now :=
  Nat.div_mul_le_self now millisecond

theorem lt_tick_add (now : Time) : now < now.tick + millisecond :=
  Nat.lt_div_mul_add (by decide)

end Time

end AffinityRelay
