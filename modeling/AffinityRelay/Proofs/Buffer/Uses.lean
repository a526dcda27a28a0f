import AffinityRelay.Buffer

/-!
# What is done with a buffer

Whoever holds a buffer puts bytes into it, takes bytes out, writes over its spare bytes, or empties it.

* `Buffer.Bounded`: the marks of a buffer are in order and lie in it. Then the bytes that are pending and those that are
  spare are where the marks say (`Buffer.Bounded.between?_pending`, `Buffer.Bounded.between?_spare`);
* what the operations do to the pending bytes of such a buffer: to write over the spare bytes does nothing
  (`Buffer.Bounded.pending_overwrite`), to advance takes up the first of them (`Buffer.Bounded.pending_advance`), and so
  what is put in comes last (`Buffer.Bounded.pending_put`). What is consumed is taken from the front
  (`Buffer.pending_consume`);
* `Buffer.Use`: all of these as data, with the bytes that go in (`Buffer.Use.accepted`) and come out
  (`Buffer.Use.consumed`). Each keeps a buffer bounded (`Buffer.Bounded.use`), and none but those that empty it loses,
  adds or moves a byte (`Buffer.Bounded.conserved`);
* `Buffer.Use.after?`: a use within the limits of a machine.
-/

namespace AffinityRelay

namespace Buffer

/-- The marks are in order, and none is behind the end. -/
structure Bounded (b : Buffer) : Prop where
  drained_le : b.drained ≤ b.filled
  filled_le : b.filled ≤ b.capacity

/-- The bytes from one place up to another, unless these are out of order or outside the buffer. -/
def between? (start stop : Nat) (b : Buffer) : Option (List UInt8) :=
  if start ≤ stop ∧ stop ≤ b.cells.length then some ((b.cells.take stop).drop start) else none

variable {b : Buffer}

theorem bounded_zeros (capacity : Nat) : (zeros capacity).Bounded :=
  ⟨Nat.le_refl 0, Nat.zero_le capacity⟩

theorem filled_advance_le (n : Nat) (b : Buffer) : (b.advance n).filled ≤ b.capacity :=
  Nat.min_le_right _ _

@[simp] theorem length_spare (b : Buffer) : b.spare.length = b.room := by
  simp [spare, room]

theorem length_take_filled (h : b.filled ≤ b.capacity) : (b.cells.take b.filled).length = b.filled := by
  rw [List.length_take, length_cells, Nat.min_eq_left h]

/-- Something is left to send where fewer bytes were sent than were pending. -/
theorem hasPending_consume (h : b.filled ≤ b.capacity) (n : Nat) :
    (b.consume n).hasPending = decide (n < b.pending.length) := by
  have hlen : b.pending.length = b.filled - b.drained := by simp [pending, Nat.min_eq_left h]
  rw [hasPending, hlen, decide_eq_decide]
  show min (b.drained + n) b.filled < b.filled ↔ n < b.filled - b.drained
  omega

theorem length_pending_le (b : Buffer) : b.pending.length ≤ b.capacity := by
  simp only [pending, List.length_drop, length_front]
  omega

/-- The bytes that are written over the spare ones are the first of those then. -/
theorem spare_overwrite (h : b.filled ≤ b.capacity) (bytes : List UInt8) :
    (b.overwrite bytes).spare = bytes.take b.room ++ b.spare.drop bytes.length := by
  have hrest : b.cells.drop (b.filled + (bytes.take b.room).length) = b.spare.drop bytes.length := by
    rw [← List.drop_drop]
    show b.spare.drop (bytes.take b.room).length = _
    -- Where not all of the bytes fit, no spare byte is left of what there was.
    rcases Nat.le_total bytes.length b.room with hfit | hlong
    · rw [List.take_of_length_le hfit]
    · have hfull : (bytes.take b.room).length = b.room := by rw [List.length_take, Nat.min_eq_left hlong]
      rw [hfull, List.drop_of_length_le (by simp), List.drop_of_length_le (by simpa using hlong)]
  show (b.overwrite bytes).cells.drop b.filled = _
  rw [cells_overwrite, List.append_assoc, List.drop_left' (length_take_filled h), hrest]

namespace Bounded

theorem length_pending (h : b.Bounded) : b.pending.length = b.filled - b.drained := by
  simp [pending, Nat.min_eq_left h.filled_le]

theorem between?_pending (h : b.Bounded) : b.between? b.drained b.filled = some b.pending := by
  rw [between?, if_pos ⟨h.drained_le, by simpa using h.filled_le⟩, pending_eq]

theorem between?_spare (h : b.Bounded) : b.between? b.filled b.capacity = some b.spare := by
  rw [between?, if_pos ⟨h.filled_le, by simp⟩, List.take_of_length_le (by simp), spare]

theorem overwrite (h : b.Bounded) (bytes : List UInt8) : (b.overwrite bytes).Bounded :=
  ⟨h.drained_le, h.filled_le⟩

theorem advance (h : b.Bounded) (n : Nat) : (b.advance n).Bounded where
  drained_le := Nat.le_min.2 ⟨Nat.le_add_right_of_le h.drained_le, Nat.le_trans h.drained_le h.filled_le⟩
  filled_le := filled_advance_le n b

theorem pending_overwrite (h : b.Bounded) (bytes : List UInt8) : (b.overwrite bytes).pending = b.pending := by
  rw [pending_eq, pending_eq]
  show ((b.overwrite bytes).cells.take b.filled).drop b.drained = _
  rw [cells_overwrite, List.append_assoc, List.take_left' (length_take_filled h.filled_le)]

theorem pending_advance (h : b.Bounded) (n : Nat) : (b.advance n).pending = b.pending ++ b.spare.take n := by
  have htake : b.cells.take (min (b.filled + n) b.capacity) = b.cells.take b.filled ++ b.spare.take n := by
    rw [← length_cells b, ← List.take_eq_take_min, List.take_add, spare]
  rw [pending_eq, pending_eq]
  show (b.cells.take (min (b.filled + n) b.capacity)).drop b.drained = _
  have hdrained : b.drained ≤ (b.cells.take b.filled).length := by
    rw [length_take_filled h.filled_le]
    exact h.drained_le
  rw [htake, List.drop_append_of_le_length hdrained]

/-- What was written over the spare bytes is pending after what was pending before, as far as it is taken up. -/
theorem pending_advance_overwrite (h : b.Bounded) {bytes : List UInt8} {n : Nat} (hn : n ≤ bytes.length)
    (hroom : n ≤ b.room) : ((b.overwrite bytes).advance n).pending = b.pending ++ bytes.take n := by
  have hfit : n ≤ (bytes.take b.room).length := by
    rw [List.length_take]
    exact Nat.le_min.2 ⟨hroom, hn⟩
  rw [(h.overwrite bytes).pending_advance, h.pending_overwrite, spare_overwrite h.filled_le,
    List.take_append_of_le_length hfit, List.take_take, Nat.min_eq_left hroom]

theorem pending_put (h : b.Bounded) (bytes : List UInt8) :
    (b.put bytes).2.pending = b.pending ++ bytes.take (b.put bytes).1 :=
  h.pending_advance_overwrite (Nat.min_le_left _ _) (Nat.min_le_right _ _)

end Bounded

/-- What can be done with a buffer by the one who holds it. Any change to its spare bytes is to write over all of
them. -/
inductive Use where
  | overwrite (bytes : List UInt8)
  | advance (n : Nat)
  | put (bytes : List UInt8)
  | consume (n : Nat)
  | clear
  | wipe

def Use.apply : Use → Buffer → Buffer
  | overwrite bytes, b => b.overwrite bytes
  | advance n, b => b.advance n
  | put bytes, b => (b.put bytes).2
  | consume n, b => b.consume n
  | clear, b => b.clear
  | wipe, b => b.wipe

/-- No use changes the size of a buffer. -/
@[simp] theorem capacity_use (u : Use) (b : Buffer) : (u.apply b).capacity = b.capacity := by
  cases u <;> rfl

namespace Use

/-- Whether nothing is filled any more after it. -/
def empties : Use → Bool
  | clear | wipe => true
  | _ => false

/-- The bytes that are filled by it. -/
def accepted (b : Buffer) : Use → List UInt8
  | advance n => b.spare.take n
  | put bytes => bytes.take (b.put bytes).1
  | _ => []

/-- The bytes that are drained by it. -/
def consumed (b : Buffer) : Use → List UInt8
  | consume n => b.pending.take n
  | _ => []

/-- How far it counts a mark up, before that is cut off at the end. -/
def mark (b : Buffer) : Use → Nat
  | advance n => b.filled + n
  | consume n => b.drained + n
  | _ => 0

/-- The buffer after it, unless a mark cannot be counted up so far. -/
def after? : Use → Buffer → Option Buffer
  | advance n, b => b.advance? n
  | consume n, b => b.consume? n
  | u, b => some (u.apply b)

theorem after?_eq (u : Use) (b : Buffer) :
    u.after? b = if u.mark b < Machine.words then some (u.apply b) else none := by
  have hzero : 0 < Machine.words := by decide
  cases u with
  | advance n | consume n => rfl
  | overwrite bytes | put bytes | clear | wipe => exact (if_pos hzero).symm

end Use

namespace Bounded

theorem use (h : b.Bounded) (u : Use) : (u.apply b).Bounded := by
  cases u with
  | overwrite bytes => exact h.overwrite bytes
  | advance n => exact h.advance n
  | put bytes => exact (h.overwrite bytes).advance _
  | consume n => exact ⟨Nat.min_le_right _ _, h.filled_le⟩
  | clear => exact ⟨Nat.le_refl 0, Nat.zero_le _⟩
  | wipe => exact bounded_zeros b.capacity

/-- What was pending and what goes in are what comes out and what is pending then. -/
theorem conserved (h : b.Bounded) {u : Use} (hu : u.empties = false) :
    u.consumed b ++ (u.apply b).pending = b.pending ++ u.accepted b := by
  cases u with
  | overwrite bytes => exact (h.pending_overwrite bytes).trans (List.append_nil _).symm
  | advance n => exact h.pending_advance n
  | put bytes => exact h.pending_put bytes
  | consume n =>
    show b.pending.take n ++ (b.consume n).pending = b.pending ++ []
    rw [pending_consume n h.filled_le, List.take_append_drop, List.append_nil]
  | clear | wipe => cases hu

/-- A buffer is filled by as many bytes as go in. -/
theorem filled_use (h : b.Bounded) {u : Use} (hu : u.empties = false) :
    (u.apply b).filled = b.filled + (u.accepted b).length := by
  have hle := h.filled_le
  cases u with
  | overwrite bytes | consume n => rfl
  | advance n =>
    show min (b.filled + n) b.capacity = b.filled + (b.spare.take n).length
    rw [List.length_take, length_spare, room]
    omega
  | put bytes =>
    show min (b.filled + min bytes.length b.room) b.capacity =
      b.filled + (bytes.take (min bytes.length b.room)).length
    rw [List.length_take, room]
    omega
  | clear | wipe => cases hu

end Bounded

end Buffer

end AffinityRelay
