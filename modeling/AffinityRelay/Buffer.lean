import AffinityRelay.Machine

/-!
# Buffers

- `Buffer`: a fixed number of bytes, how many of them are filled, and how many of those are drained;
- `Buffer.cells`: all bytes of a buffer, of which only those in front of the untouched ones are kept;
- `Buffer.pending`, `Buffer.spare`: the bytes between the two marks, and those after both;
- `Buffer.overwrite`, `Buffer.advance`, `Buffer.put`: fill; `Buffer.consume`: drain;
- `Buffer.clear`, `Buffer.wipe`: begin anew, the latter with zeros;
- `Buffer.create?`, `Buffer.advance?`, `Buffer.consume?`: the same within the limits of a machine.

Bytes are filled from the front and drained in the same order. What was drained stays in place until it is overwritten.
A buffer takes no more room than what was ever filled of it: the definitions work on `Buffer.head`, and the theorems
`Buffer.front_eq_take`, `Buffer.pending_eq` and `Buffer.cells_overwrite` say what that comes to in `Buffer.cells`.
-/

namespace AffinityRelay

/-- Bytes, of which the first are filled, and of those the first drained. -/
structure Buffer where
  capacity : Nat
  /-- The first bytes. All after them are zero. -/
  head : List UInt8 := []
  filled : Nat := 0
  drained : Nat := 0
  head_le : head.length ≤ capacity := by exact Nat.zero_le _
  deriving DecidableEq, Repr

namespace Buffer

/-- A buffer of zeros with nothing filled. -/
def zeros (capacity : Nat) : Buffer :=
  { capacity }

/-- All bytes. -/
def cells (b : Buffer) : List UInt8 :=
  b.head ++ List.replicate (b.capacity - b.head.length) 0

/-- The first `n` bytes, or all of them. -/
def front (n : Nat) (b : Buffer) : List UInt8 :=
  b.head.take n ++ List.replicate (min n b.capacity - b.head.length) 0

/-- How many bytes can still be filled. -/
def room (b : Buffer) : Nat :=
  b.capacity - b.filled

/-- The bytes that are not filled. -/
def spare (b : Buffer) : List UInt8 :=
  b.cells.drop b.filled

/-- The bytes that are filled and not drained. -/
def pending (b : Buffer) : List UInt8 :=
  (b.front b.filled).drop b.drained

def hasPending (b : Buffer) : Bool :=
  b.drained < b.filled

def isEmpty (b : Buffer) : Bool :=
  b.filled == 0

@[simp] theorem length_cells (b : Buffer) : b.cells.length = b.capacity := by
  simpa [cells] using Nat.add_sub_of_le b.head_le

theorem front_eq_take (n : Nat) (b : Buffer) : b.front n = b.cells.take n := by
  simp only [front, cells, List.take_append, List.take_replicate]
  congr 2
  have := b.head_le
  omega

@[simp] theorem length_front (n : Nat) (b : Buffer) : (b.front n).length = min n b.capacity := by
  simp [front_eq_take]

theorem pending_eq (b : Buffer) : b.pending = (b.cells.take b.filled).drop b.drained := by
  rw [pending, front_eq_take]

/-- The buffer with as many of the given bytes as have room at the front of its spare bytes. They are not filled yet. -/
def overwrite (bytes : List UInt8) (b : Buffer) : Buffer :=
  let fit := bytes.take b.room
  { b with
    head := b.front b.filled ++ fit ++ b.head.drop (b.filled + fit.length)
    head_le := by
      have hl := b.head_le
      have hf : fit.length ≤ b.capacity - b.filled := List.length_take_le _ _
      simp only [List.length_append, length_front, List.length_drop]
      omega }

/-- The next `n` spare bytes are filled, or all of them. -/
def advance (n : Nat) (b : Buffer) : Buffer :=
  { b with filled := min (b.filled + n) b.capacity }

/-- How many of the given bytes have room, and the buffer filled with them. -/
def put (bytes : List UInt8) (b : Buffer) : Nat × Buffer :=
  let n := min bytes.length b.room
  (n, (b.overwrite bytes).advance n)

/-- The next `n` pending bytes are drained, or all of them. -/
def consume (n : Nat) (b : Buffer) : Buffer :=
  { b with drained := min (b.drained + n) b.filled }

/-- Nothing is filled any more. The bytes stay. -/
def clear (b : Buffer) : Buffer :=
  { b with filled := 0, drained := 0 }

/-- Nothing is filled any more, and every byte is zero. -/
def wipe (b : Buffer) : Buffer :=
  zeros b.capacity

/-- A buffer of zeros, unless there cannot be room for it. -/
def create? (capacity : Nat) : Option Buffer :=
  if Machine.holds capacity 1 then some (zeros capacity) else none

/-- The next `n` spare bytes are filled, or all of them, unless the sum cannot be counted. -/
def advance? (n : Nat) (b : Buffer) : Option Buffer :=
  if b.filled + n < Machine.words then some (b.advance n) else none

/-- The next `n` pending bytes are drained, or all of them, unless the sum cannot be counted. -/
def consume? (n : Nat) (b : Buffer) : Option Buffer :=
  if b.drained + n < Machine.words then some (b.consume n) else none

@[simp] theorem cells_zeros (capacity : Nat) : (zeros capacity).cells = List.replicate capacity 0 := by
  simp [zeros, cells]

@[simp] theorem cells_advance (n : Nat) (b : Buffer) : (b.advance n).cells = b.cells := rfl

@[simp] theorem cells_consume (n : Nat) (b : Buffer) : (b.consume n).cells = b.cells := rfl

@[simp] theorem cells_clear (b : Buffer) : b.clear.cells = b.cells := rfl

@[simp] theorem cells_wipe (b : Buffer) : b.wipe.cells = List.replicate b.capacity 0 :=
  cells_zeros b.capacity

/-- The bytes that fit take the place of the first spare ones, and all others stay. -/
theorem cells_overwrite (bytes : List UInt8) (b : Buffer) : (b.overwrite bytes).cells =
    b.cells.take b.filled ++ bytes.take b.room ++ b.cells.drop (b.filled + (bytes.take b.room).length) := by
  have hl := b.head_le
  have hf : (bytes.take b.room).length ≤ b.capacity - b.filled := List.length_take_le _ _
  rw [← front_eq_take]
  simp only [overwrite, cells]
  generalize bytes.take b.room = fit at hf
  simp only [List.drop_append, List.append_assoc, List.length_append, length_front, List.length_drop,
    List.drop_replicate]
  congr 4
  omega

@[simp] theorem pending_clear (b : Buffer) : b.clear.pending = [] := by
  simp [pending_eq, clear]

@[simp] theorem pending_zeros (capacity : Nat) : (zeros capacity).pending = [] := by
  simp [pending_eq, zeros]

@[simp] theorem capacity_advance (n : Nat) (b : Buffer) : (b.advance n).capacity = b.capacity := rfl

@[simp] theorem capacity_consume (n : Nat) (b : Buffer) : (b.consume n).capacity = b.capacity := rfl

@[simp] theorem capacity_overwrite (bytes : List UInt8) (b : Buffer) : (b.overwrite bytes).capacity = b.capacity := rfl

@[simp] theorem capacity_clear (b : Buffer) : b.clear.capacity = b.capacity := rfl

@[simp] theorem capacity_zeros (capacity : Nat) : (zeros capacity).capacity = capacity := rfl

@[simp] theorem capacity_wipe (b : Buffer) : b.wipe.capacity = b.capacity := rfl

theorem pending_consume (n : Nat) {b : Buffer} (hc : b.filled ≤ b.capacity) :
    (b.consume n).pending = b.pending.drop n := by
  have hl : (b.front b.filled).length = b.filled := by simp [hc]
  have hp : (b.consume n).pending = (b.front b.filled).drop (min (b.drained + n) b.filled) := rfl
  rw [hp, pending, List.drop_drop]
  by_cases hn : b.drained + n ≤ b.filled
  · rw [Nat.min_eq_left hn]
  · rw [Nat.min_eq_right (by omega), List.drop_of_length_le (by omega), List.drop_of_length_le (by omega)]

end Buffer

end AffinityRelay
