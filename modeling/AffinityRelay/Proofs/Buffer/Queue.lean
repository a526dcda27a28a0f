import AffinityRelay.Proofs.Buffer.Uses

/-!
# First in, first out

A `Queue` is a buffer with all bytes that went into it and all that came out since it was last emptied, and a history is
any uses of the buffer, one after another, each within the limits of a machine (`Queue.run?`).

The invariant is `Queue.Balanced`: the marks are in order, as many bytes are filled as went in, and these are the ones
that came out and then the ones that are pending. One use keeps it (`Queue.Balanced.step?`), and so does a history
(`Queue.Balanced.run?`). `Queue.first_in_first_out` says what that comes to, for buffers of any size.
-/

namespace AffinityRelay

/-- A buffer, with all bytes that went into it and that came out of it since it was last emptied. -/
structure Queue where
  buffer : Buffer
  accepted : List UInt8 := []
  consumed : List UInt8 := []

namespace Queue

open Buffer (Use)

def new (capacity : Nat) : Queue where
  buffer := Buffer.zeros capacity

/-- The queue after a use, unless the machine cannot count so far. -/
def step? (q : Queue) (u : Use) : Option Queue :=
  (u.after? q.buffer).map fun buffer =>
    if u.empties then { buffer }
    else { buffer, accepted := q.accepted ++ u.accepted q.buffer, consumed := q.consumed ++ u.consumed q.buffer }

def run? (uses : List Use) (q : Queue) : Option Queue :=
  uses.foldlM step? q

/-- The marks are in order, and what went in is what came out and then what is pending. -/
structure Balanced (capacity : Nat) (q : Queue) : Prop where
  capacity_eq : q.buffer.capacity = capacity
  bounded : q.buffer.Bounded
  filled_eq : q.buffer.filled = q.accepted.length
  order : q.consumed ++ q.buffer.pending = q.accepted

variable {capacity : Nat} {q q' : Queue}

theorem balanced_new (capacity : Nat) : (new capacity).Balanced capacity where
  capacity_eq := rfl
  bounded := Buffer.bounded_zeros capacity
  filled_eq := rfl
  order := Buffer.pending_zeros capacity

/-- As many bytes are drained as came out. -/
theorem Balanced.drained_eq (h : q.Balanced capacity) : q.buffer.drained = q.consumed.length := by
  have hlength := congrArg List.length h.order
  rw [List.length_append, h.bounded.length_pending, ← h.filled_eq] at hlength
  have hle := h.bounded.drained_le
  omega

theorem isSome_step?_iff (q : Queue) (u : Use) : (q.step? u).isSome ↔ u.mark q.buffer < Machine.words := by
  rw [step?, Option.isSome_map, Use.after?_eq]
  split <;> simp_all

/-- After a use that empties it a queue begins anew, and every other one adds to its history. -/
theorem step?_cases {u : Use} (hs : q.step? u = some q') :
    (u.empties = true ∧ q' = { buffer := u.apply q.buffer }) ∨
    (u.empties = false ∧
      q' = ⟨u.apply q.buffer, q.accepted ++ u.accepted q.buffer, q.consumed ++ u.consumed q.buffer⟩) := by
  obtain ⟨buffer, hb, rfl⟩ := Option.map_eq_some_iff.1 hs
  obtain rfl : u.apply q.buffer = buffer := by
    rw [Use.after?_eq] at hb
    split at hb
    · exact Option.some.inj hb
    · cases hb
  cases hu : u.empties with
  | true => exact .inl ⟨rfl, rfl⟩
  | false => exact .inr ⟨rfl, rfl⟩

theorem Balanced.step? (h : q.Balanced capacity) {u : Use} (hs : q.step? u = some q') : q'.Balanced capacity := by
  obtain ⟨hu, rfl⟩ | ⟨hu, rfl⟩ := step?_cases hs
  · have hempty : (u.apply q.buffer).filled = 0 ∧ (u.apply q.buffer).pending = [] := by
      cases u with
      | clear => exact ⟨rfl, Buffer.pending_clear _⟩
      | wipe => exact ⟨rfl, Buffer.pending_zeros _⟩
      | overwrite bytes | advance n | put bytes | consume n => cases hu
    exact ⟨(Buffer.capacity_use u _).trans h.capacity_eq, h.bounded.use u, hempty.1, hempty.2⟩
  · refine ⟨(Buffer.capacity_use u _).trans h.capacity_eq, h.bounded.use u, ?_, ?_⟩
    · rw [h.bounded.filled_use hu, List.length_append, h.filled_eq]
    · calc q.consumed ++ u.consumed q.buffer ++ (u.apply q.buffer).pending
        _ = q.consumed ++ (q.buffer.pending ++ u.accepted q.buffer) := by
          rw [List.append_assoc, h.bounded.conserved hu]
        _ = q.accepted ++ u.accepted q.buffer := by rw [← List.append_assoc, h.order]

theorem Balanced.run? : ∀ {uses : List Use} {q : Queue}, q.Balanced capacity → q.run? uses = some q' →
    q'.Balanced capacity
  | [], _, h, hr => Option.some.inj hr ▸ h
  | _ :: _, _, h, hr =>
    have ⟨_, hs, hr⟩ := Option.bind_eq_some_iff.1 hr
    (h.step? hs).run? hr

/-- Whatever was done with a buffer of any size, its marks are in order and lie in it, so that both its spare and its
pending bytes are there to be looked at. The bytes that came out since it was last emptied, and then those that are
pending, are the ones that went in, in the same order. Of the bytes that are put in, the first go in, as far as there is
room, and their number is told; of the spare bytes no more are taken up than there are, and the pending ones are drained
from the front. What is written over the spare bytes is what they are then, and changes nothing that is pending. All
that can stop a history is a mark that cannot be counted. -/
theorem first_in_first_out {uses : List Use} (hq : (new capacity).run? uses = some q) :
    (q.buffer.drained ≤ q.buffer.filled ∧ q.buffer.filled ≤ capacity ∧
      q.buffer.between? q.buffer.filled capacity = some q.buffer.spare ∧
      q.buffer.between? q.buffer.drained q.buffer.filled = some q.buffer.pending) ∧
    (q.consumed ++ q.buffer.pending = q.accepted ∧
      q.buffer.filled = q.accepted.length ∧ q.buffer.drained = q.consumed.length) ∧
    (∀ bytes, let n := min bytes.length (capacity - q.buffer.filled)
      (q.buffer.put bytes).1 = n ∧ (q.buffer.put bytes).2.pending = q.buffer.pending ++ bytes.take n) ∧
    (∀ n, (q.buffer.advance n).pending = q.buffer.pending ++ q.buffer.spare.take n ∧
      (q.buffer.spare.take n).length = min n (capacity - q.buffer.filled)) ∧
    (∀ n, (q.buffer.consume n).pending = q.buffer.pending.drop n) ∧
    (∀ bytes, (q.buffer.overwrite bytes).pending = q.buffer.pending ∧
      (q.buffer.overwrite bytes).spare = bytes.take (capacity - q.buffer.filled) ++ q.buffer.spare.drop bytes.length) ∧
    ∀ u, (q.step? u).isSome ↔ u.mark q.buffer < Machine.words := by
  have h : q.Balanced capacity := (balanced_new capacity).run? hq
  have hroom : q.buffer.room = capacity - q.buffer.filled := by rw [Buffer.room, h.capacity_eq]
  have hle : q.buffer.filled ≤ capacity := h.capacity_eq ▸ h.bounded.filled_le
  have hspare := h.bounded.between?_spare
  rw [h.capacity_eq] at hspare
  refine ⟨⟨h.bounded.drained_le, hle, hspare, h.bounded.between?_pending⟩, ⟨h.order, h.filled_eq, h.drained_eq⟩,
    fun bytes => ?_, fun n => ⟨h.bounded.pending_advance n, ?_⟩,
    fun n => Buffer.pending_consume n h.bounded.filled_le, fun bytes => ⟨h.bounded.pending_overwrite bytes, ?_⟩,
    q.isSome_step?_iff⟩
  · rw [← hroom]
    exact ⟨rfl, h.bounded.pending_put bytes⟩
  · rw [List.length_take, Buffer.length_spare, hroom]
  · rw [Buffer.spare_overwrite h.bounded.filled_le, hroom]

/-- A buffer is filled up, with more bytes than it has room for, and drained, further than it is filled. Then it is
cleared, and one new byte is taken up with an old one. -/
def reused : List Use :=
  [.put [1, 2], .overwrite [3, 4, 5], .advance 9, .consume 1, .put [6], .consume 7, .clear, .overwrite [8], .advance 2,
    .consume 1]

theorem first_in_first_out_reused : ∃ q, (new 4).run? reused = some q ∧
    q.consumed = [8] ∧ q.buffer.pending = [2] ∧ q.accepted = [8, 2] ∧ q.consumed ++ q.buffer.pending = q.accepted :=
  have hq : (new 4).run? reused = some _ := rfl
  ⟨_, hq, rfl, rfl, rfl, (first_in_first_out hq).2.1.1⟩

end Queue

end AffinityRelay
