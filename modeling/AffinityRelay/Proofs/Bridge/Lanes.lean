import Mathlib.Logic.Function.Basic
import AffinityRelay.Bridge.Basic
import AffinityRelay.Proofs.Pool.Clean

/-!
# The two lanes of a bridge

A lane is one direction of a bridge: its buffer, and whether that has crossed from the side that reads into it to the
side that sends from it. A bridge `Holds` a lane for each side if the buffers stand just where the lanes say, so that
whatever happens to a bridge happens to its lanes:

* `Bridge.create` makes two blank lanes (`holds_create`);
* a header fills the client's lane (`Holds.connected`), a read fills a side's own lane (`Holds.received`), and what was
  sent drains the lane of the other side (`Holds.sent`); all other lanes stay as they are;
* these changes keep a lane `Sound`: a buffer that has not crossed is blank (`Lane.Sound.lead`, `Lane.Sound.fill`,
  `Lane.Sound.drain`), and they keep its capacity.

A bridge that holds any lanes is `Provided`: each direction has its buffer, with one of its two ends.
-/

namespace AffinityRelay

/-- One direction of a bridge: its buffer, and whether that has crossed to the side that sends from it. -/
structure Lane where
  buffer : Buffer
  crossed : Bool := false

namespace Lane

/-- What the side that reads holds. -/
def near (l : Lane) : Option Buffer :=
  if l.crossed then none else some l.buffer

/-- What the side that sends holds. -/
def far (l : Lane) : Option Buffer :=
  if l.crossed then some l.buffer else none

/-- The bytes that are on their way. -/
def load (l : Lane) : List UInt8 :=
  l.far.elim [] Buffer.pending

/-- Before anything was read into it, the buffer is blank. -/
structure Sound (l : Lane) : Prop where
  blank : l.crossed = false → l.buffer.Blank
  bounded : l.buffer.filled ≤ l.buffer.capacity

/-- The lane after a header was put in front, unless it does not fit. -/
def lead (header : Option (List UInt8)) (l : Lane) : Lane :=
  match header, l.crossed with
  | some bytes, false =>
    if (l.buffer.put bytes).1 < bytes.length then { buffer := (l.buffer.put bytes).2.clear }
    else { buffer := (l.buffer.put bytes).2, crossed := true }
  | _, _ => l

/-- The lane after its source has read so many bytes. -/
def fill (n : Nat) (l : Lane) : Lane :=
  if n = 0 ∨ l.crossed then l else { buffer := l.buffer.advance n, crossed := true }

/-- The lane after its target has sent so many bytes. -/
def drain (pool : Pool) (n : Nat) (l : Lane) : Lane :=
  if l.crossed then
    if (l.buffer.consume n).hasPending then { buffer := l.buffer.consume n, crossed := true }
    else { buffer := pool.recycle (l.buffer.consume n) }
  else l

theorem sound_of_blank {buffer : Buffer} (h : buffer.Blank) : Sound { buffer } where
  blank := fun _ => h
  bounded := by
    show buffer.filled ≤ buffer.capacity
    rw [h.1]
    exact Nat.zero_le _

theorem Sound.lead {l : Lane} (h : l.Sound) (header : Option (List UInt8)) : (l.lead header).Sound := by
  unfold Lane.lead
  split
  · split
    · exact sound_of_blank (Buffer.blank_clear _)
    · exact ⟨nofun, Buffer.filled_advance_le _ _⟩
  · exact h

theorem Sound.fill {l : Lane} (h : l.Sound) (n : Nat) : (l.fill n).Sound := by
  unfold Lane.fill
  split
  · exact h
  · exact ⟨nofun, Buffer.filled_advance_le _ _⟩

theorem Sound.drain {l : Lane} (h : l.Sound) (pool : Pool) (n : Nat) : (l.drain pool n).Sound := by
  unfold Lane.drain
  split
  · split
    · exact ⟨nofun, h.bounded⟩
    · exact sound_of_blank (pool.blank_recycle _)
  · exact h

@[simp] theorem capacity_lead (header : Option (List UInt8)) (l : Lane) :
    (l.lead header).buffer.capacity = l.buffer.capacity := by
  unfold lead
  split
  · split <;> rfl
  · rfl

@[simp] theorem capacity_fill (n : Nat) (l : Lane) : (l.fill n).buffer.capacity = l.buffer.capacity := by
  unfold fill
  split <;> rfl

@[simp] theorem capacity_drain (pool : Pool) (n : Nat) (l : Lane) :
    (l.drain pool n).buffer.capacity = l.buffer.capacity := by
  unfold drain
  split
  · split
    · rfl
    · simp
  · rfl

end Lane

namespace Bridge

/-- The buffers of the bridge stand where the lanes of its sides say. -/
def Holds (b : Bridge) (lanes : Side → Lane) : Prop :=
  ∀ side, (b.half side).inbound = (lanes side).near ∧ (b.half side.other).outbound = (lanes side).far

theorem Holds.inbound {b : Bridge} {lanes : Side → Lane} (h : b.Holds lanes) (side : Side) :
    (b.half side).inbound = (lanes side).near := (h side).1

theorem Holds.outbound {b : Bridge} {lanes : Side → Lane} (h : b.Holds lanes) (side : Side) :
    (b.half side).outbound = (lanes side.other).far := by
  simpa using (h side.other).2

/-- One lane changes, and what the other needs stays. -/
theorem Holds.update {b b' : Bridge} {lanes : Side → Lane} (h : b.Holds lanes) {side : Side} {lane : Lane}
    (hn : (b'.half side).inbound = lane.near) (hf : (b'.half side.other).outbound = lane.far)
    (hi : (b'.half side.other).inbound = (b.half side.other).inbound)
    (ho : (b'.half side).outbound = (b.half side).outbound) : b'.Holds (Function.update lanes side lane) := by
  intro t
  by_cases ht : t = side
  · subst ht
    simpa using ⟨hn, hf⟩
  · have ht' : t = side.other := by cases t <;> cases side <;> simp_all [Side.other]
    subst ht'
    rw [Function.update_of_ne ht, Side.other_other, hi, ho]
    exact ⟨h.inbound side.other, h.outbound side⟩

/-- A bridge comes to be with the next two buffers of the pool. -/
theorem create_eq_ok {p p' : Pool} {number : Nat} {b : Bridge} (hb : create number p = (.ok b, p')) :
    ∃ x y q, p.checkout = (.ok x, q) ∧ q.checkout = (.ok y, p') ∧ b = ofBuffers number x y := by
  unfold create at hb
  split at hb
  · rename_i x q h₁
    unfold complete at hb
    split at hb
    · rename_i y q' h₂
      cases hb
      exact ⟨x, y, q, h₁, h₂, rfl⟩
    · cases hb
  · cases hb

theorem holds_ofBuffers (number : Nat) (x y : Buffer) :
    (ofBuffers number x y).Holds fun | .client => { buffer := x } | .backend => { buffer := y } := by
  intro side
  cases side <;> exact ⟨rfl, rfl⟩

/-- A new bridge has a blank buffer of the pool's size with the source of each lane. -/
theorem holds_create {p p' : Pool} {number : Nat} {b : Bridge} (hp : p.Clean)
    (hb : create number p = (.ok b, p')) :
    ∃ lanes : Side → Lane, b.Holds lanes ∧
      ∀ side, (lanes side).crossed = false ∧ (lanes side).Sound ∧ (lanes side).buffer.capacity = p.size := by
  obtain ⟨x, y, q, hx, hy, rfl⟩ := create_eq_ok hb
  obtain ⟨hxb, hxc, hq, hqs⟩ := hp.checkout hx
  obtain ⟨hyb, hyc, -, -⟩ := hq.checkout hy
  refine ⟨_, holds_ofBuffers number x y, fun side => ?_⟩
  cases side with
  | client => exact ⟨rfl, Lane.sound_of_blank hxb, hxc⟩
  | backend => exact ⟨rfl, Lane.sound_of_blank hyb, hyc.trans hqs⟩

variable {b : Bridge} {lanes : Side → Lane}

/-- A side may read until its lane has crossed. -/
theorem Holds.canRead (h : b.Holds lanes) (side : Side) : b.canRead side = !(lanes side).crossed := by
  rw [Bridge.canRead, (h side).1, (h side).2]
  cases hc : (lanes side).crossed <;> simp [Lane.near, Lane.far, hc]

/-- From then on the other side has something to send. -/
theorem Holds.canWrite (h : b.Holds lanes) (side : Side) : b.canWrite side.other = (lanes side).crossed := by
  rw [Bridge.canWrite, (h side).2]
  cases hc : (lanes side).crossed <;> simp [Lane.far, hc]

theorem Holds.begin (h : b.Holds lanes) (remote : Address) : (b.begin remote).Holds lanes := by
  intro side
  cases side with
  | client => exact h .client
  | backend => exact h .backend

theorem Holds.listening (h : b.Holds lanes) : b.listening.Holds lanes := by
  intro side
  cases side with
  | client => exact h .client
  | backend => exact h .backend

/-- Another buffer in place of one that has not crossed. -/
theorem Holds.replace (h : b.Holds lanes) {side : Side} (hc : (lanes side).crossed = false) (buffer : Buffer) :
    (b.change side fun h => { h with inbound := some buffer }).Holds (Function.update lanes side { buffer }) := by
  have hf := h.outbound side.other
  refine h.update ?_ ?_ ?_ ?_
  · simp [Lane.near]
  · simpa [Lane.far, hc] using hf
  · simp
  · simp

theorem Holds.pass (h : b.Holds lanes) (side : Side) :
    (b.pass side).Holds (Function.update lanes side { buffer := (lanes side).buffer, crossed := true }) := by
  have hn := h.inbound side
  have hf := h.outbound side.other
  refine h.update ?_ ?_ ?_ ?_
  · simp [Lane.near]
  · cases hc : (lanes side).crossed <;> simp_all [Lane.near, Lane.far]
  · simp
  · simp

theorem Holds.connected (h : b.Holds lanes) (header : Option (List UInt8)) :
    (b.connected header).2.Holds (Function.update lanes .client ((lanes .client).lead header)) := by
  have hl := h.listening
  have hn : b.listening.client.inbound = (lanes .client).near := hl.inbound .client
  cases header with
  | none => simpa [Bridge.connected, Lane.lead] using hl
  | some bytes =>
    cases hc : (lanes .client).crossed with
    | true => simpa [Bridge.connected, Lane.lead, Lane.near, hc, hn] using hl
    | false =>
      have hput := hl.replace hc ((lanes .client).buffer.put bytes).2
      by_cases hb : ((lanes .client).buffer.put bytes).1 < bytes.length
      · simpa [Bridge.connected, Lane.lead, Lane.near, hc, hn, hb] using
          hl.replace hc ((lanes .client).buffer.put bytes).2.clear
      · simpa [Bridge.connected, Lane.lead, Lane.near, hc, hn, hb] using hput.pass .client

theorem Holds.received (h : b.Holds lanes) (side : Side) (n : Nat) :
    (b.received side n).2.Holds (Function.update lanes side ((lanes side).fill n)) := by
  have hn := h.inbound side
  have hf := h.outbound side.other
  by_cases h0 : n = 0
  · simpa [Bridge.received, Lane.fill, h0] using h
  · simp only [Bridge.received, h0, if_false]
    cases hc : (lanes side).crossed with
    | true => refine h.update ?_ ?_ ?_ ?_ <;> simp_all [Lane.fill, Lane.near, Lane.far]
    | false => refine h.update ?_ ?_ ?_ ?_ <;> simp_all [Lane.fill, Lane.near, Lane.far]

theorem Holds.sent (h : b.Holds lanes) (pool : Pool) (side : Side) (n : Nat) :
    (b.sent pool side n).Holds (Function.update lanes side.other ((lanes side.other).drain pool n)) := by
  have hf := h.outbound side
  have hn := h.inbound side.other
  cases hc : (lanes side.other).crossed with
  | false => simpa [Bridge.sent, hf, Lane.far, Lane.drain, hc] using h
  | true =>
    cases hp : ((lanes side.other).buffer.consume n).hasPending with
    | true => refine h.update ?_ ?_ ?_ ?_ <;> simp_all [Bridge.sent, Lane.drain, Lane.near, Lane.far]
    | false => refine h.update ?_ ?_ ?_ ?_ <;> simp_all [Bridge.sent, Lane.drain, Lane.near, Lane.far]

/-! ## Bridges with both buffers -/

/-- Each direction has its buffer, with one of its two ends. -/
def Provided (b : Bridge) : Prop :=
  ∃ lanes : Side → Lane, b.Holds lanes

theorem provided_ofBuffers (number : Nat) (x y : Buffer) : (ofBuffers number x y).Provided :=
  ⟨_, holds_ofBuffers number x y⟩

/-- Only buffers matter to what a bridge holds. -/
theorem Provided.congr {b' : Bridge} (h : b.Provided) (hi : ∀ side, (b'.half side).inbound = (b.half side).inbound)
    (ho : ∀ side, (b'.half side).outbound = (b.half side).outbound) : b'.Provided := by
  obtain ⟨lanes, h⟩ := h
  exact ⟨lanes, fun side => ⟨(hi side).trans (h side).1, (ho side.other).trans (h side).2⟩⟩

/-- Of the two places for the buffer of a direction just one is taken. A side may read while it is the first. -/
theorem Provided.places (h : b.Provided) (side : Side) :
    b.canRead side = (b.half side).inbound.isSome ∧
    (b.half side.other).outbound.isSome = !(b.half side).inbound.isSome := by
  obtain ⟨lanes, h⟩ := h
  rw [h.canRead, (h side).1, (h side).2]
  cases hc : (lanes side).crossed <;> simp [Lane.near, Lane.far, hc]

/-- All buffers that a bridge holds. -/
def held (b : Bridge) : List Buffer :=
  b.client.buffers ++ b.backend.buffers

theorem Provided.length_held (h : b.Provided) : b.held.length = 2 := by
  have h₁ := (h.places .client).2
  have h₂ := (h.places .backend).2
  simp only [half, Side.other] at h₁ h₂
  simp only [held, Half.buffers, List.length_append]
  revert h₁ h₂
  cases b.client.inbound <;> cases b.client.outbound <;> cases b.backend.inbound <;>
    cases b.backend.outbound <;> simp

end Bridge

end AffinityRelay
