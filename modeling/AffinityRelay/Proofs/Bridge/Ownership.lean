import AffinityRelay.Proofs.Bridge.Lanes

/-!
# Who owns the buffers of a bridge

Whatever is called on a bridge, in whatever order, and whether it fails or not:

* until it is closed, each direction has one buffer, either with the side that reads or with the side that sends
  (`Keeps.perform`, `Keeps.performAll`). So a buffer is never handed over to a place that is taken, none gets lost, and a
  side that may read is offered all of a blank buffer (`one_buffer_each_way`);
* from then on it has none (`bare_close`, `Bare.perform`).

The calls are not bound to what a driver would do: bytes may be reported as read where nothing may be read, or more of
them than there is room for.
-/

namespace AffinityRelay.Bridge

/-- What can be called on a bridge, with its pool as it is then. -/
inductive Call where
  | begin (remote : Address)
  | connected (header : Option (List UInt8))
  | received (side : Side) (n : Nat)
  | sent (pool : Pool) (side : Side) (n : Nat)
  | close (pool : Pool)

/-- The bridge after a call, also if that gave an error. -/
def Call.perform : Call → Bridge → Bridge
  | begin remote, b => b.begin remote
  | connected header, b => (b.connected header).2
  | received side n, b => (b.received side n).2
  | sent pool side n, b => b.sent pool side n
  | close pool, b => (b.close pool).1

def Call.closes : Call → Bool
  | close _ => true
  | _ => false

def performAll (calls : List Call) (b : Bridge) : Bridge :=
  calls.foldl (fun b c => c.perform b) b

/-! ## Before the bridge is closed -/

/-- Each direction has one sound buffer of a given size. -/
def Keeps (size : Nat) (b : Bridge) : Prop :=
  ∃ lanes : Side → Lane, b.Holds lanes ∧ ∀ side, (lanes side).Sound ∧ (lanes side).buffer.capacity = size

/-- One lane was changed to another sound one of the same size. -/
theorem sound_update {size : Nat} {lanes : Side → Lane} {side : Side} {lane : Lane}
    (hl : ∀ t, (lanes t).Sound ∧ (lanes t).buffer.capacity = size) (hs : lane.Sound)
    (hc : lane.buffer.capacity = (lanes side).buffer.capacity) (t : Side) :
    (Function.update lanes side lane t).Sound ∧ (Function.update lanes side lane t).buffer.capacity = size := by
  by_cases ht : t = side
  · subst ht
    simpa using ⟨hs, hc.trans (hl t).2⟩
  · rw [Function.update_of_ne ht]
    exact hl t

theorem keeps_create {p p' : Pool} {number : Nat} {b : Bridge} (hp : p.Reachable)
    (hb : create number p = (.ok b, p')) : b.Keeps p.size := by
  obtain ⟨lanes, h, hl⟩ := holds_create hp.clean hb
  exact ⟨lanes, h, fun side => (hl side).2⟩

theorem Keeps.perform {size : Nat} {b : Bridge} (h : b.Keeps size) {c : Call} (hc : c.closes = false) :
    (c.perform b).Keeps size := by
  obtain ⟨lanes, h, hl⟩ := h
  cases c with
  | begin remote => exact ⟨lanes, h.begin remote, hl⟩
  | connected header =>
    exact ⟨_, h.connected header, sound_update hl ((hl .client).1.lead header) (Lane.capacity_lead _ _)⟩
  | received side n => exact ⟨_, h.received side n, sound_update hl ((hl side).1.fill n) (Lane.capacity_fill _ _)⟩
  | sent pool side n =>
    exact ⟨_, h.sent pool side n, sound_update hl ((hl side.other).1.drain pool n) (Lane.capacity_drain _ _ _)⟩
  | close pool => cases hc

theorem Keeps.performAll {size : Nat} : ∀ {calls : List Call} {b : Bridge}, b.Keeps size →
    (∀ c ∈ calls, c.closes = false) → (b.performAll calls).Keeps size
  | [], _, h, _ => h
  | c :: _, _, h, hc =>
    (h.perform (hc c List.mem_cons_self)).performAll fun d hd => hc d (List.mem_cons_of_mem _ hd)

section Kept

variable {size : Nat} {b : Bridge}

theorem Keeps.provided (h : b.Keeps size) : b.Provided :=
  h.imp fun _ h => h.1

/-- Just one of the two places of a direction is taken. -/
theorem Keeps.one (h : b.Keeps size) (side : Side) :
    (b.half side).inbound.isSome ≠ (b.half side.other).outbound.isSome := by
  rw [(h.provided.places side).2]
  cases (b.half side).inbound.isSome <;> simp

theorem Keeps.length_buffers (h : b.Keeps size) : (b.client.buffers ++ b.backend.buffers).length = 2 :=
  h.provided.length_held

theorem Keeps.canRead (h : b.Keeps size) (side : Side) : b.canRead side = !b.canWrite side.other := by
  obtain ⟨lanes, h, -⟩ := h
  rw [h.canRead, h.canWrite]

/-- A buffer to read into is blank and has the size of all. -/
theorem Keeps.blank (h : b.Keeps size) {side : Side} {buffer : Buffer} (hb : (b.half side).inbound = some buffer) :
    buffer.Blank ∧ buffer.capacity = size := by
  obtain ⟨lanes, h, hl⟩ := h
  rw [(h side).1] at hb
  cases hc : (lanes side).crossed with
  | true => simp [Lane.near, hc] at hb
  | false =>
    have : (lanes side).buffer = buffer := by simpa [Lane.near, hc] using hb
    exact this ▸ ⟨(hl side).1.blank hc, (hl side).2⟩

end Kept

/-! ## After the bridge is closed -/

/-- No side holds a buffer. -/
def Bare (b : Bridge) : Prop :=
  ∀ side, (b.half side).inbound = none ∧ (b.half side).outbound = none

theorem bare_close (pool : Pool) (b : Bridge) : (b.close pool).1.Bare := by
  intro side
  cases side <;> exact ⟨rfl, rfl⟩

theorem Bare.perform {b : Bridge} (h : b.Bare) (c : Call) : (c.perform b).Bare := by
  cases c with
  | begin remote =>
    intro side
    cases side with
    | client => exact h .client
    | backend => exact h .backend
  | connected header =>
    have hc : b.listening.client.inbound = none := (h .client).1
    have : (b.connected header).2 = b.listening := by cases header <;> simp [Bridge.connected, hc]
    intro side
    rw [Call.perform, this]
    cases side with
    | client => exact h .client
    | backend => exact h .backend
  | received side n =>
    have hi := (h side).1
    intro t
    simp only [Call.perform, Bridge.received]
    split
    · exact h t
    · rcases (by cases t <;> cases side <;> simp [Side.other] : t = side ∨ t = side.other) with rfl | rfl
      · simpa using (h t).2
      · simpa [hi] using h side.other
  | sent pool side n => simpa [Call.perform, Bridge.sent, (h side).2] using h
  | close pool => exact bare_close pool b

theorem Bare.performAll : ∀ {calls : List Call} {b : Bridge}, b.Bare → (b.performAll calls).Bare
  | [], _, h => h
  | c :: _, _, h => (h.perform c).performAll

theorem bare_performAll {calls : List Call} {b : Bridge} (h : ∃ c ∈ calls, c.closes) : (b.performAll calls).Bare := by
  induction calls generalizing b with
  | nil => simp at h
  | cons c calls ih =>
    cases c with
    | close pool => exact (bare_close pool b).performAll
    | begin remote => exact ih (by simpa [Call.closes] using h)
    | connected header => exact ih (by simpa [Call.closes] using h)
    | received side n => exact ih (by simpa [Call.closes] using h)
    | sent pool side n => exact ih (by simpa [Call.closes] using h)

/-- Until a bridge is closed, each direction has one buffer in one of its two places; the other place is free for it. A
buffer to read into is offered whole. After that the bridge has no buffer. -/
theorem one_buffer_each_way {p p' : Pool} {number : Nat} {b : Bridge} (hp : p.Reachable)
    (hb : create number p = (.ok b, p')) (calls : List Call) :
    ((∀ c ∈ calls, c.closes = false) →
      (∀ side, ((b.performAll calls).half side).inbound.isSome ≠
        ((b.performAll calls).half side.other).outbound.isSome) ∧
      ((b.performAll calls).client.buffers ++ (b.performAll calls).backend.buffers).length = 2 ∧
      (∀ side, (b.performAll calls).canRead side = !(b.performAll calls).canWrite side.other) ∧
      ∀ side buffer, ((b.performAll calls).half side).inbound = some buffer →
        ((b.performAll calls).half side.other).outbound = none ∧
        buffer.filled = 0 ∧ buffer.drained = 0 ∧ buffer.spare = buffer.cells ∧ buffer.capacity = p.size) ∧
    ((∃ c ∈ calls, c.closes) → ∀ side, ((b.performAll calls).half side).inbound = none ∧
      ((b.performAll calls).half side).outbound = none) := by
  refine ⟨fun hc => ?_, bare_performAll⟩
  have h := (keeps_create hp hb).performAll hc
  refine ⟨h.one, h.length_buffers, h.canRead, fun side buffer hi => ?_⟩
  obtain ⟨hblank, hcap⟩ := h.blank hi
  refine ⟨?_, hblank.1, hblank.2, ?_, hcap⟩
  · simpa [hi] using h.one side
  · simp [Buffer.spare, hblank.1]

/-- Too many bytes are read before there is a connection, the header is too large, and bytes are read twice. -/
theorem one_buffer_each_way_out_of_order : ∃ b p', ({ size := 4, limit := 2 } : Pool).Reachable ∧
    create 1 { size := 4, limit := 2 } = (.ok b, p') ∧
    let b' := b.performAll [.received .backend 9, .connected (some [1, 2, 3, 4, 5]), .received .client 3, .received .client 3]
    (∀ side, (b'.half side).inbound.isSome ≠ (b'.half side.other).outbound.isSome) ∧
      (b'.client.buffers ++ b'.backend.buffers).length = 2 := by
  have hp : Pool.Reachable { size := 4, limit := 2 } := .new 4 2 false
  have hb : create 1 { size := 4, limit := 2 } = (.ok _, _) := rfl
  have h := (one_buffer_each_way hp hb
    [.received .backend 9, .connected (some [1, 2, 3, 4, 5]), .received .client 3, .received .client 3]).1 (by decide)
  exact ⟨_, _, hp, hb, h.1, h.2.1⟩

end AffinityRelay.Bridge
