import AffinityRelay.Proofs.Bridge.Lanes

/-!
# What goes in comes out

A connected bridge is woken up again and again, on either side, to read some bytes or to send some. A `Transfer` keeps
all bytes that each side has read and sent on the way. In each direction, what was sent and what is on its way come to
the header and what was read (`relayed_in_order`): nothing is lost, doubled or out of order, and no byte of an earlier
use of a buffer gets in.

The invariant is `Transfer.Faithful`: it says this of the lanes of the bridge, and one wake-up keeps it
(`Transfer.Faithful.wake`).
-/

namespace AffinityRelay

namespace Lane

variable {l : Lane}

theorem load_of_near (h : l.crossed = false) : l.load = [] := by
  simp [load, far, h]

theorem load_of_crossed (h : l.crossed = true) : l.load = l.buffer.pending := by
  simp [load, far, h]

/-- A header that fits is all that a lane carries then. -/
theorem load_lead (h : l.Sound) (hc : l.crossed = false) {header : Option (List UInt8)}
    (hl : (header.getD []).length ≤ l.buffer.capacity) : (l.lead header).load = header.getD [] := by
  cases header with
  | none => simpa [lead] using load_of_near hc
  | some bytes =>
    have hput : (l.buffer.put bytes).1 = bytes.length := by
      show min bytes.length l.buffer.room = bytes.length
      rw [(h.blank hc).room]
      exact Nat.min_eq_left hl
    have hlead : l.lead (some bytes) = { buffer := (l.buffer.put bytes).2, crossed := true } := by
      simp [lead, hc, hput]
    rw [hlead, load_of_crossed rfl, (h.blank hc).pending_put, hput, List.take_length, Option.getD_some]

/-- The bytes that are read are all that a lane carries then. -/
theorem load_fill (h : l.Sound) (hc : l.crossed = false) (bytes : List UInt8) :
    (fill (min bytes.length l.buffer.room) { buffer := l.buffer.overwrite bytes }).load =
      bytes.take (min bytes.length l.buffer.room) := by
  have hroom := (h.blank hc).room
  by_cases h0 : min bytes.length l.buffer.room = 0
  · rw [h0, List.take_zero]
    exact load_of_near rfl
  · rw [fill, if_neg (by simpa using h0), load_of_crossed rfl]
    exact (h.blank hc).pending_advance (Nat.min_le_left _ _) (hroom ▸ Nat.min_le_right _ _)

/-- What is sent is no longer on its way, and all else is. -/
theorem load_drain (h : l.Sound) (hc : l.crossed = true) (pool : Pool) (n : Nat) :
    (l.drain pool (l.buffer.pending.take n).length).load = l.buffer.pending.drop n := by
  have hp : (l.buffer.consume (l.buffer.pending.take n).length).pending = l.buffer.pending.drop n := by
    rw [Buffer.pending_consume _ h.bounded, List.length_take]
    by_cases hn : n ≤ l.buffer.pending.length
    · rw [Nat.min_eq_left hn]
    · rw [Nat.min_eq_right (by omega), List.drop_length, List.drop_of_length_le (by omega)]
  rw [drain, if_pos hc]
  split
  · rw [load_of_crossed rfl, hp]
  · rename_i hd
    rw [load_of_near rfl, ← hp, Buffer.pending_eq_nil (by simpa using hd)]

end Lane

namespace Bridge

/-- The bytes that a side has to send. -/
def outgoing (side : Side) (b : Bridge) : List UInt8 :=
  (b.half side).outbound.elim [] Buffer.pending

variable {b : Bridge} {lanes : Side → Lane}

theorem Holds.outgoing (h : b.Holds lanes) (side : Side) : b.outgoing side.other = (lanes side).load := by
  rw [Bridge.outgoing, (h side).2, Lane.load]

theorem Holds.receive (h : b.Holds lanes) {side : Side} (hc : (lanes side).crossed = false) (bytes : List UInt8) :
    ∃ e b', b.receive side bytes = some (min bytes.length (lanes side).buffer.room, e, b') ∧
      b'.Holds (Function.update lanes side
        (Lane.fill (min bytes.length (lanes side).buffer.room) { buffer := (lanes side).buffer.overwrite bytes })) := by
  have hr : b.canRead side = true := by simp [h.canRead, hc]
  have hn : (b.half side).inbound = some (lanes side).buffer := by simp [h.inbound, Lane.near, hc]
  have hb := (h.replace hc ((lanes side).buffer.overwrite bytes)).received side
    (min bytes.length (lanes side).buffer.room)
  rw [Function.update_self, Function.update_idem] at hb
  let r := (b.change side fun h => { h with inbound := some ((lanes side).buffer.overwrite bytes) }).received side
    (min bytes.length (lanes side).buffer.room)
  exact ⟨r.1, r.2, by simp [Bridge.receive, hr, hn, r], hb⟩

theorem Holds.receive_eq_none (h : b.Holds lanes) {side : Side} (hc : (lanes side).crossed = true)
    (bytes : List UInt8) : b.receive side bytes = none := by
  simp [Bridge.receive, h.canRead, hc]

theorem Holds.send (h : b.Holds lanes) {side : Side} (hc : (lanes side).crossed = true) (pool : Pool) (n : Nat) :
    ∃ b', b.send pool side.other n = some ((lanes side).buffer.pending.take n, b') ∧
      b'.Holds (Function.update lanes side
        ((lanes side).drain pool ((lanes side).buffer.pending.take n).length)) := by
  have hf : (b.half side.other).outbound = some (lanes side).buffer := by simp [(h side).2, Lane.far, hc]
  have hb := h.sent pool side.other ((lanes side).buffer.pending.take n).length
  rw [Side.other_other] at hb
  exact ⟨_, by simp only [Bridge.send, hf, Option.map_some], hb⟩

theorem Holds.send_eq_none (h : b.Holds lanes) {side : Side} (hc : (lanes side).crossed = false) (pool : Pool)
    (n : Nat) : b.send pool side.other n = none := by
  simp [Bridge.send, (h side).2, Lane.far, hc]

/-- A header that fits ends no bridge. -/
theorem Holds.connected_fits (h : b.Holds lanes) (hs : (lanes .client).Sound) (hc : (lanes .client).crossed = false)
    {header : Option (List UInt8)} (hl : (header.getD []).length ≤ (lanes .client).buffer.capacity) :
    (b.connected header).1 = none := by
  have hn : b.listening.client.inbound = some (lanes .client).buffer := by
    rw [show b.listening.client.inbound = _ from h.listening.inbound .client, Lane.near, hc]
    rfl
  cases header with
  | none => simp [Bridge.connected]
  | some bytes =>
    have hput : ¬ ((lanes .client).buffer.put bytes).1 < bytes.length := by
      show ¬ min bytes.length (lanes .client).buffer.room < bytes.length
      rw [(hs.blank hc).room]
      simp only [Option.getD_some] at hl
      omega
    simp [Bridge.connected, hn, hput]

end Bridge

/-- A side of a bridge is woken up: it may read these bytes, or send so many. The pool is as it is then. -/
inductive Wake where
  | readable (side : Side) (bytes : List UInt8)
  | writable (side : Side) (n : Nat) (pool : Pool)

/-- A bridge, with all bytes that each side has read and sent so far. -/
structure Transfer where
  bridge : Bridge
  read : Side → List UInt8 := fun _ => []
  sent : Side → List UInt8 := fun _ => []

namespace Transfer

/-- A side that may read takes as many of the bytes as it has room for; one that has something to send sends at most as
many bytes as it may. -/
def wake (t : Transfer) : Wake → Transfer
  | .readable side bytes =>
    match t.bridge.receive side bytes with
    | some (n, _, bridge) => { t with bridge, read := Function.update t.read side (t.read side ++ bytes.take n) }
    | none => t
  | .writable side n pool =>
    match t.bridge.send pool side n with
    | some (bytes, bridge) => { t with bridge, sent := Function.update t.sent side (t.sent side ++ bytes) }
    | none => t

def run (wakes : List Wake) (t : Transfer) : Transfer :=
  wakes.foldl wake t

/-- What is sent in a direction before anything that was read. -/
def ahead (header : Option (List UInt8)) : Side → List UInt8
  | .client => header.getD []
  | .backend => []

/-- In each lane, what was sent and what is on its way come to the header and what was read. -/
def Faithful (header : Option (List UInt8)) (size : Nat) (t : Transfer) : Prop :=
  ∃ lanes : Side → Lane, t.bridge.Holds lanes ∧ ∀ side, (lanes side).Sound ∧ (lanes side).buffer.capacity = size ∧
    t.sent side.other ++ (lanes side).load = ahead header side ++ t.read side

theorem Faithful.wake {header : Option (List UInt8)} {size : Nat} {t : Transfer} (h : t.Faithful header size)
    (w : Wake) : (t.wake w).Faithful header size := by
  obtain ⟨lanes, h, hl⟩ := h
  cases w with
  | readable side bytes =>
    cases hc : (lanes side).crossed with
    | true => exact ⟨lanes, by simpa [Transfer.wake, h.receive_eq_none hc] using h, by
        simpa [Transfer.wake, h.receive_eq_none hc] using hl⟩
    | false =>
      obtain ⟨e, b', hb, h'⟩ := h.receive hc bytes
      refine ⟨_, by simpa only [Transfer.wake, hb] using h', fun u => ?_⟩
      simp only [Transfer.wake, hb]
      by_cases hu : u = side
      · subst hu
        obtain ⟨hs, hsize, hsent⟩ := hl u
        rw [Lane.load_of_near hc, List.append_nil] at hsent
        rw [Function.update_self, Function.update_self]
        have hblank : Lane.Sound { buffer := (lanes u).buffer.overwrite bytes } :=
          Lane.sound_of_blank ((hs.blank hc).overwrite bytes)
        exact ⟨hblank.fill _, by simpa using hsize, by rw [Lane.load_fill hs hc, hsent, List.append_assoc]⟩
      · rw [Function.update_of_ne hu, Function.update_of_ne hu]
        exact hl u
  | writable side n pool =>
    cases hc : (lanes side.other).crossed with
    | false =>
      have hb := h.send_eq_none hc pool n
      rw [Side.other_other] at hb
      exact ⟨lanes, by simpa [Transfer.wake, hb] using h, by simpa [Transfer.wake, hb] using hl⟩
    | true =>
      obtain ⟨b', hb, h'⟩ := h.send hc pool n
      rw [Side.other_other] at hb
      refine ⟨_, by simpa only [Transfer.wake, hb] using h', fun u => ?_⟩
      simp only [Transfer.wake, hb]
      by_cases hu : u = side.other
      · subst hu
        obtain ⟨hs, hsize, hsent⟩ := hl side.other
        rw [Lane.load_of_crossed hc, Side.other_other] at hsent
        rw [Function.update_self, Side.other_other, Function.update_self]
        refine ⟨hs.drain pool _, by simpa using hsize, ?_⟩
        rw [Lane.load_drain hs hc, List.append_assoc, List.take_append_drop, hsent]
      · have hu' : u.other ≠ side := fun he => hu (by rw [← he, Side.other_other])
        rw [Function.update_of_ne hu, Function.update_of_ne hu']
        exact hl u

theorem Faithful.run {header : Option (List UInt8)} {size : Nat} : ∀ {wakes : List Wake} {t : Transfer},
    t.Faithful header size → (t.run wakes).Faithful header size
  | [], _, h => h
  | w :: _, _, h => (h.wake w).run

/-- A bridge that was just connected carries the header. -/
theorem faithful_connected {p p' : Pool} {number : Nat} {b : Bridge} (hp : p.Reachable)
    (hb : Bridge.create number p = (.ok b, p')) {header : Option (List UInt8)}
    (hh : (header.getD []).length ≤ p.size) :
    (b.connected header).1 = none ∧ Faithful header p.size { bridge := (b.connected header).2 } := by
  obtain ⟨lanes, h, hl⟩ := Bridge.holds_create hp.clean hb
  obtain ⟨hc, hs, hsize⟩ := hl .client
  refine ⟨h.connected_fits hs hc (hsize ▸ hh), _, h.connected header, fun u => ?_⟩
  cases u with
  | client =>
    rw [Function.update_self]
    refine ⟨hs.lead header, by simpa using hsize, ?_⟩
    simpa [ahead] using Lane.load_lead hs hc (hsize ▸ hh)
  | backend =>
    rw [Function.update_of_ne (by decide)]
    obtain ⟨hc, hs, hsize⟩ := hl .backend
    exact ⟨hs, hsize, by simpa [ahead] using Lane.load_of_near hc⟩

/-- A side that may read takes all bytes that are not more than a buffer has room for. -/
theorem Faithful.read_wake {header : Option (List UInt8)} {size : Nat} {t : Transfer} (h : t.Faithful header size)
    {side : Side} (hr : t.bridge.canRead side) {bytes : List UInt8} (hn : bytes.length ≤ size) :
    (t.wake (.readable side bytes)).read side = t.read side ++ bytes := by
  obtain ⟨lanes, h, hl⟩ := h
  have hc : (lanes side).crossed = false := by simpa [h.canRead] using hr
  obtain ⟨e, b', hb, -⟩ := h.receive hc bytes
  obtain ⟨hs, hsize, -⟩ := hl side
  have hroom : min bytes.length (lanes side).buffer.room = bytes.length := by
    rw [(hs.blank hc).room, hsize]
    exact Nat.min_eq_left hn
  simp only [Transfer.wake, hb, hroom, Function.update_self, List.take_length]

/-- Whatever wakes a bridge up after it was connected, in each direction the bytes that were sent and those that are on
their way are the header and all bytes that were read, in order. Each wake-up of a side that may read adds to the latter
what its socket had, and each of a side that has something to send adds to the former what its socket took. -/
theorem relayed_in_order {p p' : Pool} {number : Nat} {b : Bridge} {header : Option (List UInt8)}
    (hp : p.Reachable) (hb : Bridge.create number p = (.ok b, p')) (hh : (header.getD []).length ≤ p.size)
    (wakes : List Wake) :
    (b.connected header).1 = none ∧
    ∀ source, let t := run wakes { bridge := (b.connected header).2 }
      t.sent source.other ++ t.bridge.outgoing source.other = ahead header source ++ t.read source ∧
      (∀ bytes, t.bridge.canRead source → bytes.length ≤ p.size →
        (t.wake (.readable source bytes)).read source = t.read source ++ bytes) ∧
      ∀ n pool, t.bridge.canWrite source →
        (t.wake (.writable source n pool)).sent source = t.sent source ++ (t.bridge.outgoing source).take n := by
  obtain ⟨he, hf⟩ := faithful_connected hp hb hh
  refine ⟨he, fun source => ?_⟩
  have h : (run wakes { bridge := (b.connected header).2 }).Faithful header p.size := hf.run
  refine ⟨?_, fun bytes hr hn => h.read_wake hr hn, fun n pool hw => ?_⟩
  · obtain ⟨lanes, hl, hs⟩ := h
    rw [hl.outgoing]
    exact (hs source).2.2
  · obtain ⟨buffer, ho⟩ := Option.isSome_iff_exists.mp hw
    simp [wake, Bridge.send, Bridge.outgoing, ho]

/-- The first buffer was in use before, the header goes out in two pieces, and the client reads again in between. -/
theorem relayed_in_order_reused : ∃ (p p' : Pool) (b : Bridge), p.Reachable ∧ Bridge.create 1 p = (.ok b, p') ∧
    ([1, 2, 3] : List UInt8).length ≤ p.size ∧
    let t := run [.writable .backend 1 p, .readable .client [4], .writable .backend 9 p, .readable .client [5, 6]]
      { bridge := (b.connected (some [1, 2, 3])).2 }
    t.sent .backend ++ t.bridge.outgoing .backend = [1, 2, 3] ++ t.read .client ∧ t.read .client = [5, 6] :=
  let p : Pool := (({ size := 4, limit := 2 } : Pool).checkout.2).release
    { capacity := 4, head := [7, 7, 7, 7], filled := 3, drained := 1, head_le := by decide }
  have hp : p.Reachable := .release _ (.checkout (.new 4 2 false))
  have hh : ((some [1, 2, 3] : Option (List UInt8)).getD []).length ≤ p.size := by decide
  have hb : Bridge.create 1 p = (.ok _, _) := rfl
  ⟨p, _, _, hp, hb, hh, ((relayed_in_order hp hb hh _).2 .client).1, by rfl⟩

end Transfer

end AffinityRelay
