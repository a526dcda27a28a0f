import AffinityRelay.Bridge.Session
import AffinityRelay.Proofs.Bridge.Fidelity
import AffinityRelay.Proofs.Bridge.Ownership

/-!
# What a connected bridge waits for

A bridge that was connected is woken up on either side, to read or to send (`Bridge.wake`); all that a `Session` does
with its bridge are such wake-ups (`Session.run_leads`). However they follow each other, a side waits to read just
where it has a buffer to read into, and to send just where it has one to send from (`Bridge.Attuned`, kept by
`Bridge.Attuned.wake`). Since each direction has one buffer (`Bridge.Keeps.wake`), one of its two ends waits for that:
the bridge never comes to a stand, and a session never ends because nobody waits for anything (`Bridge.never_stuck`).
A buffer of which all was sent goes back, and is read into again (`Bridge.Keeps.writable`).
-/

namespace AffinityRelay

theorem Side.forall_iff (side : Side) {P : Side → Prop} : (∀ s, P s) ↔ P side ∧ P side.other := by
  refine ⟨fun h => ⟨h side, h side.other⟩, fun ⟨h, ho⟩ s => ?_⟩
  cases s <;> cases side <;> assumption

/-! ## Wake-ups -/

namespace Bridge

/-- A bridge after a side was woken up. -/
def wake (b : Bridge) : Wake → Bridge
  | .readable side bytes => ((b.receive side bytes).map fun r => r.2.2).getD b
  | .writable side n pool => ((b.send pool side n).map Prod.snd).getD b

def wakeAll (wakes : List Wake) (b : Bridge) : Bridge :=
  wakes.foldl wake b

/-- Some wake-ups make one bridge of another. -/
def Leads (b b' : Bridge) : Prop :=
  ∃ wakes, b' = b.wakeAll wakes

theorem Leads.refl (b : Bridge) : b.Leads b := ⟨[], rfl⟩

theorem Leads.trans {b b' b'' : Bridge} (h : b.Leads b') (h' : b'.Leads b'') : b.Leads b'' := by
  obtain ⟨wakes, rfl⟩ := h
  obtain ⟨wakes', rfl⟩ := h'
  exact ⟨wakes ++ wakes', List.foldl_append.symm⟩

theorem leads_wake (b : Bridge) (w : Wake) : b.Leads (b.wake w) := ⟨[w], rfl⟩

end Bridge

namespace Session

variable (pool : Pool) (side : Side) (s : Session)

@[simp] theorem bridge_change (f : Stream → Stream) : (s.change side f).bridge = s.bridge := by
  cases side <;> rfl

theorem read_leads : s.bridge.Leads (s.read side).2.bridge := by
  unfold read
  split
  · exact .refl _
  · split
    · exact .refl _
    · rename_i n e b hr
      have : b = s.bridge.wake (.readable side (s.stream side).arrived) := by simp [Bridge.wake, hr]
      simpa [this] using s.bridge.leads_wake _

theorem write_leads (n : Nat) : s.bridge.Leads (s.write pool side n).2.bridge := by
  unfold write
  split
  · exact .refl _
  · exact .refl _
  · rename_i bytes b _ hs
    have : b = s.bridge.wake (.writable side n pool) := by simp [Bridge.wake, hs]
    simpa [this] using s.bridge.leads_wake _

theorem work_leads : s.bridge.Leads (s.work pool side).2.bridge := by
  have hread : s.bridge.Leads
      (if (s.bridge.interest side).read && (s.stream side).readable then s.read side else (none, s)).2.bridge := by
    split
    · exact s.read_leads side
    · exact .refl _
  simp only [work]
  split
  · rename_i e s' he
    rwa [he] at hread
  · rename_i s' hn
    rw [hn] at hread
    split
    · exact hread.trans (s'.write_leads pool side _)
    · exact hread

theorem turn_leads : s.bridge.Leads (s.turn pool).2.bridge := by
  unfold turn
  split
  · exact .refl _
  split
  · exact s.work_leads pool .client
  split
  · exact s.work_leads pool .backend
  · exact .refl _

theorem turns_leads (n : Nat) : s.bridge.Leads (s.turns pool n).2.bridge := by
  induction n generalizing s with
  | zero => exact .refl _
  | succ n ih =>
    have hturn := s.turn_leads pool
    unfold turns
    split
    · rename_i s' hs
      rw [hs] at hturn
      exact hturn.trans (ih s')
    · exact hturn

/-- Whatever a session does, its bridge is woken up. -/
theorem run_leads : s.bridge.Leads (s.run pool).2.bridge :=
  s.turns_leads pool s.enough

end Session

/-! ## What the sides wait for -/

/-- A half has a connection, waits to read where it has a buffer to read into, and to send where it has one to send
from. -/
structure Half.Attuned (h : Half) : Prop where
  isOpen : h.isOpen = true
  read : h.want.read = h.inbound.isSome
  write : h.want.write = h.outbound.isSome

namespace Bridge

def Attuned (b : Bridge) : Prop :=
  ∀ side, (b.half side).Attuned

variable {size : Nat} {b b' : Bridge} {side : Side}

theorem Attuned.change (h : b.Attuned) {f : Half → Half} (hf : (f (b.half side)).Attuned) :
    (b.change side f).Attuned := by
  refine (Side.forall_iff side).2 ⟨?_, ?_⟩
  · rwa [half_change_self]
  · rw [half_change_other]
    exact h side.other

/-- The buffer that a side passes on is what the other side waits to send. -/
theorem Attuned.pass (h : b.Attuned) (side : Side) : (b.pass side).Attuned := by
  have hme : (b.change side fun h => { h with want := { h.want with read := false }, inbound := none }).Attuned :=
    h.change ⟨(h side).isOpen, rfl, (h side).write⟩
  simp only [Bridge.pass]
  split
  · exact hme
  · exact hme.change ⟨(hme side.other).isOpen, (hme side.other).read, rfl⟩

/-- The buffer that a side passes back is what the other side waits to read into. -/
theorem Attuned.passBack (h : b.Attuned) (pool : Pool) (side : Side) : (b.passBack pool side).Attuned := by
  have hme : (b.change side fun h => { h with want := { h.want with write := false }, outbound := none }).Attuned :=
    h.change ⟨(h side).isOpen, (h side).read, rfl⟩
  simp only [Bridge.passBack]
  split
  · exact hme
  · exact hme.change ⟨(hme side.other).isOpen, rfl, (hme side.other).write⟩

theorem Attuned.received (h : b.Attuned) (side : Side) (n : Nat) : (b.received side n).2.Attuned := by
  obtain ⟨ho, hr, hw⟩ := h side
  unfold Bridge.received
  split
  · exact h
  · exact Attuned.pass (h.change ⟨ho, by simpa using hr, hw⟩) side

theorem Attuned.sent (h : b.Attuned) (pool : Pool) (side : Side) (n : Nat) : (b.sent pool side n).Attuned := by
  obtain ⟨ho, hr, hw⟩ := h side
  cases hb : (b.half side).outbound with
  | none => simpa [Bridge.sent, hb] using h
  | some buffer =>
    have hc : (b.change side fun h => { h with outbound := some (buffer.consume n) }).Attuned :=
      h.change ⟨ho, hr, by simpa [hb] using hw⟩
    simp only [Bridge.sent, hb]
    split
    · exact hc
    · exact hc.passBack pool side

theorem Attuned.wake (h : b.Attuned) (w : Wake) : (b.wake w).Attuned := by
  cases w with
  | readable side bytes =>
    obtain ⟨ho, hr, hw⟩ := h side
    simp only [Bridge.wake, Bridge.receive]
    split
    · cases hb : (b.half side).inbound with
      | none => exact h
      | some buffer =>
        have hc : (b.change side fun h => { h with inbound := some (buffer.overwrite bytes) }).Attuned :=
          h.change ⟨ho, by simpa [hb] using hr, hw⟩
        exact hc.received side _
    · exact h
  | writable side n pool =>
    simp only [Bridge.wake, Bridge.send]
    cases (b.half side).outbound with
    | none => exact h
    | some buffer => exact h.sent pool side _

theorem Attuned.wakeAll : ∀ {wakes : List Wake} {b : Bridge}, b.Attuned → (b.wakeAll wakes).Attuned
  | [], _, h => h
  | w :: _, _, h => (h.wake w).wakeAll

/-! ## Where the buffers are -/

theorem Provided.joined (h : b.Provided) (header : Option (List UInt8)) : (b.joined header).2.Provided := by
  have ho : (b.change .backend fun h => { h with isOpen := true }).Provided :=
    h.congr (fun side => by cases side <;> rfl) (fun side => by cases side <;> rfl)
  obtain ⟨lanes, ho⟩ := ho
  exact ⟨_, ho.connected header⟩

/-- A wake-up changes at most one lane, and keeps it sound and of its size. -/
theorem Holds.wake {lanes : Side → Lane} (h : b.Holds lanes) (w : Wake) :
    ∃ lanes', (b.wake w).Holds lanes' ∧ ∀ size, (∀ t, (lanes t).Sound ∧ (lanes t).buffer.capacity = size) →
      ∀ t, (lanes' t).Sound ∧ (lanes' t).buffer.capacity = size := by
  cases w with
  | readable side bytes =>
    cases hc : (lanes side).crossed with
    | true => exact ⟨lanes, by simpa [Bridge.wake, h.receive_eq_none hc] using h, fun _ hl => hl⟩
    | false =>
      obtain ⟨e, b', hb, h'⟩ := h.receive hc bytes
      refine ⟨_, by simpa [Bridge.wake, hb] using h', fun size hl => ?_⟩
      have hblank : Lane.Sound { buffer := (lanes side).buffer.overwrite bytes } :=
        Lane.sound_of_blank (((hl side).1.blank hc).overwrite bytes)
      exact sound_update hl (hblank.fill _) (Lane.capacity_fill _ _)
  | writable side n pool =>
    cases hc : (lanes side.other).crossed with
    | false =>
      have hb := h.send_eq_none hc pool n
      rw [Side.other_other] at hb
      exact ⟨lanes, by simpa [Bridge.wake, hb] using h, fun _ hl => hl⟩
    | true =>
      obtain ⟨b', hb, h'⟩ := h.send hc pool n
      rw [Side.other_other] at hb
      exact ⟨_, by simpa [Bridge.wake, hb] using h', fun size hl =>
        sound_update hl ((hl side.other).1.drain pool _) (Lane.capacity_drain _ _ _)⟩

theorem Provided.wake (h : b.Provided) (w : Wake) : (b.wake w).Provided := by
  obtain ⟨lanes, h⟩ := h
  obtain ⟨lanes', h', -⟩ := h.wake w
  exact ⟨lanes', h'⟩

theorem Provided.wakeAll : ∀ {wakes : List Wake} {b : Bridge}, b.Provided → (b.wakeAll wakes).Provided
  | [], _, h => h
  | w :: _, _, h => (h.wake w).wakeAll

/-- Only buffers matter to what a bridge keeps. -/
theorem Keeps.congr (h : b.Keeps size) (hi : ∀ side, (b'.half side).inbound = (b.half side).inbound)
    (ho : ∀ side, (b'.half side).outbound = (b.half side).outbound) : b'.Keeps size := by
  obtain ⟨lanes, h, hl⟩ := h
  exact ⟨lanes, fun side => ⟨(hi side).trans (h side).1, (ho side.other).trans (h side).2⟩, hl⟩

theorem Keeps.attach (h : b.Keeps size) (client : Address) : (b.attach client).Keeps size :=
  h.congr (fun side => by cases side <;> rfl) (fun side => by cases side <;> rfl)

theorem Keeps.begin (h : b.Keeps size) (remote : Address) : (b.begin remote).Keeps size :=
  @Keeps.perform size b h (.begin remote) rfl

theorem Keeps.joined (h : b.Keeps size) (header : Option (List UInt8)) : (b.joined header).2.Keeps size := by
  have ho : (b.change .backend fun h => { h with isOpen := true }).Keeps size :=
    h.congr (fun side => by cases side <;> rfl) (fun side => by cases side <;> rfl)
  exact @Keeps.perform size _ ho (.connected header) rfl

theorem Keeps.wake (h : b.Keeps size) (w : Wake) : (b.wake w).Keeps size := by
  obtain ⟨lanes, h, hl⟩ := h
  obtain ⟨lanes', h', hl'⟩ := h.wake w
  exact ⟨lanes', h', hl' size hl⟩

theorem Keeps.wakeAll : ∀ {wakes : List Wake} {b : Bridge}, b.Keeps size → (b.wakeAll wakes).Keeps size
  | [], _, h => h
  | w :: _, _, h => (h.wake w).wakeAll

theorem Keeps.filled_le (h : b.Keeps size) {buffer : Buffer} (hb : (b.half side).outbound = some buffer) :
    buffer.filled ≤ buffer.capacity := by
  obtain ⟨lanes, h, hl⟩ := h
  rw [h.outbound] at hb
  cases hc : (lanes side.other).crossed with
  | false => simp [Lane.far, hc] at hb
  | true =>
    obtain rfl : (lanes side.other).buffer = buffer := by simpa [Lane.far, hc] using hb
    exact (hl side.other).1.bounded

/-! ## One of both ends waits -/

/-- A side that has a connection would be woken up to read where it has a buffer to read into, and to send where it has
one to send from. -/
theorem Attuned.interest (h : b.Attuned) (hp : b.Provided) (side : Side) :
    b.interest side = { read := (b.half side).inbound.isSome, write := (b.half side).outbound.isSome } := by
  obtain ⟨ho, hr, hw⟩ := h side
  simp [Bridge.interest, ho, hr, hw, (hp.places side).1, canWrite]

/-- A bridge as long as no backend is reached: the client has a connection, nothing was read, and nobody waits to
send. -/
structure Unconnected (b : Bridge) : Prop where
  isOpen : b.client.isOpen = true
  inbound : ∀ side, (b.half side).inbound.isSome = true
  outbound : ∀ side, (b.half side).outbound = none
  write : ∀ side, (b.half side).want.write = false

theorem unconnected_attach (number : Nat) (x y : Buffer) (client : Address) :
    ((ofBuffers number x y).attach client).Unconnected where
  isOpen := rfl
  inbound side := by cases side <;> rfl
  outbound side := by cases side <;> rfl
  write side := by cases side <;> rfl

theorem Unconnected.begin (h : b.Unconnected) (remote : Address) : (b.begin remote).Unconnected where
  isOpen := h.isOpen
  inbound side := by
    cases side with
    | client => exact h.inbound .client
    | backend => exact h.inbound .backend
  outbound side := by
    cases side with
    | client => exact h.outbound .client
    | backend => exact h.outbound .backend
  write side := by
    cases side with
    | client => exact h.write .client
    | backend => exact h.write .backend

/-- The bridge of a client after attempts to reach some backends. -/
def reachingFor (backends : List Address) (b : Bridge) : Bridge :=
  backends.foldl (fun b remote => b.begin remote) b

theorem Unconnected.reachingFor : ∀ {backends : List Address} {b : Bridge}, b.Unconnected →
    (b.reachingFor backends).Unconnected
  | [], _, h => h
  | remote :: _, _, h => (h.begin remote).reachingFor

theorem Keeps.reachingFor : ∀ {backends : List Address} {b : Bridge}, b.Keeps size → (b.reachingFor backends).Keeps size
  | [], _, h => h
  | remote :: _, _, h => (h.begin remote).reachingFor

theorem Unconnected.provided (h : b.Unconnected) : b.Provided := by
  refine ⟨fun side => { buffer := ((b.half side).inbound).getD (.zeros 0) }, fun side => ⟨?_, h.outbound side.other⟩⟩
  obtain ⟨buffer, hb⟩ := Option.isSome_iff_exists.1 (h.inbound side)
  simp [hb, Lane.near]

/-- Once a backend is reached, both sides wait for what they have buffers for, also where the header is too large. -/
theorem Unconnected.joined (h : b.Unconnected) (header : Option (List UInt8)) : (b.joined header).2.Attuned := by
  have hl : (b.change .backend fun h => { h with isOpen := true }).listening.Attuned := by
    intro side
    cases side with
    | client =>
      exact ⟨h.isOpen, (h.inbound .client).symm,
        (h.write .client).trans (congrArg Option.isSome (h.outbound .client)).symm⟩
    | backend =>
      exact ⟨rfl, (h.inbound .backend).symm,
        (h.write .backend).trans (congrArg Option.isSome (h.outbound .backend)).symm⟩
  obtain ⟨buffer, hb⟩ := Option.isSome_iff_exists.1 (h.inbound .client)
  have hb : (b.change .backend fun h => { h with isOpen := true }).listening.client.inbound = some buffer := hb
  obtain ⟨ho, -, hw⟩ := hl .client
  have hfill : ∀ buffer' : Buffer, ((b.change .backend fun h => { h with isOpen := true }).listening.change .client
      fun h => { h with inbound := some buffer' }).Attuned :=
    fun _ => hl.change ⟨ho, rfl, hw⟩
  cases header with
  | none => exact hl
  | some bytes =>
    simp only [Bridge.joined, Bridge.connected, hb]
    split
    · exact hfill _
    · exact (hfill _).pass .client

/-- A side that can send keeps its buffer as long as something is left to send. The buffer goes back then to the side
that it came from, which would be woken up to read again. -/
theorem Keeps.writable (h : b.Keeps size) (ha : b.Attuned) {buffer : Buffer}
    (hb : (b.half side).outbound = some buffer) (pool : Pool) (n : Nat) :
    let b' := b.wake (.writable side n pool)
    if n < buffer.pending.length then (b'.half side).outbound = some (buffer.consume n)
    else (b'.half side).outbound = none ∧
      (b'.half side.other).inbound = some (pool.recycle (buffer.consume buffer.pending.length)) ∧
      (b'.interest side.other).read = true := by
  intro b'
  have hwake : b' = b.sent pool side (min n buffer.pending.length) := by
    simp [b', Bridge.wake, Bridge.send, hb]
  have hpending := Buffer.hasPending_consume (h.filled_le hb)
  split
  · rename_i hn
    simp [hwake, Bridge.sent, hb, hpending, Nat.min_eq_left (Nat.le_of_lt hn), hn]
  · rename_i hn
    have hback : b' = (b.change side fun h =>
        { h with outbound := some (buffer.consume buffer.pending.length) }).passBack pool side := by
      simp [hwake, Bridge.sent, hb, hpending, Nat.min_eq_right (Nat.le_of_not_lt hn)]
    have hin : (b'.half side.other).inbound = some (pool.recycle (buffer.consume buffer.pending.length)) := by
      simp [hback]
    refine ⟨by simp [hback], hin, ?_⟩
    rw [(ha.wake _).interest (h.wake _).provided, hin]
    rfl

/-- However a bridge is woken up after it was connected, on either side: a side waits to read, and may, just where it
has a buffer to read into, and waits to send just where it has one to send from. For each direction, either its source
would be woken up to read or its target to send. So one of the sides would be woken up at any time, and no turn of a
session ends it because neither is. With a pool that was only used as pools are, a side that has sent all it has to send
gives the buffer back, and the other side would be woken up to read again. -/
theorem never_stuck {p p' : Pool} {number : Nat} {b₀ b : Bridge} {client : Address} {backends : List Address}
    {header : Option (List UInt8)} (hb : create number p = (.ok b₀, p'))
    (hj : ((b₀.attach client).reachingFor backends).joined header = (none, b)) (wakes : List Wake) :
    (∀ side,
      ((b.wakeAll wakes).half side).want.read = ((b.wakeAll wakes).half side).inbound.isSome ∧
      (b.wakeAll wakes).canRead side = ((b.wakeAll wakes).half side).inbound.isSome ∧
      ((b.wakeAll wakes).half side).want.write = ((b.wakeAll wakes).half side).outbound.isSome) ∧
    (∀ side, ((b.wakeAll wakes).interest side).read ≠ ((b.wakeAll wakes).interest side.other).write) ∧
    ((b.wakeAll wakes).interested .client ∨ (b.wakeAll wakes).interested .backend) ∧
    (∀ (pool : Pool) (s : Session), s.bridge = b.wakeAll wakes →
      (s.turn pool = if s.ready .client then s.work pool .client
        else if s.ready .backend then s.work pool .backend else (none, s)) ∧
      ∃ more, (s.turn pool).2.bridge = b.wakeAll (wakes ++ more)) ∧
    (p.Reachable → ∀ side buffer, ((b.wakeAll wakes).half side).outbound = some buffer → ∀ (pool : Pool) n,
      let b' := (b.wakeAll wakes).wake (.writable side n pool)
      if n < buffer.pending.length then (b'.half side).outbound = some (buffer.consume n)
      else (b'.half side).outbound = none ∧
        (b'.half side.other).inbound = some (pool.recycle (buffer.consume buffer.pending.length)) ∧
        (b'.interest side.other).read = true) := by
  have hkept (hr : p.Reachable) : (b.wakeAll wakes).Keeps p.size := by
    have hreaching : ((b₀.attach client).reachingFor backends).Keeps p.size :=
      ((keeps_create hr hb).attach client).reachingFor
    have := hreaching.joined header
    rw [hj] at this
    exact this.wakeAll
  obtain ⟨x, y, q, -, -, rfl⟩ := create_eq_ok hb
  have hu : (((ofBuffers number x y).attach client).reachingFor backends).Unconnected :=
    (unconnected_attach number x y client).reachingFor
  have ha : (b.wakeAll wakes).Attuned := by
    have := hu.joined header
    rw [hj] at this
    exact this.wakeAll
  have hp : (b.wakeAll wakes).Provided := by
    have := hu.provided.joined header
    rw [hj] at this
    exact this.wakeAll
  have hone : ∀ side, ((b.wakeAll wakes).interest side).read ≠ ((b.wakeAll wakes).interest side.other).write := by
    intro side
    rw [ha.interest hp, ha.interest hp, (hp.places side).2]
    cases ((b.wakeAll wakes).half side).inbound.isSome <;> simp
  have hsome : (b.wakeAll wakes).interested .client ∨ (b.wakeAll wakes).interested .backend := by
    have := hone .client
    simp only [interested, Bool.or_eq_true]
    revert this
    cases ((b.wakeAll wakes).interest .client).read <;> simp +contextual [Side.other]
  refine ⟨fun side => ⟨(ha side).read, (hp.places side).1, (ha side).write⟩, hone, hsome, fun pool s hs => ⟨?_, ?_⟩,
    fun hr side buffer hbuffer pool n => (hkept hr).writable ha hbuffer pool n⟩
  · have hnot : (!s.bridge.interested .client && !s.bridge.interested .backend) = false := by
      rw [hs, ← Bool.not_or, Bool.not_eq_false']
      simpa using hsome
    simp only [Session.turn, hnot, Bool.false_eq_true, if_false]
  · obtain ⟨more, hm⟩ := s.turn_leads pool
    exact ⟨more, by rw [hm, hs, wakeAll, wakeAll, wakeAll, List.foldl_append]⟩

/-- A second backend is reached after a first that was not, the header goes out byte by byte, and the backend sends
before that is over. When the rest of the header is out, the client would be read. -/
theorem never_stuck_halfway : ∃ b₀ b p', create 1 { size := 4, limit := 2 } = (.ok b₀, p') ∧
    ((b₀.attach { ip := .v4 #v[10, 0, 0, 7], port := 4000 }).reachingFor
      [{ ip := .v4 #v[192, 168, 0, 1], port := 80 }, { ip := .v4 #v[192, 168, 0, 1], port := 81 }]).joined
        (some [1, 2, 3]) = (none, b) ∧
    let b' := b.wakeAll [.writable .backend 0 { size := 4 }, .writable .backend 2 { size := 4 },
      .readable .backend [9, 9], .readable .client [5]]
    (b'.interest .client).read ≠ (b'.interest .backend).write ∧
      (b'.interest .backend).read ≠ (b'.interest .client).write ∧ (b'.half .backend).outbound.isSome ∧
      ((b'.wake (.writable .backend 1 { size := 4 })).interest .client).read = true := by
  refine ⟨_, _, _, rfl, rfl, ?_⟩
  obtain ⟨-, h, -, -, hback⟩ := @never_stuck { size := 4, limit := 2 } _ 1 _ _
    { ip := .v4 #v[10, 0, 0, 7], port := 4000 }
    [{ ip := .v4 #v[192, 168, 0, 1], port := 80 }, { ip := .v4 #v[192, 168, 0, 1], port := 81 }]
    (some [1, 2, 3]) rfl rfl
    [.writable .backend 0 { size := 4 }, .writable .backend 2 { size := 4 }, .readable .backend [9, 9],
      .readable .client [5]]
  exact ⟨h .client, h .backend, by rfl, (hback (.new 4 2 false) .backend _ rfl { size := 4 } 1).2.2⟩

end Bridge

end AffinityRelay
