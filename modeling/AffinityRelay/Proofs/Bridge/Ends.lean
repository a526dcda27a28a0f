import AffinityRelay.Proofs.Bridge.Interest
import AffinityRelay.Relay.Forward

/-!
# How sessions end

* `Session.Working`: each direction of the bridge has a sound buffer, and each side waits for just what it has a buffer
  for. A client that is welcomed has such a session, if any (`Forward.outcome_welcome`), and all that a session does
  keeps this (`Session.Served.working`);
* `Session.left`: how much there is to do. A turn does some of it, or ends the session for a stream that has ended, or
  there is nothing to do (`Session.Working.turn`). In a session that has nothing to do no stream has ended
  (`Session.Working.ending_eq_none`);
* `Session.Working.run`: so a session that goes on ends just if one of its streams has ended, with the error of such a
  stream (`Forward.advance_served`);
* `Forward.refusal?`: why a client that is welcomed has no session.
-/

namespace AffinityRelay

/-- What the end of a connection is to the bridge. -/
def Ending.error (side : Side) : Ending → BridgeError
  | closed => .closedBy side
  | failed text => .connection text

/-! ## What is to be sent -/

namespace Bridge

variable {size : Nat} {b b' : Bridge} {side : Side}

/-- A header that does not fit the buffer is an error, and nothing else is. -/
theorem Keeps.error_joined (h : b.Keeps size) (hu : b.Unconnected) (header : Option (List UInt8)) :
    (b.joined header).1 = if (header.getD []).length ≤ size then none
      else some (.headerTooLarge (header.getD []).length size) := by
  obtain ⟨buffer, hb⟩ := Option.isSome_iff_exists.1 (hu.inbound .client)
  obtain ⟨hblank, hcap⟩ := h.blank hb
  have hn : (b.change .backend fun h => { h with isOpen := true }).listening.client.inbound = some buffer := hb
  cases header with
  | none => simp [Bridge.joined, Bridge.connected]
  | some bytes =>
    have hput : (buffer.put bytes).1 = min bytes.length size := by rw [Buffer.put, hblank.room, hcap]
    simp only [Bridge.joined, Bridge.connected, hn, hput, Option.getD_some]
    by_cases hfits : bytes.length ≤ size
    · rw [if_neg (by omega), if_pos hfits]
    · rw [if_pos (by omega), if_neg hfits, ← hcap]
      rfl

/-- What is read is what the other side has to send then. -/
theorem canWrite_received {n : Nat} (hi : (b.half side).inbound.isSome = true) (hn : n ≠ 0) :
    (b.received side n).2.canWrite side.other = true ∧ (b.received side n).2.canWrite side = b.canWrite side := by
  obtain ⟨buffer, hb⟩ := Option.isSome_iff_exists.1 hi
  simp [received, hn, canWrite, hb]

/-- What a side reads is not what it has to send. -/
theorem canWrite_receive {bytes : List UInt8} {r : Nat × Option BridgeError × Bridge}
    (hr : b.receive side bytes = some r) : r.2.2.canWrite side = b.canWrite side := by
  unfold receive at hr
  split at hr
  · obtain ⟨buffer, -, rfl⟩ := Option.map_eq_some_iff.1 hr
    simp only [received]
    split <;> simp [canWrite]
  · cases hr

/-- A side that has sent all has nothing to send. -/
theorem canWrite_sent (h : b.Keeps size) {buffer : Buffer} (hb : (b.half side).outbound = some buffer) (pool : Pool) :
    (b.sent pool side buffer.pending.length).canWrite side = false ∧
      (b.sent pool side buffer.pending.length).canWrite side.other = b.canWrite side.other := by
  simp [sent, hb, Buffer.hasPending_consume (h.filled_le hb), canWrite]

end Bridge

/-- What is wrong with a stream is that it has ended. -/
theorem Stream.ending_of_failure {t : Stream} {e : BridgeError} (h : t.failure? = some e) (side : Side) :
    ∃ ending, t.ending = some ending ∧ e = ending.error side := by
  unfold failure? at h
  split at h
  · rename_i text _ hending
    exact ⟨.failed text, hending, (Option.some.inj h).symm⟩
  · cases h

/-- A stream that can be read, has nothing to read, and with which nothing is wrong, is closed. -/
theorem Stream.ending_of_readable {t : Stream} (h : t.failure? = none) (hr : t.readable = true)
    (hnil : t.arrived = []) : t.ending = some .closed := by
  have hsome : t.ending.isSome = true := by simpa [readable, hnil] using hr
  obtain ⟨ending, hending⟩ := Option.isSome_iff_exists.1 hsome
  cases ending with
  | closed => exact hending
  | failed text => simp [failure?, hnil, hending] at h

namespace Session

variable {size : Nat} {s s' s'' : Session} {pool : Pool} {side : Side} {e : BridgeError}

@[simp] theorem stream_change_self (side : Side) (f : Stream → Stream) (s : Session) :
    (s.change side f).stream side = f (s.stream side) := by
  cases side <;> rfl

@[simp] theorem stream_change_other (side : Side) (f : Stream → Stream) (s : Session) :
    (s.change side f).stream side.other = s.stream side.other := by
  cases side <;> rfl

@[simp] theorem stream_bridge (side : Side) (b : Bridge) (s : Session) :
    stream { s with bridge := b } side = s.stream side := by
  cases side <;> rfl

/-! ## What there is to do -/

/-- Each direction of the bridge has a sound buffer of a size, and each side waits for just what it has a buffer for. -/
structure Working (size : Nat) (s : Session) : Prop where
  keeps : s.bridge.Keeps size
  attuned : s.bridge.Attuned

/-- What there is to do for the bytes that come in on a side: each is to be read and to be sent on. -/
def due (side : Side) (s : Session) : Nat :=
  2 * (s.stream side).arrived.length + (s.bridge.canWrite side.other).toNat

def left (s : Session) : Nat :=
  s.due .client + s.due .backend

theorem left_eq (side : Side) (s : Session) : s.left = s.due side + s.due side.other := by
  cases side with
  | client => rfl
  | backend => exact Nat.add_comm _ _

/-- The error of a stream that has ended. -/
def Fault (s : Session) (e : BridgeError) : Prop :=
  ∃ side ending, (s.stream side).ending = some ending ∧ e = ending.error side

/-- Something was done of what there is to do. No stream has ended by that. -/
structure Progress (size : Nat) (s s' : Session) : Prop where
  working : s'.Working size
  ending : ∀ side, (s'.stream side).ending = (s.stream side).ending
  left_lt : s'.left < s.left

/-- What becomes of a session that does something. -/
inductive Done (size : Nat) (s : Session) : Option BridgeError × Session → Prop
  | worked {s' : Session} : Progress size s s' → Done size s (none, s')
  | ended {e : BridgeError} {s' : Session} : s.Fault e → Done size s (some e, s')

theorem Progress.trans (h : Progress size s s') (h' : Progress size s' s'') : Progress size s s'' where
  working := h'.working
  ending side := (h'.ending side).trans (h.ending side)
  left_lt := Nat.lt_trans h'.left_lt h.left_lt

theorem Progress.fault (h : Progress size s s') (hf : s'.Fault e) : s.Fault e := by
  obtain ⟨side, ending, hending, he⟩ := hf
  exact ⟨side, ending, (h.ending side).symm.trans hending, he⟩

theorem Progress.done {r : Option BridgeError × Session} (h : Progress size s s') (hd : Done size s' r) :
    Done size s r := by
  cases hd with
  | worked h' => exact .worked (h.trans h')
  | ended hf => exact .ended (h.fault hf)

/-- A wake-up of the bridge after which there is less to do, and a change to a stream that does not end it. -/
theorem Working.progress (h : s.Working size) (w : Wake) (t : Side) {f : Stream → Stream}
    (hending : ∀ x : Stream, (f x).ending = x.ending)
    (hleft : (Session.change t f { s with bridge := s.bridge.wake w }).left < s.left) :
    Progress size s (Session.change t f { s with bridge := s.bridge.wake w }) where
  working := ⟨by simpa using h.keeps.wake w, by simpa using h.attuned.wake w⟩
  ending := (Side.forall_iff t).2 ⟨by simp [hending], by simp⟩
  left_lt := hleft

/-- A side that may read and has something to read takes at least one byte, or is told that there will be none. -/
theorem Working.read (h : s.Working size) (hsize : 0 < size) (hr : s.bridge.canRead side = true)
    (hs : (s.stream side).readable = true) : Done size s (s.read side) := by
  unfold Session.read
  cases hf : (s.stream side).failure? with
  | some e => exact .ended ⟨side, Stream.ending_of_failure hf side⟩
  | none =>
    have hin : (s.bridge.half side).inbound.isSome = true := by
      rw [← (h.keeps.provided.places side).1, hr]
    obtain ⟨buffer, hb⟩ := Option.isSome_iff_exists.1 hin
    obtain ⟨hblank, hcap⟩ := h.keeps.blank hb
    let b := s.bridge.change side fun h => { h with inbound := some (buffer.overwrite (s.stream side).arrived) }
    let n := min (s.stream side).arrived.length size
    have hrec : s.bridge.receive side (s.stream side).arrived = some (n, b.received side n) := by
      simp [Bridge.receive, hr, hb, hblank.room, hcap, b, n]
    simp only [hrec]
    by_cases hn : n = 0
    · have hnil : (s.stream side).arrived = [] := List.length_eq_zero_iff.1 (by omega)
      rw [Bridge.received, if_pos hn]
      exact .ended ⟨side, .closed, Stream.ending_of_readable hf hs hnil, rfl⟩
    · obtain ⟨hother, hself⟩ := @Bridge.canWrite_received b side n (by simp [b]) hn
      have hsame : b.canWrite side = s.bridge.canWrite side := by simp [Bridge.canWrite, b]
      have hgoes : (b.received side n).1 = none := by rw [Bridge.received, if_neg hn]
      have hwake : (b.received side n).2 = s.bridge.wake (.readable side (s.stream side).arrived) := by
        simp [Bridge.wake, hrec]
      rw [hgoes, hwake]
      refine .worked (h.progress (.readable side _) side (fun _ => rfl) ?_)
      rw [left_eq side, left_eq side s]
      simp only [due, stream_change_self, stream_change_other, stream_bridge, bridge_change, Side.other_other,
        ← hwake, hother, hself, hsame, List.length_drop, Bool.toNat_true]
      omega

/-- A side that has something to send sends all of it, or is told that the connection has failed. -/
theorem Working.write (h : s.Working size) (pool : Pool) (hw : s.bridge.canWrite side = true) :
    Done size s (s.write pool side (s.owed side)) := by
  obtain ⟨buffer, hb⟩ := Option.isSome_iff_exists.1 hw
  have howed : s.owed side = buffer.capacity := by simp [owed, hb]
  have hall : buffer.pending.take buffer.capacity = buffer.pending := List.take_of_length_le buffer.length_pending_le
  have hsend : s.bridge.send pool side (s.owed side) =
      some (buffer.pending, s.bridge.sent pool side buffer.pending.length) := by
    simp only [Bridge.send, hb, howed, Option.map_some, hall]
  have hwake : s.bridge.sent pool side buffer.pending.length = s.bridge.wake (.writable side (s.owed side) pool) := by
    simp [Bridge.wake, hsend]
  obtain ⟨hself, hother⟩ := Bridge.canWrite_sent h.keeps hb pool
  unfold Session.write
  cases hf : (s.stream side).failure? with
  | some e => exact .ended ⟨side, Stream.ending_of_failure hf side⟩
  | none =>
    simp only [hsend]
    rw [hwake]
    refine .worked (h.progress (.writable side _ pool) side (fun _ => rfl) ?_)
    rw [left_eq side, left_eq side s]
    simp only [due, stream_change_self, stream_change_other, stream_bridge, bridge_change, Side.other_other,
      ← hwake, hother, hself, hw, Bool.toNat_true, Bool.toNat_false]
    omega

theorem canWrite_read (side : Side) (s : Session) : (s.read side).2.bridge.canWrite side = s.bridge.canWrite side := by
  unfold Session.read
  split
  · rfl
  · split
    · rfl
    · rename_i n e b hr
      simpa using Bridge.canWrite_receive hr

theorem Working.interest (h : s.Working size) (side : Side) :
    s.bridge.interest side = { read := s.bridge.canRead side, write := s.bridge.canWrite side } := by
  rw [h.attuned.interest h.keeps.provided, (h.keeps.provided.places side).1]
  rfl

/-- A side that is woken up does something. -/
theorem Working.work (h : s.Working size) (hsize : 0 < size) (pool : Pool) (hready : s.ready side = true) :
    Done size s (s.work pool side) := by
  simp only [Session.work, Session.ready, h.interest] at hready ⊢
  by_cases hr : (s.bridge.canRead side && (s.stream side).readable) = true
  · obtain ⟨hmay, hs⟩ := Bool.and_eq_true_iff.1 hr
    have hread := h.read hsize hmay hs
    have hsame := canWrite_read side s
    rw [if_pos hr]
    generalize s.read side = r at hread hsame ⊢
    cases hread with
    | ended hf => exact .ended hf
    | worked hp =>
      simp only at hsame ⊢
      split
      · rename_i hw
        exact hp.done (hp.working.write pool (hsame.trans hw))
      · exact .worked hp
  · have hw : s.bridge.canWrite side = true := by simpa [hr] using hready
    rw [if_neg hr]
    simp only [hw, if_true]
    exact h.write pool hw

/-- In each direction there is something to wait for. -/
theorem Working.waits (h : s.Working size) (side : Side) :
    (s.bridge.interest side).read = true ∨ (s.bridge.interest side.other).write = true := by
  rw [h.interest, h.interest, h.keeps.canRead]
  cases s.bridge.canWrite side.other <;> simp

/-- A turn does something, or there is nothing to do. -/
theorem Working.turn (h : s.Working size) (hsize : 0 < size) (pool : Pool) :
    Done size s (s.turn pool) ∨ s.turn pool = (none, s) ∧ ∀ side, s.ready side = false := by
  have hwaits : (!s.bridge.interested .client && !s.bridge.interested .backend) = false := by
    have := h.waits .client
    simp only [Bridge.interested, Side.other] at this ⊢
    obtain h | h := this <;> simp [h]
  unfold Session.turn
  rw [hwaits]
  by_cases hclient : s.ready .client = true
  · simpa [hclient] using .inl (h.work hsize pool hclient)
  by_cases hbackend : s.ready .backend = true
  · simpa [hclient, hbackend] using .inl (h.work hsize pool hbackend)
  · refine .inr ⟨by simp [hclient, hbackend], fun side => ?_⟩
    cases side with
    | client => simpa using hclient
    | backend => simpa using hbackend

/-- Where there is nothing to do, no stream has ended: its side would read that. If it cannot, then the other side has
something to send. -/
theorem Working.ending_eq_none (h : s.Working size) (hquiet : ∀ side, s.ready side = false) (side : Side) :
    (s.stream side).ending = none := by
  by_contra hne
  have hreadable : (s.stream side).readable = true := by
    simp [Stream.readable, Option.isSome_iff_ne_none.2 hne]
  obtain hr | hw := h.waits side
  · have := hquiet side
    simp [Session.ready, hr, hreadable] at this
  · have := hquiet side.other
    simp [Session.ready, hw] at this

theorem turns_of_quiet {n : Nat} (hquiet : s.turn pool = (none, s)) : s.turns pool n = (none, s) := by
  induction n with
  | zero => rfl
  | succ n ih => simpa only [turns, hquiet] using ih

/-- Turns that are more than there is to do come to an end. -/
theorem Working.turns (h : s.Working size) (hsize : 0 < size) (pool : Pool) {n : Nat} (hn : s.left < n) :
    ((s.turns pool n).1 = none ∧ ∀ side, (s.stream side).ending = none) ∨
      ∃ e, (s.turns pool n).1 = some e ∧ s.Fault e := by
  induction n generalizing s with
  | zero => omega
  | succ n ih =>
    obtain hdone | ⟨hnone, hquiet⟩ := h.turn hsize pool
    · unfold Session.turns
      generalize s.turn pool = r at hdone ⊢
      cases hdone with
      | ended hf => exact .inr ⟨_, rfl, hf⟩
      | worked hp =>
        -- Each turn that does something leaves less to do, so the turns that are left are enough for it.
        obtain ⟨hgoes, hending⟩ | ⟨e, he, hf⟩ := ih hp.working (Nat.lt_of_lt_of_le hp.left_lt (Nat.le_of_lt_succ hn))
        · exact .inl ⟨hgoes, fun side => (hp.ending side).symm.trans (hending side)⟩
        · exact .inr ⟨e, he, hp.fault hf⟩
    · exact .inl ⟨by rw [turns_of_quiet hnone], h.ending_eq_none hquiet⟩

theorem left_lt_enough (s : Session) : s.left < s.enough := by
  have hle (b : Bool) : b.toNat ≤ 1 := b.toNat_le
  have := hle (s.bridge.canWrite .client)
  have := hle (s.bridge.canWrite .backend)
  simp only [left, due, enough, stream, Side.other]
  omega

/-- A session that goes on ends just if one of its streams has ended, with the error of such a stream. -/
theorem Working.run (h : s.Working size) (hsize : 0 < size) (pool : Pool) :
    ((s.run pool).1 = none ↔ ∀ side, (s.stream side).ending = none) ∧ ∀ e, (s.run pool).1 = some e → s.Fault e := by
  obtain ⟨hnone, hending⟩ | ⟨e, he, hf⟩ := h.turns hsize pool s.left_lt_enough
  · exact ⟨iff_of_true hnone hending, fun e he => absurd (hnone.symm.trans he) (by simp)⟩
  · refine ⟨iff_of_false (by rw [Session.run, he]; simp) fun hall => ?_, fun e' he' => ?_⟩
    · obtain ⟨side, ending, hending, -⟩ := hf
      exact absurd ((hall side).symm.trans hending) (by simp)
    · obtain rfl : e = e' := Option.some.inj (he.symm.trans he')
      exact hf

end Session

/-! ## Clients that are welcomed -/

namespace Forward

/-- Why a client that is welcomed has no session, if it has none: there are no buffers for it, no backend is reached, or
the header does not fit a buffer. -/
def refusal? (number : Nat) (network : Network) (now : Time) (client : Address) (here : Option Address) (f : Forward) :
    Option SessionError :=
  let length := ((f.header client here).getD []).length
  match (Bridge.create number f.pool).1, (f.reach network now client).1 with
  | .error e, _ => some (.pool e)
  | .ok _, .noBackend => some .noBackend
  | .ok _, .exhausted last why => some (.exhausted last why)
  | .ok _, .connected _ =>
    if length ≤ f.pool.size then none else some (.bridge (.headerTooLarge length f.pool.size))

variable {f : Forward} {number : Nat} {network : Network} {now : Time} {client : Address} {here : Option Address}

/-- There is no session for just that reason, and one that there is is at work. -/
theorem outcome_welcome (hp : f.pool.Reachable) :
    (∀ e, (f.welcome number network now client here).1.outcome = .error e ↔
      f.refusal? number network now client here = some e) ∧
    ∀ s, (f.welcome number network now client here).1.outcome = .ok s → s.Working f.pool.size := by
  unfold welcome refusal?
  cases hc : Bridge.create number f.pool with
  | mk made pool =>
    cases made with
    | error e => simp
    | ok b =>
      obtain ⟨x, y, q, -, -, hxy⟩ := Bridge.create_eq_ok hc
      have hk : (b.attach client).Keeps f.pool.size := (Bridge.keeps_create hp hc).attach client
      have hu : (b.attach client).Unconnected := hxy ▸ Bridge.unconnected_attach number x y client
      have hreach : ({ f with pool }.reach network now client).1 = (f.reach network now client).1 := rfl
      have hheader : ({ f with pool }.reach network now client).2.2.header client here = f.header client here := rfl
      cases hd : (f.reach network now client).1 with
      | noBackend => simp [join, hreach, hd]
      | exhausted last why => simp [join, hreach, hd]
      | connected backend =>
        have herror := (hk.begin backend).error_joined (hu.begin backend) (f.header client here)
        have hkeeps := (hk.begin backend).joined (f.header client here)
        have hattuned := (hu.begin backend).joined (f.header client here)
        cases hj : ((b.attach client).begin backend).joined (f.header client here) with
        | mk e b' =>
          rw [hj] at herror hkeeps hattuned
          by_cases hfits : ((f.header client here).getD []).length ≤ f.pool.size
          · obtain rfl : e = none := herror.trans (if_pos hfits)
            simpa [join, hreach, hheader, hd, hj, hfits] using Session.Working.mk hkeeps hattuned
          · obtain rfl := herror.trans (if_neg hfits)
            simp [join, hreach, hheader, hd, hj, hfits]

end Forward

/-- A session with buffers of a size, as it can come to be: a client was welcomed, and from then on bytes arrive or are
taken, or the session goes on and does not end. -/
inductive Session.Served (size : Nat) : Session → Prop
  | welcomed {f : Forward} {number : Nat} {network : Network} {now : Time} {client : Address} {here : Option Address}
      {s : Session} : f.pool.Reachable → f.pool.size = size →
      (f.welcome number network now client here).1.outcome = .ok s → Served size s
  | arrived {s : Session} (side : Side) (bytes : List UInt8) (ending : Option Ending) :
      Served size s → Served size (s.arrive side bytes ending)
  | taken {s : Session} (side : Side) : Served size s → Served size (s.take side).2
  | advanced {s s' : Session} {f f' : Forward} : Served size s → f.advance s = (none, s', f') → Served size s'

theorem Session.Served.working {size : Nat} {s : Session} (h : s.Served size) : s.Working size := by
  induction h with
  | welcomed hp hsize hok => exact hsize ▸ (Forward.outcome_welcome hp).2 _ hok
  | arrived side bytes ending _ ih => exact ⟨by simpa [arrive] using ih.keeps, by simpa [arrive] using ih.attuned⟩
  | taken side _ ih => exact ⟨by simpa [take] using ih.keeps, by simpa [take] using ih.attuned⟩
  | @advanced s s' f f' _ hadvance ih =>
    unfold Forward.advance at hadvance
    split at hadvance
    · rename_i s₁ hr
      cases hadvance
      obtain ⟨wakes, hwakes⟩ := s.run_leads f.pool
      rw [hr] at hwakes
      exact ⟨hwakes ▸ ih.keeps.wakeAll, hwakes ▸ ih.attuned.wakeAll⟩
    · cases hadvance

/-- A session that goes on ends just if one of its streams has ended, with the error of such a stream. -/
theorem Forward.advance_served {size : Nat} {s : Session} (h : s.Served size) (hsize : 0 < size) (f : Forward) :
    ((f.advance s).1 = none ↔ ∀ side, (s.stream side).ending = none) ∧ ∀ e, (f.advance s).1 = some e → s.Fault e := by
  have hsame : (f.advance s).1 = (s.run f.pool).1 := by
    unfold advance
    split <;> rename_i hr <;> rw [hr]
  rw [hsame]
  exact h.working.run hsize f.pool

end AffinityRelay
