import AffinityRelay.Bridge.Basic
import AffinityRelay.Network

/-!
# Bridges at work

- `Stream`: a connection, with what the other end has sent and what it has been sent;
- `Session`: a bridge and its two connections;
- `Bridge.interest`: what a side would be woken up for;
- `Session.read`, `Session.write`: what a side does when it was woken up;
- `Session.turn`, `Session.run`: one side after another works, until none has anything to do or the bridge ends;
- `Session.arrive`, `Session.take`: what the other ends of the connections do.
-/

namespace AffinityRelay

/-- A connection: what has arrived and was not read yet, what comes after that if no more can arrive, and what went
out. -/
structure Stream where
  arrived : List UInt8 := []
  ending : Option Ending := none
  departed : List UInt8 := []
  deriving DecidableEq, Repr

namespace Stream

/-- Whether there is something to read: bytes, or the end. -/
def readable (s : Stream) : Bool :=
  !s.arrived.isEmpty || s.ending.isSome

/-- What is wrong with a connection of which all was read. -/
def failure? (s : Stream) : Option BridgeError :=
  match s.arrived, s.ending with
  | [], some (.failed text) => some (.connection text)
  | _, _ => none

end Stream

namespace Bridge

/-- What a side would be woken up for: it has a connection, waits for it, and holds the buffer for it. -/
def interest (side : Side) (b : Bridge) : Want :=
  let h := b.half side
  { read := h.isOpen && h.want.read && b.canRead side
    write := h.isOpen && h.want.write && b.canWrite side }

/-- Whether a side would be woken up for anything. -/
def interested (side : Side) (b : Bridge) : Bool :=
  (b.interest side).read || (b.interest side).write

end Bridge

/-- A bridge and its connections. -/
structure Session where
  bridge : Bridge
  client : Stream := {}
  backend : Stream := {}
  deriving DecidableEq, Repr

namespace Session

def stream (s : Session) : Side → Stream
  | .client => s.client
  | .backend => s.backend

def change (side : Side) (f : Stream → Stream) (s : Session) : Session :=
  match side with
  | .client => { s with client := f s.client }
  | .backend => { s with backend := f s.backend }

/-- A side reads what has arrived, as much as its buffer has room for. -/
def read (side : Side) (s : Session) : Option BridgeError × Session :=
  match (s.stream side).failure? with
  | some e => (some e, s)
  | none =>
    match s.bridge.receive side (s.stream side).arrived with
    | none => (none, s)
    | some (n, e, bridge) =>
      (e, { s with bridge }.change side fun t => { t with arrived := t.arrived.drop n })

/-- A side sends at most `n` of the bytes it has to send. -/
def write (pool : Pool) (side : Side) (n : Nat) (s : Session) : Option BridgeError × Session :=
  match (s.stream side).failure?, s.bridge.send pool side n with
  | some e, _ => (some e, s)
  | none, none => (none, s)
  | none, some (bytes, bridge) =>
    (none, { s with bridge }.change side fun t => { t with departed := t.departed ++ bytes })

/-- Whether a side has something to do that it would be woken up for. -/
def ready (side : Side) (s : Session) : Bool :=
  let i := s.bridge.interest side
  i.read && (s.stream side).readable || i.write

/-- All that a side has to send. -/
def owed (side : Side) (s : Session) : Nat :=
  (s.bridge.half side).outbound.elim 0 Buffer.capacity

/-- A side that was woken up reads what there is to read, and then sends all it has. -/
def work (pool : Pool) (side : Side) (s : Session) : Option BridgeError × Session :=
  let i := s.bridge.interest side
  match if i.read && (s.stream side).readable then s.read side else (none, s) with
  | (some e, s) => (some e, s)
  | (none, s) => if i.write then s.write pool side (s.owed side) else (none, s)

/-- One of the sides that have something to do does it. A bridge of which neither side waits for anything ends. -/
def turn (pool : Pool) (s : Session) : Option BridgeError × Session :=
  if !s.bridge.interested .client && !s.bridge.interested .backend then (some (.closedBy .client), s)
  else if s.ready .client then s.work pool .client
  else if s.ready .backend then s.work pool .backend
  else (none, s)

/-- So many turns, or fewer if the bridge ends. -/
def turns (pool : Pool) : Nat → Session → Option BridgeError × Session
  | 0, s => (none, s)
  | n + 1, s =>
    match s.turn pool with
    | (none, s) => turns pool n s
    | ended => ended

/-- More turns than there is anything to do for: each reads a byte, sends what a buffer holds, or ends the bridge. -/
def enough (s : Session) : Nat :=
  2 * (s.client.arrived.length + s.backend.arrived.length) + 4

/-- Turns until there is nothing to do, or until the bridge ends. -/
def run (pool : Pool) (s : Session) : Option BridgeError × Session :=
  s.turns pool s.enough

/-- The session after the other end of a connection has sent bytes, and perhaps ended it. -/
def arrive (side : Side) (bytes : List UInt8) (ending : Option Ending) (s : Session) : Session :=
  s.change side fun t => { t with arrived := t.arrived ++ bytes, ending := t.ending.or ending }

/-- What went out on a side since it was last taken, and the session after it was taken. -/
def take (side : Side) (s : Session) : List UInt8 × Session :=
  ((s.stream side).departed, s.change side fun t => { t with departed := [] })

end Session

end AffinityRelay
