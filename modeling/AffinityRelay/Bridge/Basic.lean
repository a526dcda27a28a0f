import AffinityRelay.Address.Text
import AffinityRelay.Pool

/-!
# Bridges

- `Side`, `Half`: the two ends of a bridge, with what each waits for and the buffers it holds;
- `Bridge`: the two halves;
- `Bridge.create`, `Bridge.close`: take the two buffers from a pool, and give back what is held;
- `Bridge.begin`, `Bridge.connected`: an attempt to reach a backend begins, and has succeeded;
- `Bridge.received`, `Bridge.sent`: bytes have come in on one side, or gone out;
- `Bridge.receive`, `Bridge.send`: the same with the bytes themselves;
- `Bridge.received?`, `Bridge.sent?`: the former two within the limits of a machine.

Each direction has one buffer. While its source may read, the source holds it; once something was read, it moves to the
other side, and when that has sent every byte, it moves back. So a side reads nothing while the other has not sent what
was read before.
-/

namespace AffinityRelay

/-- The two ends of a bridge. -/
inductive Side where
  | client
  | backend
  deriving DecidableEq, Repr

namespace Side

def other : Side → Side
  | client => backend
  | backend => client

def word : Side → String
  | client => "client"
  | backend => "backend"

@[simp] theorem other_other (s : Side) : s.other.other = s := by
  cases s <;> rfl

end Side

/-- What a half waits for. -/
structure Want where
  connect : Bool := false
  read : Bool := false
  write : Bool := false
  deriving DecidableEq, Repr

/-- A letter for each thing waited for. -/
def Want.letters (w : Want) : String :=
  (if w.connect then "c" else "") ++ (if w.read then "r" else "") ++ (if w.write then "w" else "")

/-- Names one half of one bridge. -/
structure Token where
  bridge : Nat
  side : Side
  deriving DecidableEq, Repr

/-- One end of a bridge: whom it talks to, what it waits for, the buffer it may read into, and the one it sends from. -/
structure Half where
  token : Token
  remote : Option Address := none
  /-- Whether there is a connection to read from and write to. -/
  isOpen : Bool := false
  inbound : Option Buffer := none
  outbound : Option Buffer := none
  want : Want := {}
  deriving DecidableEq, Repr

/-- The buffers that a half holds. -/
def Half.buffers (h : Half) : List Buffer :=
  h.inbound.toList ++ h.outbound.toList

/-- Two connections joined. -/
structure Bridge where
  client : Half
  backend : Half
  deriving DecidableEq, Repr

/-- How a bridge can come to an end. -/
inductive BridgeError where
  | closedBy (side : Side)
  | headerTooLarge (length capacity : Nat)
  | connection (text : String)
  deriving DecidableEq, Repr

def BridgeError.message : BridgeError → String
  | closedBy side => s!"connection closed by {side.word}"
  | headerTooLarge length capacity => s!"PROXY header of {length} bytes exceeds {capacity}-byte buffer"
  | connection text => s!"I/O error: {text}"

namespace Bridge

def half (b : Bridge) : Side → Half
  | .client => b.client
  | .backend => b.backend

/-- The bridge with a change made to one half. -/
def change (side : Side) (f : Half → Half) (b : Bridge) : Bridge :=
  match side with
  | .client => { b with client := f b.client }
  | .backend => { b with backend := f b.backend }

@[simp] theorem half_change_self (side : Side) (f : Half → Half) (b : Bridge) :
    (b.change side f).half side = f (b.half side) := by
  cases side <;> rfl

@[simp] theorem half_change_other (side : Side) (f : Half → Half) (b : Bridge) :
    (b.change side f).half side.other = b.half side.other := by
  cases side <;> rfl

@[simp] theorem half_other_change (side : Side) (f : Half → Half) (b : Bridge) :
    (b.change side.other f).half side = b.half side := by
  cases side <;> rfl

/-- A bridge for an accepted client, with a buffer for each direction. -/
def ofBuffers (number : Nat) (fromClient fromBackend : Buffer) : Bridge where
  client := { token := ⟨number, .client⟩, inbound := some fromClient }
  backend := { token := ⟨number, .backend⟩, inbound := some fromBackend }

/-- The second buffer is taken. If there is none, the first goes back. -/
def complete (number : Nat) (fromClient : Buffer) (pool : Pool) : Except PoolError Bridge × Pool :=
  match pool.checkout with
  | (.ok fromBackend, pool) => (.ok (ofBuffers number fromClient fromBackend), pool)
  | (.error e, pool) => (.error e, pool.release fromClient)

/-- A bridge with buffers from a pool. -/
def create (number : Nat) (pool : Pool) : Except PoolError Bridge × Pool :=
  match pool.checkout with
  | (.ok fromClient, pool) => complete number fromClient pool
  | (.error e, pool) => (.error e, pool)

/-- The half on the other side of a half of this bridge. -/
def peer? (t : Token) (b : Bridge) : Option Half :=
  if t = b.client.token then some b.backend
  else if t = b.backend.token then some b.client
  else none

/-- The client's connection is there. -/
def attach (remote : Address) (b : Bridge) : Bridge :=
  b.change .client fun h => { h with isOpen := true, remote := some remote }

/-- An attempt to reach a backend begins. -/
def begin (remote : Address) (b : Bridge) : Bridge :=
  b.change .backend fun h =>
    { h with isOpen := false, remote := some remote, want := { h.want with connect := true } }

/-- A side waits no longer for bytes to read. If it holds the buffer of its direction, the other side has it to send. -/
def pass (side : Side) (b : Bridge) : Bridge :=
  let me := b.half side
  let b := b.change side fun h => { h with want := { h.want with read := false }, inbound := none }
  match me.inbound with
  | none => b
  | some buffer =>
    b.change side.other fun h => { h with outbound := some buffer, want := { h.want with write := true } }

/-- A side waits no longer to send. If it holds the buffer it sent from, the other side has it to read into. -/
def passBack (pool : Pool) (side : Side) (b : Bridge) : Bridge :=
  let me := b.half side
  let b := b.change side fun h => { h with want := { h.want with write := false }, outbound := none }
  match me.outbound with
  | none => b
  | some buffer =>
    b.change side.other fun h =>
      { h with inbound := some (pool.recycle buffer), want := { h.want with read := true } }

@[simp] theorem inbound_pass_self (side : Side) (b : Bridge) : ((b.pass side).half side).inbound = none := by
  cases h : (b.half side).inbound <;> simp [pass, h]

@[simp] theorem outbound_pass_self (side : Side) (b : Bridge) :
    ((b.pass side).half side).outbound = (b.half side).outbound := by
  cases h : (b.half side).inbound <;> simp [pass, h]

@[simp] theorem inbound_pass_other (side : Side) (b : Bridge) :
    ((b.pass side).half side.other).inbound = (b.half side.other).inbound := by
  cases h : (b.half side).inbound <;> simp [pass, h]

@[simp] theorem outbound_pass_other (side : Side) (b : Bridge) :
    ((b.pass side).half side.other).outbound = (b.half side).inbound.or (b.half side.other).outbound := by
  cases h : (b.half side).inbound <;> simp [pass, h]

@[simp] theorem outbound_passBack_self (pool : Pool) (side : Side) (b : Bridge) :
    ((b.passBack pool side).half side).outbound = none := by
  cases h : (b.half side).outbound <;> simp [passBack, h]

@[simp] theorem inbound_passBack_self (pool : Pool) (side : Side) (b : Bridge) :
    ((b.passBack pool side).half side).inbound = (b.half side).inbound := by
  cases h : (b.half side).outbound <;> simp [passBack, h]

@[simp] theorem outbound_passBack_other (pool : Pool) (side : Side) (b : Bridge) :
    ((b.passBack pool side).half side.other).outbound = (b.half side.other).outbound := by
  cases h : (b.half side).outbound <;> simp [passBack, h]

@[simp] theorem inbound_passBack_other (pool : Pool) (side : Side) (b : Bridge) :
    ((b.passBack pool side).half side.other).inbound =
      ((b.half side).outbound.map pool.recycle).or (b.half side.other).inbound := by
  cases h : (b.half side).outbound <;> simp [passBack, h]

/-- Both sides wait for bytes to read. -/
def listening (b : Bridge) : Bridge :=
  { client := { b.client with want := { b.client.want with read := true } }
    backend := { b.backend with want := { b.backend.want with connect := false, read := true } } }

/-- A backend is reached. A header is the first that is sent to it; one that does not fit the buffer ends the bridge. -/
def connected (header : Option (List UInt8)) (b : Bridge) : Option BridgeError × Bridge :=
  let b := b.listening
  match header, b.client.inbound with
  | some bytes, some buffer =>
    let p := buffer.put bytes
    if p.1 < bytes.length then
      (some (.headerTooLarge bytes.length p.2.capacity),
        b.change .client fun h => { h with inbound := some p.2.clear })
    else (none, (b.change .client fun h => { h with inbound := some p.2 }).pass .client)
  | _, _ => (none, b)

/-- The backend's connection is there, and it is reached. -/
def joined (header : Option (List UInt8)) (b : Bridge) : Option BridgeError × Bridge :=
  (b.change .backend fun h => { h with isOpen := true }).connected header

/-- Whether a side may read. -/
def canRead (side : Side) (b : Bridge) : Bool :=
  (b.half side).inbound.isSome && (b.half side.other).outbound.isNone

/-- Whether a side has a buffer to send from. -/
def canWrite (side : Side) (b : Bridge) : Bool :=
  (b.half side).outbound.isSome

/-- So many bytes have come in. None at all means that the connection has ended. -/
def received (side : Side) (n : Nat) (b : Bridge) : Option BridgeError × Bridge :=
  if n = 0 then (some (.closedBy side), b)
  else
    (none, (b.change side fun h => { h with inbound := h.inbound.map (Buffer.advance n) }).pass side)

/-- So many bytes have gone out. -/
def sent (pool : Pool) (side : Side) (n : Nat) (b : Bridge) : Bridge :=
  match (b.half side).outbound with
  | none => b
  | some buffer =>
    let buffer := buffer.consume n
    let b := b.change side fun h => { h with outbound := some buffer }
    if buffer.hasPending then b else b.passBack pool side

/-- So many bytes have come in, unless they cannot be counted with those that came before. -/
def received? (side : Side) (n : Nat) (b : Bridge) : Option (Option BridgeError × Bridge) :=
  if (b.half side).inbound.all fun buffer => (buffer.advance? n).isSome then some (b.received side n) else none

/-- So many bytes have gone out, unless they cannot be counted with those that went before. -/
def sent? (pool : Pool) (side : Side) (n : Nat) (b : Bridge) : Option Bridge :=
  if (b.half side).outbound.all fun buffer => (buffer.consume? n).isSome then some (b.sent pool side n) else none

/-- Bytes come in on a side that may read, as many as have room: how many, if any, and what that did. -/
def receive (side : Side) (bytes : List UInt8) (b : Bridge) : Option (Nat × Option BridgeError × Bridge) :=
  if b.canRead side then
    (b.half side).inbound.map fun buffer =>
      let n := min bytes.length buffer.room
      (n, (b.change side fun h => { h with inbound := some (buffer.overwrite bytes) }).received side n)
  else none

/-- At most `n` bytes go out on a side that has a buffer to send from: the bytes, and what that did. -/
def send (pool : Pool) (side : Side) (n : Nat) (b : Bridge) : Option (List UInt8 × Bridge) :=
  (b.half side).outbound.map fun buffer =>
    let bytes := buffer.pending.take n
    (bytes, b.sent pool side bytes.length)

/-- What a half is after the bridge is closed. -/
def closedHalf (h : Half) : Half :=
  { h with isOpen := false, inbound := none, outbound := none, want := {} }

/-- Every buffer goes back: those of the client first, and of each half the one it reads into first. -/
def close (pool : Pool) (b : Bridge) : Bridge × Pool :=
  ({ client := closedHalf b.client, backend := closedHalf b.backend },
    (b.client.buffers ++ b.backend.buffers).foldl (fun p buffer => p.release buffer) pool)

end Bridge

end AffinityRelay
