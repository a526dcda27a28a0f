import AffinityRelay.Relay.Acceptor
import AffinityRelay.Relay.Forward

/-!
# Relays

- `Relay`: a forwarded port at work, with its sessions and, if it has workers, what hands clients to them;
- `Relay.bind`, `Relay.ofOptions`: a relay that listens at an address of the machine;
- `Relay.connect`: a client connects, and has a session if a backend is reached for it;
- `Relay.deliver`: the end of a session sends bytes, or closes;
- `Relay.stop`, `Relay.drained`: the relay is told to stop, and whether it has no sessions left.

A relay without workers has every session at once, and goes on accepting clients until it is told to stop.
-/

namespace AffinityRelay

/-- A forwarded port at work. -/
structure Relay where
  now : Time := 0
  network : Network
  forward : Forward
  names : Directory := { literal := true }
  /-- What hands clients to workers. Without it, every client has its session at once. -/
  acceptor : Option Acceptor := none
  /-- Whether it was to have more workers than there can be room for. Nobody accepts clients then. -/
  understaffed : Bool := false
  signal : Watch := {}
  /-- Whether someone has waited for what hands clients to workers to end. Nobody does so again. -/
  awaited : Bool := false
  /-- The sessions that have not ended, each with its number. -/
  sessions : List (Nat × Session) := []
  /-- How many clients were accepted, which is the number of the next session. -/
  accepted : Nat := 0
  /-- The decisions that were announced, and that nobody has taken. -/
  told : List Announcement := []

/-- Why a relay cannot begin. -/
inductive RelayError where
  /-- There cannot be room for its table of assignments. -/
  | tooLarge (sticky : StoreConfig)
  | unavailable (listen : Address) (why : BindError)
  deriving DecidableEq, Repr

def RelayError.message : RelayError → String
  | tooLarge sticky => s!"no room for {sticky.elements} assignments"
  | unavailable listen _ => s!"failed to bind {listen}"

/-- What the two ends of a session have been sent, and how it ended if it did. -/
structure Delivery where
  toClient : List UInt8 := []
  toBackend : List UInt8 := []
  ended : Option BridgeError := none
  deriving DecidableEq, Repr

namespace Relay

/-- What hands clients to workers does as much as it can of some actions. -/
def act (actions : List Acceptor.Action) (r : Relay) : Relay :=
  { r with acceptor := r.acceptor.map fun a => a.run r.now r.signal actions }

/-- A relay that listens at an address of the machine, with workers or without. -/
def bind (network : Network) (forward : Forward) (workers : Option Nat) : Except RelayError Relay :=
  match network.claim forward.listen with
  | .error why => .error (.unavailable forward.listen why)
  | .ok (listen, network) =>
    let acceptor := workers.bind Acceptor.ofWorkers?
    let understaffed := workers.isSome && acceptor.isNone
    .ok (({ network, forward := { forward with listen }, acceptor, understaffed } : Relay).act [.subscribe])

/-- The addresses of the backends are looked up. -/
def resolve (r : Relay) : Except ResolveError Nat × Relay :=
  let (count, endpoint, names) := r.forward.endpoint.resolve (Directory.look r.now) r.now r.names
  (count, { r with names, forward := { r.forward with endpoint } })

/-- A relay between a listening address and some backends, as its options ask for, whose backends are looked up. -/
def ofOptions (options : Options) (network : Network) (listen : Address) (backends : List Address) (pool : Pool)
    (patience : Time) (workers : Option Nat) (chance : Chance) : Except RelayError Relay :=
  let specs := backends.map fun a => ({ host := String.ofList a.ip.text, port := a.port } : HostPort)
  match Forward.ofOptions? options listen specs chance 0 with
  | none => .error (.tooLarge options.sticky)
  | some forward => (bind network { forward with pool, patience } workers).map fun r => r.resolve.2

/-- Whether clients can connect. -/
def listening (r : Relay) : Bool :=
  (r.network.fails? r.now second r.forward.listen).isNone && !r.understaffed &&
    r.acceptor.elim (!r.signal.value) Acceptor.listening

/-- What makes the worker of a client run its bridge. -/
def entrance (number : Nat) (r : Relay) : List Acceptor.Action :=
  [.accept, .hand, .work (r.acceptor.elim 0 (Acceptor.workerOf number)) .take]

/-- What makes the worker of a client put its bridge away. -/
def exit (number : Nat) (r : Relay) : List Acceptor.Action :=
  let worker := r.acceptor.elim 0 (Acceptor.workerOf number)
  [.work worker (.finish number), .notify, .work worker (.reap number)]

/-- A session is put away. -/
def remove (number : Nat) (r : Relay) : Relay :=
  ({ r with sessions := r.sessions.filter (·.1 ≠ number) }).act (r.exit number)

/-- A client connects, perhaps to a known address: the number of its session and what became of it, unless nobody
accepts it. -/
def connect (client : Address) (here : Option Address) (r : Relay) : Option (Nat × Admission) × Relay :=
  if r.listening then
    let number := r.accepted
    let r := { r with accepted := number + 1 }.act (r.entrance number)
    let (admission, told, forward) := r.forward.welcome number r.network r.now client here
    let r := { r with forward, told := r.told ++ told }
    match admission.outcome with
    | .ok session => (some (number, admission), { r with sessions := r.sessions ++ [(number, session)] })
    | .error _ => (some (number, admission), r.remove number)
  else (none, r)

/-- The ends of a session send bytes, or close, and the session goes on as far as it can. A session that has ended gives
nothing. -/
def deliver (number : Nat) (ends : Session → Session) (r : Relay) : Delivery × Relay :=
  match r.sessions.lookup number with
  | none => ({}, r)
  | some session =>
    let (ended, session, forward) := r.forward.advance (ends session)
    let (toClient, session) := session.take .client
    let (toBackend, session) := session.take .backend
    let r := { r with forward, sessions := r.sessions.map fun p => if p.1 = number then (number, session) else p }
    ({ toClient, toBackend, ended }, if ended.isSome then r.remove number else r)

/-- Whether the relay has stopped accepting clients in good order, if it was to have workers. -/
def stopped (r : Relay) : Option Bool :=
  if r.understaffed then some false else r.acceptor.map fun a => !a.listening

/-- The relay is told to stop: whether it has stopped accepting clients in good order, unless there is nothing that could
be waited for. -/
def stop (r : Relay) : Option Bool × Relay :=
  let after := ({ r with signal := r.signal.raise }).act [.heed]
  (if r.awaited then none else after.stopped, { after with awaited := true })

/-- What a wait for the last session comes to that may take no time. Without workers the sessions are not counted. -/
def drained (r : Relay) : Bool :=
  let d := (r.acceptor.elim {} Acceptor.drain).step r.now (.arrive r.now)
  ((d.settle r.now).waits.getLast?.bind Drain.result).getD false

end Relay

end AffinityRelay
