import AffinityRelay.Bridge.Session
import AffinityRelay.Endpoint.Basic
import AffinityRelay.ProxyHeader
import AffinityRelay.Rule.Options

/-!
# Forwarded ports

- `Forward`: what all sessions of a forwarded port share, and `Forward.ofOptions?`: the same as its options ask for;
- `Forward.reach`: the attempts to reach a backend for a client;
- `Forward.welcome`: the session of an accepted client, from its buffers to its backend;
- `Forward.advance`: a session goes on, and perhaps ends;
- `Forward.dismiss`: the buffers of a bridge go back.

However a session ends, and even if it does not come about, the pool has its buffers back after that.
-/

namespace AffinityRelay

/-- Why a session does not come about, or how it ends. -/
inductive SessionError where
  | pool (cause : PoolError)
  | noBackend
  | exhausted (last : Address) (why : ConnectError)
  | bridge (cause : BridgeError)
  deriving DecidableEq, Repr

def SessionError.message : SessionError → String
  | pool cause => cause.message
  | noBackend => "no backend address available"
  | exhausted last why => s!"backend connect failed, last tried {last}: {why.message}"
  | bridge cause => cause.message

/-- What a bridge's end is to whoever waits for it. That one of the sides closed is not an error. -/
def SessionError.ofEnd : BridgeError → Option SessionError
  | .closedBy _ => none
  | e => some (.bridge e)

/-- What all sessions of a forwarded port share. -/
structure Forward where
  listen : Address
  endpoint : Endpoint
  pool : Pool := {}
  /-- Whether backends are told who the client is. -/
  sendsHeader : Bool := false
  /-- How long an attempt to reach a backend may take. -/
  patience : Time := 10 * second

/-- What became of an accepted client: the backend that was reached, and the session with it. -/
structure Admission where
  backend : Option Address
  outcome : Except SessionError Session
  deriving Repr

namespace Forward

/-- A forwarded port as its options ask for, whose decisions are announced, unless there cannot be room for its table. -/
def ofOptions? (options : Options) (listen : Address) (specs : List HostPort) (chance : Chance) (now : Time) :
    Option Forward :=
  (Store.create? options.sticky).map fun store =>
    let balancer : Balancer :=
      { policy := options.policy, failover := options.failover, announces := true, store, chance }
    { listen, endpoint := Endpoint.create specs balancer now, sendsHeader := options.sendsHeader }

/-- The attempts to reach a backend for a client. -/
def reach (network : Network) (now : Time) (client : Address) (f : Forward) :
    Dialed ConnectError × List Announcement × Forward :=
  let (a, endpoint) := f.endpoint.start client.ip
  let (dialed, _, told, endpoint) := endpoint.dial (fun _ backend => network.fails? now f.patience backend) now a
  (dialed, told, { f with endpoint })

/-- The first bytes for a backend, if it is told who the client is, and to what address that connected if this is
known. -/
def header (client : Address) (here : Option Address) (f : Forward) : Option (List UInt8) :=
  if f.sendsHeader then some (ProxyHeader.bytes (some client) here) else none

/-- A bridge ends, and its buffers go back. -/
def dismiss (bridge : Bridge) (f : Forward) : Forward :=
  { f with pool := (bridge.close f.pool).2 }

/-- What a bridge becomes with what the attempts came to. -/
def join (dialed : Dialed ConnectError) (client : Address) (here : Option Address) (bridge : Bridge) (f : Forward) :
    Admission × Forward :=
  match dialed with
  | .noBackend => (⟨none, .error .noBackend⟩, f.dismiss bridge)
  | .exhausted last why => (⟨none, .error (.exhausted last why)⟩, f.dismiss (bridge.begin last))
  | .connected backend =>
    match (bridge.begin backend).joined (f.header client here) with
    | (some e, bridge) => (⟨some backend, .error (.bridge e)⟩, f.dismiss bridge)
    | (none, bridge) => (⟨some backend, .ok { bridge }⟩, f)

/-- A client is accepted that connected to an address, if this is known: the bridge of a number gets its buffers, and
then a backend is reached for it. -/
def welcome (number : Nat) (network : Network) (now : Time) (client : Address) (here : Option Address) (f : Forward) :
    Admission × List Announcement × Forward :=
  match Bridge.create number f.pool with
  | (.error e, pool) => (⟨none, .error (.pool e)⟩, [], { f with pool })
  | (.ok bridge, pool) =>
    let (dialed, told, f) := { f with pool }.reach network now client
    let (admission, f) := f.join dialed client here (bridge.attach client)
    (admission, told, f)

/-- A session goes on as far as it can. If it ends, its buffers go back. -/
def advance (s : Session) (f : Forward) : Option BridgeError × Session × Forward :=
  match s.run f.pool with
  | (none, s) => (none, s, f)
  | (some e, s) => (some e, s, f.dismiss s.bridge)

end Forward

end AffinityRelay
