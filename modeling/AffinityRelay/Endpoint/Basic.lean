import AffinityRelay.Balancer.Dial
import AffinityRelay.Endpoint.Names

/-!
# Endpoints

- `Endpoint`: the backends of a forwarded port, their balancer, and whether their addresses should be looked up again;
- `Endpoint.install`: takes the addresses that were found; if there are none, nothing changes
  (`Endpoint.install_nil`);
- `Endpoint.resolve`: looks every backend up and installs what was found;
- `Endpoint.next`, `Endpoint.walk`: the next backend of a connection, and the backends of so many attempts;
- `Endpoint.dial`: all attempts to reach one.
-/

namespace AffinityRelay

/-- The backends of a forwarded port. -/
structure Endpoint where
  specs : List HostPort
  balancer : Balancer
  /-- Whether a backend was asked for since the addresses were looked up. -/
  used : Bool := false
  /-- Until when the addresses are good. -/
  good : Time

/-- Why an endpoint has no new addresses. -/
inductive ResolveError where
  | unresolved (specs : List HostPort)
  deriving DecidableEq, Repr

def ResolveError.message : ResolveError → String
  | unresolved specs => s!"no address resolved for {String.ofList (HostPort.listText specs)}"

namespace Endpoint

/-- How long addresses are good. -/
def lifetime : Time := 300 * second

/-- An endpoint without addresses. It is in order until time goes on. -/
def create (specs : List HostPort) (balancer : Balancer) (now : Time) : Endpoint :=
  { specs, balancer, good := now }

def expired (now : Time) (e : Endpoint) : Bool :=
  e.good < now

/-- Whether the addresses should be looked up again. -/
def needsRefresh (now : Time) (e : Endpoint) : Bool :=
  e.used || e.expired now

/-- Takes the addresses that were found, and says how many. Where none was found, everything stays as it is. -/
def install (now : Time) (found : List Address) (e : Endpoint) : Except ResolveError Nat × Endpoint :=
  if found.isEmpty then (.error (.unresolved e.specs), e)
  else
    (.ok found.length,
      { e with used := false, good := now + lifetime, balancer := e.balancer.install found })

/-- Looks every backend up, in their order, and takes what was found. -/
def resolve {σ : Type} (look : Lookup σ) (now : Time) (e : Endpoint) (s : σ) :
    Except ResolveError Nat × Endpoint × σ :=
  let (found, s) := gather look e.specs s
  let (count, e) := e.install now found
  (count, e, s)

/-- The endpoint with another table of assignments. -/
def withStore (store : Store) (e : Endpoint) : Endpoint :=
  { e with balancer := { e.balancer with store } }

/-- Begins a connection of a client. -/
def start (client : Ip) (e : Endpoint) : Attempts × Endpoint :=
  let (a, balancer) := e.balancer.start client
  (a, { e with balancer })

/-- The backend of the next attempt. -/
def next (now : Time) (a : Attempts) (e : Endpoint) : Option Address × Attempts × Endpoint :=
  let (backend, a, balancer) := e.balancer.next now a
  (backend, a, { e with used := true, balancer })

/-- The backends of a connection's attempts if no attempt ends it, until there is none or there are as many as asked
for. -/
def walk (now : Time) : Nat → Attempts → Endpoint → List Address × Attempts × Endpoint
  | 0, a, e => ([], a, e)
  | n + 1, a, e =>
    match e.next now a with
    | (none, a, e) => ([], a, e)
    | (some backend, a, e) =>
      let (more, a, e) := walk now n a e
      (backend :: more, a, e)

/-- Attempts, one after another, of which `connect` says why they fail, if they do. -/
def dial {ε : Type} (connect : Nat → Address → Option ε) (now : Time) (a : Attempts) (e : Endpoint) :
    Dialed ε × Attempts × List Announcement × Endpoint :=
  let (result, a, told, balancer) := e.balancer.dial connect now a
  (result, a, told, { e with used := true, balancer })

theorem install_nil (now : Time) (e : Endpoint) : e.install now [] = (.error (.unresolved e.specs), e) := rfl

end Endpoint

end AffinityRelay
