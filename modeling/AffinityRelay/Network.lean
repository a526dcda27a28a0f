import AffinityRelay.Address.Locate
import AffinityRelay.Address.Text
import AffinityRelay.Clock

/-!
# The network of one machine

- `Network`: whether a machine can reach its own addresses, and at which of them someone listens;
- `Network.denied?`: why nobody can listen at an address;
- `Network.claim`, `Network.bind`: begin to listen at an address, or at what a text asks for;
- `Network.release`: nobody listens at an address any more;
- `Network.abandon`, `Network.turn`: who listens at an address is to stop, and has stopped;
- `Network.fails?`: what an attempt to connect to an address comes to;
- `Ending`: how a connection ends.

Anyone can listen at an address of the machine, but for the ports that are reserved. A machine whose network is down
reaches none of its addresses, and cannot tell which ones of the fourth version are its own: there, all of them will do.
-/

namespace AffinityRelay

/-- Why no connection comes about. -/
inductive ConnectError where
  | refused
  | timedOut
  | unreachable
  /-- The machine has no address of its own to connect from. -/
  | homeless
  deriving DecidableEq, Repr

def ConnectError.message : ConnectError → String
  | refused => "Connection refused (os error 111)"
  | timedOut => "connect timed out"
  | unreachable => "Network is unreachable (os error 101)"
  | homeless => "Cannot assign requested address (os error 99)"

/-- Why nobody can begin to listen at an address. -/
inductive BindError where
  /-- The machine does not have the address. -/
  | foreign
  /-- The address is that of a group, or it does not say on which link it is good. -/
  | invalid
  /-- The machine has no interface to the link on which the address is good. -/
  | offLink
  /-- The port is reserved. -/
  | reserved
  /-- Someone listens there. -/
  | taken
  deriving DecidableEq, Repr

def BindError.message : BindError → String
  | foreign => "Cannot assign requested address (os error 99)"
  | invalid => "Invalid argument (os error 22)"
  | offLink => "No such device (os error 19)"
  | reserved => "Permission denied (os error 13)"
  | taken => "Address already in use (os error 98)"

/-- How a connection ends. -/
inductive Ending where
  | closed
  | failed (text : String)
  deriving DecidableEq, Repr

/-- What a machine knows of its network. -/
structure Network where
  /-- Whether its own addresses can be reached. -/
  routed : Bool
  /-- The addresses at which someone listens. -/
  bound : List Address := []
  /-- Those among them at which someone listens who is to stop and has not noticed. -/
  abandoned : List Address := []
  deriving DecidableEq, Repr

namespace Network

/-- Whether an address stands for all addresses of the machine. -/
def isWildcard (ip : Ip) : Bool :=
  ip.bytes.all (· == 0)

/-- The four bytes of an address of the fourth version, or of one that stands for such an address. -/
def short? (ip : Ip) : Option (List UInt8) :=
  match ip with
  | .v4 b => some b.toList
  | .v6 b => if b.toList.take 12 = Ip.mappedHead then some (b.toList.drop 12) else none

/-- Whether who listens at one address is reached at another. What stands for all addresses of the sixth version stands
for those of the fourth as well. -/
def covers (listening a : Address) : Bool :=
  listening.port = a.port &&
    match short? listening.ip, short? a.ip with
    | some x, some y => x = y || x.all (· == 0)
    | _, _ => listening.ip = a.ip || listening.ip.family = .v6 && isWildcard listening.ip

/-- Whether an address is one of the machine itself. -/
def isLocal (ip : Ip) : Bool :=
  match short? ip with
  | some bytes => bytes.head? = some 127
  | none => ip.bytes.dropLast.all (· == 0) && ip.bytes.getLast? = some 1

/-- Whether the machine has an address, or takes it for one that it may have. -/
def offers (ip : Ip) (n : Network) : Bool :=
  isWildcard ip || if n.routed then isLocal ip else (short? ip).isSome

/-- The ports below this one are reserved. -/
def reserved : Nat := 1024

/-- The number of the one interface that a machine has of itself. -/
def ownInterface : UInt32 := 1

/-- Why nobody can listen at an address of the fourth version. -/
def denied4? (a : Address) (n : Network) : Option BindError :=
  if !n.offers a.ip then some .foreign
  else if a.port.toNat < reserved then some .reserved
  else none

/-- Why nobody can listen at an address of the sixth version. -/
def denied6? (a : Address) (n : Network) : Option BindError :=
  if a.ip.isGroup then some .invalid
  else if a.port.toNat < reserved then some .reserved
  else if a.ip.onLink && a.scope = 0 then some .invalid
  else if a.ip.onLink && a.scope ≠ ownInterface then some .offLink
  else if !n.offers a.ip then some .foreign
  else none

/-- Why nobody can listen at an address, whether or not someone does. -/
def denied? (a : Address) (n : Network) : Option BindError :=
  match a.ip.family with
  | .v4 => n.denied4? a
  | .v6 => n.denied6? a

/-- The ports that are given to those who do not ask for one, in this order. Few ask for one of the first. -/
def freePorts : List UInt16 :=
  (List.range' 46811 14189 ++ List.range' 32768 14043).map Nat.toUInt16

/-- The address with a port that nobody uses, if it has none. -/
def withPort (a : Address) (n : Network) : Address :=
  if a.port = 0 then
    { a with port := (freePorts.find? fun p => n.bound.all fun b => b.port ≠ p).getD 0 }
  else a

/-- Someone begins to listen at an address of the machine, unless nobody can or someone does. -/
def claim (a : Address) (n : Network) : Except BindError (Address × Network) :=
  let a := n.withPort a
  match n.denied? a with
  | some e => .error e
  | none =>
    if n.bound.any fun b => covers b a || covers a b then .error .taken
    else .ok (a, { n with bound := a :: n.bound })

/-- Someone begins to listen at each of some addresses, at a port of its own. -/
def claimAll (n : Network) : List Ip → Except BindError (List Address × Network)
  | [] => .ok ([], n)
  | ip :: ips => do
    let (a, n) ← n.claim { ip, port := 0 }
    let (more, n) ← n.claimAll ips
    return (a :: more, n)

/-- Someone begins to listen at what a text asks for. -/
def bind (text : List Char) (n : Network) : Option (Address × Network) :=
  (Address.locate? text).bind fun a => (n.claim a).toOption

/-- Nobody listens at an address any more. -/
def release (a : Address) (n : Network) : Network :=
  { n with bound := n.bound.filter (· ≠ a) }

/-- Who listens at an address is to stop, which takes effect at the next turn. -/
def abandon (a : Address) (n : Network) : Network :=
  { n with abandoned := a :: n.abandoned }

/-- Everyone who is to stop gets a turn and does. -/
def turn (n : Network) : Network :=
  { n.abandoned.foldl (fun n a => n.release a) n with abandoned := [] }

/-- What a text asks for is looked up. An address as it stands is found at once, and all else takes a turn. -/
def lookUp (text : List Char) (n : Network) : Network :=
  if (Address.read? text).isSome then n else n.turn

/-- What an attempt to connect fails with, if it fails. An attempt whose time is over at once is given up before it is
refused. -/
def fails? (now patience : Time) (a : Address) (n : Network) : Option ConnectError :=
  if !n.routed then some (if (short? a.ip).isSome then .unreachable else .homeless)
  else if n.bound.any (covers · a) then none
  else some (if now + patience ≤ now.tick then .timedOut else .refused)

end Network

end AffinityRelay
