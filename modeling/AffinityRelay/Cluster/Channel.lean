import AffinityRelay.Address.Basic
import AffinityRelay.Cluster.Peer

/-!
# Channels

- `Channel`: the outlet for a node's decisions in one cluster, with those who are told;
- `Channel.accept`, `Channel.acceptFails`, `Channel.resume`, `Channel.heed`: what accepting peers wakes up for;
- `Channel.publish`: a decision is handed to all peers.

The signal to stop is looked at after everything else that accepting wakes up for; on its own account it wakes up only
for a setting of the signal that comes after the channel began to watch.
-/

namespace AffinityRelay

/-- What the accepting of peers is at. -/
inductive ChannelPost where
  | waiting
  /-- No peer could be accepted, and accepting rests for a while. -/
  | resting (deadline : Time)
  | finished
  deriving DecidableEq, Repr

/-- The outlet for a node's decisions in a cluster. -/
structure Channel where
  cluster : UInt64
  /-- Where peers connect. -/
  address : Address
  watcher : Watcher
  /-- Whether its node waits for it when the node is told to stop. -/
  awaited : Bool := false
  post : ChannelPost := .waiting
  /-- How many peers were accepted, which is the number of the next one. -/
  accepted : Nat := 0
  peers : List Peer := []
  deriving Repr

namespace Channel

/-- How long accepting rests when a peer could not be accepted. -/
def rest : Time := 10 * millisecond

/-- Accepting looks whether it is to stop. -/
def check (signal : Watch) (c : Channel) : Channel :=
  { c with post := if signal.value then .finished else .waiting }

/-- A peer is accepted. From now on it is handed every decision. -/
def accept (signal : Watch) (c : Channel) : Channel :=
  match c.post with
  | .waiting =>
    let peer : Peer := { number := c.accepted, watcher := c.watcher }
    { c with accepted := c.accepted + 1, peers := c.peers ++ [peer] }.check signal
  | _ => c

/-- A peer could not be accepted. -/
def acceptFails (now : Time) (c : Channel) : Channel :=
  match c.post with
  | .waiting => { c with post := .resting (now + rest) }
  | _ => c

/-- The rest is over. -/
def resume (now : Time) (signal : Watch) (c : Channel) : Channel :=
  match c.post with
  | .resting deadline => if deadline ≤ now.tick then c.check signal else c
  | _ => c

/-- The signal was set. -/
def heed (signal : Watch) (c : Channel) : Channel :=
  match c.post with
  | .waiting =>
    match c.watcher.poll signal with
    | (.nothing, _) => c
    | (.changed, watcher) => { c with watcher }.check signal
    | (.closed, _) => { c with post := .finished }
  | _ => c

/-- A decision is handed to all peers. -/
def publish (u : Update) (c : Channel) : Channel :=
  { c with peers := c.peers.map (Peer.hand u) }

/-- The peer of a number, with something done to it that has something sent to it. -/
def serve {α : Type} (f : Peer → List α × Peer) (number : Nat) (c : Channel) : List α × Channel :=
  match c.peers.find? (·.number = number) with
  | none => ([], c)
  | some p =>
    let (sent, p) := f p
    (sent, { c with peers := c.peers.map fun q => if q.number = number then p else q })

/-- A peer went away, and the sending to it noticed. -/
def leave (number : Nat) (c : Channel) : Channel :=
  { c with peers := c.peers.filter (·.number ≠ number) }

/-- Whether peers are accepted. -/
def listening (c : Channel) : Bool :=
  c.post ≠ .finished

end Channel

end AffinityRelay
