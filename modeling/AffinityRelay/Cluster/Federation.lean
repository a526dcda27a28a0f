import AffinityRelay.Address.Text
import AffinityRelay.Cluster.Node

/-!
# Nodes and their connections

- `Federation`: the nodes of one machine, who is connected to whose channel, and what guests have received;
- `Federation.settle`: everything that can happen at this moment does;
- `Federation.advance`: time goes on;
- `Federation.start`, `Federation.publish`, `Federation.stop`: what a node is told to do;
- `Federation.join`, `Federation.leave`: a guest, who is no node, connects to a channel and hangs up;
- `Federation.feed`, `Federation.hangup`: a stranger, who is no node and listens, sends bytes to its follower or hangs up.

What a node receives it does not publish, so what happens at one moment comes to an end after one round: the signals,
then the attempts to connect, then all that is sent.
-/

namespace AffinityRelay

/-- Who receives what a channel sends to a peer. -/
inductive Receiver where
  | follower (node place : Nat)
  | guest (number : Nat)
  /-- The other end has hung up, which the channel notices when it sends something. -/
  | nobody
  deriving DecidableEq, Repr

/-- A connection to the channel of a node in a cluster. -/
structure Link where
  node : Nat
  cluster : UInt64
  peer : Nat
  receiver : Receiver
  deriving DecidableEq, Repr

/-- The nodes of one machine and the connections between them. -/
structure Federation where
  now : Time := 0
  network : Network
  nodes : List (Nat × Node) := []
  links : List Link := []
  /-- What each guest has received and not read. -/
  received : List (Nat × List Frame) := []
  deriving Repr

namespace Federation

def node? (i : Nat) (f : Federation) : Option Node :=
  f.nodes.lookup i

/-- The nodes with a change made to one of them. -/
def changeNode (i : Nat) (g : Node → Node) (f : Federation) : Federation :=
  { f with nodes := f.nodes.map fun p => if p.1 = i then (i, g p.2) else p }

/-- The channel of a node in a cluster. -/
def channel? (i : Nat) (cluster : UInt64) (f : Federation) : Option Channel :=
  (f.node? i).bind (Node.channel? cluster)

/-- How many peers the channel of a node has. -/
def peers? (i : Nat) (cluster : UInt64) (f : Federation) : Option Nat :=
  (f.channel? i cluster).map fun c => c.peers.length

/-- The node that listens at an address, and the cluster that it listens for. -/
def listener? (a : Address) (f : Federation) : Option (Nat × UInt64) :=
  f.nodes.findSome? fun (i, n) => (n.channels.find? fun c => Network.covers c.address a).map fun c => (i, c.cluster)

/-- Someone connects to the channel of a node. Where no peers are accepted any more, nothing is ever sent. -/
def connect (i : Nat) (cluster : UInt64) (receiver : Receiver) (f : Federation) : Federation :=
  match f.node? i, f.channel? i cluster with
  | some n, some c =>
    if c.listening then
      { f.changeNode i (Node.changeChannel cluster (Channel.accept n.signal)) with
        links := f.links ++ [⟨i, cluster, c.accepted, receiver⟩] }
    else f
  | _, _ => f

/-- A receiver has hung up. -/
def detach (receiver : Receiver) (f : Federation) : Federation :=
  { f with links := f.links.map fun l => if l.receiver = receiver then { l with receiver := .nobody } else l }

/-- The connection of a follower has ended. -/
def lose (i place : Nat) (f : Federation) : Federation :=
  (f.changeNode i (Node.changeFollower place (Follower.lose f.now))).detach (.follower i place)

/-- A link is there no more. -/
def unlink (l : Link) (f : Federation) : Federation :=
  { f.changeNode l.node (Node.changeChannel l.cluster (Channel.leave l.peer)) with links := f.links.filter (· ≠ l) }

/-- Whether the sending of a link goes on. -/
def sends (f : Federation) (l : Link) : Bool :=
  (f.channel? l.node l.cluster).any fun c => c.peers.any fun p => p.number = l.peer && p.present

/-- Whether the receiver of a link has not hung up. -/
def receives (f : Federation) (l : Link) : Bool :=
  match l.receiver with
  | .follower i place => ((f.node? i).bind fun n => n.followers[place]?).any Follower.connected
  | .guest _ => true
  | .nobody => false

/-- A link of which the sending has ended is there no more; one of which the receiver has hung up is, for now. -/
def cut (f : Federation) (l : Link) : Federation :=
  if f.sends l then if f.receives l then f else f.detach l.receiver
  else
    match l.receiver with
    | .follower i place => (f.unlink l).lose i place
    | _ => f.unlink l

/-- The address of a channel once its node is gone. It is free if nobody else holds the channel, and else from the next
turn on. -/
def vacate (n : Node) (network : Network) (c : Channel) : Network :=
  if n.holdsAlone c then network.release c.address else network.abandon c.address

/-- The node of a number is gone, with its channels, and its connections have ended. -/
def removeNode (i : Nat) (f : Federation) : Federation :=
  let lost (f : Federation) (l : Link) : Federation := match l.receiver with
    | .follower j place => f.lose j place
    | _ => f
  let f := (f.links.filter (·.node = i)).foldl lost f
  let left (l : Link) : Link := match l.receiver with
    | .follower j _ => if j = i then { l with receiver := .nobody } else l
    | _ => l
  { f with
    network := (f.node? i).elim f.network fun n => n.channels.foldl (vacate n) f.network
    nodes := f.nodes.filter (·.1 ≠ i)
    links := (f.links.filter (·.node ≠ i)).map left }

/-- A node of a number begins. The one that had the number is gone then. -/
def addNode (i : Nat) (n : Node) (f : Federation) : Federation :=
  let f := f.removeNode i
  { f with nodes := f.nodes ++ [(i, n)] }

/-- All that wakes up for a signal does. -/
def heed (f : Federation) : Federation :=
  { f with nodes := f.nodes.map fun (i, n) => (i, n.heed) }

/-- Why an attempt to connect to what a text names fails, if it does. -/
def fails? (target : String) (f : Federation) : Option ConnectError :=
  match Address.locate? target.toList with
  | none => some .refused
  | some a => f.network.fails? f.now Follower.patience a

/-- What listens at what a text names gets a connection from a follower. -/
def arrive (i place : Nat) (target : String) (f : Federation) : Federation :=
  match (Address.locate? target.toList).bind f.listener? with
  | none => f
  | some (j, cluster) => f.connect j cluster (.follower i place)

/-- A follower goes on after its pause, and connects if it is about to. -/
def dial (f : Federation) (i place : Nat) : Federation :=
  match f.node? i with
  | none => f
  | some n =>
    match (n.followers[place]?).map (Follower.resume f.now) with
    | none => f
    | some follower =>
      let after := follower.dial f.now n.signal (f.fails? follower.target)
      let f := f.changeNode i (Node.changeFollower place fun _ => after)
      if after.connected && !follower.connected then f.arrive i place follower.target else f

/-- Every follower goes on. -/
def dialAll (f : Federation) : Federation :=
  f.nodes.foldl (fun f p => (List.range p.2.followers.length).foldl (fun f place => f.dial p.1 place) f) f

/-- Frames arrive at the other end of a link. -/
def receive (l : Link) (frames : List Frame) (f : Federation) : Federation :=
  match l.receiver with
  | .follower i place => f.changeNode i (Node.receive f.now place (frames.flatMap Frame.encode))
  | .guest k => { f with received := f.received.map fun p => if p.1 = k then (k, p.2 ++ frames) else p }
  | .nobody => f.unlink l

/-- What the sending of a link wakes up for is sent. -/
def deliver (f : Federation) (l : Link) : Federation :=
  match f.node? l.node, f.channel? l.node l.cluster with
  | some n, some c =>
    let (told, c) := c.serve (Peer.greet f.now l.cluster n.registry) l.peer
    let (sent, c) := c.serve (Peer.flush f.now) l.peer
    let f := f.changeNode l.node (Node.changeChannel l.cluster fun _ => c)
    if (told ++ sent).isEmpty then f else f.receive l (told ++ sent)
  | _, _ => f

/-- Everything that can happen at this moment does. -/
def settle (f : Federation) : Federation :=
  let f := { f with network := f.network.turn }.heed
  let f := (f.links.foldl cut f).dialAll
  f.links.foldl deliver f

/-- Time goes on. Everything happens that can before it does, and after. -/
def advance (d : Time) (f : Federation) : Federation :=
  let f := f.settle
  { f with now := f.now + d }.settle

/-- A node starts by some rules. What it has started gets its first turn later. -/
def start (i : Nat) (rules : List ClusterRule) (f : Federation) : Option (Except StartError Nat) × Federation :=
  match f.node? i with
  | none => (none, f)
  | some n =>
    let (started, n, network) := n.start rules f.network
    (some started, { f.changeNode i (fun _ => n) with network })

/-- A node publishes a decision. -/
def publish (i : Nat) (key : Key) (client : Ip) (backend : Option Address) (f : Federation) : Federation :=
  f.changeNode i (Node.publish key client backend)

/-- A node is told to stop: how much of what it had started has ended, if all of it has. If that is nothing, there is
nothing to wait for. -/
def stop (i : Nat) (f : Federation) : Option Nat × Federation :=
  let started := (f.node? i).elim 0 Node.started
  let f := f.changeNode i Node.stop
  if started = 0 then (some 0, f)
  else
    let f := f.settle
    (if (f.node? i).all Node.idle then some started else none, f)

/-- Who a guest was before is gone. -/
def forget (guest : Nat) (f : Federation) : Federation :=
  { f.detach (.guest guest) with received := f.received.filter fun p => p.1 ≠ guest }

/-- A guest connects to the channel of a node, unless there is none or it cannot be reached. -/
def join (guest i : Nat) (cluster : UInt64) (f : Federation) : Option (Except ConnectError Unit) × Federation :=
  match f.channel? i cluster with
  | none => (none, f)
  | some c =>
    match f.network.fails? f.now Follower.patience c.address with
    | some e => (some (.error e), f)
    | none =>
      let f := f.forget guest
      let f := { f with received := f.received ++ [(guest, [])] }
      (some (.ok ()), (f.connect i cluster (.guest guest)).settle)

/-- The node and the cluster of the channel that a guest is connected to. -/
def hostOf (guest : Nat) (f : Federation) : Option (Nat × UInt64) :=
  (f.links.find? (·.receiver = .guest guest)).map fun l => (l.node, l.cluster)

/-- What a guest has received, which it reads. -/
def read (guest : Nat) (f : Federation) : List Frame × Federation :=
  ((f.received.lookup guest).getD [],
    { f with received := f.received.map fun p => if p.1 = guest then (guest, []) else p })

/-- A guest hangs up. The channel notices when it has something to send, and at last a sign of life. -/
def leave (guest : Nat) (f : Federation) : Federation :=
  (f.forget guest).advance Peer.patience

/-- Time goes on, for a few seconds at most, until something is so. -/
def await (p : Federation → Bool) : Nat → Federation → Option Federation
  | 0, f => if p f then some f else none
  | n + 1, f => if p f then some f else await p n (f.advance second)

/-- A stranger, who is no node, begins to listen. -/
def addStranger (f : Federation) : Option (Address × Federation) :=
  (f.network.bind "127.0.0.1:0".toList).map fun (a, network) => (a, { f with network })

/-- The follower that is connected to a stranger. -/
def followerOf (stranger : Address) (f : Federation) : Option (Nat × Nat) :=
  f.nodes.findSome? fun (i, n) =>
    (n.followers.findIdx? fun x => x.target = toString stranger && x.connected).map fun place => (i, place)

/-- A stranger hangs up. -/
def hangup (stranger : Address) (f : Federation) : Federation :=
  match f.followerOf stranger with
  | none => f
  | some (i, place) => (f.lose i place).settle

/-- A stranger sends bytes to its follower. -/
def feed (stranger : Address) (bytes : List UInt8) (f : Federation) : Federation :=
  match f.followerOf stranger with
  | none => f
  | some (i, place) => (f.changeNode i (Node.receive f.now place bytes)).settle

end Federation

end AffinityRelay
