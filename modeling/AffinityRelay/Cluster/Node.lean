import AffinityRelay.Cluster.Channel
import AffinityRelay.Cluster.Follower
import AffinityRelay.Rule.Cluster

/-!
# Nodes

- `Node`: the tables of a node, its channels, and what it follows;
- `Node.start`: a node takes its part in the clusters that it has rules for;
- `Node.publish`: a decision is handed to the channel of its table's cluster;
- `Node.decide`: a decision is published, and then written.

A node has one channel for a cluster. What it receives from others it writes down and does not publish.
-/

namespace AffinityRelay

/-- A node of one or more clusters. -/
structure Node where
  registry : Registry := {}
  channels : List Channel := []
  followers : List Follower := []
  signal : Watch := {}
  /-- How many channels and followers were started since the node was told to stop last. -/
  started : Nat := 0
  deriving Repr

/-- Why a node cannot start. -/
inductive StartError where
  | unavailable (rule : ClusterRule)
  deriving DecidableEq, Repr

def StartError.message : StartError → String
  | unavailable rule => s!"failed to bind cluster server `{rule}`"

namespace Node

/-- The channel of a cluster. -/
def channel? (cluster : UInt64) (n : Node) : Option Channel :=
  n.channels.find? (·.cluster = cluster)

/-- The channel of a cluster with a change made to it. -/
def changeChannel (cluster : UInt64) (f : Channel → Channel) (n : Node) : Node :=
  { n with channels := n.channels.map fun c => if c.cluster = cluster then f c else c }

/-- The node listens for the peers of a rule's cluster. If it has a channel for that, the rule has no effect once the
address was found to be free. -/
def listen (rule : ClusterRule) (network : Network) (n : Node) : Except StartError Nat × Node × Network :=
  let network := network.lookUp rule.address.toList
  match network.bind rule.address.toList with
  | none => (.error (.unavailable rule), n, network)
  | some (address, bound) =>
    if (n.channel? rule.cluster).isSome then (.ok 0, n, network)
    else
      let channel : Channel := { cluster := rule.cluster, address, watcher := n.signal.subscribe }
      (.ok 1, { n with channels := n.channels ++ [channel] }, bound)

/-- The node listens for the peers of one rule after another, and says how many channels that made. -/
def listenAll (network : Network) (n : Node) : List ClusterRule → Except StartError Nat × Node × Network
  | [] => (.ok 0, n, network)
  | rule :: rules =>
    match n.listen rule network with
    | (.error e, n, network) => (.error e, n, network)
    | (.ok made, n, network) =>
      match listenAll network n rules with
      | (.error e, n, network) => (.error e, n, network)
      | (.ok more, n, network) => (.ok (made + more), n, network)

/-- The node begins to follow what a rule names. -/
def follow (n : Node) (rule : ClusterRule) : Node :=
  let follower : Follower :=
    { cluster := rule.cluster, target := rule.address, watcher := n.signal.subscribe }
  { n with followers := n.followers ++ [follower] }

/-- The node with its last channels, so many of them, among those that it waits for. -/
def awaitLast (made : Nat) (n : Node) : Node :=
  let earlier := n.channels.length - made
  { n with
    channels := n.channels.take earlier ++ (n.channels.drop earlier).map fun c => { c with awaited := true } }

/-- The node takes its part in clusters: first it listens for peers, and if it can do so everywhere, it begins to follow
others. Says how many channels and followers the node has started by now, and will wait for when it is told to stop. -/
def start (rules : List ClusterRule) (network : Network) (n : Node) : Except StartError Nat × Node × Network :=
  let clients := rules.filter (·.role = .client)
  match n.listenAll network (rules.filter (·.role = .server)) with
  | (.error e, n, network) => (.error e, n, network)
  | (.ok made, n, network) =>
    let started := n.started + made + clients.length
    (.ok started, { clients.foldl follow (n.awaitLast made) with started }, network)

/-- A decision is handed to the channel of the cluster that shares its table, if there is one. -/
def publish (key : Key) (client : Ip) (backend : Option Address) (n : Node) : Node :=
  n.changeChannel key.cluster (Channel.publish { sticky := key.sticky, client, backend })

/-- A decision about a client: it is published, and then written. -/
def decide (now : Time) (key : Key) (client : Ip) (backend : Option Address) (n : Node) : Node :=
  let n := n.publish key client backend
  { n with registry := (n.registry.settle now key client backend).2 }

/-- The node is told to stop. -/
def stop (n : Node) : Node :=
  { n with signal := n.signal.raise, started := 0 }

/-- All that wakes up for the signal does. -/
def heed (n : Node) : Node :=
  let serve (c : Channel) : Channel := { c with peers := c.peers.map (Peer.heed n.signal) }.heed n.signal
  { n with channels := n.channels.map serve, followers := n.followers.map (Follower.heed n.signal) }

/-- Whether nothing that the node waits for goes on. -/
def idle (n : Node) : Bool :=
  n.channels.all (fun c => !(c.awaited && c.listening)) && n.followers.all (·.post = .finished)

/-- Whether nobody but the node holds a channel of it. What accepts its peers does, and so does every follower. -/
def holdsAlone (c : Channel) (n : Node) : Bool :=
  !c.listening && n.followers.all (·.post = .finished)

/-- A change made to a follower, by its place. -/
def changeFollower (i : Nat) (f : Follower → Follower) (n : Node) : Node :=
  { n with followers := n.followers.modify i f }

/-- Bytes arrive at a follower, by its place. -/
def receive (now : Time) (i : Nat) (bytes : List UInt8) (n : Node) : Node :=
  match n.followers[i]? with
  | none => n
  | some f =>
    let (f, registry) := f.receive now bytes n.registry
    { n with registry, followers := n.followers.set i f }

end Node

end AffinityRelay
