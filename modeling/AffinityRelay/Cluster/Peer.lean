import AffinityRelay.Cluster.Dump
import AffinityRelay.Shutdown.Watch

/-!
# Peers

- `Peer`: someone who is told the decisions of a node, and what waits to be sent there;
- `Peer.hand`: an update is handed to a peer;
- `Peer.greet`: a new peer is told all assignments of the cluster;
- `Peer.next`, `Peer.flush`: what is sent next, and all that can be sent now.

A peer is handed updates from the moment it is accepted, which is before it is told the assignments: nothing falls in
between. Where more updates wait than may wait, the oldest are lost. To a peer that was sent nothing for a while goes a
sign of life.
-/

namespace AffinityRelay

/-- Where the sending to a peer stands. -/
inductive PeerState where
  /-- The peer was accepted, and has been told nothing. -/
  | fresh
  /-- The peer was told the assignments, and waits for an update since some moment. -/
  | waiting (since : Time)
  | gone
  deriving DecidableEq, Repr

/-- Someone who is told the decisions of a node. -/
structure Peer where
  number : Nat
  state : PeerState := .fresh
  /-- The updates that wait to be sent, the oldest first. -/
  backlog : List Update := []
  /-- How many updates were lost, and the sending has not noticed. -/
  lost : Nat := 0
  watcher : Watcher
  deriving DecidableEq, Repr

namespace Peer

/-- How many updates may wait. -/
def room : Nat := 4096

/-- How long a peer is sent nothing before it is sent a sign of life. -/
def patience : Time := second

/-- An update is handed to a peer. If too many wait, the oldest is lost. -/
def hand (u : Update) (p : Peer) : Peer :=
  let backlog := p.backlog ++ [u]
  { p with backlog := backlog.drop (backlog.length - room), lost := p.lost + (backlog.length - room) }

/-- A new peer is told all assignments. -/
def greet (now : Time) (cluster : UInt64) (r : Registry) (p : Peer) : List Frame × Peer :=
  match p.state with
  | .fresh => (r.dump cluster, { p with state := .waiting now })
  | _ => ([], p)

/-- What the sending wakes up for, if anything, and what it sends then: updates that were lost are noticed before the next
one is sent. -/
def next (now : Time) (p : Peer) : Option (List Frame × Peer) :=
  match p.state with
  | .waiting since =>
    if 0 < p.lost then some ([], { p with lost := 0, state := .waiting now })
    else
      match p.backlog with
      | u :: backlog => some ([.update u], { p with backlog, state := .waiting now })
      | [] => if since + patience ≤ now.tick then some ([.nop], { p with state := .waiting now }) else none
  | _ => none

/-- The sending wakes up so many times, or fewer if there is nothing to wake up for. -/
def advance (now : Time) : Nat → Peer → List Frame × Peer
  | 0, p => ([], p)
  | n + 1, p =>
    match p.next now with
    | none => ([], p)
    | some (sent, p) =>
      let (more, p) := advance now n p
      (sent ++ more, p)

/-- All that can be sent now: what was lost, each update that waits, and a sign of life are one wake-up each. -/
def flush (now : Time) (p : Peer) : List Frame × Peer :=
  p.advance now (p.backlog.length + 2)

/-- The sending ends, as soon as the signal is set in any way. -/
def heed (signal : Watch) (p : Peer) : Peer :=
  match (p.watcher.poll signal).1 with
  | .nothing => p
  | _ => { p with state := .gone }

/-- Whether updates are still handed to the peer. -/
def present (p : Peer) : Bool :=
  p.state ≠ .gone

theorem length_backlog_hand_le (u : Update) (p : Peer) : (p.hand u).backlog.length ≤ room := by
  simp only [hand, List.length_drop]
  omega

end Peer

end AffinityRelay
