import AffinityRelay.Cluster.Dump
import AffinityRelay.Network
import AffinityRelay.Shutdown.Watch
import AffinityRelay.Wire.Decode

/-!
# Followers

- `Follower`: takes the decisions of another node in one cluster;
- `Follower.dial`: it connects, or pauses;
- `Follower.receive`: bytes arrive, and their frames are applied;
- `Follower.lose`: the connection ends;
- `Follower.heed`, `Follower.resume`: the signal was set, or a pause is over.

Bytes that do not complete a frame are kept for as long as the connection lasts. A byte that no frame has in its place
ends it, after the frames before were applied. Whatever ends it, the follower pauses, and connects again.
-/

namespace AffinityRelay

/-- What a follower is at. -/
inductive FollowerPost where
  /-- It is about to look at the signal and to connect. -/
  | dialing
  /-- It is connected, and holds the bytes of a frame that is not complete. -/
  | following (held : List UInt8)
  | pausing (deadline : Time)
  | finished
  deriving DecidableEq, Repr

/-- Takes the decisions of another node in a cluster. -/
structure Follower where
  cluster : UInt64
  /-- Where the other node is. -/
  target : String
  watcher : Watcher
  post : FollowerPost := .dialing
  deriving DecidableEq, Repr

namespace Follower

/-- How long a follower pauses before it connects again. -/
def pause : Time := second

/-- How long an attempt to connect may take. -/
def patience : Time := 10 * second

/-- The follower looks at the signal, and unless it is to stop it connects, or fails to. -/
def dial (now : Time) (signal : Watch) (failure : Option ConnectError) (f : Follower) : Follower :=
  match f.post with
  | .dialing =>
    if signal.value then { f with post := .finished }
    else
      match failure with
      | none => { f with post := .following [] }
      | some _ => { f with post := .pausing (now + pause) }
  | _ => f

/-- Bytes arrive. The frames that are complete are applied to the tables of the follower's node. -/
def receive (now : Time) (bytes : List UInt8) (f : Follower) (r : Registry) : Follower × Registry :=
  match f.post with
  | .following held =>
    let (frames, left) := Frame.decodeAll (held ++ bytes)
    let post : FollowerPost := match left.error with
      | none => .following left.rest
      | some _ => .pausing (now + pause)
    ({ f with post }, applyFrames now f.cluster r frames)
  | _ => (f, r)

/-- The connection ends. -/
def lose (now : Time) (f : Follower) : Follower :=
  match f.post with
  | .following _ => { f with post := .pausing (now + pause) }
  | _ => f

/-- The signal was set. A follower that is connected looks at it and stops, or goes on; one that pauses begins anew. -/
def heed (signal : Watch) (f : Follower) : Follower :=
  match f.post, f.watcher.poll signal with
  | .following _, (.changed, watcher) => if signal.value then { f with post := .finished } else { f with watcher }
  | .following _, (.closed, _) => { f with post := .finished }
  | .pausing _, (.changed, watcher) => { f with watcher, post := .dialing }
  | .pausing _, (.closed, _) => { f with post := .finished }
  | _, _ => f

/-- A pause is over. -/
def resume (now : Time) (f : Follower) : Follower :=
  match f.post with
  | .pausing deadline => if deadline ≤ now.tick then { f with post := .dialing } else f
  | _ => f

/-- Whether the follower is connected. -/
def connected (f : Follower) : Bool :=
  match f.post with
  | .following _ => true
  | _ => false

end Follower

end AffinityRelay
