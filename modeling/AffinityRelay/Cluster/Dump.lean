import AffinityRelay.Affinity.Registry
import AffinityRelay.Wire.Frame

/-!
# What a node tells of its tables

- `Store.dump`, `Registry.dump`: the frames that tell someone new all assignments of a table, and of a cluster;
- `Update.apply`, `Frame.apply`: what a node does with an update of a cluster, and with a frame;
- `applyFrames`: one frame after another.

The assignments of a table come in the order in which they were touched, the oldest first, so whoever writes them down
one after another has them in the same order. How old they are is not told.
-/

namespace AffinityRelay

/-- An update that tells one assignment of a table. -/
def Store.tell (s : Store) (e : Entry) : Update :=
  { sticky := s.config.key.sticky, client := e.client, backend := some e.backend }

/-- The frames that tell all assignments of a table. -/
def Store.dump (s : Store) : List Frame :=
  s.held.map fun e => .update (s.tell e)

/-- The frames that tell all assignments of a cluster, one table after another. -/
def Registry.dump (cluster : UInt64) (r : Registry) : List Frame :=
  (r.tablesOfCluster cluster).flatMap Store.dump

/-- A node hears of a decision on the table of an update in a cluster; says whether the node has that table. -/
def Update.apply (now : Time) (cluster : UInt64) (u : Update) (r : Registry) : Bool × Registry :=
  r.settle now { cluster, sticky := u.sticky } u.client u.backend

/-- A node receives a frame in a cluster. -/
def Frame.apply (now : Time) (cluster : UInt64) (r : Registry) : Frame → Registry
  | .nop => r
  | .update u => (u.apply now cluster r).2

/-- A node receives one frame after another in a cluster. -/
def applyFrames (now : Time) (cluster : UInt64) (r : Registry) (fs : List Frame) : Registry :=
  fs.foldl (Frame.apply now cluster) r

theorem applyFrames_append (now : Time) (cluster : UInt64) (r : Registry) (fs gs : List Frame) :
    applyFrames now cluster r (fs ++ gs) = applyFrames now cluster (applyFrames now cluster r fs) gs :=
  List.foldl_append

end AffinityRelay
