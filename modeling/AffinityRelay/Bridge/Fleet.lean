import AffinityRelay.Bridge.Basic

/-!
# Bridges over one pool

- `Fleet`: bridges by number, and the pool that their buffers come from;
- `Fleet.launch`, `Fleet.drop`: a bridge comes to be, and is gone;
- `Fleet.launch?`: a bridge comes to be within the limits of a machine;
- `Fleet.close`: a bridge is closed and stays.
-/

namespace AffinityRelay

/-- Bridges by number, over one pool. -/
structure Fleet where
  pool : Pool
  bridges : List (Nat × Bridge) := []
  /-- How many bridges were begun, which tells each from all others. -/
  begun : Nat := 0
  deriving Repr

namespace Fleet

def find? (i : Nat) (f : Fleet) : Option Bridge :=
  f.bridges.lookup i

/-- The bridge of a number is another one. -/
def put (i : Nat) (b : Bridge) (f : Fleet) : Fleet :=
  { f with bridges := (i, b) :: f.bridges.filter fun p => p.1 ≠ i }

/-- The bridge of a number is gone, and its buffers go back. -/
def drop (i : Nat) (f : Fleet) : Fleet :=
  match f.find? i with
  | none => f
  | some b => { f with pool := (b.close f.pool).2, bridges := f.bridges.filter fun p => p.1 ≠ i }

/-- A bridge comes to be under a number, if there are buffers for it. The one that had the number is gone then. -/
def launch (i : Nat) (f : Fleet) : Option PoolError × Fleet :=
  let f := { f with begun := f.begun + 1 }
  match Bridge.create f.begun f.pool with
  | (.ok b, pool) => (none, ({ f with pool }.drop i).put i b)
  | (.error e, pool) => (some e, { f with pool })

/-- A bridge comes to be under a number, if its first buffer is within the limits of a machine. -/
def launch? (i : Nat) (f : Fleet) : Option (Option PoolError) × Fleet :=
  match f.pool.checkout? with
  | (none, pool) => (none, { f with pool, begun := f.begun + 1 })
  | (some _, _) => (some (f.launch i).1, (f.launch i).2)

/-- The bridge of a number is closed. -/
def close (i : Nat) (f : Fleet) : Fleet :=
  match f.find? i with
  | none => f
  | some b =>
    let (b, pool) := b.close f.pool
    { f with pool }.put i b

end Fleet

end AffinityRelay
