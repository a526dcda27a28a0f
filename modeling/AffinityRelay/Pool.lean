import AffinityRelay.Buffer

/-!
# Pools of buffers

- `Pool`: buffers of one size that wait to be used, and a count of those in use;
- `Pool.checkout`, `Pool.release`: take a buffer, and give one back;
- `Pool.recycle`: makes a buffer ready for its next use;
- `Pool.checkout?`: takes a buffer within the limits of a machine.

A buffer given back is used again before any that was given back earlier. The count goes down with each, whether it was
taken from this pool or not.
-/

namespace AffinityRelay

/-- The buffers of one forwarded port. -/
structure Pool where
  size : Nat := 2048
  limit : Nat := 8192
  /-- Whether buffers are wiped before they are used again. -/
  paranoid : Bool := false
  /-- The buffers that wait to be used, the one to be used next first. -/
  idle : List Buffer := []
  inUse : UInt64 := 0
  deriving Repr

/-- Why a pool has no buffer to give. -/
inductive PoolError where
  | exhausted (inUse : UInt64)
  deriving DecidableEq, Repr

def PoolError.message : PoolError → String
  | exhausted inUse => s!"buffer pool exhausted ({inUse.toNat} buffers in use)"

namespace Pool

/-- A buffer that waits to be used, or else a new one, unless as many are in use as may be. -/
def checkout (p : Pool) : Except PoolError Buffer × Pool :=
  if p.inUse.toNat < p.limit then
    match p.idle with
    | b :: rest => (.ok b, { p with idle := rest, inUse := p.inUse + 1 })
    | [] => (.ok (Buffer.zeros p.size), { p with inUse := p.inUse + 1 })
  else (.error (.exhausted p.inUse), p)

/-- A buffer ready for its next use. -/
def recycle (p : Pool) (b : Buffer) : Buffer :=
  if p.paranoid then b.wipe else b.clear

/-- Takes a buffer back. It waits to be used again if it has the right size and not too many wait already. -/
def release (b : Buffer) (p : Pool) : Pool :=
  let b := p.recycle b
  { p with
    inUse := p.inUse - 1
    idle := if p.idle.length < p.limit ∧ b.capacity = p.size then b :: p.idle else p.idle }

/-- Takes a buffer, if the count of those in use can go up and there can be room for a new one. The count goes up before
a new one is made, and stays so if that fails. -/
def checkout? (p : Pool) : Option (Except PoolError Buffer) × Pool :=
  if p.inUse.toNat + 1 = Machine.words then (none, p)
  else if p.inUse.toNat < p.limit && p.idle.isEmpty && !Machine.holds p.size 1 then
    (none, { p with inUse := p.inUse + 1 })
  else (some p.checkout.1, p.checkout.2)

theorem checkout?_eq {p : Pool} (hc : p.inUse.toNat + 1 ≠ Machine.words) (hs : Machine.holds p.size 1) :
    p.checkout? = (some p.checkout.1, p.checkout.2) := by
  simp [checkout?, hc, hs]

@[simp] theorem capacity_recycle (p : Pool) (b : Buffer) : (p.recycle b).capacity = b.capacity := by
  unfold recycle
  split <;> simp

@[simp] theorem pending_recycle (p : Pool) (b : Buffer) : (p.recycle b).pending = [] := by
  unfold recycle
  split <;> simp [Buffer.wipe]

end Pool

end AffinityRelay
