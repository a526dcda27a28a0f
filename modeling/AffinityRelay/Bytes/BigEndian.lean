/-!
# Numbers in network order

- `ofBigEndian`: the number whose digits to base 256 are the given bytes, the most significant first;
- `toBigEndian`: the last `width` such digits of a number.
-/

namespace AffinityRelay

/-- The number that bytes stand for, the most significant first. -/
def ofBigEndian (bs : List UInt8) : Nat :=
  bs.foldl (fun n b => 256 * n + b.toNat) 0

/-- The last `width` bytes of a number, the most significant first. -/
def toBigEndian : Nat → Nat → List UInt8
  | 0, _ => []
  | width + 1, n => (n >>> (8 * width)).toUInt8 :: toBigEndian width n

@[simp] theorem length_toBigEndian (width n : Nat) : (toBigEndian width n).length = width := by
  induction width with
  | zero => rfl
  | succ k ih => simp [toBigEndian, ih]

end AffinityRelay
