/-!
# Chance

Whatever is left to chance reads its numbers from a tape that is given from outside. What is said of every tape holds
however chance falls.

- `Chance`: a tape and how far it has been read;
- `Chance.shuffle`: a list in an order read off the tape (`Chance.shuffle_perm`).
-/

namespace AffinityRelay

/-- An endless tape of numbers, and how many of them have been read. -/
structure Chance where
  tape : Nat → Nat
  drawn : Nat := 0

namespace Chance

/-- The next number below `n`, and the tape after it. No number is below 0. -/
def below (n : Nat) (c : Chance) : Nat × Chance :=
  (c.tape c.drawn % n, { c with drawn := c.drawn + 1 })

/-- A list with each element, from the last to the first, put somewhere among those after it. -/
def shuffle {α : Type} : List α → Chance → List α × Chance
  | [], c => ([], c)
  | x :: xs, c =>
    let (ys, c) := shuffle xs c
    let (i, c) := c.below (ys.length + 1)
    (ys.insertIdx i x, c)

theorem shuffle_perm {α : Type} (xs : List α) (c : Chance) : (shuffle xs c).1.Perm xs := by
  induction xs generalizing c with
  | nil => exact List.Perm.refl _
  | cons x xs ih =>
    simp only [shuffle, below]
    refine (List.perm_insertIdx x _ ?_).trans ((ih c).cons x)
    exact Nat.le_of_lt_succ (Nat.mod_lt _ (Nat.succ_pos _))

/-- A number in which every bit of both arguments has its part. -/
def stir (seed position : Nat) : Nat :=
  let x : UInt64 := (seed.toUInt64 + position.toUInt64 + 1) * 0x9e3779b97f4a7c15
  let x := (x ^^^ (x >>> 30)) * 0xbf58476d1ce4e5b9
  let x := (x ^^^ (x >>> 27)) * 0x94d049bb133111eb
  (x ^^^ (x >>> 31)).toNat

/-- A tape without a visible pattern. -/
def ofSeed (seed : Nat) : Chance :=
  { tape := stir seed }

end Chance

end AffinityRelay
