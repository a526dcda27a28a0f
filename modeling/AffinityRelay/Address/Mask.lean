import AffinityRelay.Address.Basic

/-!
# Masks

- `keepHigh`: the first bits of a byte, the rest cleared;
- `Ip.mask`: the first bits of an address, the rest cleared.

A mask counts bits from the first byte of the address in either family; one that is longer than the address keeps it
whole.
-/

namespace AffinityRelay

/-- The `n` most significant bits of a byte, the others cleared. -/
def keepHigh (n : Nat) (b : UInt8) : UInt8 :=
  (b.toNat >>> (8 - n) <<< (8 - n)).toUInt8

/-- An address with every bit after the first `bits` cleared. -/
def Ip.mask (bits : Nat) : Ip → Ip
  | v4 b => v4 (b.mapIdx fun i x => keepHigh (bits - 8 * i) x)
  | v6 b => v6 (b.mapIdx fun i x => keepHigh (bits - 8 * i) x)

theorem toNat_keepHigh (n : Nat) (b : UInt8) : (keepHigh n b).toNat = b.toNat >>> (8 - n) <<< (8 - n) := by
  have hle : b.toNat >>> (8 - n) <<< (8 - n) ≤ b.toNat := by
    rw [Nat.shiftRight_eq_div_pow, Nat.shiftLeft_eq]
    exact Nat.div_mul_le_self _ _
  have hlt := b.toNat_lt
  simp only [keepHigh, Nat.toUInt8, UInt8.toNat_ofNat']
  exact Nat.mod_eq_of_lt (by omega)

/-- Of two masks the shorter one counts. -/
theorem keepHigh_keepHigh (m n : Nat) (b : UInt8) : keepHigh n (keepHigh m b) = keepHigh (min m n) b := by
  apply UInt8.toNat_inj.mp
  simp only [toNat_keepHigh, Nat.shiftRight_eq_div_pow, Nat.shiftLeft_eq]
  rcases Nat.le_total m n with h | h
  · rw [Nat.min_eq_left h]
    exact Nat.div_mul_cancel (Nat.dvd_trans (Nat.pow_dvd_pow 2 (by omega)) (Nat.dvd_mul_left _ _))
  · have hk : 2 ^ (8 - n) = 2 ^ (8 - m) * 2 ^ (m - n) ∨ 2 ^ (8 - m) = 1 := by
      by_cases hm : m ≤ 8
      · exact Or.inl (by rw [← Nat.pow_add]; congr 1; omega)
      · exact Or.inr (by rw [show 8 - m = 0 by omega, Nat.pow_zero])
    rw [Nat.min_eq_right h]
    rcases hk with hk | hk
    · rw [hk, ← Nat.div_div_eq_div_mul, ← Nat.div_div_eq_div_mul, Nat.mul_div_cancel _ (Nat.two_pow_pos _)]
    · rw [hk, Nat.div_one, Nat.mul_one]

theorem Ip.mask_mask (m n : Nat) (ip : Ip) : (ip.mask m).mask n = ip.mask (min m n) := by
  have hmin : ∀ i, min (m - 8 * i) (n - 8 * i) = min m n - 8 * i := fun i => by omega
  cases ip <;> simp [Ip.mask, keepHigh_keepHigh, hmin, Function.comp_def]

@[simp] theorem Ip.family_mask (bits : Nat) (ip : Ip) : (ip.mask bits).family = ip.family := by
  cases ip <;> rfl

end AffinityRelay
