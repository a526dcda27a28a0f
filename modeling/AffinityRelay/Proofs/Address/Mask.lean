import AffinityRelay.Address.Mask

/-!
# A mask projects addresses to networks

* `Ip.bit`: the bits of an address, counted from the most significant one of its first byte;
* `testBit_keepHigh`, `Ip.bit_mask`: a mask keeps the bits before its width and clears all others;
* `Ip.ext_bit`: an address is its family and its bits;
* `Ip.mask_projects`: so two addresses are in one network just if they agree up to its width, and a narrower mask only
  joins networks.
-/

namespace AffinityRelay

/-- The bits of a byte after the first `n` are cleared, counted from the most significant one. -/
theorem testBit_keepHigh (n : Nat) (b : UInt8) {r : Nat} (hr : r < 8) :
    (keepHigh n b).toNat.testBit (7 - r) = (decide (r < n) && b.toNat.testBit (7 - r)) := by
  rw [toNat_keepHigh, Nat.testBit_shiftLeft, Nat.testBit_shiftRight]
  by_cases h : r < n
  · have hkept : 8 - n ≤ 7 - r := by omega
    simp [h, hkept, Nat.add_sub_cancel' hkept]
  · have hcleared : ¬ 8 - n ≤ 7 - r := by omega
    simp [h, hcleared]

theorem eq_of_testBit {a b : UInt8} (h : ∀ r < 8, a.toNat.testBit (7 - r) = b.toNat.testBit (7 - r)) : a = b := by
  apply UInt8.toNat_inj.mp
  apply Nat.eq_of_testBit_eq
  intro k
  by_cases hk : k < 8
  · have := h (7 - k) (by omega)
    rwa [show 7 - (7 - k) = k by omega] at this
  · -- A byte has no bits from the eighth on.
    have hpow : 2 ^ 8 ≤ 2 ^ k := Nat.pow_le_pow_right (by decide) (by omega)
    rw [Nat.testBit_lt_two_pow (Nat.lt_of_lt_of_le a.toNat_lt hpow),
      Nat.testBit_lt_two_pow (Nat.lt_of_lt_of_le b.toNat_lt hpow)]

namespace Ip

/-- The bits of an address, from the most significant one of the first byte to the least significant one of the last. -/
def bit (ip : Ip) (i : Nat) : Bool :=
  (ip.bytes.getD (i / 8) 0).toNat.testBit (7 - i % 8)

theorem bytes_mask (n : Nat) (ip : Ip) : (ip.mask n).bytes = ip.bytes.mapIdx fun j x => keepHigh (n - 8 * j) x := by
  cases ip <;> exact List.ext_getElem (by simp [mask, bytes]) fun i _ _ => by simp [mask, bytes]

/-- A mask keeps the bits before its width. -/
theorem bit_mask (n : Nat) (ip : Ip) (i : Nat) : (ip.mask n).bit i = (decide (i < n) && ip.bit i) := by
  have hwidth : i % 8 < n - 8 * (i / 8) ↔ i < n := by omega
  have hbyte : (ip.mask n).bytes.getD (i / 8) 0 = keepHigh (n - 8 * (i / 8)) (ip.bytes.getD (i / 8) 0) := by
    rw [bytes_mask, List.getD_eq_getElem?_getD, List.getElem?_mapIdx, List.getD_eq_getElem?_getD]
    cases ip.bytes[i / 8]? with
    | none => simp [keepHigh]
    | some x => rfl
  rw [bit, hbyte, testBit_keepHigh _ _ (Nat.mod_lt i (by decide)), bit]
  simp only [hwidth]

theorem length_bytes_eq {a b : Ip} (h : a.family = b.family) : a.bytes.length = b.bytes.length := by
  cases a <;> cases b <;> simp_all [family, bytes]

/-- An address is its family and its bits. -/
theorem ext_bit {a b : Ip} (hfamily : a.family = b.family)
    (hbits : ∀ i < 8 * a.bytes.length, a.bit i = b.bit i) : a = b := by
  refine bytes_injective (List.ext_getElem (length_bytes_eq hfamily) fun j ha hb => eq_of_testBit fun r hr => ?_)
  have h := hbits (8 * j + r) (by omega)
  rw [bit, bit, show (8 * j + r) / 8 = j by omega, show (8 * j + r) % 8 = r by omega] at h
  simpa [List.getD_eq_getElem?_getD, ha, hb] using h

theorem mask_eq_iff {a b : Ip} {n : Nat} : a.mask n = b.mask n ↔
    a.family = b.family ∧ ∀ i < min n (8 * a.bytes.length), a.bit i = b.bit i := by
  constructor
  · intro h
    have hfamily := congrArg family h
    rw [family_mask, family_mask] at hfamily
    refine ⟨hfamily, fun i hi => ?_⟩
    have hbit := congrArg (bit · i) h
    simpa [bit_mask, show i < n by omega] using hbit
  · rintro ⟨hfamily, hbits⟩
    refine ext_bit (by rw [family_mask, family_mask, hfamily]) fun i hi => ?_
    rw [bit_mask, bit_mask]
    by_cases hn : i < n
    · have hlength : (a.mask n).bytes.length = a.bytes.length := length_bytes_eq (family_mask n a)
      rw [hbits i (by omega)]
    · simp [hn]

/-- Two addresses have the same network of a given width just if they are of one family and agree on the bits up to that
width, or on all bits where the width is that of an address or more. The network is of the same family, has these bits,
and no other. Of two masks the narrower one counts, in either order; so a mask changes nothing the second time, and
clients that share a network share every wider one, which has the fewer bits. -/
theorem mask_projects :
    (∀ (a b : Ip) (n : Nat), a.mask n = b.mask n ↔
      a.family = b.family ∧ ∀ i < min n (8 * a.bytes.length), a.bit i = b.bit i) ∧
    (∀ (a : Ip) (n : Nat), (a.mask n).family = a.family ∧ ∀ i, (a.mask n).bit i = (decide (i < n) && a.bit i)) ∧
    (∀ (a : Ip) (m n : Nat), (a.mask m).mask n = a.mask (min m n)) ∧
    (∀ (a : Ip) (n : Nat), (a.mask n).mask n = a.mask n) ∧
    ∀ (a b : Ip) (m n : Nat), m ≤ n → a.mask n = b.mask n → a.mask m = b.mask m := by
  refine ⟨fun a b n => mask_eq_iff, fun a n => ⟨family_mask n a, bit_mask n a⟩, fun a m n => mask_mask m n a,
    fun a n => ?_, fun a b m n hmn h => ?_⟩
  · rw [mask_mask, Nat.min_self]
  · calc a.mask m = (a.mask n).mask m := by rw [mask_mask, Nat.min_eq_right hmn]
      _ = (b.mask n).mask m := by rw [h]
      _ = b.mask m := by rw [mask_mask, Nat.min_eq_right hmn]

/-! Two addresses that agree up to the middle of their third byte. -/

theorem mask_projects_inside_byte :
    let a := ofOctets 192 168 0xff 0xff
    let b := ofOctets 192 168 0xf0 0x01
    17 ≤ 20 ∧ a.mask 20 = b.mask 20 ∧ a.mask 17 = b.mask 17 ∧ a.mask 21 ≠ b.mask 21 := by
  intro a b
  have h : a.mask 20 = b.mask 20 := by decide
  exact ⟨by decide, h, mask_projects.2.2.2.2 a b 17 20 (by decide) h, by decide⟩

end Ip

end AffinityRelay
