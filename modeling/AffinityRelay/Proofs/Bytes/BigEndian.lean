import Mathlib.Algebra.Group.Nat.Defs
import AffinityRelay.Bytes.BigEndian

/-!
# Laws of numbers in network order

`ofBigEndian` and `toBigEndian` are inverse to one another on numbers that fit (`ofBigEndian_toBigEndian`,
`toBigEndian_ofBigEndian`).
-/

namespace AffinityRelay

theorem toBigEndian_succ (width n : Nat) :
    toBigEndian (width + 1) n = (n / 256 ^ width).toUInt8 :: toBigEndian width n := by
  rw [toBigEndian, Nat.shiftRight_eq_div_pow, Nat.pow_mul]

theorem foldl_bigEndian (bs : List UInt8) (n : Nat) :
    bs.foldl (fun n b => 256 * n + b.toNat) n = n * 256 ^ bs.length + ofBigEndian bs := by
  induction bs generalizing n with
  | nil => simp [ofBigEndian]
  | cons b r ih =>
    simp only [List.foldl_cons, ofBigEndian, List.length_cons]
    rw [ih, ih (256 * 0 + b.toNat), Nat.pow_succ]
    simp only [Nat.mul_zero, Nat.zero_add, Nat.add_mul]
    rw [Nat.mul_comm 256 n, Nat.mul_assoc, Nat.mul_comm 256, Nat.add_assoc]

theorem ofBigEndian_cons (b : UInt8) (r : List UInt8) :
    ofBigEndian (b :: r) = b.toNat * 256 ^ r.length + ofBigEndian r := by
  have := foldl_bigEndian r b.toNat
  simpa [ofBigEndian] using this

theorem ofBigEndian_lt (bs : List UInt8) : ofBigEndian bs < 256 ^ bs.length := by
  induction bs with
  | nil => simp [ofBigEndian]
  | cons b r ih =>
    have hb : b.toNat + 1 ≤ 256 := b.toNat_lt
    have hm : (b.toNat + 1) * 256 ^ r.length ≤ 256 * 256 ^ r.length := Nat.mul_le_mul_right _ hb
    rw [ofBigEndian_cons, List.length_cons, Nat.pow_succ, Nat.mul_comm _ 256]
    rw [Nat.add_mul] at hm
    omega

theorem ofBigEndian_toBigEndian (width n : Nat) : ofBigEndian (toBigEndian width n) = n % 256 ^ width := by
  induction width with
  | zero => simp [toBigEndian, ofBigEndian, Nat.mod_one]
  | succ k ih =>
    rw [toBigEndian_succ, ofBigEndian_cons, ih, length_toBigEndian]
    have h : (n / 256 ^ k).toUInt8.toNat = n / 256 ^ k % 256 := by simp [Nat.toUInt8]
    rw [h, Nat.pow_succ, Nat.mod_mul, Nat.mul_comm (256 ^ k), Nat.add_comm]

theorem toBigEndian_add (width n m : Nat) : toBigEndian width (m * 256 ^ width + n) = toBigEndian width n := by
  induction width generalizing n m with
  | zero => rfl
  | succ k ih =>
    have e : m * 256 ^ (k + 1) + n = m * 256 * 256 ^ k + n := by
      rw [Nat.pow_succ, Nat.mul_comm (256 ^ k), Nat.mul_assoc]
    have hd : (m * 256 * 256 ^ k + n) / 256 ^ k = m * 256 + n / 256 ^ k := by
      rw [Nat.add_comm, Nat.add_mul_div_right _ _ (Nat.pow_pos (by decide)), Nat.add_comm]
    have hw : (m * 256 + n / 256 ^ k).toUInt8 = (n / 256 ^ k).toUInt8 := by
      apply UInt8.toNat_inj.1
      simp [Nat.toUInt8]
    rw [toBigEndian_succ, e, hd, hw, toBigEndian_succ, ih]

theorem toBigEndian_ofBigEndian (bs : List UInt8) : toBigEndian bs.length (ofBigEndian bs) = bs := by
  induction bs with
  | nil => rfl
  | cons b r ih =>
    have hd : ofBigEndian (b :: r) / 256 ^ r.length = b.toNat := by
      rw [ofBigEndian_cons, Nat.add_comm, Nat.add_mul_div_right _ _ (Nat.pow_pos (by decide)),
        Nat.div_eq_of_lt (ofBigEndian_lt r), Nat.zero_add]
    rw [List.length_cons, toBigEndian_succ, hd, ofBigEndian_cons, toBigEndian_add, ih]
    simp [Nat.toUInt8]

end AffinityRelay
