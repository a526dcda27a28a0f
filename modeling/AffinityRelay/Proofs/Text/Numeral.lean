import Mathlib.Data.List.Induction
import AffinityRelay.Text.Blank
import AffinityRelay.Text.Cut
import AffinityRelay.Text.Numeral

/-!
# Words and numerals

* `Text.solid`: the characters of fixed words and of numerals. None of them is a blank or a separator;
* `Text.solid_of_upper`: letters in either case are solid where the capitals are;
* `Text.Denotes`: a number in decimal digits, with any zeros and perhaps a plus sign in front. Just these texts are read
  as that number (`Text.unsigned?_eq_some_iff`).
-/

namespace AffinityRelay.Text

/-! ## Characters -/

/-- A letter, a digit, or a plus sign. -/
def solid (c : Char) : Bool :=
  c.isAlphanum || c == '+'

theorem isBlank_of_solid {c : Char} (h : solid c) : isBlank c = false := by
  unfold solid Char.isAlphanum Char.isAlpha Char.isUpper Char.isLower Char.isDigit at h
  simp only [Bool.or_eq_true, Bool.and_eq_true, decide_eq_true_eq, beq_iff_eq, ge_iff_le, UInt32.le_iff_toNat_le] at h
  obtain h | rfl := h
  · have hn : c.toNat = c.val.toNat := rfl
    have hcodes : 'A'.val.toNat = 65 ∧ 'Z'.val.toNat = 90 ∧ 'a'.val.toNat = 97 ∧ 'z'.val.toNat = 122 ∧
        '0'.val.toNat = 48 ∧ '9'.val.toNat = 57 := by decide
    simp only [isBlank, Bool.or_eq_false_iff, Bool.and_eq_false_iff, decide_eq_false_iff_not, beq_eq_false_iff_ne]
    omega
  · rfl

theorem not_mem_of_solid {c : Char} (hc : solid c = false) {s : List Char} (hs : s.all solid) : c ∉ s := fun h => by
  have := List.all_eq_true.1 hs c h
  simp [hc] at this

theorem isAlpha_of_toUpper {c : Char} (h : c.toUpper.isAlpha) : c.isAlpha := by
  by_cases hc : 'a'.val ≤ c.val ∧ c.val ≤ 'z'.val
  · have hlower : c.isLower := by
      unfold Char.isLower
      simpa using hc
    unfold Char.isAlpha
    rw [hlower, Bool.or_true]
  · unfold Char.toUpper at h
    rwa [dif_neg hc] at h

/-- A word of letters consists of letters in either case. -/
theorem solid_of_upper {s : List Char} (h : (upper s).all Char.isAlpha) : s.all solid := by
  refine List.all_eq_true.2 fun c hc => ?_
  have hletter := isAlpha_of_toUpper (List.all_eq_true.1 h c.toUpper (List.mem_map_of_mem hc))
  simp [solid, Char.isAlphanum, hletter]

theorem isDigit_of_mem_numeral {n : Nat} {c : Char} (hc : c ∈ numeral n) : c.isDigit :=
  Nat.isDigit_of_mem_toDigits (by decide) (by decide) hc

theorem solid_numeral (n : Nat) : (numeral n).all solid :=
  List.all_eq_true.2 fun c hc => by simp [solid, Char.isAlphanum, isDigit_of_mem_numeral hc]

/-! ## Numerals -/

/-- A number in decimal digits, with any zeros and perhaps a plus sign in front. -/
def Denotes (s : List Char) (n : Nat) : Prop :=
  ∃ zeros, s = List.replicate zeros '0' ++ numeral n ∨ s = '+' :: (List.replicate zeros '0' ++ numeral n)

theorem Denotes.solid {s : List Char} {n : Nat} (h : Denotes s n) : s.all Text.solid := by
  have hzeros (zeros : Nat) : (List.replicate zeros '0').all Text.solid :=
    List.all_eq_true.2 fun c hc => by rw [List.eq_of_mem_replicate hc]; rfl
  obtain ⟨zeros, rfl | rfl⟩ := h
  · rw [List.all_append, hzeros, solid_numeral, Bool.and_self]
  · rw [List.all_cons, List.all_append, hzeros, solid_numeral]
    rfl

/-- A digit more. -/
theorem numeral_mul_add {n d : Nat} (hn : n ≠ 0) (hd : d < 10) : numeral (10 * n + d) = numeral n ++ [d.digitChar] := by
  have hdiv : (10 * n + d) / 10 = n := by omega
  have hmod : (10 * n + d) % 10 = d := by omega
  rw [numeral, Nat.toDigits_eq_if (by decide), if_neg (by omega), hdiv, hmod, numeral]

theorem exists_digit_of_isDigit {c : Char} (hc : c.isDigit) : ∃ d < 10, c = d.digitChar := by
  have h := Char.isDigit_iff_toNat.1 hc
  have hcodes : '0'.toNat = 48 ∧ '9'.toNat = 57 := by decide
  refine ⟨c.toNat - 48, by omega, ?_⟩
  apply Char.toNat_inj.1
  rw [Nat.toNat_digitChar_of_lt_ten (by omega)]
  omega

/-- Digits are the numeral of their value, with zeros in front. -/
theorem exists_zeros {ds : List Char} (hne : ds ≠ []) (hds : ∀ c ∈ ds, c.isDigit) :
    ∃ zeros, ds = List.replicate zeros '0' ++ numeral (Nat.ofDigitChars 10 ds 0) := by
  induction ds using List.reverseRecOn with
  | nil => exact absurd rfl hne
  | append_singleton ds c ih =>
    obtain ⟨d, hd, rfl⟩ : ∃ d < 10, c = d.digitChar := exists_digit_of_isDigit (hds c (by simp))
    have hvalue : Nat.ofDigitChars 10 (ds ++ [d.digitChar]) 0 = 10 * Nat.ofDigitChars 10 ds 0 + d := by
      rw [Nat.ofDigitChars_append, Nat.ofDigitChars_cons_digitChar_of_lt_ten hd, Nat.ofDigitChars_nil]
    have hdigit : numeral d = [d.digitChar] := by
      rw [numeral, Nat.toDigits_eq_if (by decide), if_pos hd]
    rw [hvalue]
    by_cases hds' : ds = []
    · exact ⟨0, by simp [hds', hdigit]⟩
    · obtain ⟨zeros, hzeros⟩ := ih hds' fun c hc => hds c (by simp [hc])
      by_cases hn : Nat.ofDigitChars 10 ds 0 = 0
      · -- All digits before the last are zeros.
        rw [hn] at hzeros ⊢
        refine ⟨zeros + 1, ?_⟩
        rw [hzeros, Nat.mul_zero, Nat.zero_add, hdigit, List.replicate_succ']
        rfl
      · refine ⟨zeros, ?_⟩
        rw [numeral_mul_add hn hd, ← List.append_assoc, ← hzeros]

theorem digits?_eq_some_iff {s : List Char} {n : Nat} :
    digits? s = some n ↔ ∃ zeros, s = List.replicate zeros '0' ++ numeral n := by
  constructor
  · intro h
    simp only [digits?, Option.ite_none_right_eq_some, Option.some.injEq] at h
    obtain ⟨⟨hne, hs⟩, rfl⟩ := h
    exact exists_zeros hne (List.all_eq_true.1 hs)
  · rintro ⟨zeros, rfl⟩
    have hdigits : (List.replicate zeros '0' ++ numeral n).all Char.isDigit := by
      refine List.all_eq_true.2 fun c hc => ?_
      obtain hc | hc := List.mem_append.1 hc
      · rw [List.eq_of_mem_replicate hc]
        rfl
      · exact isDigit_of_mem_numeral hc
    have hvalue : Nat.ofDigitChars 10 (List.replicate zeros '0' ++ numeral n) 0 = n := by
      rw [Nat.ofDigitChars_append, Nat.ofDigitChars_replicate_zero, Nat.mul_zero, numeral,
        Nat.ofDigitChars_ten_toDigits]
    have hne : List.replicate zeros '0' ++ numeral n ≠ [] := by simp [numeral, Nat.toDigits_ne_nil]
    rw [digits?, if_pos ⟨hne, hdigits⟩, hvalue]

/-- Just the texts that denote a number are read as that number, if it is not too large. -/
theorem unsigned?_eq_some_iff {largest n : Nat} {s : List Char} :
    unsigned? largest s = some n ↔ Denotes s n ∧ n ≤ largest := by
  simp only [unsigned?, Option.filter_eq_some_iff, decide_eq_true_eq, and_congr_left_iff, digits?_eq_some_iff]
  intro _
  constructor
  · rintro ⟨zeros, h⟩
    refine ⟨zeros, ?_⟩
    unfold withoutPlus at h
    split at h
    · exact .inr (by rw [h])
    · exact .inl h
  · rintro ⟨zeros, rfl | rfl⟩
    · refine ⟨zeros, ?_⟩
      cases zeros with
      | zero => exact withoutPlus_numeral n
      | succ zeros => rfl
    · exact ⟨zeros, rfl⟩

end AffinityRelay.Text
