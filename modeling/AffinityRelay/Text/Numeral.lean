/-!
# Decimal numerals

- `unsigned?`: reads a numeral of decimal digits, with an optional plus sign and any number of leading zeros, up to a
  largest value;
- `numeral`: the digits of a number without leading zeros.
-/

namespace AffinityRelay.Text

/-- The value of a text of one or more decimal digits. -/
def digits? (s : List Char) : Option Nat :=
  if s ≠ [] ∧ s.all Char.isDigit then some (Nat.ofDigitChars 10 s 0) else none

/-- A numeral without its plus sign. -/
def withoutPlus : List Char → List Char
  | '+' :: r => r
  | s => s

/-- The value of a numeral, with or without a plus sign, if it is at most `largest`. -/
def unsigned? (largest : Nat) (s : List Char) : Option Nat :=
  (digits? (withoutPlus s)).filter (· ≤ largest)

/-- The decimal digits of a number. -/
def numeral (n : Nat) : List Char :=
  Nat.toDigits 10 n

theorem digits?_numeral (n : Nat) : digits? (numeral n) = some n := by
  have hd : (Nat.toDigits 10 n).all Char.isDigit = true := by
    simp only [List.all_eq_true]
    exact fun c hc => Nat.isDigit_of_mem_toDigits (by decide) (by decide) hc
  simp [digits?, numeral, Nat.toDigits_ne_nil, hd]

/-- A numeral starts with a digit. -/
theorem withoutPlus_numeral (n : Nat) : withoutPlus (numeral n) = numeral n := by
  unfold withoutPlus
  split
  · rename_i r he
    have hp : ('+' : Char).isDigit :=
      Nat.isDigit_of_mem_toDigits (b := 10) (n := n) (by decide) (by decide) (by unfold numeral at he; simp [he])
    exact absurd hp (by decide)
  · rfl

theorem unsigned?_numeral {n largest : Nat} (h : n ≤ largest) : unsigned? largest (numeral n) = some n := by
  simp [unsigned?, withoutPlus_numeral, digits?_numeral, h]

end AffinityRelay.Text
