/-!
# Cutting a text in two

- `cutFirst`: what stands before and after the first occurrence of a character;
- `cutLast`: the same at the last occurrence;
- `upper`, `lower`: the letters of the Latin alphabet in one case, every other character as it is.
-/

namespace AffinityRelay.Text

/-- What stands before and after the first `sep`. -/
def cutFirst (sep : Char) : List Char → Option (List Char × List Char)
  | [] => none
  | c :: r => if c = sep then some ([], r) else (cutFirst sep r).map fun p => (c :: p.1, p.2)

/-- What stands before and after the last `sep`. -/
def cutLast (sep : Char) : List Char → Option (List Char × List Char)
  | [] => none
  | c :: r =>
    match cutLast sep r with
    | some p => some (c :: p.1, p.2)
    | none => if c = sep then some ([], r) else none

/-- A text in capitals, as far as its letters are Latin. -/
def upper (s : List Char) : List Char :=
  s.map Char.toUpper

/-- A text in small letters, as far as its letters are Latin. -/
def lower (s : List Char) : List Char :=
  s.map Char.toLower

theorem cutFirst_eq_some {sep : Char} {s a b : List Char} (h : cutFirst sep s = some (a, b)) :
    s = a ++ sep :: b ∧ sep ∉ a := by
  induction s generalizing a with
  | nil => simp [cutFirst] at h
  | cons c r ih =>
    by_cases hc : c = sep
    · simp only [cutFirst, hc, if_true, Option.some.injEq, Prod.mk.injEq] at h
      simp [hc, ← h.1, ← h.2]
    · simp only [cutFirst, hc, if_false, Option.map_eq_some_iff, Prod.mk.injEq] at h
      obtain ⟨⟨a', b'⟩, hr, rfl, rfl⟩ := h
      obtain ⟨rfl, hn⟩ := ih hr
      exact ⟨rfl, by simp [hn, Ne.symm hc]⟩

theorem cutFirst_eq_none {sep : Char} {s : List Char} : cutFirst sep s = none ↔ sep ∉ s := by
  induction s with
  | nil => simp [cutFirst]
  | cons c r ih =>
    by_cases hc : c = sep
    · simp [cutFirst, hc]
    · simp [cutFirst, hc, ih, Ne.symm hc]

theorem cutLast_eq_none {sep : Char} {s : List Char} : cutLast sep s = none ↔ sep ∉ s := by
  induction s with
  | nil => simp [cutLast]
  | cons c r ih =>
    cases hr : cutLast sep r with
    | some p =>
      have : sep ∈ r := by
        apply Decidable.byContradiction
        intro hn
        simp [ih.2 hn] at hr
      simp [cutLast, hr, this]
    | none =>
      have hn := ih.1 hr
      by_cases hc : c = sep
      · simp [cutLast, hr, hc]
      · simp [cutLast, hr, hc, hn, Ne.symm hc]

theorem cutLast_eq_some {sep : Char} {s a b : List Char} (h : cutLast sep s = some (a, b)) :
    s = a ++ sep :: b ∧ sep ∉ b := by
  induction s generalizing a with
  | nil => simp [cutLast] at h
  | cons c r ih =>
    cases hr : cutLast sep r with
    | some p =>
      obtain ⟨a', b'⟩ := p
      simp only [cutLast, hr, Option.some.injEq, Prod.mk.injEq] at h
      obtain ⟨rfl, rfl⟩ := h
      obtain ⟨rfl, hn⟩ := ih hr
      exact ⟨rfl, hn⟩
    | none =>
      by_cases hc : c = sep
      · simp only [cutLast, hr, hc, if_true, Option.some.injEq, Prod.mk.injEq] at h
        obtain ⟨rfl, rfl⟩ := h
        exact ⟨by simp [hc], cutLast_eq_none.1 hr⟩
      · simp [cutLast, hr, hc] at h

end AffinityRelay.Text
