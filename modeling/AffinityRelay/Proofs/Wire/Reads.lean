import Mathlib.Data.List.Basic
import AffinityRelay.Wire.Decode

/-!
# What a decoder reads

`Decoded.Reads d L E` says all that there is to say of a decoder `d`: `L t a` are the texts `t` of the values `a`, and
`E p e` the beginnings `p` of such texts after which the byte of the error `e` is wrong. A text at the front is found,
the beginning of one is incomplete, and what can never begin with one is an error that tells of the first byte after which
that is so (`Reads.incomplete_iff`, `Reads.exists_invalid_iff`). No text begins another (`Reads.prefix_free`).

Decoders are put together from others: one after another (`Reads.andThen`), or by a byte that tells which
(`Reads.head`).
-/

namespace AffinityRelay

/-- The byte that an error tells of. -/
def FrameError.byte : FrameError → UInt8
  | unknownOpcode code => code
  | addressLength length => length

namespace Decoded

variable {α β : Type}

/-- A decoder finds exactly the texts of a language, and tells of the first byte that leads out of it. -/
structure Reads (d : List UInt8 → Decoded α) (L : List UInt8 → α → Prop) (E : List UInt8 → FrameError → Prop) :
    Prop where
  value_iff : ∀ {s a r}, d s = value a r ↔ ∃ t, L t a ∧ t ++ r = s
  begins : ∀ {s}, d s = incomplete → ∃ t a, L (s ++ t) a ∧ t ≠ []
  invalid_iff : ∀ {s e}, d s = invalid e ↔ ∃ p r, E p e ∧ p ++ e.byte :: r = s
  begun : ∀ {p e}, E p e → ∃ t a, L (p ++ t) a

namespace Reads

variable {d : List UInt8 → Decoded α} {L : List UInt8 → α → Prop} {E : List UInt8 → FrameError → Prop}

/-- A text is found at the front of all that it begins. -/
theorem value_append (h : Reads d L E) {t : List UInt8} {a : α} (ht : L t a) (r : List UInt8) :
    d (t ++ r) = value a r :=
  h.value_iff.2 ⟨t, ht, rfl⟩

/-- An error is one whatever follows. -/
theorem invalid_append (h : Reads d L E) {s : List UInt8} {e : FrameError} (he : d s = invalid e) (t : List UInt8) :
    d (s ++ t) = invalid e := by
  obtain ⟨p, r, hp, rfl⟩ := h.invalid_iff.1 he
  exact h.invalid_iff.2 ⟨p, r ++ t, hp, by rw [List.append_assoc, List.cons_append]⟩

/-- No text goes on with a wrong byte. -/
theorem wrong (h : Reads d L E) {p t q r : List UInt8} {e : FrameError} {a : α} (hp : E p e) (ht : L t a) :
    t ++ q ≠ p ++ e.byte :: r := by
  intro he
  have hv := h.value_append ht q
  rw [he, h.invalid_iff.2 ⟨p, r, hp, rfl⟩] at hv
  cases hv

/-- There is one text at most at the front, and one value of it. -/
theorem unique (h : Reads d L E) {t u r q : List UInt8} {a b : α} (ht : L t a) (hu : L u b)
    (he : t ++ r = u ++ q) : t = u ∧ a = b ∧ r = q := by
  have hv : value a r = value b q := by
    rw [← h.value_append ht r, ← h.value_append hu q, he]
  injection hv with hab hrq
  subst hrq
  exact ⟨List.append_cancel_right he, hab, rfl⟩

/-- No text begins another. -/
theorem prefix_free (h : Reads d L E) {t u : List UInt8} {a b : α} (ht : L t a) (hu : L u b) (hp : t <+: u) :
    t = u := by
  obtain ⟨r, hr⟩ := hp
  exact (h.unique ht hu (by rw [hr, List.append_nil] : t ++ r = u ++ [])).1

theorem incomplete_iff (h : Reads d L E) {s : List UInt8} :
    d s = incomplete ↔ ∃ t a, L (s ++ t) a ∧ t ≠ [] := by
  refine ⟨h.begins, fun ⟨t, a, ht, hne⟩ => ?_⟩
  cases hd : d s with
  | value b r =>
    obtain ⟨u, hu, hs⟩ := h.value_iff.1 hd
    have := (h.unique hu ht (by rw [← List.append_assoc, hs, List.append_nil] : u ++ (r ++ t) = s ++ t ++ [])).2.2
    exact absurd (List.append_eq_nil_iff.1 this).2 hne
  | incomplete => rfl
  | invalid e =>
    have hv := h.value_append ht []
    rw [List.append_nil, h.invalid_append hd t] at hv
    cases hv

/-- It is an error if and only if nothing that can come makes a text of it. -/
theorem exists_invalid_iff (h : Reads d L E) {s : List UInt8} :
    (∃ e, d s = invalid e) ↔ ∀ t u a r, L u a → u ++ r ≠ s ++ t := by
  constructor
  · rintro ⟨e, hd⟩ t u a r hu he
    have hv := h.value_append hu r
    rw [he, h.invalid_append hd t] at hv
    cases hv
  · intro hno
    cases hd : d s with
    | value a r =>
      obtain ⟨t, ht, hs⟩ := h.value_iff.1 hd
      exact absurd (by rw [hs, List.append_nil]) (hno [] t a r ht)
    | incomplete =>
      obtain ⟨t, a, ht, -⟩ := h.begins hd
      exact absurd (List.append_nil _) (hno t _ a [] ht)
    | invalid e => exact ⟨e, rfl⟩

/-- Some value has a text. -/
theorem nonempty (h : Reads d L E) : ∃ t a, L t a := by
  cases hd : d [] with
  | value a r =>
    obtain ⟨t, ht, -⟩ := h.value_iff.1 hd
    exact ⟨t, a, ht⟩
  | incomplete =>
    obtain ⟨t, a, ht, -⟩ := h.begins hd
    exact ⟨_, a, ht⟩
  | invalid e =>
    obtain ⟨p, r, -, hs⟩ := h.invalid_iff.1 hd
    simp at hs

theorem congr {M : List UInt8 → α → Prop} {F : List UInt8 → FrameError → Prop} (h : Reads d L E)
    (hL : ∀ t a, L t a ↔ M t a) (hE : ∀ p e, E p e ↔ F p e) : Reads d M F := by
  obtain rfl : L = M := funext fun t => funext fun a => propext (hL t a)
  obtain rfl : E = F := funext fun p => funext fun e => propext (hE p e)
  exact h

/-! ## Putting decoders together -/

/-- A value, and nothing is read. -/
theorem pure (b : β) : Reads (value b) (fun t a => t = [] ∧ a = b) (fun _ _ => False) where
  value_iff := by
    intro s a r
    simp only [value.injEq]
    constructor
    · rintro ⟨rfl, rfl⟩
      exact ⟨[], ⟨rfl, rfl⟩, rfl⟩
    · rintro ⟨t, ⟨rfl, rfl⟩, rfl⟩
      exact ⟨rfl, rfl⟩
  begins := nofun
  invalid_iff := by simp
  begun := False.elim

/-- A number of bytes, whatever they are. -/
theorem bytes (n : Nat) : Reads (Decoded.bytes n) (fun t a => a = t ∧ t.length = n) (fun _ _ => False) where
  value_iff := by
    intro s a r
    unfold Decoded.bytes
    split <;> rename_i hn
    · simp only [reduceCtorEq, false_iff, not_exists, not_and]
      rintro t ⟨rfl, ht⟩ rfl
      simp only [List.length_append] at hn
      omega
    · simp only [value.injEq]
      constructor
      · rintro ⟨rfl, rfl⟩
        exact ⟨s.take n, ⟨rfl, by simp only [List.length_take]; omega⟩, List.take_append_drop n s⟩
      · rintro ⟨t, ⟨rfl, rfl⟩, rfl⟩
        simp
  begins := by
    intro s hs
    unfold Decoded.bytes at hs
    split at hs
    · rename_i hn
      refine ⟨List.replicate (n - s.length) 0, _, ⟨rfl, ?_⟩, ?_⟩
      · simp only [List.length_append, List.length_replicate]
        omega
      · simp only [ne_eq, List.replicate_eq_nil_iff]
        omega
    · cases hs
  invalid_iff := by
    intro s e
    unfold Decoded.bytes
    split <;> simp
  begun := False.elim

/-- One decoder after another: the texts are joined, and the second may find a wrong byte after a text of the first. -/
theorem andThen {n : α → List UInt8 → Decoded β} {M : α → List UInt8 → β → Prop}
    {F : α → List UInt8 → FrameError → Prop} (h : Reads d L E) (hn : ∀ t a, L t a → Reads (n a) (M a) (F a)) :
    Reads (fun s => (d s).andThen n) (fun t b => ∃ u a v, L u a ∧ M a v b ∧ u ++ v = t)
      (fun p e => E p e ∨ ∃ u a q, L u a ∧ F a q e ∧ u ++ q = p) where
  value_iff := by
    intro s b r
    rw [andThen_eq_value]
    constructor
    · rintro ⟨a, r', hd, hb⟩
      obtain ⟨u, hu, rfl⟩ := h.value_iff.1 hd
      obtain ⟨v, hv, rfl⟩ := (hn u a hu).value_iff.1 hb
      exact ⟨u ++ v, ⟨u, a, v, hu, hv, rfl⟩, List.append_assoc u v r⟩
    · rintro ⟨-, ⟨u, a, v, hu, hv, rfl⟩, rfl⟩
      exact ⟨a, v ++ r, by rw [List.append_assoc, h.value_append hu], (hn u a hu).value_append hv r⟩
  begins := by
    intro s hs
    cases hd : d s with
    | value a r =>
      rw [hd] at hs
      obtain ⟨u, hu, rfl⟩ := h.value_iff.1 hd
      obtain ⟨t, b, ht, hne⟩ := (hn u a hu).begins hs
      exact ⟨t, b, ⟨u, a, r ++ t, hu, ht, (List.append_assoc u r t).symm⟩, hne⟩
    | incomplete =>
      obtain ⟨t, a, ht, hne⟩ := h.begins hd
      obtain ⟨v, b, hv⟩ := (hn _ a ht).nonempty
      refine ⟨t ++ v, b, ⟨s ++ t, a, v, ht, hv, List.append_assoc s t v⟩, ?_⟩
      exact fun he => hne (List.append_eq_nil_iff.1 he).1
    | invalid e =>
      rw [hd] at hs
      cases hs
  invalid_iff := by
    intro s e
    constructor
    · intro hs
      cases hd : d s with
      | value a r =>
        rw [hd] at hs
        obtain ⟨u, hu, rfl⟩ := h.value_iff.1 hd
        obtain ⟨q, r', hq, rfl⟩ := (hn u a hu).invalid_iff.1 hs
        exact ⟨u ++ q, r', Or.inr ⟨u, a, q, hu, hq, rfl⟩, List.append_assoc u q _⟩
      | incomplete =>
        rw [hd] at hs
        cases hs
      | invalid e' =>
        rw [hd] at hs
        cases hs
        obtain ⟨p, r, hp, rfl⟩ := h.invalid_iff.1 hd
        exact ⟨p, r, Or.inl hp, rfl⟩
    · rintro ⟨p, r, hp | ⟨u, a, q, hu, hq, rfl⟩, rfl⟩
      · rw [h.invalid_iff.2 ⟨p, r, hp, rfl⟩]
        rfl
      · rw [List.append_assoc, h.value_append hu]
        exact (hn u a hu).invalid_iff.2 ⟨q, r, hq, rfl⟩
  begun := by
    rintro p e (hp | ⟨u, a, q, hu, hq, rfl⟩)
    · obtain ⟨t, a, ht⟩ := h.begun hp
      obtain ⟨v, b, hv⟩ := (hn _ a ht).nonempty
      exact ⟨t ++ v, b, p ++ t, a, v, ht, hv, List.append_assoc p t v⟩
    · obtain ⟨t, b, ht⟩ := (hn u a hu).begun hq
      exact ⟨t, b, u, a, q ++ t, hu, ht, (List.append_assoc u q t).symm⟩

/-- A byte that tells how to go on. Those that do not are wrong. -/
theorem head (good : UInt8 → Prop) (error : UInt8 → FrameError) {M : UInt8 → List UInt8 → α → Prop}
    {F : UInt8 → List UInt8 → FrameError → Prop} (hnil : d [] = incomplete) (hgood : ∃ c, good c)
    (hn : ∀ c, good c → Reads (fun s => d (c :: s)) (M c) (F c))
    (hbad : ∀ c, ¬ good c → ∀ s, d (c :: s) = invalid (error c)) (hbyte : ∀ c, (error c).byte = c) :
    Reads d (fun t a => ∃ c u, good c ∧ M c u a ∧ c :: u = t)
      (fun p e => (p = [] ∧ ∃ c, ¬ good c ∧ e = error c) ∨ ∃ c q, good c ∧ F c q e ∧ c :: q = p) := by
  have hfirst : ∃ c u a, good c ∧ M c u a := by
    obtain ⟨c, hc⟩ := hgood
    obtain ⟨u, a, hu⟩ := (hn c hc).nonempty
    exact ⟨c, u, a, hc, hu⟩
  constructor
  · intro s a r
    cases s with
    | nil =>
      rw [hnil]
      simp only [reduceCtorEq, false_iff, not_exists, not_and]
      rintro t ⟨c, u, -, -, rfl⟩ ht
      cases ht
    | cons c s =>
      constructor
      · intro hv
        by_cases hc : good c
        · obtain ⟨u, hu, rfl⟩ := (hn c hc).value_iff.1 hv
          exact ⟨c :: u, ⟨c, u, hc, hu, rfl⟩, rfl⟩
        · rw [hbad c hc] at hv
          cases hv
      · rintro ⟨-, ⟨c', u, hc, hu, rfl⟩, he⟩
        cases he
        exact (hn c hc).value_append hu r
  · intro s hs
    cases s with
    | nil =>
      obtain ⟨c, u, a, hc, hu⟩ := hfirst
      exact ⟨c :: u, a, ⟨c, u, hc, hu, rfl⟩, by simp⟩
    | cons c s =>
      by_cases hc : good c
      · obtain ⟨t, a, ht, hne⟩ := (hn c hc).begins hs
        exact ⟨t, a, ⟨c, s ++ t, hc, ht, rfl⟩, hne⟩
      · rw [hbad c hc] at hs
        cases hs
  · intro s e
    cases s with
    | nil => simp [hnil]
    | cons c s =>
      constructor
      · intro hs
        by_cases hc : good c
        · obtain ⟨q, r, hq, rfl⟩ := (hn c hc).invalid_iff.1 hs
          exact ⟨c :: q, r, Or.inr ⟨c, q, hc, hq, rfl⟩, rfl⟩
        · rw [hbad c hc] at hs
          cases hs
          exact ⟨[], s, Or.inl ⟨rfl, c, hc, rfl⟩, by rw [hbyte, List.nil_append]⟩
      · rintro ⟨p, r, ⟨rfl, c', hc, rfl⟩ | ⟨c', q, hc, hq, rfl⟩, he⟩
        · rw [hbyte] at he
          cases he
          exact hbad c hc s
        · cases he
          exact (hn c hc).invalid_iff.2 ⟨q, r, hq, rfl⟩
  · rintro p e (⟨rfl, -⟩ | ⟨c, q, hc, hq, rfl⟩)
    · obtain ⟨c, u, a, hc, hu⟩ := hfirst
      exact ⟨c :: u, a, c, u, hc, hu, rfl⟩
    · obtain ⟨t, a, ht⟩ := (hn c hc).begun hq
      exact ⟨t, a, c, q ++ t, hc, ht, rfl⟩

end Reads

end Decoded

end AffinityRelay
