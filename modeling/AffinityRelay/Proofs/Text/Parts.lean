import Mathlib.Data.List.Forall2
import Mathlib.Data.List.TakeWhile
import AffinityRelay.Text.Blank
import AffinityRelay.Text.Cut

/-!
# The parts of a text

* `Text.strip`: a text without certain characters at its two ends; `Text.trim` is one case. What is taken off is put
  back by `Text.exists_around`, and what is put around is taken off by `Text.strip_around`;
* `Text.words_around`, `Text.words_join`: blanks around a text change no word of it, and blanks after a word end it;
* `Text.cutFirst_join`, `Text.cutLast_join`: a text is cut where it was joined;
* `Text.not_mem_of_mem_splitOn`: no part of a list has the separator in it, so a list is split where it was joined
  (`Text.splitOn_join`);
* `Text.FirstWrong`: what is wrong with the first part that cannot be read. Parts are read one by one, each on its own
  (`Text.mapM_eq_ok_iff`), up to that one (`Text.mapM_eq_error_iff`).
-/

namespace AffinityRelay.Text

/-! ## What stands around a text -/

section Strip

variable {p q : Char → Bool} {a b s t : List Char}

/-- A text without the characters of `p` at its front and without those of `q` at its end. -/
def strip (p q : Char → Bool) (s : List Char) : List Char :=
  ((s.dropWhile p).reverse.dropWhile q).reverse

/-- A text that has no character of `p` at its front and none of `q` at its end. -/
structure Stripped (p q : Char → Bool) (t : List Char) : Prop where
  head : ∀ c ∈ t.head?, p c = false
  last : ∀ c ∈ t.getLast?, q c = false

instance : Decidable (Stripped p q t) :=
  decidable_of_iff (t.head?.all (!p ·) ∧ t.getLast?.all (!q ·)) <| by
    simp only [Option.all_eq_true, Bool.not_eq_true']
    exact ⟨fun h => ⟨h.1, h.2⟩, fun h => ⟨h.head, h.last⟩⟩

theorem dropWhile_append_of_head (ha : ∀ c ∈ a, p c) (ht : ∀ c ∈ t.head?, p c = false) :
    (a ++ t).dropWhile p = t := by
  rw [List.dropWhile_append_of_pos ha]
  cases t with
  | nil => rfl
  | cons c t => exact List.dropWhile_cons_of_neg (by simp [ht c rfl])

theorem strip_around (ha : ∀ c ∈ a, p c) (hb : ∀ c ∈ b, q c) (ht : Stripped p q t) :
    strip p q (a ++ (t ++ b)) = t := by
  unfold strip
  cases t with
  | nil =>
    -- What is left of `b` at the front goes at the end.
    have hrest : ∀ c ∈ (b.dropWhile p).reverse, q c := fun c hc =>
      hb c ((List.dropWhile_suffix p).subset (List.mem_reverse.1 hc))
    rw [List.nil_append, List.dropWhile_append_of_pos ha, List.dropWhile_eq_nil_iff.2 hrest, List.reverse_nil]
  | cons c t =>
    have hlast : ∀ x ∈ (c :: t).reverse.head?, q x = false := by
      rw [List.head?_reverse]
      exact ht.last
    rw [dropWhile_append_of_head ha (by simpa using ht.head c rfl), List.reverse_append,
      dropWhile_append_of_head (by simpa using hb) hlast, List.reverse_reverse]

theorem strip_of_stripped (ht : Stripped p q t) : strip p q t = t := by
  simpa using strip_around (a := []) (b := []) (by simp) (by simp) ht

theorem head?_dropWhile (p : Char → Bool) (s : List Char) : ∀ c ∈ (s.dropWhile p).head?, p c = false := by
  intro c hc
  have h := List.head?_dropWhile_not p s
  rw [Option.mem_def.1 hc] at h
  exact h

/-- What is taken off a text is what stood around the rest. -/
theorem exists_around (p q : Char → Bool) (s : List Char) :
    ∃ a b, (∀ c ∈ a, p c) ∧ (∀ c ∈ b, q c) ∧ s = a ++ (strip p q s ++ b) ∧ Stripped p q (strip p q s) := by
  have hback : s.dropWhile p = strip p q s ++ ((s.dropWhile p).reverse.takeWhile q).reverse := by
    rw [strip, ← List.reverse_append, List.takeWhile_append_dropWhile, List.reverse_reverse]
  refine ⟨s.takeWhile p, ((s.dropWhile p).reverse.takeWhile q).reverse, fun c hc => List.mem_takeWhile_imp hc,
    fun c hc => List.mem_takeWhile_imp (List.mem_reverse.1 hc), ?_, ?_, ?_⟩
  · rw [← hback, List.takeWhile_append_dropWhile]
  · intro c hc
    refine head?_dropWhile p s c ?_
    rw [hback]
    exact List.mem_head?_append_of_mem_head? hc
  · intro c hc
    rw [strip, List.getLast?_reverse] at hc
    exact head?_dropWhile q _ c hc

theorem stripped_strip (p q : Char → Bool) (s : List Char) : Stripped p q (strip p q s) :=
  have ⟨_, _, _, _, _, h⟩ := exists_around p q s
  h

theorem strip_subset (p q : Char → Bool) (s : List Char) : strip p q s ⊆ s := by
  obtain ⟨a, b, -, -, hs, -⟩ := exists_around p q s
  intro c hc
  rw [hs]
  exact List.mem_append_right a (List.mem_append_left b hc)

end Strip

/-! ## Blanks -/

section Blanks

variable {a b s t w : List Char}

/-- A text with no blank at either end. -/
def Tight : List Char → Prop :=
  Stripped isBlank isBlank

instance : DecidablePred Tight := fun t =>
  inferInstanceAs (Decidable (Stripped isBlank isBlank t))

theorem blank_iff : blank s ↔ ∀ c ∈ s, isBlank c := by
  simp [blank]

theorem not_mem_of_blank {c : Char} (hc : isBlank c = false) (hs : blank s) : c ∉ s := fun h => by
  simp [blank_iff.1 hs c h] at hc

theorem trim_around (ha : blank a) (hb : blank b) (ht : Tight t) : trim (a ++ (t ++ b)) = t :=
  strip_around (blank_iff.1 ha) (blank_iff.1 hb) ht

theorem trim_of_tight (ht : Tight t) : trim t = t :=
  strip_of_stripped ht

theorem tight_trim (s : List Char) : Tight (trim s) :=
  stripped_strip isBlank isBlank s

theorem trim_trim (s : List Char) : trim (trim s) = trim s :=
  trim_of_tight (tight_trim s)

theorem exists_blanks (s : List Char) : ∃ a b, blank a ∧ blank b ∧ s = a ++ (trim s ++ b) := by
  obtain ⟨a, b, ha, hb, hs, -⟩ := exists_around isBlank isBlank s
  exact ⟨a, b, blank_iff.2 ha, blank_iff.2 hb, hs⟩

theorem trim_eq_nil_iff : trim s = [] ↔ blank s := by
  constructor
  · intro h
    obtain ⟨a, b, ha, hb, hs⟩ := exists_blanks s
    rw [h, List.nil_append] at hs
    rw [hs, blank, List.all_append, Bool.and_eq_true]
    exact ⟨ha, hb⟩
  · intro h
    simpa using trim_around (b := []) (t := []) h rfl ⟨by simp, by simp⟩

/-- Of the parts without their blanks, those that are empty are the blank ones. -/
theorem filter_map_trim (ps : List (List Char)) :
    (ps.map trim).filter (!·.isEmpty) = (ps.filter (!blank ·)).map trim := by
  have h : ∀ p, (trim p).isEmpty = blank p := fun p => by
    rw [Bool.eq_iff_iff, List.isEmpty_iff, trim_eq_nil_iff]
  simp only [List.filter_map, Function.comp_def, h]

theorem words_append_cons {c : Char} (hc : isBlank c) (s t : List Char) : words (s ++ c :: t) = words s ++ words t := by
  simp only [words]
  rw [List.splitOnP_append_cons s t hc, List.filter_append]

theorem words_blank_append (ha : blank a) (s : List Char) : words (a ++ s) = words s := by
  induction a with
  | nil => rfl
  | cons c a ih =>
    obtain ⟨hc, ha⟩ : isBlank c ∧ blank a := by simpa [blank] using ha
    have h := words_append_cons hc [] (a ++ s)
    rw [words_nil, List.nil_append, List.nil_append] at h
    rw [List.cons_append, h, ih ha]

theorem words_append_blank (s : List Char) (hb : blank b) : words (s ++ b) = words s := by
  cases b with
  | nil => rw [List.append_nil]
  | cons c b =>
    obtain ⟨hc, hb⟩ : isBlank c ∧ blank b := by simpa [blank] using hb
    have h := words_blank_append hb []
    rw [List.append_nil, words_nil] at h
    rw [words_append_cons hc, h, List.append_nil]

/-- Blanks around a text change none of its words. -/
theorem words_around (ha : blank a) (hb : blank b) (s : List Char) : words (a ++ (s ++ b)) = words s := by
  rw [words_blank_append ha, words_append_blank s hb]

theorem words_trim (s : List Char) : words (trim s) = words s := by
  obtain ⟨a, b, ha, hb, hs⟩ := exists_blanks s
  conv_rhs => rw [hs]
  rw [words_around ha hb]

theorem words_single (hne : w ≠ []) (hw : ∀ c ∈ w, isBlank c = false) : words w = [w] := by
  rw [words, List.splitOnP_eq_singleton hw]
  simp [hne]

/-- Blanks end a word. -/
theorem words_join (hne : w ≠ []) (hw : ∀ c ∈ w, isBlank c = false) (hb : blank b) (hb' : b ≠ []) (s : List Char) :
    words (w ++ (b ++ s)) = w :: words s := by
  cases b with
  | nil => exact absurd rfl hb'
  | cons c b =>
    obtain ⟨hc, hb⟩ : isBlank c ∧ blank b := by simpa [blank] using hb
    rw [List.cons_append, words_append_cons hc, words_single hne hw, words_blank_append hb, List.singleton_append]

end Blanks

/-! ## Cutting where a text was joined -/

theorem cutFirst_join {sep : Char} {a : List Char} (ha : sep ∉ a) (b : List Char) :
    cutFirst sep (a ++ sep :: b) = some (a, b) := by
  induction a with
  | nil => simp [cutFirst]
  | cons c a ih =>
    obtain ⟨hc, ha⟩ : sep ≠ c ∧ sep ∉ a := by simpa using ha
    simp [cutFirst, hc.symm, ih ha]

theorem cutLast_join {sep : Char} (a : List Char) {b : List Char} (hb : sep ∉ b) :
    cutLast sep (a ++ sep :: b) = some (a, b) := by
  induction a with
  | nil => simp [cutLast, cutLast_eq_none.2 hb]
  | cons c a ih => simp [cutLast, ih]

/-- No part of a list has the separator in it. -/
theorem not_mem_of_mem_splitOn {sep : Char} : ∀ {s part : List Char}, part ∈ s.splitOn sep → sep ∉ part
  | [], part, h => by
    rw [List.splitOn_nil, List.mem_singleton] at h
    simp [h]
  | c :: s, part, h => by
    rw [List.splitOn_cons_eq_if_modifyHead] at h
    split at h
    · obtain rfl | h := List.mem_cons.1 h
      · simp
      · exact not_mem_of_mem_splitOn h
    · rename_i hc
      obtain ⟨first, rest, hs⟩ := List.exists_cons_of_ne_nil (List.splitOn_ne_nil sep s)
      rw [hs, List.modifyHead_cons] at h
      obtain rfl | h := List.mem_cons.1 h
      · have hfirst := not_mem_of_mem_splitOn (hs ▸ List.mem_cons_self : first ∈ s.splitOn sep)
        simpa [hfirst] using fun h => hc (by simp [h])
      · exact not_mem_of_mem_splitOn (hs ▸ List.mem_cons_of_mem first h)

/-- What stands in a list is a separator or stands in one of its parts. -/
theorem mem_intercalate {α : Type} {x c : α} : ∀ {ls : List (List α)}, c ∈ [x].intercalate ls → c = x ∨ ∃ l ∈ ls, c ∈ l
  | [], hc => by simp at hc
  | [l], hc => .inr ⟨l, List.mem_singleton_self l, by simpa using hc⟩
  | l :: l' :: ls, hc => by
    rw [List.intercalate_cons_cons, List.mem_append, List.mem_append, List.mem_singleton] at hc
    obtain (hc | hc) | hc := hc
    · exact .inr ⟨l, List.mem_cons_self, hc⟩
    · exact .inl hc
    · exact (mem_intercalate hc).imp_right fun ⟨k, hk, hck⟩ => ⟨k, List.mem_cons_of_mem l hk, hck⟩

/-- A list is split where it was joined, but for a list without parts, which looks like one empty part. -/
theorem splitOn_join {sep : Char} (hsep : isBlank sep = false) {ps : List (List Char)}
    (h : ∀ p ∈ ps.filter (!blank ·), sep ∉ p) :
    (([sep].intercalate ps).splitOn sep).filter (!blank ·) = ps.filter (!blank ·) := by
  have hall : ∀ p ∈ ps, sep ∉ p := by
    intro p hp
    cases hblank : blank p with
    | true => exact not_mem_of_blank hsep hblank
    | false => exact h p (List.mem_filter.2 ⟨hp, by simp [hblank]⟩)
  cases ps with
  | nil => rfl
  | cons p ps => rw [List.splitOn_intercalate sep hall (List.cons_ne_nil p ps)]

/-! ## Reading part by part -/

section Reading

variable {ε α β : Type} {read : α → Except ε β}

/-- What is wrong with the first one that cannot be read. -/
def FirstWrong (read : α → Except ε β) (as : List α) (e : ε) : Prop :=
  ∃ before a after, as = before ++ a :: after ∧ (∀ x ∈ before, ∃ b, read x = .ok b) ∧ read a = .error e

theorem mapM_eq_ok_iff {as : List α} {bs : List β} :
    as.mapM read = .ok bs ↔ List.Forall₂ (fun a b => read a = .ok b) as bs := by
  induction as generalizing bs with
  | nil => simp [pure, Except.pure, eq_comm]
  | cons a as ih =>
    rw [List.mapM_cons, List.forall₂_cons_left_iff]
    cases ha : read a with
    | error e => simp [bind, Except.bind]
    | ok b =>
      cases has : as.mapM read with
      | error e => simp [bind, Except.bind, ← ih, has]
      | ok bs' => simp [bind, Except.bind, pure, Except.pure, ← ih, has, eq_comm]

theorem exists_left_of_mem {R : α → β → Prop} {as : List α} {bs : List β} (h : List.Forall₂ R as bs) :
    ∀ b ∈ bs, ∃ a ∈ as, R a b := by
  induction h with
  | nil => simp
  | cons hab _ ih =>
    simp only [List.forall_mem_cons, List.exists_mem_cons_iff]
    exact ⟨.inl hab, fun b hb => .inr (ih b hb)⟩

/-- What was read was read from one of the parts. -/
theorem exists_part_of_mem {as : List α} {bs : List β} (h : as.mapM read = .ok bs) :
    ∀ b ∈ bs, ∃ a ∈ as, read a = .ok b :=
  exists_left_of_mem (mapM_eq_ok_iff.1 h)

theorem exists_mapM_iff {as : List α} : (∃ bs, as.mapM read = .ok bs) ↔ ∀ a ∈ as, ∃ b, read a = .ok b := by
  simp only [mapM_eq_ok_iff]
  induction as with
  | nil => simp
  | cons a as ih =>
    simp only [List.forall₂_cons_left_iff, List.forall_mem_cons, ← ih]
    constructor
    · rintro ⟨-, b, bs, hb, hbs, rfl⟩
      exact ⟨⟨b, hb⟩, bs, hbs⟩
    · rintro ⟨⟨b, hb⟩, bs, hbs⟩
      exact ⟨b :: bs, b, bs, hb, hbs, rfl⟩

theorem mapM_eq_error_iff {as : List α} {e : ε} : as.mapM read = .error e ↔ FirstWrong read as e := by
  constructor
  · intro h
    induction as with
    | nil => cases h
    | cons a as ih =>
      rw [List.mapM_cons] at h
      cases ha : read a with
      | error e' =>
        rw [ha] at h
        cases h
        exact ⟨[], a, as, rfl, by simp, ha⟩
      | ok b =>
        have has : as.mapM read = .error e := by
          cases has : as.mapM read <;> simp_all [bind, Except.bind, pure, Except.pure]
        obtain ⟨before, a', after, rfl, hbefore, ha'⟩ := ih has
        exact ⟨a :: before, a', after, rfl, by simpa [ha] using hbefore, ha'⟩
  · rintro ⟨before, a, after, rfl, hbefore, ha⟩
    obtain ⟨bs, hbs⟩ := exists_mapM_iff.2 hbefore
    rw [List.mapM_append, List.mapM_cons, hbs, ha]
    rfl

end Reading

end AffinityRelay.Text
