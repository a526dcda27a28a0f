import AffinityRelay.Proofs.Text.Numeral
import AffinityRelay.Proofs.Text.Parts
import AffinityRelay.Rule.HostPort

/-!
# Backends are read back from their text

* `HostPort.Proper`: a host as it is read from a list. What is read is proper (`HostPort.proper_of_readList`), but for
  blanks inside;
* `HostPort.ofText?_text`: a proper backend without blanks is read back from its text, which has no comma in it;
* `HostPort.list_read_back`: so a list that was read is read again from what is written of it.
-/

namespace AffinityRelay.HostPort

open Text

/-- A host that can be read from a list: it is not empty, no bracket can be taken off it, and no comma is in it. -/
structure Proper (h : HostPort) : Prop where
  nonempty : h.host.toList ≠ []
  bare : Stripped (· = '[') (· = ']') h.host.toList
  comma : ',' ∉ h.host.toList

/-! ## What is read is proper -/

theorem ofText?_eq_some {s : List Char} {h : HostPort} (hs : ofText? s = some h) : ∃ host port,
    trim s = host ++ ':' :: port ∧ h.host.toList = bare host ∧ bare host ≠ [] ∧
    unsigned? 0xffff port = some h.port.toNat := by
  simp only [ofText?, Option.bind_eq_bind, Option.bind_eq_some_iff] at hs
  obtain ⟨⟨host, port⟩, hcut, hs⟩ := hs
  split at hs
  · cases hs
  · rename_i hne
    obtain ⟨n, hn, hs⟩ := Option.bind_eq_some_iff.1 hs
    have hle := (unsigned?_eq_some_iff.1 hn).2
    cases hs
    refine ⟨host, port, (cutLast_eq_some hcut).1, String.toList_ofList, by simpa using hne, ?_⟩
    simp [hn, Nat.mod_eq_of_lt (show n < 65536 by omega)]

theorem proper_of_read {s : List Char} (hcomma : ',' ∉ s) {h : HostPort} (hs : read s = .ok h) : Proper h := by
  have hs : ofText? s = some h := by
    unfold read at hs
    split at hs
    · cases hs
      assumption
    · cases hs
  obtain ⟨host, port, htrim, hhost, hne, -⟩ := ofText?_eq_some hs
  refine ⟨hhost ▸ hne, hhost ▸ stripped_strip _ _ host, fun hmem => hcomma ?_⟩
  have hinside : h.host.toList ⊆ trim s := by
    rw [hhost, htrim]
    exact List.Subset.trans (strip_subset _ _ host) (List.subset_append_left _ _)
  exact strip_subset _ _ s (hinside hmem)

theorem proper_of_readList {s : List Char} {hs : List HostPort} (h : readList s = .ok hs) : ∀ x ∈ hs, Proper x := by
  intro x hx
  obtain ⟨part, hpart, hread⟩ := exists_part_of_mem h x hx
  exact proper_of_read (not_mem_of_mem_splitOn (List.mem_of_mem_filter hpart)) hread

/-! ## What is written is read back -/

/-- The host as it is written, in brackets if it has colons. -/
def written (h : HostPort) : List Char :=
  if ':' ∈ h.host.toList then '[' :: (h.host.toList ++ [']']) else h.host.toList

theorem text_eq (h : HostPort) : h.text = h.written ++ ':' :: numeral h.port.toNat := by
  unfold text written
  split <;> simp [*]

theorem mem_written {h : HostPort} {c : Char} (hc : c ∈ h.written) : c = '[' ∨ c = ']' ∨ c ∈ h.host.toList := by
  unfold written at hc
  split at hc
  · simpa [or_comm, or_left_comm] using hc
  · exact .inr (.inr hc)

variable {h : HostPort}

theorem Proper.bare_written (hp : Proper h) : HostPort.bare h.written = h.host.toList := by
  have hbare {a b : List Char} (ha : ∀ c ∈ a, (decide (c = '[')) = true) (hb : ∀ c ∈ b, (decide (c = ']')) = true) :
      HostPort.bare (a ++ (h.host.toList ++ b)) = h.host.toList :=
    strip_around ha hb hp.bare
  unfold written
  split
  · exact hbare (a := ['[']) (b := [']']) (by simp) (by simp)
  · simpa using hbare (a := []) (b := []) (by simp) (by simp)

theorem not_mem_text {c : Char} (hsolid : solid c = false) (hc : c ∉ ['[', ']', ':']) (hhost : c ∉ h.host.toList) :
    c ∉ h.text := by
  have hport := not_mem_of_solid hsolid (solid_numeral h.port.toNat)
  simp only [List.mem_cons, List.not_mem_nil, or_false, not_or] at hc
  rw [text_eq, List.mem_append, List.mem_cons]
  rintro (hmem | hmem | hmem)
  · obtain hmem | hmem | hmem := mem_written hmem
    · exact hc.1 hmem
    · exact hc.2.1 hmem
    · exact hhost hmem
  · exact hc.2.2 hmem
  · exact hport hmem

/-- A text without blanks has none to be taken off. -/
theorem tight_of_not_blank {t : List Char} (ht : ∀ c ∈ t, isBlank c = false) : Tight t :=
  ⟨fun c hc => ht c (List.mem_of_mem_head? hc), fun c hc => ht c (List.mem_of_mem_getLast? hc)⟩

theorem not_blank_text (hblank : ∀ c ∈ h.host.toList, isBlank c = false) : ∀ c ∈ h.text, isBlank c = false := by
  intro c hc
  rw [text_eq, List.mem_append, List.mem_cons] at hc
  obtain hc | rfl | hc := hc
  · obtain rfl | rfl | hc := mem_written hc
    · rfl
    · rfl
    · exact hblank c hc
  · rfl
  · exact isBlank_of_solid (List.all_eq_true.1 (solid_numeral _) c hc)

theorem Proper.ofText?_text (hp : Proper h) (hblank : ∀ c ∈ h.host.toList, isBlank c = false) :
    ofText? h.text = some h := by
  have htrim : trim h.text = h.text := trim_of_tight (tight_of_not_blank (not_blank_text hblank))
  have hcut : cutLast ':' h.text = some (h.written, numeral h.port.toNat) := by
    rw [text_eq]
    exact cutLast_join _ (not_mem_of_solid rfl (solid_numeral _))
  have hport : unsigned? 0xffff (numeral h.port.toNat) = some h.port.toNat :=
    unsigned?_numeral (Nat.le_of_lt_succ h.port.toNat_lt)
  simp [ofText?, htrim, hcut, hp.bare_written, hp.nonempty, hport]

/-- Backends without blanks in their hosts are read back from the text of their list. -/
theorem readList_listText {hs : List HostPort} (hproper : ∀ h ∈ hs, Proper h)
    (hblank : ∀ h ∈ hs, ∀ c ∈ h.host.toList, isBlank c = false) : readList (listText hs) = .ok hs := by
  have hcomma : ∀ part ∈ (hs.map text).filter (!blank ·), ',' ∉ part := by
    intro part hpart
    obtain ⟨h, hh, rfl⟩ := List.mem_map.1 (List.mem_of_mem_filter hpart)
    exact not_mem_text rfl (by decide) (hproper h hh).comma
  have hparts : ∀ part ∈ hs.map text, (!blank part) = true := by
    refine List.forall_mem_map.2 fun h hh => ?_
    have hcolon : ':' ∈ h.text := by simp [text_eq]
    rw [Bool.not_eq_true', Bool.eq_false_iff]
    exact fun hall => not_mem_of_blank rfl hall hcolon
  rw [readList, listText, splitOn_join rfl hcomma, List.filter_eq_self.2 hparts, mapM_eq_ok_iff,
    List.forall₂_map_left_iff, List.forall₂_same]
  intro h hh
  rw [read, (hproper h hh).ofText?_text (hblank h hh)]

/-- In every list of backends that can be read, whatever its text, each host is named and has no bracket that could be
taken off at its front or at its end, and each port is a number of sixteen bits. If no host has blanks in it, then what
is written of the list is read as the same list again. -/
theorem list_read_back (s : List Char) (hs : List HostPort) (hread : readList s = .ok hs)
    (hblank : ∀ h ∈ hs, ∀ c ∈ h.host.toList, isBlank c = false) :
    (∀ h ∈ hs, h.host ≠ "" ∧ h.host.toList.head? ≠ some '[' ∧ h.host.toList.getLast? ≠ some ']' ∧
      h.port.toNat < 65536) ∧
    readList (listText hs) = .ok hs := by
  have hproper := proper_of_readList hread
  refine ⟨fun h hh => ⟨?_, ?_, ?_, h.port.toNat_lt⟩, readList_listText hproper hblank⟩
  · rintro hempty
    exact (hproper h hh).nonempty (by rw [hempty]; rfl)
  · intro hhead
    simpa using (hproper h hh).bare.head '[' hhead
  · intro hlast
    simpa using (hproper h hh).bare.last ']' hlast

/-! Brackets and colons inside, an address in brackets, zeros and a plus sign before a port, and blank parts. -/

theorem list_read_back_brackets :
    let s := " [[a]b:c]]:+0080,, \t, [::1]:443 ,]x[:0".toList
    let hs : List HostPort := [⟨"a]b:c", 80⟩, ⟨"::1", 443⟩, ⟨"]x[", 0⟩]
    readList s = .ok hs ∧ (∀ h ∈ hs, ∀ c ∈ h.host.toList, isBlank c = false) ∧
      listText hs = "[a]b:c]:80,[::1]:443,]x[:0".toList ∧ readList (listText hs) = .ok hs := by
  intro s hs
  have hread : readList s = .ok hs := by decide
  have hblank : ∀ h ∈ hs, ∀ c ∈ h.host.toList, isBlank c = false := by
    have hall : hs.all (·.host.toList.all (!isBlank ·)) := by decide
    simpa only [List.all_eq_true, Bool.not_eq_true'] using hall
  exact ⟨hread, hblank, by decide, (list_read_back s hs hread hblank).2⟩

end AffinityRelay.HostPort
