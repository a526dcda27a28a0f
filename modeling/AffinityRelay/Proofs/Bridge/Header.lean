import AffinityRelay.Proofs.Address.Text
import AffinityRelay.Proofs.Bridge.Fidelity
import AffinityRelay.Proofs.Rule.Settings

/-!
# The line that tells a backend who the client is fits any buffer

* `ProxyHeader.Tells`: the six fields of a line, and what they say. A line tells of just the client and the address that
  it was made for (`ProxyHeader.tells_line`);
* `ProxyHeader.length_bytes_le`: no line is longer than 107 bytes, and all of them are ASCII (`ProxyHeader.bytes_eq`);
* `Bridge.connected_create`: a new bridge has all of it to send if its buffers are not shorter than that;
* `ProxyHeader.told_whole`: whatever the settings are read from, they are not. So every backend is told all of it.
-/

namespace AffinityRelay

namespace ProxyHeader

open Text (mem_intercalate numeral unsigned?)

/-- The word for a family. -/
def word : Family → List Char
  | .v4 => "TCP4".toList
  | .v6 => "TCP6".toList

/-- The fields of a line. -/
def fields (s d : Address) : List (List Char) :=
  ["PROXY".toList, word s.ip.family, s.ip.text, d.ip.text, numeral s.port.toNat, numeral d.port.toNat]

/-- A line without its end. -/
def line (s d : Address) : List Char :=
  [' '].intercalate (fields s d)

/-- A line has six fields between single blanks: what it is, the family of the client, the two addresses, and their
ports. -/
def Tells (l : List Char) (s d : Address) : Prop :=
  ∃ client other clientPort otherPort,
    l.splitOn ' ' = ["PROXY".toList, word s.ip.family, client, other, clientPort, otherPort] ∧
    Ip.read? client = some s.ip ∧ Ip.read? other = some d.ip ∧
    unsigned? 0xffff clientPort = some s.port.toNat ∧ unsigned? 0xffff otherPort = some d.port.toNat

theorem text_eq (s d : Address) : text (some s) (some d) = line s d ++ ['\r', '\n'] := by
  cases h : s.ip.family <;> simp [text, line, fields, word, h]

theorem text_eq_unknown {s d : Option Address} (h : s = none ∨ d = none) : text s d = "PROXY UNKNOWN\r\n".toList := by
  cases s with
  | none => rfl
  | some s =>
    obtain h | rfl := h
    · cases h
    · rfl

/-! ## The characters of a line -/

/-- The characters of the fields. -/
def letters : List Char :=
  "PROXYTC.".toList ++ Ip.letters

theorem mem_letters_of_mem_fields {s d : Address} {f : List Char} (hf : f ∈ fields s d) {c : Char} (hc : c ∈ f) :
    c ∈ letters := by
  have hip {ip : Ip} (hc : c ∈ ip.text) : c ∈ letters := by
    obtain rfl | hc := Ip.mem_letters_of_mem_text hc
    · decide
    · exact List.mem_append_right _ hc
  have hport {n : Nat} (hc : c ∈ numeral n) : c ∈ letters :=
    List.mem_append_right _ (Ip.mem_letters_of_mem_toDigits (by decide) (by decide) hc)
  have hwords : ["PROXY".toList, word .v4, word .v6].all (·.all (· ∈ letters)) := by decide
  have hword {w : List Char} (hw : w ∈ ["PROXY".toList, word .v4, word .v6]) (hc : c ∈ w) : c ∈ letters := by
    simpa using List.all_eq_true.1 (List.all_eq_true.1 hwords w hw) c hc
  simp only [fields, List.mem_cons, List.not_mem_nil, or_false] at hf
  obtain rfl | rfl | rfl | rfl | rfl | rfl := hf
  · exact hword (by simp) hc
  · refine hword ?_ hc
    cases s.ip.family <;> simp
  · exact hip hc
  · exact hip hc
  · exact hport hc
  · exact hport hc

theorem mem_line {s d : Address} {c : Char} (hc : c ∈ line s d) : c = ' ' ∨ c ∈ letters :=
  (mem_intercalate hc).imp_right fun ⟨_, hf, hcf⟩ => mem_letters_of_mem_fields hf hcf

/-- A line does not end before its end. -/
theorem not_mem_line (s d : Address) : '\r' ∉ line s d ∧ '\n' ∉ line s d := by
  have hend {c : Char} (hc : c ∉ ' ' :: letters) : c ∉ line s d := fun h => hc (List.mem_cons.2 (mem_line h))
  exact ⟨hend (by decide), hend (by decide)⟩

theorem splitOn_line (s d : Address) : (line s d).splitOn ' ' = fields s d :=
  List.splitOn_intercalate ' ' (fun _ hf hblank => absurd (mem_letters_of_mem_fields hf hblank) (by decide))
    (List.cons_ne_nil _ _)

/-- A line tells of the client and of the address that it connected to. -/
theorem tells_line (s d : Address) : Tells (line s d) s d :=
  have hport (p : UInt16) : p.toNat ≤ 0xffff := Nat.le_of_lt_succ p.toNat_lt
  ⟨_, _, _, _, splitOn_line s d, s.ip.read?_text, d.ip.read?_text, Text.unsigned?_numeral (hport s.port),
    Text.unsigned?_numeral (hport d.port)⟩

/-- All characters are ASCII. -/
theorem toNat_lt_of_mem_text {s d : Option Address} {c : Char} (hc : c ∈ text s d) : c.toNat < 128 := by
  have hascii {cs : List Char} (hcs : cs.all (·.toNat < 128)) (hc : c ∈ cs) : c.toNat < 128 := by
    simpa using List.all_eq_true.1 hcs c hc
  by_cases h : s = none ∨ d = none
  · exact hascii (by decide) (text_eq_unknown h ▸ hc)
  · obtain ⟨⟨s, rfl⟩, d, rfl⟩ := by simpa only [not_or, Option.ne_none_iff_exists'] using h
    rw [text_eq, List.mem_append] at hc
    obtain hc | hc := hc
    · exact hascii (by decide) (List.mem_cons.2 (mem_line hc))
    · exact hascii (by decide) hc

theorem flatMap_utf8EncodeChar {cs : List Char} (h : ∀ c ∈ cs, c.toNat < 128) :
    cs.flatMap String.utf8EncodeChar = cs.map fun c => c.toNat.toUInt8 := by
  induction cs with
  | nil => rfl
  | cons c cs ih =>
    have hc : String.utf8EncodeChar c = [c.toNat.toUInt8] := by
      have hlt := h c List.mem_cons_self
      simp [String.utf8EncodeChar, show c.toNat ≤ 127 by omega]
    rw [List.flatMap_cons, hc, ih fun x hx => h x (List.mem_cons_of_mem c hx)]
    rfl

/-- The bytes are the characters, one for one. -/
theorem bytes_eq (s d : Option Address) : bytes s d = (text s d).map fun c => c.toNat.toUInt8 :=
  flatMap_utf8EncodeChar fun _ hc => toNat_lt_of_mem_text hc

theorem length_line_le (s d : Address) : (line s d).length ≤ 102 := by
  have hport (p : UInt16) : (numeral p.toNat).length ≤ 5 := by
    have hp := p.toNat_lt
    exact (Nat.length_toDigits_le_iff (by decide) (by decide)).2 (by omega)
  have hword : (word s.ip.family).length = 4 := by cases s.ip.family <;> rfl
  have hs := s.ip.length_text_le
  have hd := d.ip.length_text_le
  have hsport := hport s.port
  have hdport := hport d.port
  simp only [line, fields, List.intercalate_cons_cons, List.intercalate_singleton, List.length_append, hword]
  simp
  omega

theorem length_bytes_le (s d : Option Address) : (bytes s d).length ≤ longest := by
  rw [bytes_eq, List.length_map]
  by_cases h : s = none ∨ d = none
  · rw [text_eq_unknown h]
    decide
  · obtain ⟨⟨s, rfl⟩, d, rfl⟩ := by simpa only [not_or, Option.ne_none_iff_exists'] using h
    have hline := length_line_le s d
    rw [text_eq, List.length_append]
    exact (Nat.add_le_add_right hline 2).trans (by decide)

end ProxyHeader

/-- A new bridge takes any line that fits the buffers of its pool, and has just that to send to the backend. -/
theorem Bridge.connected_create {p p' : Pool} {number : Nat} {b : Bridge} {header : List UInt8} (hp : p.Clean)
    (hb : create number p = (.ok b, p')) (hfits : header.length ≤ p.size) :
    (b.connected (some header)).1 = none ∧ (b.connected (some header)).2.outgoing .backend = header := by
  obtain ⟨lanes, hholds, hnew⟩ := holds_create hp hb
  obtain ⟨hnear, hsound, hcapacity⟩ := hnew .client
  have hroom : ((some header).getD []).length ≤ (lanes .client).buffer.capacity := hcapacity ▸ hfits
  refine ⟨hholds.connected_fits hsound hnear hroom, ?_⟩
  have hload := (hholds.connected (some header)).outgoing .client
  rw [Function.update_self, Lane.load_lead hsound hnear hroom] at hload
  exact hload

namespace ProxyHeader

/-- Whoever the client is, and whatever it connected to, the line is at most 107 bytes of ASCII. It ends with a carriage
return and a line feed and has no others, and its six fields tell of the client and of the address that it connected to.
If either is unknown the line says so. Whatever the settings are read from, a new bridge with a buffer of their size
takes every such line, and has all of it to send to the backend. -/
theorem told_whole :
    (∀ s d : Address, ∃ l, text (some s) (some d) = l ++ ['\r', '\n'] ∧ '\r' ∉ l ∧ '\n' ∉ l ∧ Tells l s d) ∧
    (∀ s d : Option Address, s = none ∨ d = none → text s d = "PROXY UNKNOWN\r\n".toList) ∧
    (∀ s d : Option Address, (∀ c ∈ text s d, c.toNat < 128) ∧ bytes s d = (text s d).map (fun c => c.toNat.toUInt8) ∧
      (bytes s d).length ≤ 107) ∧
    (∀ processors named settings, Settings.read processors named = .ok settings →
      ∀ p : Pool, p.Reachable → p.size = settings.bufferSize →
      ∀ number b p', Bridge.create number p = (.ok b, p') → ∀ s d : Option Address,
      (b.connected (some (bytes s d))).1 = none ∧
        (b.connected (some (bytes s d))).2.outgoing .backend = bytes s d) := by
  refine ⟨fun s d => ?_, fun s d => text_eq_unknown, fun s d => ?_, ?_⟩
  · exact ⟨line s d, text_eq s d, (not_mem_line s d).1, (not_mem_line s d).2, tells_line s d⟩
  · exact ⟨fun c => toNat_lt_of_mem_text, bytes_eq s d, length_bytes_le s d⟩
  · intro processors named settings hread p hp hsize number b p' hb s d
    refine Bridge.connected_create hp.clean hb ?_
    exact (length_bytes_le s d).trans (hsize ▸ Settings.longest_le_bufferSize hread)

/-! The longest line, where the settings ask for buffers of seven bytes. -/

def farthest : Address :=
  ⟨.v6 (Vector.replicate 16 0xff), 0xffff, 0⟩

def sevenBytes : String → Option String
  | "RELAY_BUFFER_SIZE" => some "7"
  | _ => none

theorem told_whole_seven_bytes :
    let settings : Settings := { bufferSize := 107 }
    let p : Pool := { size := settings.bufferSize }
    let b := Bridge.ofBuffers 1 (.zeros 107) (.zeros 107)
    let header := bytes (some farthest) (some farthest)
    Settings.read none sevenBytes = .ok settings ∧ Bridge.create 1 p = (.ok b, { p with inUse := 2 }) ∧
      header.length = 104 ∧ (b.connected (some header)).1 = none ∧
      (b.connected (some header)).2.outgoing .backend = header := by
  intro settings p b header
  have hread : Settings.read none sevenBytes = .ok settings := rfl
  have hcreate : Bridge.create 1 p = (.ok b, { p with inUse := 2 }) := rfl
  refine ⟨hread, hcreate, by decide +kernel, ?_⟩
  exact told_whole.2.2.2 none sevenBytes settings hread p (.new ..) rfl 1 b _ hcreate (some farthest) (some farthest)

end ProxyHeader

end AffinityRelay
