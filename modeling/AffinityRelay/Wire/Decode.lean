import AffinityRelay.Wire.Frame

/-!
# Decoding frames

- `Decoded`: what the front of a byte string holds: a value and the rest, the beginning of one, or nothing that could
  become one;
- `Frame.decode`: the frame at the front;
- `Frame.decodeAll`: all frames from the front on.

A byte that no frame has in its place is told as soon as it is there, whatever is still to come after it.
-/

namespace AffinityRelay

/-- Why no frame can begin with some bytes. -/
inductive FrameError where
  | unknownOpcode (code : UInt8)
  | addressLength (length : UInt8)
  deriving DecidableEq, Repr

/-- A byte as two hexadecimal digits. -/
def hexByte (b : UInt8) : String :=
  String.ofList [(b / 16).toNat.digitChar, (b % 16).toNat.digitChar]

def FrameError.message : FrameError → String
  | unknownOpcode code => s!"unknown opcode 0x{hexByte code}"
  | addressLength length => s!"invalid address length {length.toNat}"

/-- What the front of a byte string holds. -/
inductive Decoded (α : Type) where
  | value (a : α) (rest : List UInt8)
  | incomplete
  | invalid (e : FrameError)
  deriving DecidableEq, Repr

namespace Decoded

/-- What follows a value at the front. -/
def andThen {α β : Type} (d : Decoded α) (next : α → List UInt8 → Decoded β) : Decoded β :=
  match d with
  | value a rest => next a rest
  | incomplete => incomplete
  | invalid e => invalid e

theorem andThen_eq_value {α β : Type} {d : Decoded α} {next : α → List UInt8 → Decoded β} {b : β}
    {rest : List UInt8} :
    d.andThen next = value b rest ↔ ∃ a r, d = value a r ∧ next a r = value b rest := by
  cases d <;> simp [andThen, and_assoc]

/-- A number of bytes, whatever they are. -/
def bytes (n : Nat) (s : List UInt8) : Decoded (List UInt8) :=
  if s.length < n then incomplete else value (s.take n) (s.drop n)

end Decoded

namespace Frame

open Decoded

/-- An address of a given length. -/
def decodeIp (length : UInt8) (s : List UInt8) : Decoded Ip :=
  if length = 4 ∨ length = 16 then
    (bytes length.toNat s).andThen fun bs rest =>
      match Ip.ofBytes? bs with
      | some ip => value ip rest
      | none => invalid (.addressLength length)
  else invalid (.addressLength length)

/-- The length of an address, and the address. -/
def decodeClient : List UInt8 → Decoded Ip
  | [] => incomplete
  | length :: s => decodeIp length s

/-- The length of an address, the address and a port, or a sign that there is none of them. -/
def decodeBackend : List UInt8 → Decoded (Option Address)
  | [] => incomplete
  | length :: s =>
    if length = noBackend then value none s
    else
      (decodeIp length s).andThen fun ip s =>
        (bytes 2 s).andThen fun port s => value (some { ip, port := (ofBigEndian port).toUInt16 }) s

def decodeUpdate (s : List UInt8) : Decoded Update :=
  (bytes 8 s).andThen fun sticky s =>
    (decodeClient s).andThen fun client s =>
      (decodeBackend s).andThen fun backend s =>
        value { sticky := (ofBigEndian sticky).toUInt64, client, backend } s

/-- The frame at the front. -/
def decode : List UInt8 → Decoded Frame
  | [] => incomplete
  | code :: s =>
    if code = nopCode then value nop s
    else if code = updateCode then (decodeUpdate s).andThen fun u s => value (update u) s
    else invalid (.unknownOpcode code)

theorem length_bytes_le {n : Nat} {s a rest : List UInt8} (h : bytes n s = value a rest) :
    rest.length ≤ s.length := by
  unfold bytes at h
  split at h
  · cases h
  · cases h
    simp

theorem length_decodeIp_le {length : UInt8} {s rest : List UInt8} {ip : Ip}
    (h : decodeIp length s = value ip rest) : rest.length ≤ s.length := by
  unfold decodeIp at h
  split at h
  · obtain ⟨bs, r, hb, h⟩ := andThen_eq_value.1 h
    split at h
    · cases h
      exact length_bytes_le hb
    · cases h
  · cases h

theorem length_decodeClient_le {s rest : List UInt8} {ip : Ip} (h : decodeClient s = value ip rest) :
    rest.length ≤ s.length := by
  cases s with
  | nil => cases h
  | cons length s => exact Nat.le_succ_of_le (length_decodeIp_le h)

theorem length_decodeBackend_le {s rest : List UInt8} {a : Option Address}
    (h : decodeBackend s = value a rest) : rest.length ≤ s.length := by
  cases s with
  | nil => cases h
  | cons length s =>
    simp only [decodeBackend] at h
    split at h
    · cases h
      simp
    · obtain ⟨ip, r, hi, h⟩ := andThen_eq_value.1 h
      obtain ⟨port, r', hp, h⟩ := andThen_eq_value.1 h
      cases h
      have := length_bytes_le hp
      have := length_decodeIp_le hi
      simp only [List.length_cons]
      omega

theorem length_decodeUpdate_le {s rest : List UInt8} {u : Update} (h : decodeUpdate s = value u rest) :
    rest.length ≤ s.length := by
  obtain ⟨sticky, r, hs, h⟩ := andThen_eq_value.1 h
  obtain ⟨client, r', hc, h⟩ := andThen_eq_value.1 h
  obtain ⟨backend, r'', hb, h⟩ := andThen_eq_value.1 h
  cases h
  have := length_bytes_le hs
  have := length_decodeClient_le hc
  have := length_decodeBackend_le hb
  omega

/-- A frame takes at least one byte. -/
theorem length_decode_lt {s rest : List UInt8} {f : Frame} (h : decode s = value f rest) :
    rest.length < s.length := by
  cases s with
  | nil => cases h
  | cons code s =>
    simp only [decode] at h
    split at h
    · cases h
      simp
    · split at h
      · obtain ⟨u, r, hu, h⟩ := andThen_eq_value.1 h
        cases h
        exact Nat.lt_succ_of_le (length_decodeUpdate_le hu)
      · cases h

/-- What all frames from the front on leave over: the beginning of another, or bytes that none begins with. -/
structure Leftover where
  rest : List UInt8
  error : Option FrameError
  deriving DecidableEq, Repr

/-- All frames from the front on, and what is left over. -/
def decodeAll (s : List UInt8) : List Frame × Leftover :=
  match _h : decode s with
  | value f rest =>
    let (fs, left) := decodeAll rest
    (f :: fs, left)
  | incomplete => ([], ⟨s, none⟩)
  | invalid e => ([], ⟨s, some e⟩)
termination_by s.length
decreasing_by exact length_decode_lt _h

end Frame

end AffinityRelay
