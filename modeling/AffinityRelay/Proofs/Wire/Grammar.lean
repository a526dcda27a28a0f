import AffinityRelay.Proofs.Bytes.BigEndian
import AffinityRelay.Proofs.Wire.Reads

/-!
# The grammar of frames

`Frame.decode` reads the language of the encodings of frames (`Frame.reads`), part by part: addresses (`reads_ip`,
`reads_client`), backends (`reads_backend`) and updates (`reads_update`). The scope of a backend is not sent, so a frame
is read without it (`Frame.unscoped`).

* `decode_grammar`: a frame is found where an encoding is at the front, the beginning of an encoding is incomplete, and
  all else is an error that tells of the first byte after which nothing can help;
* `frames_round_trip`: what was encoded is decoded, and what was decoded is encoded as it was.
-/

namespace AffinityRelay

open Decoded

def Address.unscoped (a : Address) : Address :=
  { a with scope := 0 }

def Update.unscoped (u : Update) : Update :=
  { u with backend := u.backend.map Address.unscoped }

namespace Frame

/-- A frame as it arrives, its backend without a scope. -/
def unscoped : Frame → Frame
  | nop => nop
  | update u => update u.unscoped

/-- A byte is the length of an address. -/
def IsLength (c : UInt8) : Prop :=
  c = 4 ∨ c = 16

/-- A byte, told of by an error, that no frame has in its place, and what a frame may have before it: the opcode, the
length of a client after the number of a table, and the length of a backend after that and a client. -/
inductive Wrong : List UInt8 → FrameError → Prop
  | opcode {c : UInt8} : ¬ (c = nopCode ∨ c = updateCode) → Wrong [] (.unknownOpcode c)
  | client {c : UInt8} (sticky : UInt64) : ¬ IsLength c →
      Wrong (updateCode :: toBigEndian 8 sticky.toNat) (.addressLength c)
  | backend {c : UInt8} (sticky : UInt64) (client : Ip) : ¬ (c = noBackend ∨ IsLength c) →
      Wrong (updateCode :: (toBigEndian 8 sticky.toNat ++ encodeIp client)) (.addressLength c)

@[simp] theorem unscoped_unscoped (f : Frame) : f.unscoped.unscoped = f.unscoped := by
  cases f with
  | nop => rfl
  | update u => cases hb : u.backend <;> simp [unscoped, Update.unscoped, Address.unscoped, hb]

theorem encodeBackend_unscoped (b : Option Address) : encodeBackend (b.map Address.unscoped) = encodeBackend b := by
  cases b <;> rfl

@[simp] theorem encode_unscoped (f : Frame) : f.unscoped.encode = f.encode := by
  cases f with
  | nop => rfl
  | update u => simp [unscoped, Update.unscoped, encode, encodeBackend_unscoped]

/-! ## Numbers -/

section Numbers

variable {t : List UInt8}

theorem ofBigEndian_sticky (sticky : UInt64) : (ofBigEndian (toBigEndian 8 sticky.toNat)).toUInt64 = sticky := by
  rw [ofBigEndian_toBigEndian, Nat.mod_eq_of_lt (show sticky.toNat < 256 ^ 8 from sticky.toNat_lt)]
  exact UInt64.ofNat_toNat

theorem toBigEndian_sticky (h : t.length = 8) : toBigEndian 8 (ofBigEndian t).toUInt64.toNat = t := by
  have hlt : ofBigEndian t < 256 ^ t.length := ofBigEndian_lt t
  rw [h] at hlt
  rw [Nat.toUInt64, UInt64.toNat_ofNat', Nat.mod_eq_of_lt (show _ < 2 ^ 64 from hlt), ← h, toBigEndian_ofBigEndian]

theorem ofBigEndian_port (port : UInt16) : (ofBigEndian (toBigEndian 2 port.toNat)).toUInt16 = port := by
  rw [ofBigEndian_toBigEndian, Nat.mod_eq_of_lt (show port.toNat < 256 ^ 2 from port.toNat_lt)]
  exact UInt16.ofNat_toNat

theorem toBigEndian_port (h : t.length = 2) : toBigEndian 2 (ofBigEndian t).toUInt16.toNat = t := by
  have hlt : ofBigEndian t < 256 ^ t.length := ofBigEndian_lt t
  rw [h] at hlt
  rw [Nat.toUInt16, UInt16.toNat_ofNat', Nat.mod_eq_of_lt (show _ < 2 ^ 16 from hlt), ← h, toBigEndian_ofBigEndian]

end Numbers

/-! ## The parts of a frame -/

theorem isLength_length (ip : Ip) : IsLength ip.bytes.length.toUInt8 := by
  rcases ip.length_bytes with h | h <;> simp [IsLength, h]

theorem toNat_length (ip : Ip) : ip.bytes.length.toUInt8.toNat = ip.bytes.length := by
  rcases ip.length_bytes with h | h <;> rw [h] <;> rfl

theorem reads_ip {c : UInt8} (hc : IsLength c) :
    Reads (decodeIp c) (fun t ip => t = ip.bytes ∧ c = ip.bytes.length.toUInt8) (fun _ _ => False) := by
  obtain ⟨next, hd, hnext⟩ : ∃ next : List UInt8 → List UInt8 → Decoded Ip,
      (decodeIp c = fun s => (bytes c.toNat s).andThen next) ∧
      ∀ bs ip rest, Ip.ofBytes? bs = some ip → next bs rest = value ip rest :=
    ⟨_, funext fun s => if_pos hc, fun bs ip rest hb => by simp only [hb]⟩
  have hip : ∀ t bs, bs = t ∧ t.length = c.toNat → ∃ ip, Ip.ofBytes? bs = some ip := by
    rintro t _ ⟨rfl, ht⟩
    rcases hc with rfl | rfl <;> simp only [UInt8.reduceToNat] at ht <;> simp [Ip.ofBytes?, ht]
  rw [hd]
  refine ((Reads.bytes c.toNat).andThen (M := fun bs t ip => t = [] ∧ Ip.ofBytes? bs = some ip)
    (F := fun _ _ _ => False) ?_).congr ?_ ?_
  · intro t bs ht
    obtain ⟨ip, hb⟩ := hip t bs ht
    rw [show next bs = value ip from funext fun rest => hnext bs ip rest hb]
    exact (Reads.pure ip).congr (fun t a => by simp [hb, eq_comm]) fun _ _ => Iff.rfl
  · intro t ip
    constructor
    · rintro ⟨u, _, v, ⟨rfl, hu⟩, ⟨rfl, hb⟩, rfl⟩
      rw [List.append_nil, Ip.bytes_ofBytes? hb, hu]
      exact ⟨rfl, UInt8.ofNat_toNat.symm⟩
    · rintro ⟨rfl, rfl⟩
      exact ⟨ip.bytes, ip.bytes, [], ⟨rfl, (toNat_length ip).symm⟩, ⟨rfl, Ip.ofBytes?_bytes ip⟩, List.append_nil _⟩
  · simp

/-- The error of a byte that is no length of an address. -/
def BadLength (p : List UInt8) (e : FrameError) : Prop :=
  p = [] ∧ ∃ c, e = .addressLength c ∧ ¬ IsLength c

theorem reads_client : Reads decodeClient (fun t ip => t = encodeIp ip) BadLength := by
  refine (Reads.head IsLength .addressLength rfl ⟨4, Or.inl rfl⟩ (fun c => reads_ip)
    (fun c hc s => if_neg hc) fun _ => rfl).congr ?_ ?_
  · intro t ip
    constructor
    · rintro ⟨_, _, -, ⟨rfl, rfl⟩, rfl⟩
      rfl
    · rintro rfl
      exact ⟨_, _, isLength_length ip, ⟨rfl, rfl⟩, rfl⟩
  · intro p e
    simp [BadLength, and_comm]

/-- The address and the port of a backend. -/
theorem reads_remote {c : UInt8} (hc : IsLength c) :
    Reads (fun s => (decodeIp c s).andThen fun ip s => (bytes 2 s).andThen fun port s =>
        value (some ({ ip, port := (ofBigEndian port).toUInt16 } : Address)) s)
      (fun t b => ∃ a : Address, b = some a ∧ a.unscoped = a ∧ c :: t = encodeBackend (some a)) (fun _ _ => False) := by
  refine ((reads_ip hc).andThen fun _ ip _ => (Reads.bytes 2).andThen fun _ port _ => Reads.pure _).congr ?_ ?_
  · intro t b
    constructor
    · rintro ⟨_, ip, _, ⟨rfl, rfl⟩, ⟨u, _, _, ⟨rfl, hu⟩, ⟨rfl, rfl⟩, rfl⟩, rfl⟩
      refine ⟨_, rfl, rfl, ?_⟩
      rw [List.append_nil, encodeBackend, toBigEndian_port hu]
      rfl
    · rintro ⟨a, rfl, ha, ht⟩
      obtain ⟨rfl, rfl⟩ := List.cons.inj ht
      refine ⟨_, a.ip, _, ⟨rfl, rfl⟩, ⟨_, _, [], ⟨rfl, length_toBigEndian 2 a.port.toNat⟩, ⟨rfl, ?_⟩, rfl⟩, by simp⟩
      rw [ofBigEndian_port]
      exact congrArg some ha.symm
  · simp

theorem reads_backend :
    Reads decodeBackend (fun t b => t = encodeBackend b ∧ b.map Address.unscoped = b) fun p e =>
      p = [] ∧ ∃ c, e = .addressLength c ∧ ¬ (c = noBackend ∨ IsLength c) := by
  refine (Reads.head (fun c => c = noBackend ∨ IsLength c) .addressLength
    (M := fun c t b => c :: t = encodeBackend b ∧ b.map Address.unscoped = b) (F := fun _ _ _ => False) rfl
    ⟨noBackend, Or.inl rfl⟩ ?_ ?_ fun _ => rfl).congr ?_ ?_
  · intro c hc
    by_cases h : c = noBackend
    · rw [show (fun s => decodeBackend (c :: s)) = value none from funext fun s => if_pos h]
      refine (Reads.pure none).congr (fun t b => ?_) fun _ _ => Iff.rfl
      subst h
      constructor
      · rintro ⟨rfl, rfl⟩
        exact ⟨rfl, rfl⟩
      · rintro ⟨ht, -⟩
        cases b with
        | none => exact ⟨(List.cons.inj ht).2, rfl⟩
        | some a =>
          -- no address is as long as the sign for none
          have hl := isLength_length a.ip
          rw [← (List.cons.inj ht).1] at hl
          rcases hl with hl | hl <;> cases hl
    · have hl := hc.resolve_left h
      rw [show (fun s => decodeBackend (c :: s)) = _ from funext fun s => if_neg h]
      refine (reads_remote hl).congr (fun t b => ?_) fun _ _ => Iff.rfl
      constructor
      · rintro ⟨a, rfl, ha, ht⟩
        exact ⟨ht, congrArg some ha⟩
      · rintro ⟨ht, hb⟩
        cases b with
        | none => exact absurd (List.cons.inj ht).1 h
        | some a => exact ⟨a, rfl, Option.some.inj hb, ht⟩
  · intro c hc s
    rw [not_or] at hc
    rw [decodeBackend, if_neg hc.1, decodeIp, if_neg (show ¬ (c = 4 ∨ c = 16) from hc.2)]
    rfl
  · intro t b
    constructor
    · rintro ⟨c, u, -, h, rfl⟩
      exact h
    · rintro ⟨rfl, hb⟩
      cases b with
      | none => exact ⟨noBackend, [], Or.inl rfl, ⟨rfl, rfl⟩, rfl⟩
      | some a => exact ⟨_, _, Or.inr (isLength_length a.ip), ⟨rfl, hb⟩, rfl⟩
  · intro p e
    simp [and_comm]

theorem reads_update :
    Reads decodeUpdate (fun t u => updateCode :: t = encode (update u) ∧ u.unscoped = u)
      fun p e => Wrong (updateCode :: p) e := by
  refine ((Reads.bytes 8).andThen fun _ sticky _ => reads_client.andThen fun _ client _ =>
    reads_backend.andThen fun _ backend _ => Reads.pure _).congr ?_ ?_
  · intro t u
    constructor
    · rintro ⟨b, _, _, ⟨rfl, hs⟩, ⟨_, client, _, rfl, ⟨_, backend, _, ⟨rfl, hb⟩, ⟨rfl, rfl⟩, rfl⟩, rfl⟩, rfl⟩
      refine ⟨?_, by rw [Update.unscoped, hb]⟩
      rw [encode, toBigEndian_sticky hs, List.append_nil, List.cons_append, List.cons_append, List.append_assoc]
    · rintro ⟨ht, hu⟩
      obtain ⟨-, rfl⟩ := List.cons.inj ht
      have hb : u.backend.map Address.unscoped = u.backend := congrArg Update.backend hu
      refine ⟨toBigEndian 8 u.sticky.toNat, _, _, ⟨rfl, length_toBigEndian 8 _⟩,
        ⟨encodeIp u.client, u.client, _, rfl, ⟨encodeBackend u.backend, u.backend, [], ⟨rfl, hb⟩, ⟨rfl, ?_⟩, rfl⟩,
          rfl⟩, by simp⟩
      rw [ofBigEndian_sticky]
  · intro p e
    constructor
    · rintro (h | ⟨b, _, _, ⟨rfl, hs⟩, ⟨rfl, c, rfl, hc⟩ | ⟨_, client, _, rfl, h, rfl⟩, rfl⟩)
      · exact h.elim
      · rw [List.append_nil, ← toBigEndian_sticky hs]
        exact .client _ hc
      · obtain ⟨rfl, c, rfl, hc⟩ | ⟨_, _, _, _, h, _⟩ := h
        · rw [List.append_nil, ← toBigEndian_sticky hs]
          exact .backend _ client hc
        · exact h.elim
    · intro h
      cases h with
      | client sticky hc =>
        exact Or.inr ⟨_, _, [], ⟨rfl, length_toBigEndian 8 sticky.toNat⟩, Or.inl ⟨rfl, _, rfl, hc⟩,
          List.append_nil _⟩
      | backend sticky client hc =>
        refine Or.inr ⟨_, _, _, ⟨rfl, length_toBigEndian 8 sticky.toNat⟩, Or.inr ⟨_, client, [], rfl, ?_, rfl⟩, ?_⟩
        · exact Or.inl ⟨rfl, _, rfl, hc⟩
        · rw [List.append_nil]

/-- The decoder reads exactly the encodings of frames. -/
theorem reads : Reads decode (fun t f => t = f.encode ∧ f.unscoped = f) Wrong := by
  refine (Reads.head (fun c => c = nopCode ∨ c = updateCode) .unknownOpcode
    (M := fun c t f => c :: t = f.encode ∧ f.unscoped = f) (F := fun c p e => c = updateCode ∧ Wrong (c :: p) e) rfl
    ⟨nopCode, Or.inl rfl⟩ ?_ ?_ fun _ => rfl).congr ?_ ?_
  · rintro c (rfl | rfl)
    · rw [show (fun s => decode (nopCode :: s)) = value nop from funext fun s => by
        rw [decode, if_pos rfl]]
      refine (Reads.pure nop).congr (fun t f => ?_) fun p e => ?_
      · cases f with
        | nop => simp [encode, unscoped]
        | update u => simp [encode, nopCode, updateCode]
      · simp [nopCode, updateCode]
    · rw [show (fun s => decode (updateCode :: s)) = fun s => (decodeUpdate s).andThen fun u s => value (update u) s
        from funext fun s => by rw [decode, if_neg (by decide), if_pos rfl]]
      refine (reads_update.andThen fun _ u _ => Reads.pure (update u)).congr (fun t f => ?_) fun p e => ?_
      · constructor
        · rintro ⟨_, u, _, ⟨ht, hu⟩, ⟨rfl, rfl⟩, rfl⟩
          exact ⟨by rw [List.append_nil, ht], congrArg update hu⟩
        · rintro ⟨ht, hf⟩
          cases f with
          | nop => simp [encode, nopCode, updateCode] at ht
          | update u => exact ⟨t, u, [], ⟨ht, Frame.update.inj hf⟩, ⟨rfl, rfl⟩, List.append_nil t⟩
      · simp
  · intro c hc s
    rw [not_or] at hc
    rw [decode, if_neg hc.1, if_neg hc.2]
  · intro t f
    constructor
    · rintro ⟨c, u, -, h, rfl⟩
      exact h
    · rintro ⟨rfl, hf⟩
      cases f with
      | nop => exact ⟨nopCode, [], Or.inl rfl, ⟨rfl, hf⟩, rfl⟩
      | update u => exact ⟨updateCode, _, Or.inr rfl, ⟨rfl, hf⟩, rfl⟩
  · intro p e
    constructor
    · rintro (⟨rfl, c, hc, rfl⟩ | ⟨c, q, -, ⟨-, h⟩, rfl⟩)
      · exact .opcode hc
      · exact h
    · intro h
      cases h with
      | opcode hc => exact Or.inl ⟨rfl, _, hc, rfl⟩
      | client sticky hc => exact Or.inr ⟨updateCode, _, Or.inr rfl, ⟨rfl, .client sticky hc⟩, rfl⟩
      | backend sticky client hc => exact Or.inr ⟨updateCode, _, Or.inr rfl, ⟨rfl, .backend sticky client hc⟩, rfl⟩

/-! ## All frames from the front on -/

section Frames

variable {s t rest : List UInt8} {f : Frame}

theorem decode_encode_append (f : Frame) (r : List UInt8) : decode (f.encode ++ r) = value f.unscoped r :=
  reads.value_append ⟨(encode_unscoped f).symm, unscoped_unscoped f⟩ r

/-- What was decoded is encoded as it was. -/
theorem encode_append_of_decode (h : decode s = value f rest) : f.encode ++ rest = s := by
  obtain ⟨t, ⟨rfl, -⟩, ht⟩ := reads.value_iff.1 h
  exact ht

theorem decodeAll_eq (s : List UInt8) : decodeAll s = match decode s with
    | value f rest => (f :: (decodeAll rest).1, (decodeAll rest).2)
    | incomplete => ([], ⟨s, none⟩)
    | invalid e => ([], ⟨s, some e⟩) := by
  rw [decodeAll]
  split <;> simp_all

theorem decodeAll_encode_append : ∀ (fs : List Frame) (r : List UInt8),
    decodeAll (fs.flatMap encode ++ r) = (fs.map unscoped ++ (decodeAll r).1, (decodeAll r).2)
  | [], _ => rfl
  | f :: fs, r => by
    rw [List.flatMap_cons, List.append_assoc, decodeAll_eq, decode_encode_append]
    simp only [decodeAll_encode_append fs r, List.map_cons, List.cons_append]

/-- So many frames from the front on, and the rest. -/
def decodeMany : Nat → List UInt8 → Option (List Frame × List UInt8)
  | 0, s => some ([], s)
  | n + 1, s =>
    match decode s with
    | value f rest => (decodeMany n rest).map fun p => (f :: p.1, p.2)
    | _ => none

theorem decodeMany_encode_append : ∀ (fs : List Frame) (r : List UInt8),
    decodeMany fs.length (fs.flatMap encode ++ r) = some (fs.map unscoped, r)
  | [], _ => rfl
  | f :: fs, r => by
    rw [List.flatMap_cons, List.append_assoc, List.length_cons, decodeMany, decode_encode_append]
    simp only [decodeMany_encode_append fs r, Option.map_some, List.map_cons]

end Frames

/-- What the front of some bytes holds. It is a frame if and only if they begin with an encoding, which is what is taken
away; incomplete if and only if they are the beginning of an encoding and not all of it; and an error if and only if
nothing that could follow makes them begin with one. The error then tells of the first byte after which that is so.
Nothing is taken away but frames, and no encoding begins another. -/
theorem decode_grammar (s : List UInt8) :
    ((∃ f rest, decode s = value f rest) ↔ ∃ f : Frame, f.encode <+: s) ∧
    (∀ f rest, decode s = value f rest ↔ f.unscoped = f ∧ f.encode ++ rest = s) ∧
    (decode s = incomplete ↔ ∃ f : Frame, s <+: f.encode ∧ s ≠ f.encode) ∧
    ((∃ e, decode s = invalid e) ↔ ∀ (t : List UInt8) (f : Frame), ¬ f.encode <+: s ++ t) ∧
    (∀ e, decode s = invalid e ↔ ∃ p r, Wrong p e ∧ p ++ e.byte :: r = s) ∧
    (∀ p e, Wrong p e → (∃ f : Frame, p <+: f.encode) ∧
      ∀ (t : List UInt8) (f : Frame), ¬ f.encode <+: p ++ e.byte :: t) ∧
    (decodeAll s = match decode s with
      | value f rest => (f :: (decodeAll rest).1, (decodeAll rest).2)
      | incomplete => ([], ⟨s, none⟩)
      | invalid e => ([], ⟨s, some e⟩)) ∧
    ∀ f g : Frame, f.encode <+: g.encode → f.encode = g.encode := by
  have htext : ∀ f : Frame, f.encode = f.unscoped.encode ∧ f.unscoped.unscoped = f.unscoped := fun f =>
    ⟨(encode_unscoped f).symm, unscoped_unscoped f⟩
  refine ⟨⟨?_, ?_⟩, ?_, ?_, ?_, fun e => reads.invalid_iff, ?_, decodeAll_eq s, ?_⟩
  · rintro ⟨f, rest, h⟩
    exact ⟨f, rest, encode_append_of_decode h⟩
  · rintro ⟨f, rest, rfl⟩
    exact ⟨_, _, decode_encode_append f rest⟩
  · intro f rest
    rw [reads.value_iff]
    constructor
    · rintro ⟨t, ⟨rfl, hf⟩, h⟩
      exact ⟨hf, h⟩
    · rintro ⟨hf, h⟩
      exact ⟨_, ⟨rfl, hf⟩, h⟩
  · rw [reads.incomplete_iff]
    constructor
    · rintro ⟨t, f, ⟨ht, -⟩, hne⟩
      refine ⟨f, ⟨t, ht⟩, fun he => hne ?_⟩
      rw [← ht] at he
      exact List.append_right_eq_self.1 he.symm
    · rintro ⟨f, ⟨t, ht⟩, hne⟩
      refine ⟨t, _, ht ▸ htext f, fun h => hne ?_⟩
      rw [← ht, h, List.append_nil]
  · rw [reads.exists_invalid_iff]
    constructor
    · rintro h t f ⟨r, hr⟩
      exact h t _ _ r (htext f) hr
    · rintro h t _ f r ⟨rfl, -⟩ hr
      exact h t f ⟨r, hr⟩
  · intro p e hp
    obtain ⟨t, f, ht, -⟩ := reads.begun hp
    refine ⟨⟨f, t, ht⟩, ?_⟩
    rintro u g ⟨q, hq⟩
    exact reads.wrong hp (htext g) hq
  · exact fun f g h => reads.prefix_free (htext f) (htext g) h

/-- Frames and their encodings, one after another. What was encoded is decoded in order, backends without their scopes,
and what follows is left; what is decoded was encoded like that, so there is only one encoding of a frame that is taken. -/
theorem frames_round_trip (fs : List Frame) (r : List UInt8) :
    decodeMany fs.length (fs.flatMap encode ++ r) = some (fs.map unscoped, r) ∧
    decodeAll (fs.flatMap encode ++ r) = (fs.map unscoped ++ (decodeAll r).1, (decodeAll r).2) ∧
    (∀ s f rest, decode s = value f rest → f.encode ++ rest = s) ∧
    ∀ t u f, decode t = value f [] → decode u = value f [] → t = u := by
  refine ⟨decodeMany_encode_append fs r, decodeAll_encode_append fs r, fun s f rest => encode_append_of_decode, ?_⟩
  intro t u f ht hu
  rw [← encode_append_of_decode ht, ← encode_append_of_decode hu]

end Frame

end AffinityRelay
