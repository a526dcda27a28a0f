/-!
# Addresses

- `Ip`: an address of one of the two families, as its bytes in network order;
- `Address`: an address with a port and a scope;
- `Ip.bytes`, `Ip.ofBytes?`: an address is its list of four or sixteen bytes (`Ip.ofBytes?_bytes`,
  `Ip.bytes_ofBytes?`).
-/

namespace AffinityRelay

/-- An address of the fourth or the sixth version of the protocol, in network order. -/
inductive Ip where
  | v4 (bytes : Vector UInt8 4)
  | v6 (bytes : Vector UInt8 16)
  deriving DecidableEq, Repr

/-- An address that can be connected to. The scope tells links of one machine apart; 0 is no scope. -/
structure Address where
  ip : Ip
  port : UInt16
  scope : UInt32 := 0
  deriving DecidableEq, Repr

/-- The two families of addresses. -/
inductive Family where
  | v4
  | v6
  deriving DecidableEq, Repr

namespace Ip

def family : Ip → Family
  | v4 _ => .v4
  | v6 _ => .v6

/-- The bytes in network order, four or sixteen of them. -/
def bytes : Ip → List UInt8
  | v4 b => b.toList
  | v6 b => b.toList

/-- The address of the fourth version with these bytes. -/
def ofOctets (a b c d : UInt8) : Ip :=
  v4 #v[a, b, c, d]

/-- The address of four or sixteen bytes. -/
def ofBytes? (bs : List UInt8) : Option Ip :=
  if h : bs.length = 4 then some (v4 ⟨bs.toArray, by simpa using h⟩)
  else if h : bs.length = 16 then some (v6 ⟨bs.toArray, by simpa using h⟩)
  else none

theorem length_bytes (ip : Ip) : ip.bytes.length = 4 ∨ ip.bytes.length = 16 := by
  cases ip <;> simp [bytes]

@[simp] theorem ofBytes?_bytes (ip : Ip) : ofBytes? ip.bytes = some ip := by
  cases ip <;> simp [ofBytes?, bytes, Vector.toList]

theorem bytes_ofBytes? {bs : List UInt8} {ip : Ip} (h : ofBytes? bs = some ip) : ip.bytes = bs := by
  unfold ofBytes? at h
  split at h
  · cases h
    simp [bytes]
  · split at h
    · cases h
      simp [bytes]
    · cases h

theorem bytes_injective {a b : Ip} (h : a.bytes = b.bytes) : a = b := by
  have := ofBytes?_bytes a
  rw [h, ofBytes?_bytes] at this
  exact (Option.some.inj this).symm

/-- Two bytes to a group, the first the more significant. -/
def groupsOf : List UInt8 → List UInt16
  | a :: b :: r => (a.toUInt16 <<< 8 ||| b.toUInt16) :: groupsOf r
  | _ => []

/-- The bytes of a list of groups. -/
def ofGroups (gs : List UInt16) : List UInt8 :=
  gs.flatMap fun (g : UInt16) => [(g >>> 8).toUInt8, g.toUInt8]

end Ip

end AffinityRelay
