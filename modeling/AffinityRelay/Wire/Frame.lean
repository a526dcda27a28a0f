import AffinityRelay.Address.Basic
import AffinityRelay.Bytes.BigEndian

/-!
# Frames

- `Frame`: what nodes of a cluster send one another: a decision about a client, or nothing but a sign of life;
- `Frame.encode`: the bytes of a frame.

    0x00
    0x01  table: 8 bytes  client's length: 1 byte  client  backend's length: 1 byte  backend  port: 2 bytes

A length is 4 or 16. Where there is no backend, 0x42 stands in place of its length and ends the frame. Numbers are in
network order. The scope of a backend is not sent.
-/

namespace AffinityRelay

/-- A decision about a client in the table of a number: the backend it has now, or that it has none any more. -/
structure Update where
  sticky : UInt64
  client : Ip
  backend : Option Address
  deriving DecidableEq, Repr

inductive Frame where
  | nop
  | update (u : Update)
  deriving DecidableEq, Repr

namespace Frame

def nopCode : UInt8 := 0x00

def updateCode : UInt8 := 0x01

/-- Stands in place of a length where there is no backend. -/
def noBackend : UInt8 := 0x42

/-- The length of an address, and the address. -/
def encodeIp (ip : Ip) : List UInt8 :=
  ip.bytes.length.toUInt8 :: ip.bytes

def encodeBackend : Option Address → List UInt8
  | none => [noBackend]
  | some a => encodeIp a.ip ++ toBigEndian 2 a.port.toNat

/-- The bytes of a frame. -/
def encode : Frame → List UInt8
  | nop => [nopCode]
  | update u => updateCode :: toBigEndian 8 u.sticky.toNat ++ encodeIp u.client ++ encodeBackend u.backend

end Frame

end AffinityRelay
