import AffinityRelay.Address.Read
import AffinityRelay.Bytes.BigEndian
import AffinityRelay.Text.Cut
import AffinityRelay.Text.Numeral

/-!
# Addresses that a machine finds on its own

- `Ip.ofNumbers?`: an address of the fourth version that is written as one to four numbers;
- `Ip.isScope`, `Ip.ofScoped?`: what can stand after the percent sign of a host, and an address with that;
- `Ip.ofHost?`: the address of a host that needs no name service;
- `Address.locate?`: the address that a text asks for, with a port after its last colon.

Each number but the last is one byte, and the last is all bytes that are left: `127.1` is `127.0.0.1`. A scope says by
which interface an address is reached, by number, and on one link also by name. It is no part of the address.
-/

namespace AffinityRelay

open Text

namespace Ip

/-- A number that is hexadecimal after `0x`, octal after another zero, and else decimal. -/
def anyBase? (s : List Char) : Option Nat :=
  let digits (base : Nat) (s : List Char) := whole (number base s.length 0xffffffff s)
  match s with
  | '0' :: 'x' :: r => digits 16 r
  | '0' :: 'X' :: r => digits 16 r
  | '0' :: _ => digits 8 s
  | _ => digits 10 s

/-- The four bytes of so many numbers, of which the last stands for all bytes that are left. -/
def spread : Nat → List Nat → Option (List UInt8)
  | width, [last] => if last < 256 ^ width then some (toBigEndian width last) else none
  | width + 1, n :: m :: r => if n < 256 then (spread width (m :: r)).map (n.toUInt8 :: ·) else none
  | _, _ => none

/-- The address that is written as one to four numbers between points. -/
def ofNumbers? (s : List Char) : Option Ip := do
  let parts := s.splitOn '.'
  if 4 < parts.length then none
  ofBytes? (← spread 4 (← parts.mapM anyBase?))

/-- Whether an address of the sixth version is that of a group. -/
def isGroup (ip : Ip) : Bool :=
  ip.family = .v6 && ip.bytes.head? = some 0xff

/-- Whether an address of the sixth version is good on one link only: it begins with the ten bits of such addresses, or
it is that of a group on one link. -/
def onLink (ip : Ip) : Bool :=
  match ip.family, ip.bytes with
  | .v6, a :: b :: _ => a == 0xfe && b &&& 0xc0 == 0x80 || a == 0xff && b &&& 0x0f == 0x02
  | _, _ => false

/-- Whether a text is a scope for an address: the number of an interface, or the name of the one that a machine has. -/
def isScope (ip : Ip) (s : List Char) : Bool :=
  (whole (number 10 s.length 0xffffffff s)).isSome || onLink ip && s = "lo".toList

/-- The address of the sixth version that is written before a scope. -/
def ofScoped? (s : List Char) : Option Ip := do
  let (host, scope) ← cutFirst '%' s
  (whole (v6? host)).filter fun ip => isScope ip scope

/-- The address of a host that is written as an address, with a scope or without, or that is the machine itself. -/
def ofHost? (host : List Char) : Option Ip :=
  if lower host = "localhost".toList then some (.v4 #v[127, 0, 0, 1])
  else (ofNumbers? host).or ((read? host).or (ofScoped? host))

end Ip

/-- The address with a port that a text is written for, or else that of the host before its last colon. -/
def Address.locate? (s : List Char) : Option Address :=
  (Address.read? s).or do
    let (host, port) ← cutLast ':' s
    let port ← unsigned? 0xffff port
    return { ip := ← Ip.ofHost? host, port := port.toUInt16 }

end AffinityRelay
