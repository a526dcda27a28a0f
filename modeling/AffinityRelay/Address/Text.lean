import AffinityRelay.Address.Basic
import AffinityRelay.Text.Numeral

/-!
# The text of an address

- `Ip.text`: four decimal bytes between points, or eight hexadecimal groups between colons;
- `longestZeros`: the run of zero groups that is written as two colons;
- `Address.text`: the address and its port, one of the sixth version in brackets.
-/

namespace AffinityRelay

open Text (numeral)

namespace Ip

/-- Decimal bytes between points. -/
def dotted (bs : List UInt8) : List Char :=
  ['.'].intercalate (bs.map fun b => numeral b.toNat)

/-- Hexadecimal groups between colons. -/
def colons (gs : List UInt16) : List Char :=
  [':'].intercalate (gs.map fun g => Nat.toDigits 16 g.toNat)

/-- Where the longest run of zeros starts and how long it is; of two that are equally long, the first. -/
def longestZeros : List UInt16 → Nat × Nat
  | [] => (0, 0)
  | g :: r =>
    let here := ((g :: r).takeWhile (· == 0)).length
    let later := longestZeros r
    if later.2 ≤ here then (0, here) else (later.1 + 1, later.2)

/-- Groups between colons, the longest run of two or more zeros as two colons. -/
def compressed (gs : List UInt16) : List Char :=
  let z := longestZeros gs
  if 2 ≤ z.2 then colons (gs.take z.1) ++ [':', ':'] ++ colons (gs.drop (z.1 + z.2)) else colons gs

/-- The first twelve bytes of an address of the sixth version that stands for one of the fourth. -/
def mappedHead : List UInt8 :=
  [0, 0, 0, 0, 0, 0, 0, 0, 0, 0, 0xff, 0xff]

/-- The text of an address. One that stands for an address of the fourth version ends in that address. -/
def text (ip : Ip) : List Char :=
  match ip with
  | v4 b => dotted b.toList
  | v6 b =>
    if b.toList.take 12 = mappedHead then "::ffff:".toList ++ dotted (b.toList.drop 12)
    else compressed (groupsOf b.toList)

end Ip

/-- The address, and after a colon the port. An address with colons of its own stands in brackets, with its scope. -/
def Address.text (a : Address) : List Char :=
  let port := numeral a.port.toNat
  match a.ip with
  | .v4 _ => a.ip.text ++ ':' :: port
  | .v6 _ =>
    let scope := if a.scope = 0 then [] else '%' :: numeral a.scope.toNat
    '[' :: a.ip.text ++ scope ++ ']' :: ':' :: port

instance : ToString Ip := ⟨fun ip => String.ofList ip.text⟩

instance : ToString Address := ⟨fun a => String.ofList a.text⟩

end AffinityRelay
