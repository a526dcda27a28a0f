import AffinityRelay.Address.Basic

/-!
# Reading addresses

- `Ip.read?`: the address that a whole text is written for;
- `Address.read?`: an address with its port, and with its scope in the brackets of the sixth version.

A reader of a part takes what it needs from the front of the text and gives back the rest.
-/

namespace AffinityRelay

namespace Ip

/-- The value of a decimal or hexadecimal digit, if it is below the base. -/
def digit? (base : Nat) (c : Char) : Option Nat :=
  let v :=
    if c.isDigit then some (c.toNat - '0'.toNat)
    else if 'a' ≤ c ∧ c ≤ 'f' then some (c.toNat - 'a'.toNat + 10)
    else if 'A' ≤ c ∧ c ≤ 'F' then some (c.toNat - 'A'.toNat + 10)
    else none
  v.filter (· < base)

/-- All digits at the front, as a number of at most `width` digits that is at most `largest`. -/
def number (base width largest : Nat) (s : List Char) : Option (Nat × List Char) :=
  let ds := s.takeWhile fun c => (digit? base c).isSome
  let n := (ds.filterMap (digit? base)).foldl (fun n d => base * n + d) 0
  if ds ≠ [] ∧ ds.length ≤ width ∧ n ≤ largest then some (n, s.drop ds.length) else none

/-- A given character at the front. -/
def given (c : Char) : List Char → Option (List Char)
  | [] => none
  | d :: r => if d = c then some r else none

/-- A decimal byte without leading zeros. -/
def decimalByte (s : List Char) : Option (UInt8 × List Char) :=
  match s with
  | '0' :: d :: _ => if d.isDigit then none else (number 10 3 255 s).map fun p => (p.1.toUInt8, p.2)
  | _ => (number 10 3 255 s).map fun p => (p.1.toUInt8, p.2)

/-- Four decimal bytes between points. -/
def quad (s : List Char) : Option (List UInt8 × List Char) := do
  let (a, s) ← decimalByte s
  let (b, s) ← decimalByte (← given '.' s)
  let (c, s) ← decimalByte (← given '.' s)
  let (d, s) ← decimalByte (← given '.' s)
  return ([a, b, c, d], s)

/-- At most `room` groups between colons; where two more have room, an address of the fourth version may end them.
Says whether one did. -/
def groups : Nat → Bool → List Char → List UInt16 × Bool × List Char
  | 0, _, s => ([], false, s)
  | room + 1, first, s =>
    let after := if first then some s else given ':' s
    match if room = 0 then none else after.bind quad with
    | some (bs, rest) => (groupsOf bs, true, rest)
    | none =>
      match after.bind (number 16 4 0xffff) with
      | some (g, rest) =>
        let (gs, endsInQuad, rest) := groups room false rest
        (g.toUInt16 :: gs, endsInQuad, rest)
      | none => ([], false, s)

/-- An address of the sixth version: eight groups, or fewer around two colons that stand for the missing zeros. -/
def v6? (s : List Char) : Option (Ip × List Char) := do
  let (front, endsInQuad, s) := groups 8 true s
  if front.length = 8 then
    return (← ofBytes? (ofGroups front), s)
  if endsInQuad then none
  let s ← given ':' (← given ':' s)
  let (back, _, s) := groups (7 - front.length) true s
  let zeros := List.replicate (8 - front.length - back.length) 0
  return (← ofBytes? (ofGroups (front ++ zeros ++ back)), s)

def v4? (s : List Char) : Option (Ip × List Char) := do
  let (bs, s) ← quad s
  return (← ofBytes? bs, s)

/-- The value of a reader that takes a whole text. -/
def whole {α : Type} : Option (α × List Char) → Option α
  | some (a, []) => some a
  | _ => none

/-- The address that a text is written for. -/
def read? (s : List Char) : Option Ip :=
  whole ((v4? s).or (v6? s))

end Ip

namespace Address

open Ip

/-- A port after a colon. -/
def port? (s : List Char) : Option (UInt16 × List Char) := do
  let s ← given ':' s
  (number 10 s.length 0xffff s).map fun p => (p.1.toUInt16, p.2)

/-- A scope after a percent sign; none is 0. -/
def scope? (s : List Char) : UInt32 × List Char :=
  match (given '%' s).bind fun r => number 10 r.length 0xffffffff r with
  | some (n, r) => (n.toUInt32, r)
  | none => (0, s)

def v4? (s : List Char) : Option (Address × List Char) := do
  let (ip, s) ← Ip.v4? s
  let (port, s) ← port? s
  return ({ ip, port }, s)

def v6? (s : List Char) : Option (Address × List Char) := do
  let (ip, s) ← Ip.v6? (← given '[' s)
  let (scope, s) := scope? s
  let (port, s) ← port? (← given ']' s)
  return ({ ip, port, scope }, s)

/-- The address with a port that a text is written for. -/
def read? (s : List Char) : Option Address :=
  whole ((v4? s).or (v6? s))

end Address

end AffinityRelay
