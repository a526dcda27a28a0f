import AffinityRelay.Text.Blank
import AffinityRelay.Text.Cut
import AffinityRelay.Text.Numeral

/-!
# Backends by name

- `HostPort`: a host, by name or address, and a port;
- `HostPort.read`, `HostPort.text`: read one from its text, and write it;
- `HostPort.readList`, `HostPort.listText`: the same for a list between commas.

A host with colons of its own is written in brackets.
-/

namespace AffinityRelay

open Text

/-- A host and a port. -/
structure HostPort where
  host : String
  port : UInt16
  deriving DecidableEq, Repr

/-- What is wrong with a backend. -/
inductive HostError where
  | invalid (text : String)
  deriving DecidableEq, Repr

def HostError.message : HostError → String
  | invalid text => s!"invalid backend address: {text}"

namespace HostPort

/-- A host without the brackets around it. -/
def bare (host : List Char) : List Char :=
  ((host.dropWhile (· = '[')).reverse.dropWhile (· = ']')).reverse

/-- The host before the last colon and the port after it. -/
def ofText? (s : List Char) : Option HostPort := do
  let (host, port) ← cutLast ':' (trim s)
  let host := bare host
  if host.isEmpty then none
  let port ← unsigned? 0xffff port
  return { host := String.ofList host, port := port.toUInt16 }

def read (s : List Char) : Except HostError HostPort :=
  match ofText? s with
  | some h => .ok h
  | none => .error (.invalid (String.ofList s))

/-- The host, in brackets if it has colons, and the port. -/
def text (h : HostPort) : List Char :=
  let host := h.host.toList
  let host := if ':' ∈ host then '[' :: host ++ [']'] else host
  host ++ ':' :: numeral h.port.toNat

instance : ToString HostPort := ⟨fun h => String.ofList h.text⟩

/-- The backends of a list between commas, without the parts that are blank. -/
def readList (s : List Char) : Except HostError (List HostPort) :=
  ((s.splitOn ',').filter (!blank ·)).mapM read

/-- A list of backends between commas. -/
def listText (hs : List HostPort) : List Char :=
  [','].intercalate (hs.map text)

end HostPort

end AffinityRelay
