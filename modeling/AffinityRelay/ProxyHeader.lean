import AffinityRelay.Address.Text

/-!
# The line that tells a backend who the client is

- `ProxyHeader.text`: the line for a client and the address it connected to;
- `ProxyHeader.longest`: no line is longer than this.
-/

namespace AffinityRelay.ProxyHeader

/-- The length that a line has at most. -/
def longest : Nat := 107

/-- The line for a client and the address it connected to, or for a client of which either is unknown. The family is
that of the client. -/
def text (source destination : Option Address) : List Char :=
  match source, destination with
  | some s, some d =>
    let family := match s.ip.family with
      | .v4 => "TCP4"
      | .v6 => "TCP6"
    [' '].intercalate ["PROXY".toList, family.toList, s.ip.text, d.ip.text, Text.numeral s.port.toNat,
      Text.numeral d.port.toNat] ++ ['\r', '\n']
  | _, _ => "PROXY UNKNOWN\r\n".toList

/-- The bytes of a line, which has no characters but those of the oldest code. -/
def bytes (source destination : Option Address) : List UInt8 :=
  (text source destination).flatMap String.utf8EncodeChar

end AffinityRelay.ProxyHeader
