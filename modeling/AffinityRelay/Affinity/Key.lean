import AffinityRelay.Bytes.BigEndian
import AffinityRelay.Digest.Md5

/-!
# Identifiers and keys

- `identifier`: the number that a name stands for on every node;
- `Key`: names one table of assignments across a cluster.

Two nodes that are given the same names agree on the key without a word exchanged.
-/

namespace AffinityRelay

/-- The number of a name: the digest of its bytes, folded in two, without its highest bit. -/
def identifier (name : String) : UInt64 :=
  let d := Md5.digest (name.toList.flatMap String.utf8EncodeChar)
  ((ofBigEndian (d.take 8)).toUInt64 ^^^ (ofBigEndian (d.drop 8)).toUInt64) &&& 0x7fffffffffffffff

/-- Names a table of assignments: the cluster that shares it, and the table in the cluster. -/
structure Key where
  cluster : UInt64 := 0
  sticky : UInt64 := 0
  deriving DecidableEq, Repr

namespace Key

/-- The key of a table in a cluster, or of one that no cluster shares. -/
def ofNames (cluster : Option String) (sticky : String) : Key :=
  { cluster := (cluster.map identifier).getD 0, sticky := identifier sticky }

/-- A table is shared with other nodes if both its names are given. -/
def replicated (k : Key) : Bool :=
  0 < k.cluster && 0 < k.sticky

def text (k : Key) : String :=
  s!"cluster={k.cluster.toNat} sticky={k.sticky.toNat}"

instance : ToString Key := ⟨text⟩

end Key

end AffinityRelay
