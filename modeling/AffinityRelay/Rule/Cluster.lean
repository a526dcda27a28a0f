import AffinityRelay.Affinity.Key
import AffinityRelay.Text.Blank
import AffinityRelay.Text.Cut

/-!
# Rules for clusters

- `ClusterRule`: whether a node serves a cluster to others or follows one, the cluster's name, and where;
- `ClusterRule.read`, `ClusterRule.text`: a rule from its three words, and the words.
-/

namespace AffinityRelay

open Text

/-- What a node does in a cluster: it sends its decisions to those who connect, or it connects and takes them. -/
inductive Role where
  | server
  | client
  deriving DecidableEq, Repr

/-- The part of a node in a cluster. -/
structure ClusterRule where
  role : Role
  name : String
  address : String
  deriving DecidableEq, Repr

/-- What is wrong with a rule. -/
inductive ClusterError where
  | malformed (rule : String)
  | unknownRole (word : String)
  deriving DecidableEq, Repr

def ClusterError.message : ClusterError → String
  | malformed rule => s!"cluster rule needs `in|out <name> <address>`: {rule}"
  | unknownRole word => s!"unknown cluster role `{word}`, expected `in` or `out`"

/-- The word that a role is written with. -/
def Role.word : Role → String
  | server => "in"
  | client => "out"

/-- The role written with a word in letters of either case. -/
def Role.ofWord? (s : List Char) : Option Role :=
  [Role.server, Role.client].find? fun r => r.word.toList = lower s

namespace ClusterRule

/-- The number of the rule's cluster. -/
def cluster (r : ClusterRule) : UInt64 :=
  identifier r.name

def read (s : List Char) : Except ClusterError ClusterRule :=
  match words s with
  | [role, name, address] =>
    match Role.ofWord? role with
    | some role => .ok { role, name := String.ofList name, address := String.ofList address }
    | none => .error (.unknownRole (String.ofList role))
  | _ => .error (.malformed (String.ofList (trim s)))

def text (r : ClusterRule) : List Char :=
  r.role.word.toList ++ ' ' :: r.name.toList ++ ' ' :: r.address.toList

instance : ToString ClusterRule := ⟨fun r => String.ofList r.text⟩

end ClusterRule

end AffinityRelay
