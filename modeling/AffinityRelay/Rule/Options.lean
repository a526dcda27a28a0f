import AffinityRelay.Affinity.Config
import AffinityRelay.Balancer.Policy
import AffinityRelay.Text.Blank
import AffinityRelay.Text.Numeral

/-!
# Options of a forwarded port

- `Options`: the policy, whether failed attempts are repeated, whether backends are told who the client is, and the
  table of assignments;
- `Setting`: what one option changes, and `Setting.read`: an option from its text;
- `Options.read`: the options of a list between commas, applied from the first to the last.

    LB=<policy>   FAILOVER   PROXY=SEND   STICKY=MEM:<bits>:<elements>:<seconds>:<table>[:<cluster>]   STICKY=NULL
-/

namespace AffinityRelay

open Text

/-- How connections to one forwarded port are treated. -/
structure Options where
  policy : Policy := .first
  failover : Bool := false
  sendsHeader : Bool := false
  sticky : StoreConfig := {}
  deriving DecidableEq, Repr

/-- What is wrong with a list of options. -/
inductive OptionError where
  | unknownPolicy (word : String)
  | unknownOption (option : String)
  | invalidSticky (spec : String)
  deriving DecidableEq, Repr

def OptionError.message : OptionError → String
  | unknownPolicy word => s!"unknown load balance policy: {word}"
  | unknownOption option => s!"unknown option: {option}"
  | invalidSticky spec =>
    s!"invalid sticky spec '{spec}': expected MEM:<bits>:<elements>:<ttl>:<name>[:<cluster>]"

/-- The change that one option makes. -/
inductive Setting where
  | policy (p : Policy)
  | failover
  | sendsHeader
  | sticky (c : StoreConfig)
  deriving DecidableEq, Repr

/-- The policy written with a word. -/
def Policy.read (s : List Char) : Except OptionError Policy :=
  match Policy.ofWord? s with
  | some p => .ok p
  | none => .error (.unknownPolicy (String.ofList (upper s)))

namespace StoreConfig

/-- The settings of a table from the fields that follow its kind. -/
def ofFields? (bits elements seconds table cluster : List Char) : Option StoreConfig := do
  let bits ← unsigned? 0xff bits
  let elements ← unsigned? 0xffffffffffffffff elements
  let seconds ← unsigned? 0xffffffffffffffff seconds
  if table.isEmpty then none
  let cluster := if cluster.isEmpty then none else some (String.ofList cluster)
  return {
    kind := .memory
    bits := bits.toUInt8
    elements := elements.toUInt64
    seconds := seconds.toUInt64
    key := Key.ofNames cluster (String.ofList table) }

/-- The settings of a table from fields between colons. One that is called null ends there. -/
def ofText? (s : List Char) : Option StoreConfig :=
  match s.splitOn ':' with
  | [] => none
  | kind :: fields =>
    if upper kind = "NULL".toList then some {}
    else if upper kind = "MEM".toList then
      match fields with
      | [bits, elements, seconds, table] => ofFields? bits elements seconds table []
      | [bits, elements, seconds, table, cluster] => ofFields? bits elements seconds table cluster
      | _ => none
    else none

def read (s : List Char) : Except OptionError StoreConfig :=
  match ofText? s with
  | some c => .ok c
  | none => .error (.invalidSticky (String.ofList s))

end StoreConfig

namespace Setting

/-- The change that an option makes, from its text. -/
def read (s : List Char) : Except OptionError Setting :=
  let unknown := .error (.unknownOption (String.ofList s))
  match cutFirst '=' s with
  | none => if upper s = "FAILOVER".toList then .ok .failover else unknown
  | some (name, value) =>
    let name := upper name
    if name = "LB".toList then (Policy.read value).map .policy
    else if name = "PROXY".toList ∧ upper value = "SEND".toList then .ok .sendsHeader
    else if name = "STICKY".toList then (StoreConfig.read value).map .sticky
    else unknown

/-- Options with one change made to them. -/
def apply (o : Options) : Setting → Options
  | policy p => { o with policy := p }
  | failover => { o with failover := true }
  | sendsHeader => { o with sendsHeader := true }
  | sticky c => { o with sticky := c }

end Setting

namespace Options

/-- The options of a list, without the blanks around them and without those that are empty. -/
def tokens (s : List Char) : List (List Char) :=
  ((s.splitOn ',').map trim).filter (!·.isEmpty)

/-- The options of a list between commas. The first one that is wrong makes the whole list wrong. -/
def read (s : List Char) : Except OptionError Options :=
  (tokens s).foldlM (fun o t => (Setting.read t).map (Setting.apply o)) {}

end Options

end AffinityRelay
