import AffinityRelay.ProxyHeader
import AffinityRelay.Rule.Cluster
import AffinityRelay.Rule.Forward

/-!
# The settings of a node

- `Settings`: the rules, the number of workers, the buffers, and how long a connection to a backend may take;
- `Settings.read`: the settings from named texts.

A number that cannot be read is as good as none. A rule that cannot be read makes all settings wrong.
-/

namespace AffinityRelay

open Text

/-- The settings of a node. -/
structure Settings where
  forwards : List ForwardRule := []
  clusters : List ClusterRule := []
  workers : Nat := 1
  bufferSize : Nat := 2048
  bufferLimit : Nat := 8192
  connectMilliseconds : Nat := 10000
  /-- Whether buffers are wiped before they are used again. -/
  paranoid : Bool := false
  debug : Bool := false
  deriving DecidableEq, Repr

/-- What is wrong with the settings. -/
inductive SettingsError where
  | forward (cause : ForwardError)
  | cluster (cause : ClusterError)
  deriving DecidableEq, Repr

def SettingsError.message : SettingsError → String
  | forward cause => cause.message
  | cluster cause => s!"invalid cluster rule: {cause.message}"

namespace Settings

/-- The parts of a list between semicolons that are not blank, without the blanks around them. -/
def segments (value : Option String) : List (List Char) :=
  ((((value.getD "").toList).splitOn ';').map trim).filter (!·.isEmpty)

/-- The rules of a list; the first one that cannot be read is what is wrong. -/
def rules {ε α : Type} (read : List Char → Except ε α) (value : Option String) : Except ε (List α) :=
  (segments value).mapM read

/-- A number, or what stands for one that is missing or cannot be read. -/
def numberOr (otherwise largest : Nat) (value : Option String) : Nat :=
  (value.bind fun s => unsigned? largest (trim s.toList)).getD otherwise

/-- Whether a text says yes. -/
def yes (value : Option String) : Bool :=
  value.any fun s => s.toList = ['1'] || lower s.toList = "true".toList

/-- The settings from named texts, on a machine with so many processors if that is known: there is a worker for each,
unless a text says otherwise. A line that tells a backend who the client is always fits a buffer. -/
def read (processors : Option Nat) (named : String → Option String) : Except SettingsError Settings := do
  let largest := 0xffffffffffffffff
  let forwards ← (rules ForwardRule.read (named "RELAY_FORWARDS")).mapError .forward
  let clusters ← (rules ClusterRule.read (named "RELAY_CLUSTERS")).mapError .cluster
  return {
    forwards
    clusters
    workers := max 1 (numberOr (processors.getD 1) largest (named "RELAY_WORKERS"))
    bufferSize := max ProxyHeader.longest (numberOr 2048 largest (named "RELAY_BUFFER_SIZE"))
    bufferLimit := numberOr 8192 largest (named "RELAY_BUFFER_POOL")
    connectMilliseconds := numberOr 10000 largest (named "RELAY_CONNECT_TIMEOUT_MS")
    paranoid := yes (named "RELAY_PARANOID_BUFFERS")
    debug := (named "DEBUG").isSome }

end Settings

end AffinityRelay
