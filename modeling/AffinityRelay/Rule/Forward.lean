import AffinityRelay.Rule.HostPort
import AffinityRelay.Rule.Options

/-!
# Rules for forwarded ports

- `ForwardRule`: where to listen, the backends, and the options;
- `ForwardRule.read`: a rule from its two or three words.
-/

namespace AffinityRelay

open Text

/-- Connections to one address are forwarded to one of the backends. -/
structure ForwardRule where
  listen : String
  backends : List HostPort
  options : Options
  deriving DecidableEq, Repr

/-- What is wrong with the rule of a given text. -/
inductive ForwardError where
  | malformed (rule : String)
  | invalidBackend (rule : String) (cause : HostError)
  | invalidOptions (rule : String) (cause : OptionError)
  deriving DecidableEq, Repr

def ForwardError.message : ForwardError → String
  | malformed rule => s!"forward rule needs `<listen> <host:port>[,...] [options]`: {rule}"
  | invalidBackend rule cause => s!"invalid backend in forward `{rule}`: {cause.message}"
  | invalidOptions rule cause => s!"invalid options in forward `{rule}`: {cause.message}"

namespace ForwardRule

/-- The rule of the words of a text, which is named in what is wrong with them. -/
def ofWords (rule : String) (listen backends options : List Char) : Except ForwardError ForwardRule := do
  let backends ← (HostPort.readList backends).mapError (.invalidBackend rule)
  if backends.isEmpty then throw (.malformed rule)
  let options ← (Options.read options).mapError (.invalidOptions rule)
  return { listen := String.ofList listen, backends, options }

def read (s : List Char) : Except ForwardError ForwardRule :=
  let rule := String.ofList (trim s)
  match words s with
  | [listen, backends] => ofWords rule listen backends []
  | [listen, backends, options] => ofWords rule listen backends options
  | _ => .error (.malformed rule)

end ForwardRule

end AffinityRelay
