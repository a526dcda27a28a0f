import AffinityRelay.Address.Mask
import AffinityRelay.Affinity.Config

/-!
# Tables of assignments

- `Entry`: a client's network, the backend assigned to it, and when that was written;
- `Store`: the entries, the one that was touched longest ago first;
- `Store.create?`: an empty table, if there can be room for it;
- `Store.put`, `Store.withdraw`, `Store.get`: write, remove and look up the assignment of a client;
- `Store.settle`: a decision about a client, which is either of the first two.

Clients of one network share one entry. Writing an assignment touches it, and so does looking it up, even when it is
too old to be answered. What does not fit is dropped, the entry touched longest ago first.
-/

namespace AffinityRelay

/-- The backend assigned to a network of clients, and when it was. -/
structure Entry where
  client : Ip
  backend : Address
  written : Time
  deriving DecidableEq, Repr

/-- A table of assignments, the entry touched longest ago first. -/
structure Store where
  config : StoreConfig := {}
  held : List Entry := []
  deriving DecidableEq, Repr

namespace Store

/-- An empty table, unless there cannot be room for it. -/
def create? (config : StoreConfig) : Option Store :=
  if config.fits then some { config } else none

/-- The network that a client belongs to. -/
def network (s : Store) (client : Ip) : Ip :=
  client.mask s.config.bits.toNat

/-- The entry of a client's network, however old. -/
def lookup? (s : Store) (client : Ip) : Option Entry :=
  s.held.find? fun e => e.client = s.network client

/-- The entries of all other networks. -/
def others (s : Store) (client : Ip) : List Entry :=
  s.held.filter fun e => e.client ≠ s.network client

/-- The last entries, as many as the table may keep. -/
def fitting (s : Store) (es : List Entry) : List Entry :=
  es.drop (es.length - s.config.capacity)

/-- Assigns a backend to a client's network. -/
def put (now : Time) (client : Ip) (backend : Address) (s : Store) : Store :=
  { s with held := s.fitting (s.others client ++ [⟨s.network client, backend, now⟩]) }

/-- Removes the assignment of a client's network. -/
def withdraw (client : Ip) (s : Store) : Store :=
  { s with held := s.others client }

/-- A decision about a client: a backend for its network, or none any more. -/
def settle (now : Time) (client : Ip) (backend : Option Address) (s : Store) : Store :=
  match backend with
  | some b => s.put now client b
  | none => s.withdraw client

/-- Whether an entry is young enough to be answered. -/
def fresh (s : Store) (now : Time) (e : Entry) : Bool :=
  now - e.written ≤ s.config.lifetime

/-- The table after the entry of a client's network, if there is one, was touched. -/
def touch (client : Ip) (s : Store) : Store :=
  match s.lookup? client with
  | some e => { s with held := s.others client ++ [e] }
  | none => s

/-- The backend assigned to a client's network, if the assignment is fresh. -/
def answer (now : Time) (client : Ip) (s : Store) : Option Address :=
  ((s.lookup? client).filter (s.fresh now)).map Entry.backend

/-- Looks a client up: the answer, and the table after the entry was touched. -/
def get (now : Time) (client : Ip) (s : Store) : Option Address × Store :=
  (s.answer now client, s.touch client)

/-- The assignments, the one touched longest ago first. Those too old to be answered are among them. -/
def entries (s : Store) : List (Ip × Address) :=
  s.held.map fun e => (e.client, e.backend)

def size (s : Store) : Nat :=
  s.held.length

theorem create?_eq_some_iff {config : StoreConfig} {s : Store} :
    create? config = some s ↔ config.fits ∧ s = { config } := by
  unfold create?
  split <;> rename_i h <;> simp [h, eq_comm]

@[simp] theorem config_put (now : Time) (client : Ip) (backend : Address) (s : Store) :
    (s.put now client backend).config = s.config := rfl

@[simp] theorem config_withdraw (client : Ip) (s : Store) : (s.withdraw client).config = s.config := rfl

@[simp] theorem config_settle (now : Time) (client : Ip) (backend : Option Address) (s : Store) :
    (s.settle now client backend).config = s.config := by
  cases backend <;> rfl

@[simp] theorem config_touch (client : Ip) (s : Store) : (s.touch client).config = s.config := by
  unfold touch
  split <;> rfl

end Store

end AffinityRelay
