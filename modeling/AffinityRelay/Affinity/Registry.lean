import AffinityRelay.Affinity.Store

/-!
# The tables of a node

- `Registry`: every table that was ever made, each known by its number, and the keys that are registered now;
- `Registry.acquire`: the table of a key, made if the key is not registered, with one more holder;
- `Registry.ofConfigs?`: a registry with the tables of some configurations;
- `Registry.release`, `Registry.releaseAll`, `Registry.dropReleased`: holders go, and keys without holders with them.

Whoever was given a table keeps it after its key is gone; a later table of that key has a number of its own.
-/

namespace AffinityRelay

/-- A registered key, the number of its table, and how many hold it. -/
structure Registration where
  key : Key
  table : Nat
  holders : Nat
  deriving DecidableEq, Repr

/-- The tables of a node by number, and the registered keys. -/
structure Registry where
  tables : List Store := []
  registered : List Registration := []
  deriving Repr

namespace Registry

/-- The registration of a key. -/
def find? (r : Registry) (key : Key) : Option Registration :=
  r.registered.find? (·.key = key)

/-- The number of the table of a key. -/
def lookup (r : Registry) (key : Key) : Option Nat :=
  (r.find? key).map Registration.table

/-- The registrations with those of one key changed. -/
def change (key : Key) (f : Registration → Registration) (r : Registry) : Registry :=
  { r with registered := r.registered.map fun g => if g.key = key then f g else g }

/-- The number of the table of a configuration's key, with one more holder. A key that is registered keeps its table,
whatever the configuration says. Where there cannot be room for a new table, nothing is registered. -/
def acquire (config : StoreConfig) (r : Registry) : Option Nat × Registry :=
  match r.find? config.key with
  | some g => (some g.table, r.change config.key fun g => { g with holders := g.holders + 1 })
  | none =>
    match Store.create? config with
    | none => (none, r)
    | some store =>
      let table := r.tables.length
      (some table, { tables := r.tables ++ [store], registered := r.registered ++ [⟨config.key, table, 1⟩] })

/-- A registry with the tables of some configurations, unless there cannot be room for one of them. -/
def ofConfigs? (configs : List StoreConfig) : Option Registry :=
  configs.foldlM (fun r config => match r.acquire config with
    | (none, _) => none
    | (some _, r) => some r) {}

/-- The numbers of the registered tables of a cluster. -/
def ofCluster (cluster : UInt64) (r : Registry) : List Nat :=
  (r.registered.filter (·.key.cluster = cluster)).map Registration.table

/-- The registered tables of a cluster. -/
def tablesOfCluster (cluster : UInt64) (r : Registry) : List Store :=
  (r.ofCluster cluster).filterMap (r.tables[·]?)

/-- One holder of a key goes. -/
def release (key : Key) (r : Registry) : Registry :=
  r.change key fun g => { g with holders := g.holders - 1 }

/-- All holders of all keys go. -/
def releaseAll (r : Registry) : Registry :=
  { r with registered := r.registered.map fun g => { g with holders := 0 } }

/-- The keys without holders are no longer registered; says how many there were. -/
def dropReleased (r : Registry) : Nat × Registry :=
  let kept := r.registered.filter (0 < ·.holders)
  (r.registered.length - kept.length, { r with registered := kept })

/-- How many keys are registered. -/
def size (r : Registry) : Nat :=
  r.registered.length

/-- The table of a number, which is empty if there is none. -/
def table (i : Nat) (r : Registry) : Store :=
  (r.tables[i]?).getD {}

/-- A table with a change made to it. -/
def modify (table : Nat) (f : Store → Store) (r : Registry) : Registry :=
  { r with tables := r.tables.modify table f }

/-- A decision about a client, on the table of a key; says whether the key is registered. -/
def settle (now : Time) (key : Key) (client : Ip) (backend : Option Address) (r : Registry) : Bool × Registry :=
  match r.lookup key with
  | some table => (true, r.modify table (Store.settle now client backend))
  | none => (false, r)

end Registry

end AffinityRelay
