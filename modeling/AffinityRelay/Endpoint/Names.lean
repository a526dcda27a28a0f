import AffinityRelay.Address.Locate
import AffinityRelay.Clock
import AffinityRelay.Rule.HostPort

/-!
# From names to addresses

- `Lookup`: a way to find the addresses of a host, which may remember what it was asked;
- `gather`: the addresses of several backends, in their order;
- `HostTable`: hosts with fixed addresses;
- `NameCache`: answers that are kept for a while, those that found nothing as well;
- `Directory`: either of the last two.
-/

namespace AffinityRelay

/-- Finds the addresses of a host, by its name, with something to remember. -/
abbrev Lookup (σ : Type) := HostPort → σ → List Address × σ

/-- The addresses of one backend after another. -/
def gather {σ : Type} (look : Lookup σ) : List HostPort → σ → List Address × σ
  | [], s => ([], s)
  | h :: hs, s =>
    let (found, s) := look h s
    let (more, s) := gather look hs s
    (found ++ more, s)

/-- Hosts with fixed addresses, and every backend that was looked up since the list was last taken. -/
structure HostTable where
  hosts : List (String × List Ip) := []
  asked : List HostPort := []
  deriving Repr

namespace HostTable

/-- The table with the addresses of a host replaced. -/
def set (host : String) (ips : List Ip) (t : HostTable) : HostTable :=
  { t with hosts := (host, ips) :: t.hosts }

/-- The addresses that the table has for a host; a host that is not in it has none. -/
def look : Lookup HostTable := fun h t =>
  (((t.hosts.lookup h.host).getD []).map fun ip => { ip, port := h.port },
    { t with asked := t.asked ++ [h] })

end HostTable

/-- The answer for a host, and until when it is good. -/
structure Known where
  host : String
  ips : List Ip
  good : Time
  deriving DecidableEq, Repr

/-- Answers that are kept for a while. -/
structure NameCache where
  known : List Known := []
  deriving DecidableEq, Repr

namespace NameCache

/-- How long an answer is good. -/
def lifetime : Time := 3 * second

/-- The addresses of a host: the one it is written for, or else those that a name service finds. -/
def ask (names : String → List Ip) (host : String) : List Ip :=
  match Ip.read? host.toList with
  | some ip => [ip]
  | none => names host

/-- An answer that is still good, or else a new one, which is kept. -/
def find (names : String → List Ip) (now : Time) (host : String) (c : NameCache) : List Ip × NameCache :=
  match c.known.find? fun k => k.host = host ∧ now ≤ k.good with
  | some k => (k.ips, c)
  | none =>
    let ips := ask names host
    (ips, { known := ⟨host, ips, now + lifetime⟩ :: c.known.filter (·.host ≠ host) })

/-- The addresses of a host, with its port. -/
def look (names : String → List Ip) (now : Time) : Lookup NameCache := fun h c =>
  let (ips, c) := c.find names now h.host
  (ips.map fun ip => { ip, port := h.port }, c)

end NameCache

/-- Where the addresses of hosts come from. -/
structure Directory where
  /-- Whether a host has the address that it is written for, and not those of the table. -/
  literal : Bool := false
  table : HostTable := {}
  cache : NameCache := {}

namespace Directory

/-- The addresses of a host in the table, or the one it is written for. -/
def look (now : Time) : Lookup Directory := fun h d =>
  if d.literal then
    let (found, cache) := NameCache.look (fun host => (Ip.ofHost? host.toList).toList) now h d.cache
    (found, { d with cache })
  else
    let (found, table) := HostTable.look h d.table
    (found, { d with table })

/-- The directory with the addresses of a host replaced. -/
def set (host : String) (ips : List Ip) (d : Directory) : Directory :=
  { d with table := d.table.set host ips }

/-- The backends that were looked up in the table since this was asked last. -/
def takeAsked (d : Directory) : List HostPort × Directory :=
  (d.table.asked, { d with table := { d.table with asked := [] } })

end Directory

end AffinityRelay
