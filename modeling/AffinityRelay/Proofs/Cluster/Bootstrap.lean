import AffinityRelay.Proofs.Affinity.Recency
import AffinityRelay.Proofs.Cluster.Convergence

/-!
# What a follower makes of a dump

A dump has every entry of a table, however old, and says neither when it was written nor which scope its backend has.
So a follower that has nothing yet holds the same entries afterwards, in the same order, but all of them are new and
their backends have no scope.

* `Follower.receiveAll_eq`: bytes may arrive in pieces;
* `Store.settleAll_told`: the table of the follower after the dump;
* `Follower.answers_after_dump`: what it answers then, and for which clients that is what the server answers.
-/

namespace AffinityRelay

open AffinityRelay.Frame

/-! ## Pieces of a stream -/

namespace Follower

variable {now : Time} {f : Follower} {r : Registry}

/-- It does not matter to a follower how bytes are cut. -/
theorem receive_append (now : Time) (s t : List UInt8) (f : Follower) (r : Registry) :
    f.receive now (s ++ t) r = (f.receive now s r).1.receive now t (f.receive now s r).2 := by
  obtain ⟨cluster, target, watcher, post⟩ := f
  cases post with
  | dialing => rfl
  | pausing deadline => rfl
  | finished => rfl
  | following held =>
    rcases hd : decodeAll (held ++ s) with ⟨fs, rest, _ | e⟩
    · simp only [receive, ← List.append_assoc, decodeAll_append hd, hd, applyFrames_append]
    · simp only [receive, ← List.append_assoc, decodeAll_append_of_error hd, hd]

/-- One piece of bytes after another arrives at a follower. -/
def receiveAll (now : Time) (pieces : List (List UInt8)) (f : Follower) (r : Registry) : Follower × Registry :=
  pieces.foldl (fun p bytes => p.1.receive now bytes p.2) (f, r)

theorem receiveAll_receive (now : Time) (bytes : List UInt8) (pieces : List (List UInt8)) (f : Follower)
    (r : Registry) : (f.receive now bytes r).1.receiveAll now pieces (f.receive now bytes r).2 =
      f.receive now (bytes ++ pieces.flatten) r := by
  induction pieces generalizing bytes with
  | nil => rw [List.flatten_nil, List.append_nil]; rfl
  | cons piece pieces ih =>
    rw [List.flatten_cons, ← List.append_assoc, ← ih, receive_append]
    rfl

/-- Pieces that arrive at a follower that holds nothing are as good as all bytes at once. -/
theorem receiveAll_eq (hf : f.post = .following []) (now : Time) (pieces : List (List UInt8)) (r : Registry) :
    f.receiveAll now pieces r = f.receive now pieces.flatten r := by
  have hnil : f.receive now [] r = (f, r) := by
    obtain ⟨cluster, target, watcher, post⟩ := f
    obtain rfl : post = .following [] := hf
    simp only [receive, List.append_nil, decodeAll_of_incomplete (show decode [] = .incomplete from rfl)]
    rfl
  have h := receiveAll_receive now [] pieces f r
  rwa [hnil, List.nil_append] at h

end Follower

/-! ## The table after a dump -/

/-- An entry as a follower writes it down. -/
def Entry.renewed (now : Time) (e : Entry) : Entry :=
  ⟨e.client, e.backend.unscoped, now⟩

namespace Store

variable {config : StoreConfig} {h : History} {s : Store} {now : Time} {client : Ip}

/-- Entries of different networks that there is room for are written down one after another. -/
theorem settleAll_entries (now : Time) (es : List Entry) (s : Store)
    (hn : (s.held.map Entry.client ++ es.map Entry.client).Nodup)
    (hm : ∀ e ∈ es, s.network e.client = e.client) (hroom : s.held.length + es.length ≤ s.config.capacity) :
    s.settleAll now (es.map fun e => ⟨e.client, some e.backend⟩) =
      { s with held := s.held ++ es.map fun e => ⟨e.client, e.backend, now⟩ } := by
  induction es generalizing s with
  | nil => rw [List.map_nil, List.map_nil, List.append_nil]; rfl
  | cons e es ih =>
    -- No entry of this network is held yet, and none has to go.
    have hnew : ∀ x ∈ s.held, x.client ≠ s.network e.client := by
      intro x hx hc
      rw [hm e List.mem_cons_self] at hc
      exact (List.nodup_append.1 hn).2.2 x.client (List.mem_map_of_mem hx) e.client (by simp) hc
    have hothers : s.others e.client = s.held := by
      rw [others, List.filter_eq_self]
      exact fun x hx => by simpa using hnew x hx
    rw [List.length_cons] at hroom
    have hput : s.put now e.client e.backend = { s with held := s.held ++ [⟨e.client, e.backend, now⟩] } := by
      simp only [put, hothers, hm e List.mem_cons_self, fitting, List.length_append, List.length_singleton,
        Nat.sub_eq_zero_of_le (show s.held.length + 1 ≤ s.config.capacity by omega), List.drop_zero]
    have hstep := ih (s.put now e.client e.backend)
      (by rw [hput]; simpa using hn)
      (fun x hx => hm x (List.mem_cons_of_mem _ hx))
      (by rw [hput]; simp only [List.length_append, List.length_singleton]; omega)
    rw [List.map_cons, settleAll, List.foldl_cons]
    refine hstep.trans ?_
    rw [hput, List.map_cons, List.append_assoc, List.singleton_append]

/-- An empty table that is told all entries of another one with its settings holds the same, in the same order. -/
theorem settleAll_told (now : Time) (h : History) :
    ({ config } : Store).settleAll now ((after config h).told.map Decision.unscoped) =
      { config, held := (after config h).held.map (Entry.renewed now) } := by
  have hr : Recorded config h := recorded_after h
  have hmask : ∀ e ∈ (after config h).held, e.client.mask config.bits.toNat = e.client := by
    intro e he
    obtain ⟨client, hc⟩ := exists_mask_of_lastWrite (hr.written e he)
    rw [← hc, Ip.mask_mask, Nat.min_self]
  have hall := settleAll_entries now ((after config h).held.map (Entry.renewed now)) { config }
    (by simpa [Function.comp_def, Entry.renewed] using nodup_of_pairwise hr.ordered)
    (by simpa [Entry.renewed, network] using hmask)
    (by simpa using hr.bound)
  rw [List.map_map, List.map_map] at hall
  rw [told, List.map_map]
  exact hall

/-- What is answered where all entries are new is what was held. -/
theorem answer_renewed (now : Time) (s : Store) (client : Ip) :
    ({ s with held := s.held.map (Entry.renewed now) } : Store).answer now client =
      (s.lookup? client).map (·.backend.unscoped) := by
  have hfind : ({ s with held := s.held.map (Entry.renewed now) } : Store).lookup? client =
      (s.lookup? client).map (Entry.renewed now) := by
    rw [lookup?, List.find?_map]
    rfl
  rw [answer, hfind]
  cases s.lookup? client with
  | none => rfl
  | some e => simp [Option.filter, fresh, Entry.renewed]

/-- A table answers what it holds for a client, without its scope, just where that is fresh and has none. -/
theorem unscoped_eq_answer_iff (now : Time) (s : Store) (client : Ip) :
    (s.lookup? client).map (·.backend.unscoped) = s.answer now client ↔
      ∀ e ∈ s.lookup? client, s.fresh now e ∧ e.backend.scope = 0 := by
  rw [answer]
  cases s.lookup? client with
  | none => simp
  | some e =>
    obtain ⟨n, ⟨ip, port, scope⟩, written⟩ := e
    by_cases hf : s.fresh now ⟨n, ⟨ip, port, scope⟩, written⟩
    · simp [Option.filter_some, hf, Address.unscoped, eq_comm (a := scope)]
    · simp [Option.filter_some, hf]

end Store

/-! ## What is answered after a dump -/

namespace Follower

variable {config : StoreConfig} {h : Store.History} {r r' : Registry} {f : Follower} {pieces : List (List UInt8)}

/-- A follower's table is empty and has the settings of the one that it follows. Whatever happened to that: after all
bytes of a dump have arrived, in any pieces, the follower answers for a client the backend of the entry that the server
holds for the client's network, without its scope and however old, and nothing where the server holds none. That is what
the server answers where such an entry is fresh and its backend has no scope, and where there is none. -/
theorem answers_after_dump (now : Time) (hr : r.Sound) (hr' : r'.Sound)
    (hours : r.tableOf? config.key = some (Store.after config h)) (htheirs : r'.tableOf? config.key = some { config })
    (hcluster : f.cluster = config.key.cluster) (hpost : f.post = .following [])
    (hpieces : pieces.flatten = (r.dump config.key.cluster).flatMap encode) :
    (f.receiveAll now pieces r').1 = f ∧
    ∃ theirs, (f.receiveAll now pieces r').2.tableOf? config.key = some theirs ∧
      theirs.entries = (Store.after config h).entries.map (fun x => (x.1, x.2.unscoped)) ∧
      ∀ client,
        (theirs.get now client).1 = ((Store.after config h).lookup? client).map (·.backend.unscoped) ∧
        ((theirs.get now client).1 = ((Store.after config h).get (Store.clock h) client).1 ↔
          ∀ e ∈ (Store.after config h).lookup? client,
            (Store.after config h).fresh (Store.clock h) e ∧ e.backend.scope = 0) := by
  have hd := decodeAll_encode_append (r.dump config.key.cluster) []
  rw [List.append_nil, decodeAll_of_incomplete (show decode [] = .incomplete from rfl), List.append_nil] at hd
  have hreceive : f.receiveAll now pieces r' =
      (f, applyFrames now config.key.cluster r' ((r.dump config.key.cluster).map unscoped)) := by
    rw [receiveAll_eq hpost, hpieces]
    obtain ⟨cluster, target, watcher, post⟩ := f
    obtain rfl : post = .following [] := hpost
    obtain rfl : cluster = config.key.cluster := hcluster
    simp only [receive, List.nil_append, hd]
  obtain ⟨-, ht⟩ := Registry.tableOf?_applyFrames hr' now config.key ((r.dump config.key.cluster).map unscoped)
  rw [htheirs, decisions_map_unscoped, Registry.decisions_dump hr, hours, Option.map_some, Option.elim_some,
    Store.settleAll_told] at ht
  rw [hreceive]
  refine ⟨rfl, _, ht, ?_, fun client => ?_⟩
  · simp [Store.entries, Entry.renewed]
  · have hanswer := Store.answer_renewed now (Store.after config h) client
    rw [Store.config_after] at hanswer
    refine ⟨hanswer, ?_⟩
    rw [Store.get, Store.get, hanswer]
    exact Store.unscoped_eq_answer_iff ..

/-- Room for four networks of 24 bits, for ten seconds. -/
def agedConfig : StoreConfig :=
  { kind := .memory, bits := 24, elements := 4, seconds := 10, key := { cluster := 1, sticky := 2 } }

def agedClient : Ip := .ofOctets 10 1 0 7

def linkedClient : Ip := .ofOctets 10 2 0 7

def newClient : Ip := .ofOctets 10 3 0 7

def agedBackend : Address := { ip := .ofOctets 192 168 0 1, port := 80 }

/-- A backend on one of the links of the server's machine. -/
def linkedBackend : Address := { ip := .v6 (.replicate 16 1), port := 80, scope := 3 }

/-- One assignment is too old to be answered, one has a scope, and one is neither. -/
def agedHistory : Store.History :=
  [.put newClient agedBackend, .put linkedClient linkedBackend, .wait (11 * second), .put agedClient agedBackend]

def agedRegistry : Registry :=
  { tables := [Store.after agedConfig agedHistory], registered := [⟨agedConfig.key, 0, 1⟩] }

def emptyRegistry : Registry :=
  { tables := [{ config := agedConfig }], registered := [⟨agedConfig.key, 0, 1⟩] }

def newcomer : Follower :=
  { cluster := 1, target := "127.0.0.1:7000", watcher := ⟨0⟩, post := .following [] }

/-- The dump, with a cut in the middle of a frame. -/
def agedPieces : List (List UInt8) :=
  let bytes := (agedRegistry.dump 1).flatMap encode
  [bytes.take 30, bytes.drop 30]

/-- What the newcomer answers a client after the dump, if it has the table. -/
def agedAnswer? (client : Ip) : Option (Option Address) :=
  ((newcomer.receiveAll (11 * second) agedPieces emptyRegistry).2.tableOf? agedConfig.key).map fun s =>
    (s.get (11 * second) client).1

theorem answers_after_dump_aged : ∃ theirs,
    (newcomer.receiveAll (11 * second) agedPieces emptyRegistry).2.tableOf? agedConfig.key = some theirs ∧
    (theirs.get (11 * second) newClient).1 =
      ((Store.after agedConfig agedHistory).get (Store.clock agedHistory) newClient).1 ∧
    (theirs.get (11 * second) agedClient).1 = some agedBackend := by
  have hsound : agedRegistry.Sound := by
    refine ⟨List.nodup_singleton _, List.nodup_singleton _, fun g hg => ?_⟩
    rw [List.mem_singleton.1 hg]
    exact ⟨_, rfl, rfl⟩
  have hempty : emptyRegistry.Sound :=
    (Registry.ofConfigs?_spec (show Registry.ofConfigs? [agedConfig] = some emptyRegistry from rfl)).1
  have hours : agedRegistry.tableOf? agedConfig.key = some (Store.after agedConfig agedHistory) := rfl
  have hpieces : agedPieces.flatten = (agedRegistry.dump agedConfig.key.cluster).flatMap encode := by decide +kernel
  obtain ⟨-, theirs, ht, -, h⟩ := answers_after_dump (11 * second) hsound hempty hours rfl
    (show newcomer.cluster = _ from rfl) rfl hpieces
  refine ⟨theirs, ht, (h newClient).2.2 (by decide +kernel), (h agedClient).1.trans (by decide +kernel)⟩

/-- An assignment that is too old for the server is answered by the follower, and one whose backend has a scope is
answered without. -/
theorem dump_renews :
    agedPieces.flatten = (agedRegistry.dump agedConfig.key.cluster).flatMap encode ∧
    Store.clock agedHistory = 11 * second ∧
    ((Store.after agedConfig agedHistory).get (11 * second) agedClient).1 = none ∧
    agedAnswer? agedClient = some (some agedBackend) ∧
    ((Store.after agedConfig agedHistory).get (11 * second) linkedClient).1 = some linkedBackend ∧
    agedAnswer? linkedClient = some (some linkedBackend.unscoped) ∧ linkedBackend.unscoped ≠ linkedBackend := by
  decide +kernel

end Follower

end AffinityRelay
