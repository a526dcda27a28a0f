import Mathlib.Data.List.DropRight
import AffinityRelay.Proofs.Affinity.Registries
import AffinityRelay.Proofs.Cluster.Bootstrap

/-!
# Tables rebuilt from a dump

A dump goes through the tables of a cluster in any order, and through each from the assignment that was touched
longest ago. Whoever writes it down into empty tables, of whatever room and at whatever times, has the latest
assignments of each table in that order: nothing is written for a network twice, so each assignment goes to the end of
the list and the first of the list goes where there is no room (`Store.Latest.put`). A frame changes the table that it
is about, and no other.

* `Store.latest_settleEach`: what a table makes of the frames about it, and others;
* `decisions_walk`: what a dump tells of a table, wherever that comes in it;
* `Follower.receiveEach_eq`: bytes that arrive in pieces, each at its time;
* `Follower.recency_rebuilt`: all of that.
-/

namespace AffinityRelay

open AffinityRelay.Frame

/-! ## The latest assignments -/

theorem rtake_rtake_concat {α : Type} (l : List α) (x : α) (n : Nat) :
    (l.rtake n ++ [x]).rtake n = (l ++ [x]).rtake n := by
  cases n with
  | zero => rw [List.rtake_zero, List.rtake_zero]
  | succ n =>
    have hsame : (l.rtake (n + 1)).rtake n = l.rtake n := by
      simp only [List.rtake, List.drop_drop, List.length_drop]
      congr 1
      omega
    rw [List.rtake_concat_succ, List.rtake_concat_succ, hsame]

/-- The decision that tells an assignment. -/
def assignment (x : Ip × Address) : Decision :=
  ⟨x.1, some x.2⟩

namespace Store

variable {s : Store} {told : List (Ip × Address)} {now : Time}

theorem told_eq (s : Store) : s.told = s.entries.map assignment := by
  rw [told, entries, List.map_map]
  rfl

/-- What is listed after an assignment: the others, and then this one, as far as there is room. -/
theorem entries_put (now : Time) (client : Ip) (backend : Address) (s : Store) : (s.put now client backend).entries =
    ((s.entries.filter fun x => x.1 ≠ s.network client) ++ [(s.network client, backend)]).rtake s.config.capacity := by
  simp only [entries, put, others, fitting, List.rtake, List.filter_map, List.map_drop, List.map_append, List.map_cons,
    List.map_nil, List.length_append, List.length_map, Function.comp_def, List.length_cons, List.length_nil]

/-- A table lists the last of some assignments, as many as there is room for. -/
def Latest (told : List (Ip × Address)) (s : Store) : Prop :=
  s.entries = told.rtake s.config.capacity

/-- The assignment of a network that had none yet comes last. -/
theorem Latest.put (h : s.Latest told) {x : Ip × Address} (hx : x.1 ∉ told.map Prod.fst) (hm : s.network x.1 = x.1)
    (now : Time) : (s.put now x.1 x.2).Latest (told ++ [x]) := by
  have hothers : s.entries.filter (fun y => y.1 ≠ s.network x.1) = s.entries := by
    refine List.filter_eq_self.2 fun y hy => ?_
    have hy' : y ∈ told := List.mem_of_mem_drop (h ▸ hy)
    have hne : y.1 ≠ x.1 := fun he => hx (he ▸ List.mem_map_of_mem hy')
    simpa [hm] using hne
  rw [Latest, entries_put, hothers, hm, h, config_put, rtake_rtake_concat]

/-- What frames tell of a table is done to it, each at its time. -/
def settleEach (sticky : UInt64) (stamped : List (Time × Frame)) (s : Store) : Store :=
  stamped.foldl (fun s p => s.settleAll p.1 (decisions sticky [p.2])) s

/-- Frames that tell assignments of different networks, and whatever of other tables, each at its time. -/
theorem latest_settleEach {sticky : UInt64} {stamped : List (Time × Frame)} {xs : List (Ip × Address)} {s : Store}
    {told : List (Ip × Address)} (h : s.Latest told) (hn : ((told ++ xs).map Prod.fst).Nodup)
    (hm : ∀ x ∈ xs, s.network x.1 = x.1) (hd : decisions sticky (stamped.map Prod.snd) = xs.map assignment) :
    (s.settleEach sticky stamped).Latest (told ++ xs) := by
  induction stamped generalizing s told xs with
  | nil =>
    obtain rfl : xs = [] := List.map_eq_nil_iff.1 hd.symm
    rwa [List.append_nil]
  | cons p stamped ih =>
    cases hp : p.2.decision? sticky with
    | none =>
      have hnone (fs : List Frame) : decisions sticky (p.2 :: fs) = decisions sticky fs := List.filterMap_cons_none hp
      rw [List.map_cons, hnone] at hd
      rw [settleEach, List.foldl_cons, hnone]
      exact ih h hn hm hd
    | some d =>
      have hsome (fs : List Frame) : decisions sticky (p.2 :: fs) = d :: decisions sticky fs :=
        List.filterMap_cons_some hp
      rw [List.map_cons, hsome] at hd
      obtain ⟨x, xs, rfl, rfl, hxs⟩ := List.map_eq_cons_iff.1 hd.symm
      obtain ⟨hx, hm⟩ := List.forall_mem_cons.1 hm
      have hnew : x.1 ∉ told.map Prod.fst := by
        intro hmem
        rw [List.map_append, List.nodup_append] at hn
        exact hn.2.2 x.1 hmem x.1 (by simp) rfl
      rw [List.append_cons] at hn ⊢
      rw [settleEach, List.foldl_cons, hsome]
      exact ih (h.put hnew hx p.1) hn hm hxs.symm

theorem config_settleEach (sticky : UInt64) (stamped : List (Time × Frame)) (s : Store) :
    (s.settleEach sticky stamped).config = s.config := by
  induction stamped generalizing s with
  | nil => rfl
  | cons p stamped ih => exact (ih _).trans (config_settleAll p.1 _ s)

/-- An empty table that is told all assignments of another, with the same width of networks, lists the latest. -/
theorem latest_told {config : StoreConfig} {sticky : UInt64} {stamped : List (Time × Frame)} (h : s.Listed)
    (hb : config.bits = s.config.bits) (hd : decisions sticky (stamped.map Prod.snd) = s.told) :
    (settleEach sticky stamped { config }).Latest s.entries := by
  have hempty : ({ config } : Store).Latest [] := (List.drop_nil).symm
  refine latest_settleEach hempty h.nodup (fun x hx => ?_) (hd.trans s.told_eq)
  rw [network, hb]
  exact h.masked x hx

/-- There is no more to list than was told. -/
theorem Latest.entries_eq (h : s.Latest told) : s.entries = told.rtake (min s.config.capacity told.length) := by
  have hleft : told.length - s.config.capacity = told.length - min s.config.capacity told.length := by omega
  rw [h, List.rtake, List.rtake, hleft]

/-- A table with the same room and the same width of networks that lists the latest of another lists all that this one
does, and so after the next assignment. -/
theorem Latest.entries_put {s' : Store} (h : s'.Latest s.entries) (hs : s.Listed)
    (hb : s'.config.bits = s.config.bits) (hc : s'.config.capacity = s.config.capacity) (now : Time) (client : Ip)
    (backend : Address) : (s'.put now client backend).entries = (s.put now client backend).entries := by
  have hsame : s'.entries = s.entries := by
    rw [h, hc, List.rtake, Nat.sub_eq_zero_of_le hs.bound, List.drop_zero]
  rw [Store.entries_put, Store.entries_put, hsame, hc, network, network, hb]

end Store

/-! ## Frames and the tables they are about -/

namespace Registry

variable {r : Registry} {cluster : UInt64}

/-- Frames are applied, each at its time. -/
def applyEach (cluster : UInt64) (stamped : List (Time × Frame)) (r : Registry) : Registry :=
  stamped.foldl (fun r p => p.2.apply p.1 cluster r) r

theorem tableOf?_applyEach (h : r.Sound) (key : Key) (stamped : List (Time × Frame)) :
    (r.applyEach key.cluster stamped).tableOf? key = (r.tableOf? key).map (Store.settleEach key.sticky stamped) := by
  induction stamped generalizing r with
  | nil => exact Option.map_id_apply.symm
  | cons p stamped ih =>
    obtain ⟨hs, ht⟩ := tableOf?_applyFrames h p.1 key [p.2]
    refine (ih hs).trans ?_
    rw [ht, Option.map_map]
    rfl

@[simp] theorem registered_apply (now : Time) (f : Frame) (r : Registry) :
    (f.apply now cluster r).registered = r.registered := by
  cases f with
  | nop => rfl
  | update u =>
    simp only [Frame.apply, Update.apply, settle]
    split <;> rfl

theorem registered_applyEach (stamped : List (Time × Frame)) (r : Registry) :
    (r.applyEach cluster stamped).registered = r.registered := by
  induction stamped generalizing r with
  | nil => rfl
  | cons p stamped ih => exact (ih _).trans (registered_apply p.1 p.2 r)

/-- A frame does not change a table that it is not about. -/
theorem apply_elsewhere {j : Nat} {f : Frame} (now : Time)
    (hj : ∀ u, f = .update u → r.lookup ⟨cluster, u.sticky⟩ ≠ some j) :
    (f.apply now cluster r).tables[j]? = r.tables[j]? := by
  cases f with
  | nop => rfl
  | update u =>
    simp only [Frame.apply, Update.apply, settle]
    split
    · rename_i i hi
      have hij : i ≠ j := fun hij => hj u rfl (hij ▸ hi)
      simp [Registry.modify, hij]
    · rfl

theorem applyEach_elsewhere {j : Nat} {stamped : List (Time × Frame)}
    (hj : ∀ u, .update u ∈ stamped.map Prod.snd → r.lookup ⟨cluster, u.sticky⟩ ≠ some j) :
    (r.applyEach cluster stamped).tables[j]? = r.tables[j]? := by
  induction stamped generalizing r with
  | nil => rfl
  | cons p stamped ih =>
    rw [List.map_cons] at hj
    have ht := apply_elsewhere p.1 fun u hu => hj u (hu ▸ List.mem_cons_self)
    refine (ih fun u hu => ?_).trans ht
    rw [lookup, find?, registered_apply]
    exact hj u (List.mem_cons_of_mem _ hu)

/-! ## What a dump tells of a table -/

theorem mem_tables_of_mem_tablesOfCluster {s : Store} (hs : s ∈ r.tablesOfCluster cluster) : s ∈ r.tables := by
  obtain ⟨i, -, hi⟩ := List.mem_filterMap.1 hs
  exact List.mem_of_getElem? hi

/-- The tables of a cluster have the keys that are registered in it. -/
theorem keys_tablesOfCluster (h : r.Sound) (cluster : UInt64) :
    (r.tablesOfCluster cluster).map (·.config.key) =
      (r.registered.filter (·.key.cluster = cluster)).map Registration.key := by
  have hmade : ∀ g ∈ r.registered.filter (·.key.cluster = cluster),
      ∃ s, r.tables[g.table]? = some s ∧ s.config.key = g.key := fun g hg => h.made g (List.mem_filter.1 hg).1
  rw [tablesOfCluster, ofCluster]
  revert hmade
  generalize r.registered.filter (·.key.cluster = cluster) = gs
  intro hmade
  induction gs with
  | nil => rfl
  | cons g gs ih =>
    obtain ⟨⟨s, hs, hk⟩, hmade⟩ := List.forall_mem_cons.1 hmade
    rw [List.map_cons, List.filterMap_cons_some hs, List.map_cons, List.map_cons, ih hmade, hk]

/-- All tables of a cluster have its number, and no two have one sticky number. -/
theorem stickies_tablesOfCluster (h : r.Sound) (cluster : UInt64) :
    (∀ s ∈ r.tablesOfCluster cluster, s.config.key.cluster = cluster) ∧
      ((r.tablesOfCluster cluster).map (·.config.key.sticky)).Nodup := by
  have hkeys := keys_tablesOfCluster h cluster
  have hcluster : ∀ s ∈ r.tablesOfCluster cluster, s.config.key.cluster = cluster := by
    intro s hs
    have hk : s.config.key ∈ (r.registered.filter (·.key.cluster = cluster)).map Registration.key :=
      hkeys ▸ List.mem_map_of_mem hs
    obtain ⟨g, hg, hgk⟩ := List.mem_map.1 hk
    rw [← hgk]
    exact of_decide_eq_true (List.mem_filter.1 hg).2
  have hnodup : ((r.tablesOfCluster cluster).map (·.config.key)).Nodup := by
    rw [hkeys]
    exact h.keys.sublist (List.filter_sublist.map _)
  refine ⟨hcluster, ?_⟩
  have hinj : ∀ k ∈ (r.tablesOfCluster cluster).map (·.config.key),
      ∀ k' ∈ (r.tablesOfCluster cluster).map (·.config.key), k.sticky = k'.sticky → k = k' := by
    rintro ⟨c, sticky⟩ hk ⟨c', sticky'⟩ hk' rfl
    obtain ⟨s, hs, hsk⟩ := List.mem_map.1 hk
    obtain ⟨s', hs', hsk'⟩ := List.mem_map.1 hk'
    have hc := hcluster s hs
    have hc' := hcluster s' hs'
    rw [hsk] at hc
    rw [hsk'] at hc'
    rw [show c = c' from hc.trans hc'.symm]
  have hstickies := hnodup.map_on hinj
  rwa [List.map_map] at hstickies

end Registry

/-- A dump tells each assignment of a table that it goes through, and nothing of others of its cluster. -/
theorem decisions_walk {walk : List Store} {s : Store} (hn : (walk.map (·.config.key.sticky)).Nodup) (hs : s ∈ walk) :
    decisions s.config.key.sticky (walk.flatMap Store.dump) = s.told := by
  have hnone : ∀ {rest : List Store}, s.config.key.sticky ∉ rest.map (·.config.key.sticky) →
      decisions s.config.key.sticky (rest.flatMap Store.dump) = [] := by
    intro rest hr
    induction rest with
    | nil => rfl
    | cons t rest ih =>
      simp only [List.map_cons, List.mem_cons, not_or] at hr
      obtain ⟨ht, hr⟩ := hr
      rw [List.flatMap_cons, decisions_append, Store.decisions_dump, if_neg (Ne.symm ht), ih hr, List.nil_append]
  induction walk with
  | nil => cases hs
  | cons t walk ih =>
    obtain ⟨ht, hn⟩ := List.nodup_cons.1 hn
    rw [List.flatMap_cons, decisions_append, Store.decisions_dump]
    obtain rfl | hs := List.mem_cons.1 hs
    · rw [if_pos rfl, hnone ht, List.append_nil]
    · have hne : t.config.key.sticky ≠ s.config.key.sticky := fun he => ht (List.mem_map.2 ⟨s, hs, he.symm⟩)
      rw [if_neg hne, List.nil_append, ih hn hs]

/-! ## Pieces of a stream at different times -/

namespace Follower

variable {f : Follower} {r : Registry}

/-- One piece of bytes after another arrives at a follower, each at its time. -/
def receiveEach (pieces : List (Time × List UInt8)) (f : Follower) (r : Registry) : Follower × Registry :=
  pieces.foldl (fun p piece => p.1.receive piece.1 piece.2 p.2) (f, r)

/-- What is left where no frame is complete gives no frame. -/
theorem decodeAll_rest {s rest : List UInt8} {fs : List Frame} (h : decodeAll s = (fs, ⟨rest, none⟩)) :
    decodeAll rest = ([], ⟨rest, none⟩) := by
  have hd := decodeAll_append h []
  rw [List.append_nil, List.append_nil, h] at hd
  obtain ⟨hfs, hrest⟩ := Prod.mk.inj hd
  rw [List.self_eq_append_right] at hfs
  exact Prod.ext hfs hrest.symm

/-- Each frame in the bytes is applied when it has come to be complete. -/
theorem receiveEach_eq {pieces : List (Time × List UInt8)} {held rest : List UInt8} {fs : List Frame} {f : Follower}
    {r : Registry} (hpost : f.post = .following held) (hheld : decodeAll held = ([], ⟨held, none⟩))
    (hd : decodeAll (held ++ (pieces.map Prod.snd).flatten) = (fs, ⟨rest, none⟩)) :
    ∃ stamped, stamped.map Prod.snd = fs ∧
      f.receiveEach pieces r = ({ f with post := .following rest }, r.applyEach f.cluster stamped) := by
  obtain ⟨cluster, target, watcher, post⟩ := f
  obtain rfl : post = .following held := hpost
  induction pieces generalizing held fs r with
  | nil =>
    rw [List.map_nil, List.flatten_nil, List.append_nil, hheld] at hd
    cases hd
    exact ⟨[], rfl, rfl⟩
  | cons piece pieces ih =>
    rw [List.map_cons, List.flatten_cons, ← List.append_assoc] at hd
    rcases hfirst : decodeAll (held ++ piece.2) with ⟨gs, left, _ | e⟩
    · rw [decodeAll_append hfirst] at hd
      obtain ⟨hfs, hrest⟩ := Prod.mk.inj hd
      obtain ⟨stamped, hstamped, heq⟩ :=
        ih (decodeAll_rest hfirst) (Prod.ext rfl hrest) (r := applyFrames piece.1 cluster r gs)
      refine ⟨gs.map (Prod.mk piece.1) ++ stamped, ?_, ?_⟩
      · rw [List.map_append, List.map_map, hstamped, ← hfs]
        simp
      · rw [receiveEach, List.foldl_cons]
        simp only [receive, hfirst]
        refine heq.trans ?_
        rw [Registry.applyEach, Registry.applyEach, List.foldl_append, List.foldl_map]
        rfl
    · rw [decodeAll_append_of_error hfirst] at hd
      cases hd

/-- A table's frames are read as they were written, if no backend has a scope. -/
theorem map_unscoped_walk {walk : List Store} (h : ∀ s ∈ walk, ∀ x ∈ s.entries, x.2.scope = 0) :
    (walk.flatMap Store.dump).map unscoped = walk.flatMap Store.dump := by
  refine (List.map_congr_left fun f hf => ?_).trans (List.map_id _)
  obtain ⟨s, hs, hf⟩ := List.mem_flatMap.1 hf
  obtain ⟨e, he, rfl⟩ := List.mem_map.1 hf
  have hscope : e.backend.scope = 0 := h s hs (e.client, e.backend) (List.mem_map_of_mem he)
  obtain ⟨client, ⟨ip, port, scope⟩, written⟩ := e
  obtain rfl : scope = 0 := hscope
  rfl

/-- The bytes of a dump arrive, in pieces: each frame of it is applied at some time. -/
theorem receiveEach_dump {walk : List Store} (hscope : ∀ s ∈ walk, ∀ x ∈ s.entries, x.2.scope = 0)
    {pieces : List (Time × List UInt8)} (hpost : f.post = .following [])
    (hpieces : (pieces.map Prod.snd).flatten = (walk.flatMap Store.dump).flatMap encode) (r : Registry) :
    ∃ stamped, stamped.map Prod.snd = walk.flatMap Store.dump ∧
      f.receiveEach pieces r = (f, r.applyEach f.cluster stamped) := by
  have hnothing : decodeAll [] = ([], ⟨[], none⟩) := decodeAll_of_incomplete (show decode [] = .incomplete from rfl)
  have hd := decodeAll_encode_append (walk.flatMap Store.dump) []
  rw [List.append_nil, hnothing, List.append_nil, map_unscoped_walk hscope, ← hpieces] at hd
  obtain ⟨stamped, hstamped, heq⟩ := receiveEach_eq (r := r) hpost hnothing hd
  rw [← hpost] at heq
  exact ⟨stamped, hstamped, heq⟩

/-- The tables of a cluster have come to what they are in whatever way, and no backend has a scope. A follower has an
empty table for each of their keys, with the same width of networks and any room. All bytes of a dump that goes
through the tables in any order arrive at it, in pieces, each at its time. Then each of its tables lists the latest
assignments of the server's table, as many as there is room for, in their order; and if it has as much room, each
further assignment makes the same one go. Nothing else has changed at the follower's node. -/
theorem recency_rebuilt {t t' : Time} {r r' : Registry} (hr : r.Reachable t) (hr' : r'.Reachable t') {f : Follower}
    (hpost : f.post = .following [])
    (hscope : ∀ s ∈ r.tablesOfCluster f.cluster, ∀ x ∈ s.entries, x.2.scope = 0)
    (hfresh : ∀ s ∈ r.tablesOfCluster f.cluster, ∃ config : StoreConfig, config.bits = s.config.bits ∧
      r'.tableOf? s.config.key = some { config })
    {walk : List Store} (hwalk : walk.Perm (r.tablesOfCluster f.cluster)) {pieces : List (Time × List UInt8)}
    (hpieces : (pieces.map Prod.snd).flatten = (walk.flatMap Store.dump).flatMap encode) :
    let q := f.receiveEach pieces r'
    q.1 = f ∧ q.2.registered = r'.registered ∧
    (∀ s ∈ r.tablesOfCluster f.cluster, ∃ (config : StoreConfig) (theirs : Store),
      r'.tableOf? s.config.key = some { config } ∧ q.2.tableOf? s.config.key = some theirs ∧ theirs.config = config ∧
      theirs.entries = s.entries.rtake (min config.capacity s.entries.length) ∧
      (config.capacity = s.config.capacity → ∀ now client backend,
        (theirs.put now client backend).entries = (s.put now client backend).entries)) ∧
    ∀ j, (∀ s ∈ r.tablesOfCluster f.cluster, r'.lookup s.config.key ≠ some j) → q.2.tables[j]? = r'.tables[j]? := by
  have hmem : ∀ {s}, s ∈ walk ↔ s ∈ r.tablesOfCluster f.cluster := hwalk.mem_iff
  obtain ⟨hkeys, hnodup⟩ := Registry.stickies_tablesOfCluster hr.grown.sound f.cluster
  have hwalked : (walk.map (·.config.key.sticky)).Nodup := (hwalk.map _).nodup_iff.2 hnodup
  obtain ⟨stamped, hstamped, heq⟩ := receiveEach_dump (fun s hs => hscope s (hmem.1 hs)) hpost hpieces r'
  intro q
  rw [show q = (f, r'.applyEach f.cluster stamped) from heq]
  refine ⟨rfl, Registry.registered_applyEach stamped r', fun s hs => ?_, fun j hj => ?_⟩
  · obtain ⟨config, hbits, hconfig⟩ := hfresh s hs
    have hlisted : s.Listed := hr.listed (Registry.mem_tables_of_mem_tablesOfCluster hs)
    have htheirs := Registry.tableOf?_applyEach hr'.grown.sound s.config.key stamped
    rw [hkeys s hs, hconfig, Option.map_some] at htheirs
    have hlatest := Store.latest_told hlisted hbits
      ((congrArg _ hstamped).trans (decisions_walk hwalked (hmem.2 hs)))
    have hc := Store.config_settleEach s.config.key.sticky stamped { config }
    refine ⟨config, _, hconfig, htheirs, hc, ?_, fun hroom => hlatest.entries_put hlisted ?_ ?_⟩
    · rw [hlatest.entries_eq, hc]
    · rw [hc, hbits]
    · rw [hc, hroom]
  · refine Registry.applyEach_elsewhere fun u hu => ?_
    rw [hstamped] at hu
    obtain ⟨s, hs, hu⟩ := List.mem_flatMap.1 hu
    obtain ⟨e, -, he⟩ := List.mem_map.1 hu
    cases he
    rw [← hkeys s (hmem.1 hs)]
    exact hj s (hmem.1 hs)

/-! Two tables of a cluster, of which the follower has less room for the first, and a table of another cluster. -/

def walkedConfig (cluster sticky elements : UInt64) : StoreConfig :=
  { kind := .memory, bits := 24, elements, seconds := 60, key := { cluster, sticky } }

def walkedBackend (port : UInt16) : Address := { ip := .ofOctets 192 168 0 1, port }

/-- An assignment is looked up after a later one was made. -/
def walkedServer : Registry :=
  let r := ((Registry.acquire (walkedConfig 1 2 4) {}).2.acquire (walkedConfig 1 3 4)).2
  let r := r.modify 0 (Store.settle 0 (.v4 #v[10, 0, 1, 7]) (some (walkedBackend 80)))
  let r := r.modify 0 (Store.settle 0 (.v4 #v[10, 0, 2, 7]) (some (walkedBackend 81)))
  let r := r.modify 1 (Store.settle 0 (.v4 #v[10, 0, 1, 7]) (some (walkedBackend 82)))
  r.modify 0 fun s => (s.get 0 (.v4 #v[10, 0, 1, 9])).2

def walkingNode : Registry :=
  let r := ((Registry.acquire (walkedConfig 1 2 1) {}).2.acquire (walkedConfig 1 3 8)).2
  let r := (r.acquire (walkedConfig 2 2 4)).2
  r.modify 2 (Store.settle 0 (.v4 #v[10, 0, 2, 7]) (some (walkedBackend 83)))

def walkingFollower : Follower :=
  { cluster := 1, target := "127.0.0.1:7000", watcher := ⟨0⟩, post := .following [] }

/-- The tables the other way round, with a cut in the middle of a frame. -/
def walkedPieces : List (Time × List UInt8) :=
  let bytes := ((walkedServer.tablesOfCluster 1).reverse.flatMap Store.dump).flatMap encode
  [(5, bytes.take 30), (second, bytes.drop 30)]

theorem reachable_walkedServer : walkedServer.Reachable 0 :=
  .ask 0 _ (.settle 1 _ _ (.settle 0 _ _ (.settle 0 _ _ (.acquire _ (.acquire _ .new)))))

theorem reachable_walkingNode : walkingNode.Reachable 0 :=
  .settle 2 _ _ (.acquire _ (.acquire _ (.acquire _ .new)))

theorem recency_rebuilt_reversed :
    (walkedServer.tableOf? { cluster := 1, sticky := 2 }).map Store.entries =
      some [(.v4 #v[10, 0, 2, 0], walkedBackend 81), (.v4 #v[10, 0, 1, 0], walkedBackend 80)] ∧
    ((walkingFollower.receiveEach walkedPieces walkingNode).2.tableOf? { cluster := 1, sticky := 2 }).map
      Store.entries = some [(.v4 #v[10, 0, 1, 0], walkedBackend 80)] ∧
    (walkingFollower.receiveEach walkedPieces walkingNode).2.tables[2]? = walkingNode.tables[2]? := by
  have htables : ∀ {P : Store → Prop}, (∀ s ∈ walkedServer.tablesOfCluster 1, P s) ↔
      P (walkedServer.table 0) ∧ P (walkedServer.table 1) := by
    intro P
    rw [show walkedServer.tablesOfCluster 1 = [walkedServer.table 0, walkedServer.table 1] from rfl]
    simp
  have hflat : (walkedPieces.map Prod.snd).flatten =
      ((walkedServer.tablesOfCluster 1).reverse.flatMap Store.dump).flatMap encode := by
    simp [walkedPieces]
  obtain ⟨-, -, h, helse⟩ := recency_rebuilt (f := walkingFollower) reachable_walkedServer reachable_walkingNode rfl
    (htables.2 ⟨by decide, by decide⟩) (htables.2 ⟨⟨walkedConfig 1 2 1, rfl, rfl⟩, ⟨walkedConfig 1 3 8, rfl, rfl⟩⟩)
    (List.reverse_perm _) hflat
  obtain ⟨config, theirs, hconfig, htheirs, -, hentries, -⟩ := (htables.1 h).1
  have hroom : some ({ config := walkedConfig 1 2 1 } : Store) = some { config } := hconfig
  cases hroom
  refine ⟨rfl, ?_, helse 2 (htables.2 ⟨by decide, by decide⟩)⟩
  exact (congrArg (Option.map Store.entries) htheirs).trans (congrArg some hentries)

end Follower

end AffinityRelay
