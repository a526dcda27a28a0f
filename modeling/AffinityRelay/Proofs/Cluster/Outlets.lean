import AffinityRelay.Proofs.Affinity.Lifecycle
import AffinityRelay.Proofs.Cluster.Replication

/-!
# What leaves a node

A node tells its peers of a cluster two things: all assignments, when a peer is new, and then the decisions that balancers
announce. A `Node.History` lists what happens to such a node, the latest first: keys of tables come and go, tables are
used, balancers decide, bytes of other nodes arrive, and peers come, are told something and leave.

* `Node.dumped`, `Node.streamed`: what the peers of a cluster were told by either way;
* `Registry.Shares`: a table of a key was made, and the key is shared. A balancer announces nothing else
  (`settled_announces`), so nothing else waits for a peer (`Node.Discreet`, kept by every act: `Discreet.apply`);
* `Node.told_of_tables`: of which tables the peers of a cluster are told. The decisions are those of shared tables. The
  assignments are those of all tables of the cluster, a table without a name of its own among them
  (`dump_tells_unshared`).
-/

namespace AffinityRelay

/-! ## Tables and their keys -/

namespace Registry

/-- A table of a key was made, whether or not the key has it still. -/
def Made (key : Key) (r : Registry) : Prop :=
  ∃ s ∈ r.tables, s.config.key = key

/-- A table of a key was made, and the key is one that the nodes of a cluster share. -/
def Shares (key : Key) (r : Registry) : Prop :=
  key.replicated = true ∧ r.Made key

/-- What was made stays, and no two keys come to share a table. -/
structure Keeps (r r' : Registry) : Prop where
  sound : r.Sound → r'.Sound
  made : ∀ key, r.Made key → r'.Made key

variable {r r' r'' : Registry} {key : Key} {i : Nat}

theorem Keeps.refl (r : Registry) : r.Keeps r :=
  ⟨id, fun _ => id⟩

theorem Keeps.trans (h : r.Keeps r') (h' : r'.Keeps r'') : r.Keeps r'' :=
  ⟨fun hs => h'.sound (h.sound hs), fun key hm => h'.made key (h.made key hm)⟩

theorem Keeps.shares (h : r.Keeps r') (hs : r.Shares key) : r'.Shares key :=
  ⟨hs.1, h.made key hs.2⟩

/-- A change of one table that is set as before. -/
theorem keeps_modify {f : Store → Store} (hf : ∀ s, r.tables[i]? = some s → (f s).config = s.config) :
    r.Keeps (r.modify i f) where
  sound h := h.modify hf
  made := by
    rintro key ⟨s, hs, hk⟩
    obtain ⟨j, hj⟩ := List.mem_iff_getElem?.1 hs
    by_cases hij : i = j
    · subst hij
      refine ⟨f s, List.mem_of_getElem? (i := i) ?_, (congrArg StoreConfig.key (hf s hj)).trans hk⟩
      simp [Registry.modify, hj]
    · refine ⟨s, List.mem_of_getElem? (i := j) ?_, hk⟩
      simp [Registry.modify, hj, hij]

theorem keeps_settle (now : Time) (key : Key) (client : Ip) (backend : Option Address) (r : Registry) :
    r.Keeps (r.settle now key client backend).2 := by
  unfold Registry.settle
  split
  · exact keeps_modify fun s _ => Store.config_settle now client backend s
  · exact .refl r

theorem keeps_apply (a : Act) (r : Registry) : r.Keeps (a.apply r) := by
  refine ⟨fun h => h.apply a, ?_⟩
  cases a with
  | acquire config =>
    rintro key ⟨s, hs, hk⟩
    simp only [Act.apply, Registry.acquire]
    split
    · exact ⟨s, hs, hk⟩
    · split
      · exact ⟨s, hs, hk⟩
      · exact ⟨s, List.mem_append_left _ hs, hk⟩
  | lookUp | release | releaseAll | dropReleased => exact fun _ => id
  | use now table e => exact (keeps_modify fun s _ => Store.config_apply now e s).made

theorem keeps_applyFrames (now : Time) (cluster : UInt64) (fs : List Frame) (r : Registry) :
    r.Keeps (applyFrames now cluster r fs) := by
  induction fs generalizing r with
  | nil => exact .refl r
  | cons f fs ih =>
    refine Keeps.trans ?_ (ih (f.apply now cluster r))
    cases f with
    | nop => exact .refl r
    | update u => exact keeps_settle now ⟨cluster, u.sticky⟩ u.client u.backend r

/-- A new peer is told all entries of the tables that the keys of a cluster have. -/
theorem mem_dump (h : r.Sound) (cluster : UInt64) (u : Update) : Frame.update u ∈ r.dump cluster ↔
    ∃ s, r.tableOf? ⟨cluster, u.sticky⟩ = some s ∧
      ∃ e ∈ s.held, u.client = e.client ∧ u.backend = some e.backend := by
  simp only [h.tableOf?_eq_some_iff, dump, tablesOfCluster, ofCluster, Store.dump, Store.tell, List.mem_flatMap,
    List.mem_filterMap, List.mem_map, List.mem_filter, decide_eq_true_eq]
  constructor
  · rintro ⟨s, ⟨_, ⟨g, ⟨hg, hcluster⟩, rfl⟩, hs⟩, e, he, hu⟩
    obtain ⟨s', hs', hk⟩ := h.made g hg
    obtain rfl : s' = s := Option.some.inj (hs'.symm.trans hs)
    obtain rfl : _ = u := Frame.update.inj hu
    refine ⟨s', ⟨g, hg, ?_, hs⟩, e, he, rfl, rfl⟩
    rw [hk, ← hcluster]
  · rintro ⟨s, ⟨g, hg, hk, hs⟩, e, he, hclient, hbackend⟩
    obtain ⟨s', hs', hk'⟩ := h.made g hg
    obtain rfl : s' = s := Option.some.inj (hs'.symm.trans hs)
    refine ⟨s', ⟨g.table, ⟨g, ⟨hg, by rw [hk]⟩, rfl⟩, hs⟩, e, he, ?_⟩
    rw [hk', hk, ← hclient, ← hbackend]

/-- Whoever has a table that is shared has one that was made. -/
theorem shares_of_table (hs : (r.table i).config.replicated = true) : r.Shares (r.table i).config.key := by
  refine ⟨hs, r.table i, ?_, rfl⟩
  cases ht : r.tables[i]? with
  | none =>
    have hempty : r.table i = {} := by simp [table, ht]
    rw [hempty] at hs
    exact absurd hs (by decide)
  | some s =>
    rw [show r.table i = s by simp [table, ht]]
    exact List.mem_of_getElem? ht

end Registry

namespace Node

/-! ## What happens to a node -/

/-- Something is done to a peer of a cluster, which is sent something. -/
def serve (cluster : UInt64) (f : Peer → List Frame × Peer) (peer : Nat) (n : Node) : List Frame × Node :=
  match n.channel? cluster with
  | none => ([], n)
  | some c => ((c.serve f peer).1, n.changeChannel cluster fun _ => (c.serve f peer).2)

/-- A balancer with the table of a number decides something, and what it announces is published. -/
def balanceAt (table : Nat) (f : Balancer → List Announcement × Balancer) (b : Balancer) (n : Node) : Node :=
  let (told, b) := f { b with store := n.registry.table table }
  { told.foldl (fun n t => n.publish t.key t.client t.backend) n with
    registry := n.registry.modify table fun _ => b.store }

/-- What can happen to a node. -/
inductive Act where
  /-- Keys of tables come and go, and whoever was given a table uses it. -/
  | tables (a : Registry.Act)
  | listen (rule : ClusterRule) (network : Network)
  | follow (rule : ClusterRule)
  /-- Something happens to a follower: it connects, pauses, goes on or stops. -/
  | steer (place : Nat) (f : Follower → Follower)
  | receive (now : Time) (place : Nat) (bytes : List UInt8)
  /-- An attempt of a connection succeeds, at a balancer that was given the table of a number. -/
  | succeed (now : Time) (table : Nat) (b : Balancer) (a : Attempts)
  | fail (now : Time) (table : Nat) (b : Balancer) (a : Attempts)
  | accept (cluster : UInt64)
  /-- A new peer is told all assignments. -/
  | greet (now : Time) (cluster : UInt64) (peer : Nat)
  /-- The sending to a peer wakes up, if there is something to wake up for. -/
  | send (now : Time) (cluster : UInt64) (peer : Nat)
  | leave (cluster : UInt64) (peer : Nat)
  | heed
  | stop

/-- All that happened, the latest first. -/
abbrev History := List Act

/-- The node after an act. -/
def Act.apply (n : Node) : Act → Node
  | tables a => { n with registry := a.apply n.registry }
  | listen rule network => (n.listen rule network).2.1
  | follow rule => n.follow rule
  | steer place f => n.changeFollower place f
  | receive now place bytes => n.receive now place bytes
  | succeed now table b a => n.balanceAt table (Balancer.succeed now a) b
  | fail now table b a => n.balanceAt table (fun b => (b.fail now a).2) b
  | accept cluster => n.changeChannel cluster (Channel.accept n.signal)
  | greet now cluster peer => (n.serve cluster (Peer.greet now cluster n.registry) peer).2
  | send now cluster peer => (n.serve cluster (fun p => (p.next now).getD ([], p)) peer).2
  | leave cluster peer => n.changeChannel cluster (Channel.leave peer)
  | heed => n.heed
  | stop => n.stop

/-- A node that serves some clusters, each at an address. -/
def serving (clusters : List (UInt64 × Address)) : Node :=
  { channels := clusters.map fun c => { cluster := c.1, address := c.2, watcher := ({} : Watch).subscribe } }

/-- The node that a history leads to. -/
def after (clusters : List (UInt64 × Address)) : History → Node
  | [] => serving clusters
  | a :: h => a.apply (after clusters h)

/-- What new peers of a cluster were told of the assignments. -/
def dumped (clusters : List (UInt64 × Address)) (cluster : UInt64) : History → List Frame
  | [] => []
  | .greet now k peer :: h =>
    dumped clusters cluster h ++
      if k = cluster then ((after clusters h).serve k (Peer.greet now k (after clusters h).registry) peer).1 else []
  | _ :: h => dumped clusters cluster h

/-- What the peers of a cluster were sent after that. -/
def streamed (clusters : List (UInt64 × Address)) (cluster : UInt64) : History → List Frame
  | [] => []
  | .send now k peer :: h =>
    streamed clusters cluster h ++
      if k = cluster then ((after clusters h).serve k (fun p => (p.next now).getD ([], p)) peer).1 else []
  | _ :: h => streamed clusters cluster h

/-! ## What waits for the peers -/

end Node

/-- Only decisions on shared tables of its cluster wait for a peer of a channel. -/
def Channel.Discreet (r : Registry) (c : Channel) : Prop :=
  ∀ p ∈ c.peers, ∀ u ∈ p.backlog, r.Shares ⟨c.cluster, u.sticky⟩

namespace Channel

variable {r r' : Registry} {c c' : Channel}

theorem Discreet.keeps (h : c.Discreet r) (hr : r.Keeps r') : c.Discreet r' :=
  fun p hp u hu => hr.shares (h p hp u hu)

/-- What a channel may do to its peers: nothing more waits for them. -/
theorem Discreet.of_peers (h : c.Discreet r) (hc : c'.cluster = c.cluster)
    (hp : ∀ p ∈ c'.peers, p.backlog = [] ∨ ∃ q ∈ c.peers, p.backlog ⊆ q.backlog) : c'.Discreet r := by
  intro p hp' u hu
  rw [hc]
  obtain hnil | ⟨q, hq, hsub⟩ := hp p hp'
  · simp [hnil] at hu
  · exact h q hq u (hsub hu)

theorem Discreet.accept (h : c.Discreet r) (signal : Watch) : (c.accept signal).Discreet r := by
  refine h.of_peers (cluster_accept signal c) fun p hp => ?_
  unfold Channel.accept at hp
  split at hp
  · obtain hp | hp := List.mem_append.1 hp
    · exact .inr ⟨p, hp, List.Subset.refl _⟩
    · rw [List.mem_singleton.1 hp]
      exact .inl rfl
  · exact .inr ⟨p, hp, List.Subset.refl _⟩

theorem Discreet.publish (h : c.Discreet r) {u : Update} (hu : r.Shares ⟨c.cluster, u.sticky⟩) :
    (c.publish u).Discreet r := by
  intro p hp v hv
  obtain ⟨q, hq, rfl⟩ := List.mem_map.1 hp
  simp only [Peer.hand] at hv
  obtain hv | hv := List.mem_append.1 (List.mem_of_mem_drop hv)
  · exact h q hq v hv
  · rw [List.mem_singleton.1 hv]
    exact hu

theorem Discreet.serve (h : c.Discreet r) {f : Peer → List Frame × Peer} (hf : ∀ p, (f p).2.backlog ⊆ p.backlog)
    (i : Nat) : (c.serve f i).2.Discreet r := by
  unfold Channel.serve
  split
  · exact h
  · rename_i p hp
    refine h.of_peers rfl fun q hq => ?_
    obtain ⟨q₀, hq₀, rfl⟩ := List.mem_map.1 hq
    split
    · exact .inr ⟨p, List.mem_of_find?_eq_some hp, hf p⟩
    · exact .inr ⟨q₀, hq₀, List.Subset.refl _⟩

theorem Discreet.leave (h : c.Discreet r) (i : Nat) : (c.leave i).Discreet r :=
  h.of_peers rfl fun p hp => .inr ⟨p, List.mem_of_mem_filter hp, List.Subset.refl _⟩

theorem Discreet.heed (h : c.Discreet r) (signal : Watch) :
    ({ c with peers := c.peers.map (Peer.heed signal) }.heed signal).Discreet r := by
  have hpeers : ∀ p ∈ c.peers.map (Peer.heed signal), p.backlog = [] ∨ ∃ q ∈ c.peers, p.backlog ⊆ q.backlog := by
    intro p hp
    obtain ⟨q, hq, rfl⟩ := List.mem_map.1 hp
    refine .inr ⟨q, hq, ?_⟩
    unfold Peer.heed
    split <;> exact List.Subset.refl _
  unfold Channel.heed
  split
  · split <;> exact h.of_peers rfl hpeers
  · exact h.of_peers rfl hpeers

end Channel

theorem Follower.keeps_receive (now : Time) (bytes : List UInt8) (f : Follower) (r : Registry) :
    r.Keeps (f.receive now bytes r).2 := by
  unfold receive
  split
  · exact Registry.keeps_applyFrames now f.cluster _ r
  · exact .refl r

theorem Peer.backlog_greet (now : Time) (cluster : UInt64) (r : Registry) (p : Peer) :
    (p.greet now cluster r).2.backlog = p.backlog := by
  unfold greet
  split <;> rfl

/-- What is sent after the assignments has waited. -/
theorem Peer.next_subset (now : Time) (p : Peer) : ((p.next now).getD ([], p)).2.backlog ⊆ p.backlog ∧
    ∀ u, Frame.update u ∈ ((p.next now).getD ([], p)).1 → u ∈ p.backlog := by
  cases hn : p.next now with
  | none => exact ⟨List.Subset.refl _, nofun⟩
  | some sent =>
    obtain ⟨fs, p'⟩ := sent
    obtain ⟨-, backlog, rfl, ⟨-, rfl, rfl⟩ | ⟨-, u, hu, rfl⟩ | ⟨-, -, rfl, rfl⟩⟩ := Peer.next_cases hn
    · exact ⟨List.Subset.refl _, nofun⟩
    · simp [hu]
    · simp

namespace Node

/-- The tables of a node, and that only decisions on shared tables wait for its peers. -/
structure Discreet (n : Node) : Prop where
  sound : n.registry.Sound
  channels : ∀ c ∈ n.channels, c.Discreet n.registry

/-- What a discreet node may become: it stays so, and keeps what was made. -/
structure Becomes (n n' : Node) : Prop where
  discreet : n'.Discreet
  keeps : n.registry.Keeps n'.registry

variable {n n' : Node}

theorem Discreet.becomes (h : n.Discreet) (hr : n.registry.Keeps n'.registry)
    (hc : ∀ c ∈ n'.channels, c ∈ n.channels ∨ c.Discreet n.registry) : n.Becomes n' := by
  refine ⟨⟨hr.sound h.sound, fun c hc' => ?_⟩, hr⟩
  obtain hmem | hd := hc c hc'
  · exact (h.channels c hmem).keeps hr
  · exact hd.keeps hr

theorem Discreet.stay (h : n.Discreet) : n.Becomes n :=
  ⟨h, .refl _⟩

theorem Discreet.changeChannel (h : n.Discreet) {cluster : UInt64} {f : Channel → Channel}
    (hf : ∀ c ∈ n.channels, c.cluster = cluster → (f c).Discreet n.registry) :
    n.Becomes (n.changeChannel cluster f) := by
  refine h.becomes (.refl _) fun c hc => ?_
  obtain ⟨c₀, hc₀, rfl⟩ := List.mem_map.1 hc
  split
  · rename_i hk
    exact .inr (hf c₀ hc₀ hk)
  · exact .inl hc₀

theorem Discreet.serve (h : n.Discreet) (cluster : UInt64) {f : Peer → List Frame × Peer}
    (hf : ∀ p, (f p).2.backlog ⊆ p.backlog) (i : Nat) : n.Becomes (n.serve cluster f i).2 := by
  unfold Node.serve
  split
  · exact h.stay
  · rename_i c hc
    exact h.changeChannel fun _ _ _ => (h.channels c (List.mem_of_find?_eq_some hc)).serve hf i

/-- Frames are sent to a peer of a channel of the cluster. -/
theorem exists_peer_of_serve {cluster : UInt64} {f : Peer → List Frame × Peer} {i : Nat} {frame : Frame}
    (hs : frame ∈ (n.serve cluster f i).1) :
    ∃ c ∈ n.channels, c.cluster = cluster ∧ ∃ p ∈ c.peers, frame ∈ (f p).1 := by
  unfold Node.serve at hs
  split at hs
  · cases hs
  · rename_i c hc
    refine ⟨c, List.mem_of_find?_eq_some hc, by simpa using List.find?_some hc, ?_⟩
    unfold Channel.serve at hs
    split at hs
    · cases hs
    · rename_i p hp
      exact ⟨p, List.mem_of_find?_eq_some hp, hs⟩

theorem Discreet.publish (h : n.Discreet) {key : Key} (hk : n.registry.Shares key) (client : Ip)
    (backend : Option Address) : n.Becomes (n.publish key client backend) :=
  h.changeChannel fun c hc hcluster => (h.channels c hc).publish (by rw [hcluster]; exact hk)

theorem Discreet.publishAll (h : n.Discreet) {told : List Announcement} (hk : ∀ t ∈ told, n.registry.Shares t.key) :
    (told.foldl (fun n t => n.publish t.key t.client t.backend) n).Discreet ∧
      (told.foldl (fun n t => n.publish t.key t.client t.backend) n).registry = n.registry := by
  induction told generalizing n with
  | nil => exact ⟨h, rfl⟩
  | cons t told ih =>
    obtain ⟨ht, htold⟩ := List.forall_mem_cons.1 hk
    exact ih (h.publish ht t.client t.backend).discreet htold

/-- A balancer announces decisions on its table, and those only if that is shared. -/
theorem Discreet.balanceAt (h : n.Discreet) (table : Nat) {f : Balancer → List Announcement × Balancer}
    (hf : ∀ b, (f b).2.store.config = b.store.config ∧
      ∀ t ∈ (f b).1, t.key = b.store.config.key ∧ b.store.config.replicated = true) (b : Balancer) :
    n.Becomes (n.balanceAt table f b) := by
  obtain ⟨hconfig, htold⟩ := hf { b with store := n.registry.table table }
  have hshares : ∀ t ∈ (f { b with store := n.registry.table table }).1, n.registry.Shares t.key := by
    intro t ht
    obtain ⟨hk, hr⟩ := htold t ht
    rw [hk]
    exact Registry.shares_of_table hr
  obtain ⟨hd, hregistry⟩ := h.publishAll hshares
  have hkeeps : n.registry.Keeps (n.balanceAt table f b).registry := by
    refine Registry.keeps_modify fun s hs => hconfig.trans ?_
    simp [Registry.table, hs]
  refine ⟨⟨hkeeps.sound h.sound, fun c hc => ?_⟩, hkeeps⟩
  have hc' := hd.channels c hc
  rw [hregistry] at hc'
  exact hc'.keeps hkeeps

theorem settled_announces (now : Time) (client : Ip) (backend : Option Address) (b : Balancer) :
    (b.settle now client backend).2.store.config = b.store.config ∧
      ∀ t ∈ (b.settle now client backend).1, t.key = b.store.config.key ∧ b.store.config.replicated = true := by
  refine ⟨Store.config_settle now client backend b.store, fun t ht => ?_⟩
  simp only [Balancer.settle, Balancer.announce] at ht
  split at ht
  · rename_i hr
    rw [List.mem_singleton.1 ht]
    exact ⟨rfl, (Bool.and_eq_true_iff.1 hr).2⟩
  · cases ht

theorem succeeded_announces (now : Time) (a : Attempts) (b : Balancer) :
    (b.succeed now a).2.store.config = b.store.config ∧
      ∀ t ∈ (b.succeed now a).1, t.key = b.store.config.key ∧ b.store.config.replicated = true := by
  unfold Balancer.succeed
  split
  · exact settled_announces now a.client _ b
  · exact ⟨rfl, nofun⟩

theorem Discreet.receive (h : n.Discreet) (now : Time) (place : Nat) (bytes : List UInt8) :
    n.Becomes (n.receive now place bytes) := by
  unfold Node.receive
  split
  · exact h.stay
  · exact h.becomes (Follower.keeps_receive now bytes _ n.registry) fun c hc => .inl hc

theorem Discreet.listen (h : n.Discreet) (rule : ClusterRule) (network : Network) :
    n.Becomes (n.listen rule network).2.1 := by
  simp only [Node.listen]
  split
  · exact h.stay
  · split
    · exact h.stay
    · refine h.becomes (.refl _) fun c hc => ?_
      obtain hc | hc := List.mem_append.1 hc
      · exact .inl hc
      · rw [List.mem_singleton.1 hc]
        exact .inr nofun

/-- Nothing that happens puts anything else before the peers. -/
theorem Discreet.apply (h : n.Discreet) (a : Act) : n.Becomes (a.apply n) := by
  cases a with
  | tables a => exact h.becomes (Registry.keeps_apply a _) fun c hc => .inl hc
  | listen rule network => exact h.listen rule network
  | follow rule => exact h.becomes (.refl _) fun c hc => .inl hc
  | steer place f => exact h.becomes (.refl _) fun c hc => .inl hc
  | receive now place bytes => exact h.receive now place bytes
  | succeed now table b a => exact h.balanceAt table (succeeded_announces now a) b
  | fail now table b a => exact h.balanceAt table (settled_announces now a.client none) b
  | accept cluster => exact h.changeChannel fun c hc _ => (h.channels c hc).accept n.signal
  | greet now cluster peer =>
    refine h.serve cluster (fun p => ?_) peer
    rw [p.backlog_greet]
    exact List.Subset.refl _
  | send now cluster peer => exact h.serve cluster (fun p => (p.next_subset now).1) peer
  | leave cluster peer => exact h.changeChannel fun c hc _ => (h.channels c hc).leave peer
  | heed =>
    refine h.becomes (.refl _) fun c hc => ?_
    obtain ⟨c₀, hc₀, rfl⟩ := List.mem_map.1 hc
    exact .inr ((h.channels c₀ hc₀).heed n.signal)
  | stop => exact h.becomes (.refl _) fun c hc => .inl hc

/-! ## What the peers were told -/

variable {clusters : List (UInt64 × Address)} {cluster : UInt64} {u : Update}

theorem discreet_after (clusters : List (UInt64 × Address)) : ∀ h : History, (after clusters h).Discreet
  | [] => by
    refine ⟨Registry.Sound.empty, fun c hc => ?_⟩
    obtain ⟨k, -, rfl⟩ := List.mem_map.1 hc
    exact nofun
  | a :: h => ((discreet_after clusters h).apply a).discreet

theorem keeps_step (clusters : List (UInt64 × Address)) (a : Act) (h : History) :
    (after clusters h).registry.Keeps (after clusters (a :: h)).registry :=
  ((discreet_after clusters h).apply a).keeps

/-- Every decision that the peers of a cluster were told is on a shared table of the cluster. -/
theorem shares_of_streamed : ∀ {h : History}, Frame.update u ∈ streamed clusters cluster h →
    (after clusters h).registry.Shares ⟨cluster, u.sticky⟩
  | [], hu => by cases hu
  | a :: h, hu => by
    refine (keeps_step clusters a h).shares ?_
    cases a with
    | send now k peer =>
      obtain hu | hnow := List.mem_append.1 hu
      · exact shares_of_streamed hu
      · split at hnow
        · rename_i hk
          subst hk
          obtain ⟨c, hc, rfl, p, hp, hs⟩ := exists_peer_of_serve hnow
          exact (discreet_after clusters h).channels c hc p hp u ((p.next_subset now).2 u hs)
        · cases hnow
    | _ => exact shares_of_streamed (h := h) hu

/-- Every assignment that new peers of a cluster were told is of a table of the cluster. -/
theorem made_of_dumped : ∀ {h : History}, Frame.update u ∈ dumped clusters cluster h →
    (after clusters h).registry.Made ⟨cluster, u.sticky⟩
  | [], hu => by cases hu
  | a :: h, hu => by
    refine (keeps_step clusters a h).made _ ?_
    cases a with
    | greet now k peer =>
      obtain hu | hnow := List.mem_append.1 hu
      · exact made_of_dumped hu
      · split at hnow
        · rename_i hk
          subst hk
          obtain ⟨-, -, -, p, -, hs⟩ := exists_peer_of_serve hnow
          have hsound := (discreet_after clusters h).sound
          have hdump : Frame.update u ∈ (after clusters h).registry.dump k := by
            unfold Peer.greet at hs
            split at hs
            · exact hs
            · cases hs
          obtain ⟨s, hs, -⟩ := (Registry.mem_dump hsound k u).1 hdump
          obtain ⟨g, -, -, ht⟩ := hsound.tableOf?_eq_some_iff.1 hs
          exact ⟨s, List.mem_of_getElem? ht, hsound.key_of_tableOf? hs⟩
        · cases hnow
    | _ => exact made_of_dumped (h := h) hu

/-- Of which tables the peers of a cluster are told, whatever happens to a node that serves it. Every decision that they
are told as it is made is on a table that was made in the cluster and that is shared. Every assignment that new peers
are told is of a table that was made in the cluster, and what a new peer is told is every entry of every table that a key
of the cluster has then. So as long as no table is made in the cluster without a name of its own, both are of shared
tables. -/
theorem told_of_tables (clusters : List (UInt64 × Address)) (h : History) (cluster : UInt64) :
    let r := (after clusters h).registry
    (∀ u, Frame.update u ∈ streamed clusters cluster h →
      ∃ s ∈ r.tables, s.config.key = ⟨cluster, u.sticky⟩ ∧ s.config.replicated = true) ∧
    (∀ u, Frame.update u ∈ dumped clusters cluster h → ∃ s ∈ r.tables, s.config.key = ⟨cluster, u.sticky⟩) ∧
    (∀ (now : Time) (p : Peer), p.state = .fresh → ∀ u, Frame.update u ∈ (p.greet now cluster r).1 ↔
      ∃ s, r.tableOf? ⟨cluster, u.sticky⟩ = some s ∧
        ∃ e ∈ s.held, u.client = e.client ∧ u.backend = some e.backend) ∧
    ((∀ s ∈ r.tables, s.config.key.cluster = cluster → s.config.replicated = true) →
      ∀ u, Frame.update u ∈ dumped clusters cluster h ++ streamed clusters cluster h →
        ∃ s ∈ r.tables, s.config.key = ⟨cluster, u.sticky⟩ ∧ s.config.replicated = true) := by
  intro r
  have hstreamed : ∀ u, Frame.update u ∈ streamed clusters cluster h →
      ∃ s ∈ r.tables, s.config.key = ⟨cluster, u.sticky⟩ ∧ s.config.replicated = true := by
    intro u hu
    obtain ⟨hshared, s, hs, hk⟩ := shares_of_streamed hu
    exact ⟨s, hs, hk, by rw [StoreConfig.replicated, hk, hshared]⟩
  refine ⟨hstreamed, fun u hu => made_of_dumped hu, fun now p hp u => ?_, fun hnamed u hu => ?_⟩
  · simp only [Peer.greet, hp]
    exact Registry.mem_dump (discreet_after clusters h).sound cluster u
  obtain hu | hu := List.mem_append.1 hu
  · obtain ⟨s, hs, hk⟩ := made_of_dumped hu
    exact ⟨s, hs, hk, hnamed s hs (by rw [hk])⟩
  · exact hstreamed u hu

/-! A node that serves a cluster and has a table in it without a name of its own, to which one client is assigned when a
peer comes. -/

def unnamedKey : Key := ⟨2188203421272421131, 0⟩

def unnamedHistory : History :=
  [.greet 0 unnamedKey.cluster 0, .accept unnamedKey.cluster,
    .tables (.use 0 0 (.put (.ofOctets 10 0 0 7) { ip := .ofOctets 192 168 0 1, port := 80 })),
    .tables (.acquire { kind := .memory, bits := 32, elements := 16, seconds := 60, key := unnamedKey })]

/-- The peer is told of it, though no decision on it is ever announced. -/
theorem dump_tells_unshared : ¬ ∀ (clusters : List (UInt64 × Address)) (h : History) (cluster : UInt64) (u : Update),
    Frame.update u ∈ dumped clusters cluster h ++ streamed clusters cluster h →
      ∃ s ∈ (after clusters h).registry.tables,
        s.config.key = ⟨cluster, u.sticky⟩ ∧ s.config.replicated = true := by
  intro hall
  have hshared := hall [(unnamedKey.cluster, { ip := .ofOctets 127 0 0 1, port := 7000 })] unnamedHistory
    unnamedKey.cluster ⟨0, .ofOctets 10 0 0 7, some { ip := .ofOctets 192 168 0 1, port := 80 }⟩ (by decide)
  revert hshared
  decide

end Node

end AffinityRelay
