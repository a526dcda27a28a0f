import AffinityRelay.Balancer.Basic
import AffinityRelay.Cluster.Node
import AffinityRelay.Proofs.Affinity.Tables

/-!
# One node follows another

A node serves a cluster, another follows it, and what is sent takes its time. A `Replication` is the two nodes and the
bytes on the way between them, and a `Replication.Move` is what can happen to them: balancers of the server decide or
look something up, the follower is accepted, told all assignments and then what waits for it, and bytes arrive. A
decision is announced and written in one move.

Of all this only a `Scene` matters to the table of one key: the table on either side, what waits for the follower, what
is on the way, and where the follower stands. `Scene.Step` says what can happen to it, and `Replication.Shows.apply`
that nothing else does.
-/

namespace AffinityRelay

/-- A balancer that works with the table of a key does something to it, and announces it to the cluster. -/
def Node.balance (key : Key) (f : Balancer → List Announcement × Balancer) (b : Balancer) (n : Node) : Node :=
  match n.registry.lookup key with
  | none => n
  | some i =>
    let (told, b) := f { b with announces := true, store := n.registry.table i }
    { told.foldl (fun n t => n.publish t.key t.client t.backend) n with
      registry := n.registry.modify i fun _ => b.store }

/-- A node that serves a cluster, another that follows it, and what is on the way from one to the other. -/
structure Replication where
  cluster : UInt64
  server : Node
  client : Node
  /-- The place of the follower at its node. -/
  place : Nat
  now : Time := 0
  /-- The number of the follower among the peers, once it was accepted. -/
  number : Option Nat := none
  /-- The bytes that were sent and have not arrived. -/
  flight : List UInt8 := []

namespace Replication

/-- What can happen while one node follows another. -/
inductive Move where
  /-- An attempt of a connection succeeds, at a balancer with the table of a key. -/
  | succeed (key : Key) (b : Balancer) (a : Attempts)
  | fail (key : Key) (b : Balancer) (a : Attempts)
  /-- A balancer chooses the backend of the next attempt, and may look the client up for that. -/
  | lookUp (key : Key) (b : Balancer) (a : Attempts)
  | accept
  | dump
  /-- The sending to the follower wakes up, if there is something to wake up for. -/
  | send
  /-- Bytes arrive, so many of those on the way or all of them. -/
  | arrive (n : Nat)
  | wait (span : Time)

/-- All that happened, the latest first. -/
abbrev History := List Move

/-- The follower is accepted, unless it was or nobody is accepted now. -/
def accept (s : Replication) : Replication :=
  match s.number, s.server.channel? s.cluster with
  | none, some c =>
    match c.post with
    | .waiting =>
      { s with
        server := s.server.changeChannel s.cluster (Channel.accept s.server.signal)
        number := some c.accepted }
    | _ => s
  | _, _ => s

/-- Something is done to the peer that the follower is, which has something sent. -/
def serve (f : Peer → List Frame × Peer) (s : Replication) : Replication :=
  match s.number, s.server.channel? s.cluster with
  | some i, some c =>
    let (sent, c) := c.serve f i
    { s with
      server := s.server.changeChannel s.cluster fun _ => c
      flight := s.flight ++ sent.flatMap Frame.encode }
  | _, _ => s

/-- Both nodes and what is on the way after a move. -/
def Move.apply (s : Replication) : Move → Replication
  | succeed key b a => { s with server := s.server.balance key (Balancer.succeed s.now a) b }
  | fail key b a => { s with server := s.server.balance key (fun b => (b.fail s.now a).2) b }
  | lookUp key b a => { s with server := s.server.balance key (fun b => ([], (b.next s.now a).2.2)) b }
  | accept => s.accept
  | dump => s.serve (Peer.greet s.now s.cluster s.server.registry)
  | send => s.serve fun p => (p.next s.now).getD ([], p)
  | arrive n =>
    { s with client := s.client.receive s.now s.place (s.flight.take n), flight := s.flight.drop n }
  | wait span => { s with now := s.now + span }

def after (s : Replication) : History → Replication
  | [] => s
  | m :: h => m.apply (s.after h)

/-- The peer that the follower is, once it was accepted. -/
def peer? (s : Replication) : Option Peer :=
  s.number.bind fun i => (s.server.channel? s.cluster).bind fun c => c.peers.find? (·.number = i)

/-- The decision that a move makes on the table of a key, if it makes one. -/
def Move.decision? (key : Key) : Move → Option Decision
  | succeed k _ a => if k = key then a.remote.map fun b => ⟨a.client, some b⟩ else none
  | fail k _ a => if k = key then some ⟨a.client, none⟩ else none
  | _ => none

end Replication

/-! ## Channels and nodes -/

@[simp] theorem Peer.number_hand (u : Update) (p : Peer) : (p.hand u).number = p.number := by
  rw [hand]

@[simp] theorem Peer.state_hand (u : Update) (p : Peer) : (p.hand u).state = p.state := by
  rw [hand]

/-- What the sending to a peer does when it wakes up: it notices that updates were lost, or sends the next one, or a
sign of life. -/
theorem Peer.next_cases {now : Time} {p p' : Peer} {fs : List Frame} (h : p.next now = some (fs, p')) :
    (∃ since, p.state = .waiting since) ∧ ∃ backlog, p' = { p with state := .waiting now, lost := 0, backlog } ∧
      (0 < p.lost ∧ fs = [] ∧ backlog = p.backlog ∨
        p.lost = 0 ∧ (∃ u, p.backlog = u :: backlog ∧ fs = [.update u]) ∨
        p.lost = 0 ∧ p.backlog = [] ∧ backlog = [] ∧ fs = [.nop]) := by
  obtain ⟨number, state, backlog, lost, watcher⟩ := p
  cases state with
  | fresh => cases h
  | gone => cases h
  | waiting since =>
    refine ⟨⟨since, rfl⟩, ?_⟩
    simp only [next] at h
    split at h
    · rename_i hl
      cases h
      exact ⟨backlog, rfl, Or.inl ⟨hl, rfl, rfl⟩⟩
    · rename_i hl
      obtain rfl : lost = 0 := Nat.eq_zero_of_not_pos hl
      cases backlog with
      | cons u backlog =>
        cases h
        exact ⟨backlog, rfl, Or.inr (Or.inl ⟨rfl, u, rfl, rfl⟩)⟩
      | nil =>
        simp only at h
        split at h
        · cases h
          exact ⟨[], rfl, Or.inr (Or.inr ⟨rfl, rfl, rfl, rfl⟩)⟩
        · cases h

namespace Channel

/-- The next number is greater than those of all peers. -/
def Numbered (c : Channel) : Prop :=
  ∀ p ∈ c.peers, p.number < c.accepted

variable {c : Channel} {p : Peer} {i : Nat}

theorem find?_publish (u : Update) (c : Channel) (i : Nat) :
    (c.publish u).peers.find? (·.number = i) = (c.peers.find? (·.number = i)).map (Peer.hand u) := by
  simp only [publish, List.find?_map, Function.comp_def, Peer.number_hand]

theorem Numbered.publish (h : c.Numbered) (u : Update) : (c.publish u).Numbered := by
  intro p hp
  obtain ⟨q, hq, rfl⟩ := List.mem_map.1 hp
  rw [Peer.number_hand]
  exact h q hq

theorem cluster_accept (signal : Watch) (c : Channel) : (c.accept signal).cluster = c.cluster := by
  unfold accept
  split <;> rfl

theorem Numbered.accept (h : c.Numbered) (hw : c.post = .waiting) (signal : Watch) :
    (c.accept signal).Numbered ∧ (c.accept signal).peers.find? (·.number = c.accepted) =
      some { number := c.accepted, watcher := c.watcher } := by
  simp only [Channel.accept, hw, check]
  refine ⟨?_, ?_⟩
  · intro p hp
    rcases List.mem_append.1 hp with hp | hp
    · exact Nat.lt_succ_of_lt (h p hp)
    · rw [List.mem_singleton.1 hp]
      exact Nat.lt_succ_self _
  · have hnone : c.peers.find? (·.number = c.accepted) = none :=
      List.find?_eq_none.2 fun p hp hn => (h p hp).ne (of_decide_eq_true hn)
    rw [List.find?_append, hnone, Option.none_or, List.find?_cons_of_pos (by simp)]

theorem Numbered.serve {α : Type} (h : c.Numbered) {f : Peer → List α × Peer}
    (hp : c.peers.find? (·.number = i) = some p) (hf : (f p).2.number = p.number) :
    (c.serve f i).1 = (f p).1 ∧ (c.serve f i).2.Numbered ∧ (c.serve f i).2.cluster = c.cluster ∧
    (c.serve f i).2.peers.find? (·.number = i) = some (f p).2 := by
  have hi : p.number = i := by simpa using List.find?_some hp
  simp only [Channel.serve, hp]
  refine ⟨trivial, ?_, trivial, ?_⟩
  · intro q hq
    obtain ⟨q, hq', rfl⟩ := List.mem_map.1 hq
    split
    · rw [hf]
      exact h p (List.mem_of_find?_eq_some hp)
    · exact h q hq'
  · have hpred : ((fun q : Peer => decide (q.number = i)) ∘ fun q => if q.number = i then (f p).2 else q) =
        fun q => decide (q.number = i) := by
      funext q
      simp only [Function.comp_apply]
      split
      · rename_i hq
        rw [hf, hi, hq]
      · rfl
    rw [List.find?_map, hpred, hp, Option.map_some, if_pos hi]

end Channel

namespace Node

variable {n : Node} {key : Key}

theorem channel?_changeChannel {k : UInt64} {f : Channel → Channel} (hf : ∀ c, c.cluster = k → (f c).cluster = k)
    (n : Node) (cluster : UInt64) : (n.changeChannel k f).channel? cluster =
      if k = cluster then (n.channel? cluster).map f else n.channel? cluster := by
  have hsame : ∀ c : Channel, (if c.cluster = k then f c else c).cluster = c.cluster := by
    intro c
    split
    · rename_i hc
      rw [hf c hc, hc]
    · rfl
  simp only [channel?, changeChannel, List.find?_map, Function.comp_def, hsame]
  cases hc : n.channels.find? (·.cluster = cluster) with
  | none => simp
  | some c =>
    have hcc : c.cluster = cluster := by simpa using List.find?_some hc
    by_cases hk : k = cluster
    · simp [hk, hcc]
    · simp [hk, hcc, Ne.symm hk]

theorem channel?_publish (key : Key) (client : Ip) (backend : Option Address) (n : Node) (cluster : UInt64) :
    (n.publish key client backend).channel? cluster = if key.cluster = cluster then
      (n.channel? cluster).map (Channel.publish { sticky := key.sticky, client, backend }) else n.channel? cluster := by
  rw [publish, channel?_changeChannel fun c hc => ?_]
  exact hc

/-- Where a key has no table, no balancer works with it. -/
theorem balance_of_none (h : n.registry.Sound) (hs : n.registry.tableOf? key = none)
    (f : Balancer → List Announcement × Balancer) (b : Balancer) : n.balance key f b = n := by
  have hl : n.registry.lookup key = none := by
    rw [← Option.not_isSome_iff_eq_none, ← h.isSome_tableOf?, hs]
    exact Bool.false_ne_true
  simp only [balance, hl]

/-- What a balancer does changes the table of its key, and the channels by what it announces. -/
theorem balance_of_some (h : n.registry.Sound) {s : Store} (hs : n.registry.tableOf? key = some s)
    {f : Balancer → List Announcement × Balancer} {b b' : Balancer} {told : List Announcement}
    (hf : f { b with announces := true, store := s } = (told, b')) (hc : b'.store.config = s.config) :
    (n.balance key f b).registry.Sound ∧
    (∀ key', (n.balance key f b).registry.tableOf? key' =
      if key' = key then some b'.store else n.registry.tableOf? key') ∧
    (n.balance key f b).channels = (told.foldl (fun n t => n.publish t.key t.client t.backend) n).channels := by
  obtain ⟨i, hi, ht⟩ := Option.bind_eq_some_iff.1 hs
  have hti : n.registry.table i = s := by simp [Registry.table, ht]
  simp only [balance, hi, hti, hf]
  refine ⟨h.modify fun s' hs' => ?_, fun key' => ?_, trivial⟩
  · rw [hc, Option.some.inj (hs'.symm.trans ht)]
  · rw [h.tableOf?_modify hi]
    split
    · rename_i hk
      rw [hk, hs, Option.map_some]
    · rfl

/-- A decision is written to the table of its key, and handed to the channel of its cluster if it is shared. -/
theorem balance_settle (h : n.registry.Sound) {s : Store} (hs : n.registry.tableOf? key = some s) {now : Time}
    {client : Ip} {backend : Option Address} {f : Balancer → List Announcement × Balancer}
    (hf : ∀ b, f b = b.settle now client backend) (b : Balancer) :
    (n.balance key f b).registry.Sound ∧
    (∀ key', (n.balance key f b).registry.tableOf? key' =
      if key' = key then some (s.settle now client backend) else n.registry.tableOf? key') ∧
    ∀ cluster, (n.balance key f b).channel? cluster =
      if key.replicated then (n.publish key client backend).channel? cluster else n.channel? cluster := by
  obtain ⟨hsound, htable, hchannels⟩ := balance_of_some (b := b) h hs (hf _) (Store.config_settle ..)
  have htold : Balancer.announce client backend { b with announces := true, store := s } =
      if key.replicated then [⟨key, client, backend⟩] else [] := by
    simp [Balancer.announce, StoreConfig.replicated, h.key_of_tableOf? hs]
  refine ⟨hsound, htable, fun cluster => ?_⟩
  rw [channel?, hchannels, htold]
  split <;> rfl

end Node

/-! ## Scenes -/

/-- What all this comes to for the table of one key: the table of the server, the peer that the follower is once it was
accepted, what is on the way, where the follower stands, and the table on its side. -/
structure Scene where
  ours : Store
  peer : Option Peer
  flight : List UInt8
  post : FollowerPost
  theirs : Store

/-- What can happen to a scene, with the decision that is made if there is one. -/
inductive Scene.Step (key : Key) : Option Decision → Scene → Scene → Prop
  | idle {v : Scene} : Step key none v v
  | decide {v : Scene} (now : Time) (d : Decision) : Step key (some d) v
      { v with
        ours := v.ours.settle now d.client d.backend
        peer := v.peer.map (Peer.hand ⟨key.sticky, d.client, d.backend⟩) }
  /-- A decision is made on another table of the cluster. -/
  | other {v : Scene} {u : Update} : u.sticky ≠ key.sticky →
      Step key none v { v with peer := v.peer.map (Peer.hand u) }
  | lookUp {v : Scene} (client : Ip) : Step key none v { v with ours := v.ours.touch client }
  | accept {v : Scene} {p : Peer} : v.peer = none → p.state = .fresh → p.backlog = [] →
      Step key none v { v with peer := some p }
  | dump {v : Scene} {p : Peer} (now : Time) {fs : List Frame} : v.peer = some p → p.state = .fresh →
      decisions key.sticky fs = v.ours.told →
      Step key none v
        { v with peer := some { p with state := .waiting now }, flight := v.flight ++ fs.flatMap Frame.encode }
  | send {v : Scene} {p p' : Peer} (now : Time) {fs : List Frame} : v.peer = some p → p.next now = some (fs, p') →
      Step key none v { v with peer := some p', flight := v.flight ++ fs.flatMap Frame.encode }
  | arrive {v : Scene} (now : Time) (n : Nat) {held : List UInt8} {fs : List Frame} {left : Frame.Leftover} :
      v.post = .following held → Frame.decodeAll (held ++ v.flight.take n) = (fs, left) →
      Step key none v
        { v with
          flight := v.flight.drop n
          post := match left.error with
            | none => .following left.rest
            | some _ => .pausing (now + Follower.pause)
          theirs := v.theirs.settleAll now (decisions key.sticky fs) }
  /-- Bytes arrive where nobody follows any more. -/
  | lost {v : Scene} (n : Nat) : (∀ held, v.post ≠ .following held) →
      Step key none v { v with flight := v.flight.drop n }

namespace Replication

/-- Both nodes and what is on the way come to a scene. -/
structure Shows (key : Key) (s : Replication) (v : Scene) : Prop where
  cluster : s.cluster = key.cluster
  server : s.server.registry.Sound
  client : s.client.registry.Sound
  ours : s.server.registry.tableOf? key = some v.ours
  theirs : s.client.registry.tableOf? key = some v.theirs
  channel : ∃ c, s.server.channel? s.cluster = some c ∧ c.Numbered ∧
    (s.number.bind fun i => c.peers.find? (·.number = i)) = v.peer
  follower : ∃ f, s.client.followers[s.place]? = some f ∧ f.cluster = s.cluster ∧ f.post = v.post
  flight : s.flight = v.flight

variable {key k : Key} {s : Replication} {v : Scene}

theorem Shows.peer?_eq (h : s.Shows key v) : s.peer? = v.peer := by
  obtain ⟨c, hc, -, hp⟩ := h.channel
  rw [peer?, hc, ← hp]
  rfl

namespace Shows

/-! ## What can happen -/

/-- Where a channel of the cluster is handed a decision, so is the follower. -/
theorem publish (h : s.Shows key v) (client : Ip) (backend : Option Address) :
    ∃ c, (s.server.publish k client backend).channel? s.cluster = some c ∧ c.Numbered ∧
      (s.number.bind fun i => c.peers.find? (·.number = i)) =
        if k.cluster = key.cluster then v.peer.map (Peer.hand ⟨k.sticky, client, backend⟩) else v.peer := by
  obtain ⟨c, hc, hn, hp⟩ := h.channel
  rw [Node.channel?_publish, hc, h.cluster]
  split
  · refine ⟨c.publish _, rfl, hn.publish _, ?_⟩
    rw [← hp]
    cases s.number with
    | none => rfl
    | some i => exact c.find?_publish _ i
  · exact ⟨c, rfl, hn, hp⟩

/-- A decision of a balancer changes one table, and is handed to the follower if that is told of the table. -/
theorem decide (h : s.Shows key v) (hr : key.replicated) {client : Ip} {backend : Option Address}
    {f : Balancer → List Announcement × Balancer} (hf : ∀ b, f b = b.settle s.now client backend) (b : Balancer) :
    ∃ v', Scene.Step key (if k = key then some ⟨client, backend⟩ else none) v v' ∧
      Shows key { s with server := s.server.balance k f b } v' := by
  cases ht : s.server.registry.tableOf? k with
  | none =>
    have hk : k ≠ key := by
      rintro rfl
      rw [h.ours] at ht
      cases ht
    rw [Node.balance_of_none h.server ht, if_neg hk]
    exact ⟨v, .idle, h⟩
  | some st =>
    obtain ⟨hs, htable, hchannel⟩ := Node.balance_settle h.server ht hf b
    have hchannel := hchannel s.cluster
    obtain ⟨c, hc, hn, hp⟩ := h.publish (k := k) client backend
    by_cases hk : k = key
    · subst hk
      obtain rfl : st = v.ours := Option.some.inj (ht.symm.trans h.ours)
      rw [if_pos hr] at hchannel
      rw [if_pos rfl] at hp ⊢
      exact ⟨_, .decide s.now ⟨client, backend⟩,
        { h with server := hs, ours := (htable k).trans (if_pos rfl), channel := ⟨c, hchannel.trans hc, hn, hp⟩ }⟩
    · -- Of other tables the follower is told those of its cluster, under numbers of their own.
      have hours := ((htable key).trans (if_neg (Ne.symm hk))).trans h.ours
      rw [if_neg hk]
      by_cases hsame : k.replicated ∧ k.cluster = key.cluster
      · have hst : k.sticky ≠ key.sticky := fun hst => hk (by
          rw [← show (⟨k.cluster, k.sticky⟩ : Key) = k from rfl, hsame.2, hst])
        rw [if_pos hsame.1] at hchannel
        rw [if_pos hsame.2] at hp
        exact ⟨_, .other hst, { h with server := hs, ours := hours, channel := ⟨c, hchannel.trans hc, hn, hp⟩ }⟩
      · have hquiet : (s.server.balance k f b).channel? s.cluster = s.server.channel? s.cluster := by
          rw [hchannel]
          split
          · rename_i hrep
            have hne : k.cluster ≠ s.cluster := fun he => hsame ⟨hrep, he.trans h.cluster⟩
            exact (Node.channel?_publish k client backend s.server s.cluster).trans (if_neg hne)
          · rfl
        exact ⟨v, .idle, { h with server := hs, ours := hours, channel := hquiet ▸ h.channel }⟩

/-- A balancer that announces nothing, and touches no more than one entry, does that and nothing else. -/
theorem quiet (h : s.Shows key v) (client : Ip) {f : Balancer → List Announcement × Balancer}
    (hf : ∀ b, (f b).1 = [] ∧ ((f b).2.store = b.store ∨ (f b).2.store = b.store.touch client)) (b : Balancer) :
    ∃ v', Scene.Step key none v v' ∧ Shows key { s with server := s.server.balance k f b } v' := by
  cases ht : s.server.registry.tableOf? k with
  | none =>
    rw [Node.balance_of_none h.server ht]
    exact ⟨v, .idle, h⟩
  | some st =>
    rcases hfb : f { b with announces := true, store := st } with ⟨told, b'⟩
    have hquiet := hf { b with announces := true, store := st }
    rw [hfb] at hquiet
    obtain ⟨htold, hst⟩ : told = [] ∧ (b'.store = st ∨ b'.store = st.touch client) := hquiet
    have hconfig : b'.store.config = st.config := by
      rcases hst with hst | hst
      · rw [hst]
      · rw [hst, Store.config_touch]
    obtain ⟨hs, htable, hch⟩ := Node.balance_of_some h.server ht hfb hconfig
    have hchannel : (s.server.balance k f b).channel? s.cluster = s.server.channel? s.cluster := by
      rw [Node.channel?, hch, htold]
      rfl
    by_cases hk : k = key
    · subst hk
      obtain rfl : st = v.ours := Option.some.inj (ht.symm.trans h.ours)
      have hours := (htable k).trans (if_pos rfl)
      rcases hst with hst | hst
      · exact ⟨v, .idle, { h with server := hs, ours := hst ▸ hours, channel := hchannel ▸ h.channel }⟩
      · exact ⟨_, .lookUp client, { h with server := hs, ours := hst ▸ hours, channel := hchannel ▸ h.channel }⟩
    · have hours := (htable key).trans (if_neg (Ne.symm hk))
      exact ⟨v, .idle, { h with server := hs, ours := hours.trans h.ours, channel := hchannel ▸ h.channel }⟩

theorem accept (h : s.Shows key v) : ∃ v', Scene.Step key none v v' ∧ Shows key s.accept v' := by
  obtain ⟨c, hc, hn, hp⟩ := h.channel
  unfold Replication.accept
  split
  · rename_i c' hnum hc'
    obtain rfl : c = c' := Option.some.inj (hc.symm.trans hc')
    rw [hnum] at hp
    split
    · rename_i hw
      obtain ⟨hn', hf⟩ := hn.accept hw s.server.signal
      refine ⟨_, .accept hp.symm rfl rfl, { h with channel := ⟨_, ?_, hn', hf⟩ }⟩
      rw [Node.channel?_changeChannel fun c hcl => (Channel.cluster_accept _ c).trans hcl, if_pos rfl, hc,
        Option.map_some]
    · exact ⟨v, .idle, h⟩
  · exact ⟨v, .idle, h⟩

theorem channel?_change {c c' : Channel} (hc : s.server.channel? s.cluster = some c) (hcl : c'.cluster = s.cluster) :
    (s.server.changeChannel s.cluster fun _ => c').channel? s.cluster = some c' := by
  rw [Node.channel?_changeChannel fun _ _ => hcl, if_pos rfl, hc, Option.map_some]

/-- Nothing is sent to a follower that was not accepted. -/
theorem serve_none (h : s.Shows key v) (hv : v.peer = none) (f : Peer → List Frame × Peer) :
    Shows key (s.serve f) v := by
  obtain ⟨c, hc, hn, hp⟩ := h.channel
  unfold Replication.serve
  split
  · rename_i i c' hnum hc'
    obtain rfl : c = c' := Option.some.inj (hc.symm.trans hc')
    have hcl : c.cluster = s.cluster := by simpa using List.find?_some hc
    have hf : c.peers.find? (·.number = i) = none := by
      rw [← hv, ← hp, hnum, Option.bind_some]
    simp only [Channel.serve, hf]
    refine { h with channel := ⟨c, channel?_change hc hcl, hn, hp⟩, flight := ?_ }
    rw [List.flatMap_nil, List.append_nil]
    exact h.flight
  · exact h

/-- What is done to the peer that the follower is changes that, and what is on the way. -/
theorem serve_some (h : s.Shows key v) {p : Peer} (hv : v.peer = some p) {f : Peer → List Frame × Peer}
    (hf : (f p).2.number = p.number) : Shows key (s.serve f)
      { v with peer := some (f p).2, flight := v.flight ++ (f p).1.flatMap Frame.encode } := by
  obtain ⟨c, hc, hn, hp⟩ := h.channel
  cases hnum : s.number with
  | none =>
    rw [hnum, hv] at hp
    cases hp
  | some i =>
    rw [hnum, hv] at hp
    have hcl : c.cluster = s.cluster := by simpa using List.find?_some hc
    obtain ⟨hsent, hn', hcl', hp'⟩ := hn.serve hp hf
    rcases hcs : c.serve f i with ⟨sent, c'⟩
    rw [hcs] at hsent hn' hcl' hp'
    subst hsent
    simp only [Replication.serve, hnum, hc, hcs]
    exact { h with
      channel := ⟨c', channel?_change hc (hcl'.trans hcl), hn', hp'⟩
      flight := congrArg (· ++ _) h.flight }

theorem dump (h : s.Shows key v) :
    ∃ v', Scene.Step key none v v' ∧ Shows key (s.serve (Peer.greet s.now s.cluster s.server.registry)) v' := by
  cases hv : v.peer with
  | none => exact ⟨v, .idle, h.serve_none hv _⟩
  | some p =>
    have hnum : (p.greet s.now s.cluster s.server.registry).2.number = p.number := by
      unfold Peer.greet
      split <;> rfl
    refine ⟨_, ?_, h.serve_some hv hnum⟩
    cases hst : p.state with
    | fresh =>
      have hd := Registry.decisions_dump h.server key
      rw [h.ours, ← h.cluster] at hd
      simp only [Peer.greet, hst]
      exact .dump s.now hv hst hd
    | waiting since =>
      simp only [Peer.greet, hst, List.flatMap_nil, List.append_nil, ← hv]
      exact .idle
    | gone =>
      simp only [Peer.greet, hst, List.flatMap_nil, List.append_nil, ← hv]
      exact .idle

theorem send (h : s.Shows key v) :
    ∃ v', Scene.Step key none v v' ∧ Shows key (s.serve fun p => (p.next s.now).getD ([], p)) v' := by
  cases hv : v.peer with
  | none => exact ⟨v, .idle, h.serve_none hv _⟩
  | some p =>
    cases hp : p.next s.now with
    | none =>
      have h' := h.serve_some hv (f := fun p => (p.next s.now).getD ([], p)) (by rw [hp]; rfl)
      simp only [hp, Option.getD_none, List.flatMap_nil, List.append_nil, ← hv] at h'
      exact ⟨v, .idle, h'⟩
    | some sent =>
      obtain ⟨fs, p'⟩ := sent
      obtain ⟨-, backlog, hp', -⟩ := Peer.next_cases hp
      have h' := h.serve_some hv (f := fun p => (p.next s.now).getD ([], p)) (by rw [hp, hp']; rfl)
      simp only [hp, Option.getD_some] at h'
      exact ⟨_, .send s.now hv hp, h'⟩

/-- Bytes that arrive are decoded with those that are held, and what they tell of the table is written there. -/
theorem arrive (h : s.Shows key v) (n : Nat) : ∃ v', Scene.Step key none v v' ∧
    Shows key { s with
      client := s.client.receive s.now s.place (s.flight.take n), flight := s.flight.drop n } v' := by
  obtain ⟨f, hf, hcl, hpost⟩ := h.follower
  have hset : ∀ f' : Follower, (s.client.followers.set s.place f')[s.place]? = some f' := fun f' =>
    List.getElem?_set_self (List.getElem?_eq_some_iff.1 hf).1
  have hflight : s.flight.drop n = v.flight.drop n := congrArg (List.drop n) h.flight
  by_cases hfollowing : ∃ held, v.post = .following held
  · obtain ⟨held, hheld⟩ := hfollowing
    rcases hd : Frame.decodeAll (held ++ v.flight.take n) with ⟨fs, left⟩
    obtain ⟨hs, ht⟩ := Registry.tableOf?_applyFrames h.client s.now key fs
    rw [h.theirs] at ht
    refine ⟨_, .arrive s.now n hheld hd, ?_⟩
    have hreceive : f.receive s.now (s.flight.take n) s.client.registry =
        ({ f with post := match left.error with
          | none => .following left.rest
          | some _ => .pausing (s.now + Follower.pause) }, applyFrames s.now key.cluster s.client.registry fs) := by
      rcases left with ⟨rest, _ | e⟩ <;> simp only [Follower.receive, hpost, hheld, h.flight, hd, hcl, h.cluster]
    simp only [Node.receive, hf, hreceive]
    exact { h with client := hs, theirs := ht, follower := ⟨_, hset _, hcl, rfl⟩, flight := hflight }
  · have hno : ∀ held, v.post ≠ .following held := fun held hheld => hfollowing ⟨held, hheld⟩
    have hreceive : f.receive s.now (s.flight.take n) s.client.registry = (f, s.client.registry) := by
      unfold Follower.receive
      split
      · rename_i held hheld
        exact absurd (hpost.symm.trans hheld) (hno held)
      · rfl
    refine ⟨_, .lost n hno, ?_⟩
    simp only [Node.receive, hf, hreceive]
    exact { h with follower := ⟨f, hset f, hcl, hpost⟩, flight := hflight }

/-- Whatever happens, the scene makes a step. -/
theorem apply (h : s.Shows key v) (hr : key.replicated) (m : Move) :
    ∃ v', Scene.Step key (m.decision? key) v v' ∧ Shows key (m.apply s) v' := by
  cases m with
  | succeed k b a =>
    cases ha : a.remote with
    | some backend =>
      obtain ⟨v', hv, h'⟩ := h.decide (k := k) hr (f := Balancer.succeed s.now a) (fun b => by
        rw [Balancer.succeed, ha]) b
      refine ⟨v', ?_, h'⟩
      rwa [Move.decision?, ha]
    | none =>
      obtain ⟨v', hv, h'⟩ := h.quiet (k := k) a.client (f := Balancer.succeed s.now a) (fun b => by
        rw [Balancer.succeed, ha]
        exact ⟨rfl, Or.inl rfl⟩) b
      refine ⟨v', ?_, h'⟩
      rwa [Move.decision?, ha, Option.map_none, ite_self]
  | fail k b a => exact h.decide hr (fun b => rfl) b
  | lookUp k b a =>
    refine h.quiet a.client (fun b => ⟨rfl, ?_⟩) b
    have hnext : (b.next s.now a).2.2.store = (b.asked a).store := by
      unfold Balancer.next
      split <;> rfl
    rw [hnext, Balancer.asked]
    split
    · exact Or.inr rfl
    · exact Or.inl rfl
  | accept => exact h.accept
  | dump => exact h.dump
  | send => exact h.send
  | arrive n => exact h.arrive n
  | wait span => exact ⟨v, .idle, { h with }⟩

end Shows

end Replication

end AffinityRelay
