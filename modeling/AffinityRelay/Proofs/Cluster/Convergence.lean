import AffinityRelay.Proofs.Cluster.Replication
import AffinityRelay.Proofs.Wire.Stream

/-!
# A follower comes to the table that it follows

The dump that a follower is told and the updates that waited for it overlap, so its table goes through older values. But
the last decision about a network is either among those updates or older than the dump, and then the dump has what it
left.

* `Scene.Told`: what the decisions that are still to come make of the follower's table: the server's;
* `Scene.Followed`: all that is kept while no update is lost, and `Scene.Followed.step`: it is kept;
* `Replication.converges`: whenever nothing is on the way, both tables have the same entries.
-/

namespace AffinityRelay

open AffinityRelay.Frame Decoded

/-! ## What is sent -/

/-- What is sent is decoded after what was on the way before. -/
theorem decodeAll_sent {s : List UInt8} {fs : List Frame} (h : decodeAll s = (fs, ⟨[], none⟩)) (gs : List Frame) :
    decodeAll (s ++ gs.flatMap encode) = (fs ++ gs.map unscoped, ⟨[], none⟩) := by
  have hg : decodeAll (gs.flatMap encode) = (gs.map unscoped, ⟨[], none⟩) := by
    have hg := decodeAll_encode_append gs []
    rwa [List.append_nil, decodeAll_of_incomplete (show decode [] = .incomplete from rfl), List.append_nil] at hg
  rw [decodeAll_append h, List.nil_append, hg]

/-- What arrives is decoded without an error, and the rest is decoded with what is held then. -/
theorem decodeAll_arrived {s t : List UInt8} {fs gs : List Frame} {left : Leftover}
    (h : decodeAll (s ++ t) = (fs, ⟨[], none⟩)) (hs : decodeAll s = (gs, left)) :
    left.error = none ∧ decodeAll left.rest = ([], ⟨left.rest, none⟩) ∧
    ∃ more, decodeAll (left.rest ++ t) = (more, ⟨[], none⟩) ∧ fs = gs ++ more := by
  obtain ⟨rest, _ | e⟩ := left
  · -- Decoding again what was left over gives nothing new: it is what `s` was decoded to, without `gs`.
    have hrest := decodeAll_append hs []
    rw [List.append_nil, hs, List.append_nil] at hrest
    obtain ⟨hnil, hleft⟩ := Prod.mk.inj hrest
    have ht := decodeAll_append hs t
    rw [h] at ht
    obtain ⟨hfs, hend⟩ := Prod.mk.inj ht
    exact ⟨rfl, Prod.ext (List.self_eq_append_right.1 hnil) hleft.symm, _, Prod.ext rfl hend.symm, hfs⟩
  · rw [decodeAll_append_of_error hs t] at h
    cases congrArg (fun p => p.2.error) h

/-- A decision as it arrives. -/
def Decision.unscoped (d : Decision) : Decision :=
  { d with backend := d.backend.map Address.unscoped }

/-- What frames tell of a table arrives without scopes. -/
theorem decisions_map_unscoped (sticky : UInt64) (fs : List Frame) :
    decisions sticky (fs.map unscoped) = (decisions sticky fs).map Decision.unscoped := by
  rw [decisions, decisions, List.filterMap_map, List.map_filterMap]
  refine List.filterMap_congr fun f _ => ?_
  cases f with
  | nop => rfl
  | update u =>
    by_cases hu : u.sticky = sticky <;> simp [Frame.decision?, unscoped, Update.unscoped, Decision.unscoped, hu]

/-- Decisions that arrive make of a table without scopes what they made of the table with them. -/
theorem replay_unscoped {bits : Nat} {ds : List Decision} {m m' : Ip → Option Address} {n : Ip}
    (h : m' n = (m n).map Address.unscoped) :
    replay bits (ds.map Decision.unscoped) m' n = (replay bits ds m n).map Address.unscoped := by
  induction ds generalizing m m' with
  | nil => exact h
  | cons d ds ih =>
    refine ih ?_
    by_cases hn : n = d.client.mask bits
    · rw [Decision.update, Decision.update, hn]
      exact (Function.update_self ..).trans (by rw [Function.update_self]; rfl)
    · rw [Decision.update, Decision.update, Function.update_of_ne hn]
      exact (Function.update_of_ne hn ..).trans h

/-- A decision without a scope arrives as it is. -/
theorem Decision.unscoped_eq {d : Decision} (h : ∀ b ∈ d.backend, b.scope = 0) : d.unscoped = d := by
  obtain ⟨client, _ | ⟨ip, port, scope⟩⟩ := d
  · rfl
  · obtain rfl : scope = 0 := h _ rfl
    rfl

theorem map_unscoped_eq {ds : List Decision} (h : ∀ d ∈ ds, ∀ b ∈ d.backend, b.scope = 0) :
    ds.map Decision.unscoped = ds :=
  (List.map_congr_left fun d hd => Decision.unscoped_eq (h d hd)).trans (List.map_id ds)

/-- Where backends have no scopes, a frame that arrives tells what was sent. -/
theorem decisions_unscoped {sticky : UInt64} {fs : List Frame}
    (h : ∀ d ∈ decisions sticky fs, ∀ b ∈ d.backend, b.scope = 0) :
    decisions sticky (fs.map unscoped) = decisions sticky fs := by
  rw [decisions_map_unscoped, map_unscoped_eq h]

/-- While no update is lost, all that a peer is handed waits. -/
theorem Peer.backlog_hand {u : Update} {p : Peer} (h : (p.hand u).lost = 0) :
    (p.hand u).backlog = p.backlog ++ [u] := by
  rw [hand] at h ⊢
  have hle : (p.backlog ++ [u]).length - room = 0 := (Nat.add_eq_zero_iff.1 h).2
  simp only [hle, List.drop_zero]

/-- The decisions about the table of a number that wait for a peer. -/
def Peer.decisions (sticky : UInt64) (p : Peer) : List Decision :=
  AffinityRelay.decisions sticky (p.backlog.map .update)

theorem Peer.decisions_hand {sticky : UInt64} {u : Update} {p : Peer} (h : (p.hand u).lost = 0) :
    (p.hand u).decisions sticky = p.decisions sticky ++ AffinityRelay.decisions sticky [.update u] := by
  rw [decisions, Peer.backlog_hand h, List.map_append, decisions_append]
  rfl

namespace Scene

/-- What the decisions that come, and then those that wait, make of the follower's table. Before it is told the
assignments it has nothing, and what waits for it has been written. -/
inductive Told (bits : Nat) (sticky : UInt64) (ours theirs : Ip → Option Address) (coming : List Decision) :
    Option Peer → Prop
  | unknown : coming = [] → theirs = (fun _ => none) → Told bits sticky ours theirs coming none
  | accepted {p : Peer} : p.state = .fresh → coming = [] → theirs = (fun _ => none) →
      replay bits (p.decisions sticky) ours = ours → Told bits sticky ours theirs coming (some p)
  | told {p : Peer} {since : Time} : p.state = .waiting since →
      replay bits (coming ++ p.decisions sticky) theirs = ours → Told bits sticky ours theirs coming (some p)

namespace Told

variable {bits : Nat} {sticky : UInt64} {ours theirs : Ip → Option Address} {ds ds' : List Decision}
  {peer : Option Peer}

/-- An update is written, and waits for the follower if that was accepted. -/
theorem hand (h : Told bits sticky ours theirs ds peer) {u : Update}
    (hl : ∀ p ∈ peer.map (Peer.hand u), p.lost = 0) :
    Told bits sticky (replay bits (decisions sticky [.update u]) ours) theirs ds (peer.map (Peer.hand u)) := by
  cases h with
  | unknown hnone hn => exact .unknown hnone hn
  | accepted hs hnone hn hr =>
    refine .accepted ((Peer.state_hand _ _).trans hs) hnone hn ?_
    rw [Peer.decisions_hand (hl _ rfl)]
    exact replay_settled hr _
  | told hs hr =>
    refine .told ((Peer.state_hand _ _).trans hs) ?_
    rw [Peer.decisions_hand (hl _ rfl), ← List.append_assoc, replay_append, hr]

/-- The first of the decisions that come are made. -/
theorem arrive (h : Told bits sticky ours theirs (ds ++ ds') peer) :
    Told bits sticky ours (replay bits ds theirs) ds' peer := by
  cases h with
  | unknown hnone hn =>
    obtain ⟨rfl, rfl⟩ := List.append_eq_nil_iff.1 hnone
    exact .unknown rfl hn
  | accepted hs hnone hn hr =>
    obtain ⟨rfl, rfl⟩ := List.append_eq_nil_iff.1 hnone
    exact .accepted hs rfl hn hr
  | told hs hr =>
    refine .told hs ?_
    rwa [← replay_append, ← List.append_assoc]

end Told

/-- A scene in which the follower holds some bytes, and some frames come. -/
structure Followed (config : StoreConfig) (networks : Finset Ip) (v : Scene) (held : List UInt8) (coming : List Frame) :
    Prop where
  ours : v.ours.Tidy networks
  theirs : v.theirs.Tidy networks
  config_ours : v.ours.config = config
  config_theirs : v.theirs.config = config
  post : v.post = .following held
  rest : decodeAll held = ([], ⟨held, none⟩)
  flight : decodeAll (held ++ v.flight) = (coming, ⟨[], none⟩)
  proper : ∀ d ∈ decisions config.key.sticky coming, d.Proper config.bits.toNat networks
  waiting : ∀ p ∈ v.peer, ∀ d ∈ p.decisions config.key.sticky, d.Proper config.bits.toNat networks
  told : Told config.bits.toNat config.key.sticky v.ours.assigned v.theirs.assigned
    (decisions config.key.sticky coming) v.peer

variable {config : StoreConfig} {networks : Finset Ip} {v v' : Scene} {held : List UInt8} {coming : List Frame}

namespace Followed

/-! ## One step -/

/-- An update waits for the follower, if that was accepted, and what it tells of the table is written there. -/
theorem hand (h : v.Followed config networks held coming) {u : Update} {ours : Store} (ho : ours.Tidy networks)
    (hc : ours.config = config)
    (ha : ours.assigned = replay config.bits.toNat (decisions config.key.sticky [.update u]) v.ours.assigned)
    (hd : ∀ d ∈ decisions config.key.sticky [.update u], d.Proper config.bits.toNat networks)
    (hl : ∀ p ∈ v.peer.map (Peer.hand u), p.lost = 0) :
    ({ v with ours, peer := v.peer.map (Peer.hand u) } : Scene).Followed config networks held coming := by
  refine ⟨ho, h.theirs, hc, h.config_theirs, h.post, h.rest, h.flight, h.proper, ?_, ?_⟩
  · intro p' hp' d hd'
    obtain ⟨p, hp, rfl⟩ := Option.map_eq_some_iff.1 hp'
    rw [Peer.decisions_hand (hl _ hp')] at hd'
    exact (List.mem_append.1 hd').elim (h.waiting p hp d) (hd d)
  · have ht := h.told.hand hl
    rwa [← ha] at ht

/-- Frames are sent to the follower. They and what still waits make the server's table of what the follower has. -/
theorem sent (h : v.Followed config networks held coming) {fs : List Frame} {p : Peer} (now : Time)
    (hd : ∀ d ∈ decisions config.key.sticky fs, d.Proper config.bits.toNat networks)
    (hw : ∀ d ∈ p.decisions config.key.sticky, d.Proper config.bits.toNat networks)
    (hp : p.state = .waiting now)
    (hr : replay config.bits.toNat (decisions config.key.sticky (coming ++ fs) ++ p.decisions config.key.sticky)
      v.theirs.assigned = v.ours.assigned) :
    ({ v with peer := some p, flight := v.flight ++ fs.flatMap encode } : Scene).Followed config networks held
      (coming ++ fs.map unscoped) := by
  have hun : decisions config.key.sticky (coming ++ fs.map unscoped) = decisions config.key.sticky (coming ++ fs) := by
    rw [decisions_append, decisions_append, decisions_unscoped fun d hd' b hb => (hd d hd' b hb).2]
  refine ⟨h.ours, h.theirs, h.config_ours, h.config_theirs, h.post, h.rest, ?_, ?_, ?_, ?_⟩
  · rw [← List.append_assoc]
    exact decodeAll_sent h.flight fs
  · intro d hd'
    rw [hun, decisions_append] at hd'
    exact (List.mem_append.1 hd').elim (h.proper d) (hd d)
  · rintro _ ⟨⟩
    exact hw
  · refine .told hp ?_
    rw [hun]
    exact hr

/-- The follower is told all assignments. -/
theorem dump (h : v.Followed config networks held coming) {p : Peer} (hv : v.peer = some p) (hp : p.state = .fresh)
    (now : Time) {fs : List Frame} (hfs : decisions config.key.sticky fs = v.ours.told) :
    ({ v with peer := some { p with state := .waiting now }, flight := v.flight ++ fs.flatMap encode } : Scene).Followed
      config networks held (coming ++ fs.map unscoped) := by
  have htold := h.told
  rw [hv] at htold
  cases htold with
  | told hs => rw [hp] at hs; cases hs
  | accepted _ hnone hn hr =>
    refine h.sent now ?_ (h.waiting p hv) rfl ?_
    · intro d hd b hb
      rw [hfs] at hd
      obtain ⟨e, he, rfl⟩ := List.mem_map.1 hd
      obtain rfl : e.backend = b := Option.some.inj hb
      have hmask : e.client.mask config.bits.toNat = e.client := h.config_ours ▸ h.ours.masked e he
      exact ⟨hmask.symm ▸ h.ours.among e he, h.ours.unscoped e he⟩
    · -- The follower has nothing yet, so the dump makes the table of the server, and what waits has been written there.
      have htable := h.ours.replay_told
      rw [h.config_ours] at htable
      rw [decisions_append, hnone, List.nil_append, hfs, hn, replay_append, htable]
      exact hr

/-- What waits for the follower is sent. -/
theorem send (h : v.Followed config networks held coming) {p p' : Peer} (hv : v.peer = some p) (hl : p.lost = 0)
    {now : Time} {fs : List Frame} (hn : p.next now = some (fs, p')) :
    ({ v with peer := some p', flight := v.flight ++ fs.flatMap encode } : Scene).Followed config networks held
      (coming ++ fs.map unscoped) := by
  have htold := h.told
  obtain ⟨⟨since, hs⟩, backlog, rfl, hcases⟩ := Peer.next_cases hn
  rw [hv] at htold
  cases htold with
  | accepted hfresh => rw [hs] at hfresh; cases hfresh
  | told _ hr =>
    have hdec : decisions config.key.sticky fs ++ decisions config.key.sticky (backlog.map .update) =
        p.decisions config.key.sticky := by
      rcases hcases with ⟨hlost, -⟩ | ⟨-, u, hb, rfl⟩ | ⟨-, hb, rfl, rfl⟩
      · omega
      · rw [Peer.decisions, hb, List.map_cons, ← decisions_append, List.singleton_append]
      · rw [Peer.decisions, hb]
        rfl
    have hmem : ∀ d ∈ decisions config.key.sticky fs ++ decisions config.key.sticky (backlog.map .update),
        d.Proper config.bits.toNat networks := hdec ▸ h.waiting p hv
    refine h.sent now (fun d hd => hmem d (List.mem_append_left _ hd))
      (fun d hd => hmem d (List.mem_append_right _ hd)) rfl ?_
    have hwait : Peer.decisions config.key.sticky { p with state := .waiting now, lost := 0, backlog } =
      decisions config.key.sticky (backlog.map .update) := rfl
    rw [hwait, decisions_append, List.append_assoc, hdec]
    exact hr

/-- Bytes arrive, and what they tell of the table is written there. -/
theorem arrive (h : v.Followed config networks held coming) (now : Time) (n : Nat) {fs : List Frame} {left : Leftover}
    (hd : decodeAll (held ++ v.flight.take n) = (fs, left)) :
    ∃ more, ({ v with
        flight := v.flight.drop n
        post := match left.error with
          | none => .following left.rest
          | some _ => .pausing (now + Follower.pause)
        theirs := v.theirs.settleAll now (decisions config.key.sticky fs) } : Scene).Followed
      config networks left.rest more := by
  have hall := h.flight
  rw [← List.take_append_drop n v.flight, ← List.append_assoc] at hall
  obtain ⟨hnone, hrest, more, hmore, rfl⟩ := decodeAll_arrived hall hd
  have hproper := h.proper
  rw [decisions_append] at hproper
  have hfs : ∀ d ∈ decisions config.key.sticky fs, d.Proper v.theirs.config.bits.toNat networks := by
    rw [h.config_theirs]
    exact fun d hd => hproper d (List.mem_append_left _ hd)
  obtain ⟨htheirs, hassigned⟩ := h.theirs.settleAll now hfs
  refine ⟨more, h.ours, htheirs, h.config_ours, (Store.config_settleAll ..).trans h.config_theirs, ?_, hrest, hmore,
    fun d hd => hproper d (List.mem_append_right _ hd), h.waiting, ?_⟩
  · simp only [hnone]
  · have ht := h.told
    rw [decisions_append] at ht
    rw [hassigned, h.config_theirs]
    exact ht.arrive

end Followed

/-- While no update is lost, a follower is on its way to the server's table. -/
theorem Followed.step (h : v.Followed config networks held coming) {d? : Option Decision} (hs : Step config.key d? v v')
    (hd : ∀ d ∈ d?, d.Proper config.bits.toNat networks) (hl : ∀ p ∈ v.peer, p.lost = 0)
    (hl' : ∀ p ∈ v'.peer, p.lost = 0) : ∃ held coming, v'.Followed config networks held coming := by
  cases hs with
  | idle => exact ⟨held, coming, h⟩
  | decide now d =>
    have hone : decisions config.key.sticky [.update ⟨config.key.sticky, d.client, d.backend⟩] = [d] :=
      List.filterMap_cons_some (if_pos rfl)
    have hproper := hd d rfl
    obtain ⟨ho, ha⟩ := h.ours.settle now (h.config_ours ▸ hproper)
    refine ⟨held, coming, h.hand ho ((Store.config_settle ..).trans h.config_ours) ?_ ?_ hl'⟩
    · rw [ha, hone, h.config_ours]
      rfl
    · rw [hone]
      exact fun d' hd' => List.mem_singleton.1 hd' ▸ hproper
  | other hu =>
    have hnone : ∀ u : Update, u.sticky ≠ config.key.sticky → decisions config.key.sticky [.update u] = [] :=
      fun u hu => List.filterMap_cons_none (if_neg hu)
    refine ⟨held, coming, h.hand h.ours h.config_ours ?_ ?_ hl'⟩
    · rw [hnone _ hu, replay_nil]
    · rw [hnone _ hu]
      exact nofun
  | lookUp client =>
    obtain ⟨ho, ha⟩ := h.ours.touch client
    refine ⟨held, coming, { h with ours := ho, config_ours := (Store.config_touch ..).trans h.config_ours, told := ?_ }⟩
    exact ha.symm ▸ h.told
  | @accept _ p hnone hp hb =>
    have hdec : p.decisions config.key.sticky = [] := by
      rw [Peer.decisions, hb]
      rfl
    have ht := h.told
    rw [hnone] at ht
    cases ht with
    | unknown hc hn =>
      refine ⟨held, coming, { h with waiting := ?_, told := .accepted hp hc hn ?_ }⟩
      · rintro _ ⟨⟩
        rw [hdec]
        exact nofun
      · rw [hdec, replay_nil]
  | dump now hv hp hfs => exact ⟨held, _, h.dump hv hp now hfs⟩
  | send now hv hn => exact ⟨held, _, h.send hv (hl _ hv) hn⟩
  | arrive now n hpost hfs =>
    obtain rfl := FollowerPost.following.inj (hpost.symm.trans h.post)
    exact ⟨_, h.arrive now n hfs⟩
  | lost n hno => exact absurd h.post (hno held)

end Scene

namespace Replication

/-! ## All steps -/

/-- The beginning: both nodes have an empty table of one key, with the same settings, the server listens,
and the follower is connected and was not accepted. -/
structure Opens (config : StoreConfig) (here there : List StoreConfig) (s : Replication) : Prop where
  cluster : s.cluster = config.key.cluster
  server : Registry.ofConfigs? here = some s.server.registry
  client : Registry.ofConfigs? there = some s.client.registry
  ours : here.find? (·.key = config.key) = some config
  theirs : there.find? (·.key = config.key) = some config
  channel : ∃ c, s.server.channel? s.cluster = some c ∧ c.Numbered
  follower : ∃ f, s.client.followers[s.place]? = some f ∧ f.cluster = s.cluster ∧ f.post = .following []
  number : s.number = none
  flight : s.flight = []

/-- The networks that are assigned a backend in the table of a configuration. -/
def written (config : StoreConfig) (h : History) : Finset Ip :=
  (((h.filterMap (Move.decision? config.key)).filter (·.backend.isSome)).map
    (·.client.mask config.bits.toNat)).toFinset

/-- The follower was told the assignments, nothing waits to be sent to it, and all that was sent has arrived. -/
def Delivered (s : Replication) : Prop :=
  ∃ p, s.peer? = some p ∧ p.state ≠ .fresh ∧ p.backlog = [] ∧ s.flight = []

instance (s : Replication) : Decidable s.Delivered :=
  decidable_of_iff ((s.peer?.any fun p => p.state ≠ .fresh ∧ p.backlog = []) ∧ s.flight = []) <| by
    simp [Delivered, Option.any_eq_true, ← exists_and_right, and_assoc]

variable {config : StoreConfig} {here there : List StoreConfig} {s : Replication} {h : History} {networks : Finset Ip}

theorem proper_of_mem {m : Move} (hm : m ∈ h)
    (hscope : ∀ d ∈ h.filterMap (Move.decision? config.key), ∀ b ∈ d.backend, b.scope = 0) :
    ∀ d ∈ m.decision? config.key, d.Proper config.bits.toNat (written config h) := by
  intro d hd b hb
  have hd : d ∈ h.filterMap (Move.decision? config.key) := List.mem_filterMap.2 ⟨m, hm, hd⟩
  refine ⟨?_, hscope d hd b hb⟩
  rw [written, List.mem_toFinset]
  exact List.mem_map_of_mem (List.mem_filter.2 ⟨hd, Option.isSome_iff_exists.2 ⟨b, hb⟩⟩)

theorem Opens.shows (ho : s.Opens config here there) : s.Shows config.key
    { ours := { config }, peer := none, flight := [], post := .following [], theirs := { config } } := by
  obtain ⟨hserver, htable⟩ := Registry.ofConfigs?_spec ho.server
  obtain ⟨hclient, htable'⟩ := Registry.ofConfigs?_spec ho.client
  obtain ⟨c, hc, hn⟩ := ho.channel
  refine ⟨ho.cluster, hserver, hclient, ?_, ?_, ⟨c, hc, hn, by rw [ho.number]; rfl⟩, ho.follower, ho.flight⟩
  · rw [htable, ho.ours, Option.map_some]
  · rw [htable', ho.theirs, Option.map_some]

theorem Opens.followed (ho : s.Opens config here there) (hroom : networks.card ≤ config.capacity) :
    ∃ v, s.Shows config.key v ∧ v.Followed config networks [] [] := by
  refine ⟨_, ho.shows,
    ⟨Store.tidy_empty hroom, Store.tidy_empty hroom, rfl, rfl, rfl, ?_, ?_, nofun, nofun, .unknown rfl rfl⟩⟩
  · exact decodeAll_of_incomplete rfl
  · exact decodeAll_of_incomplete rfl

/-- While no update is lost, a follower is on its way to the server's table all the time. -/
theorem followed_after (ho : s.Opens config here there) (hr : config.replicated)
    (hroom : (written config h).card ≤ config.capacity)
    (hscope : ∀ d ∈ h.filterMap (Move.decision? config.key), ∀ b ∈ d.backend, b.scope = 0)
    (hlost : ∀ h', h' <:+ h → ∀ p ∈ (s.after h').peer?, p.lost = 0) : ∀ h', h' <:+ h →
    ∃ v held coming, (s.after h').Shows config.key v ∧ v.Followed config (written config h) held coming
  | [], _ => by
    obtain ⟨v, hv, hf⟩ := ho.followed hroom
    exact ⟨v, [], [], hv, hf⟩
  | m :: h', hsuffix => by
    have hsuffix' : h' <:+ h := (List.suffix_cons m h').trans hsuffix
    obtain ⟨v, held, coming, hv, hf⟩ := followed_after ho hr hroom hscope hlost h' hsuffix'
    obtain ⟨v', hs, hv'⟩ := hv.apply hr m
    obtain ⟨held', coming', hf'⟩ := hf.step hs (proper_of_mem (hsuffix.subset List.mem_cons_self) hscope)
      (hv.peer?_eq ▸ hlost h' hsuffix') (hv'.peer?_eq ▸ hlost (m :: h') hsuffix)
    exact ⟨v', held', coming', hv', hf'⟩

/-- A node follows another, and their tables of one key are empty at first and have the same settings. In whatever order
balancers of the server make decisions and look clients up, the follower is accepted and told all assignments, and bytes
are sent and arrive: whenever all is delivered, both tables have the same entries. There is room for all networks that
are assigned a backend, backends have no scopes, and no update is lost. -/
theorem converges (ho : s.Opens config here there) (hr : config.replicated)
    (hroom : (written config h).card ≤ config.capacity)
    (hscope : ∀ d ∈ h.filterMap (Move.decision? config.key), ∀ b ∈ d.backend, b.scope = 0)
    (hlost : ∀ h', h' <:+ h → ∀ p ∈ (s.after h').peer?, p.lost = 0) :
    ∃ ours theirs, (s.after h).server.registry.tableOf? config.key = some ours ∧
      (s.after h).client.registry.tableOf? config.key = some theirs ∧
      ((s.after h).Delivered → ∀ x, x ∈ theirs.entries ↔ x ∈ ours.entries) := by
  obtain ⟨v, held, coming, hv, hf⟩ := followed_after ho hr hroom hscope hlost h (List.suffix_refl h)
  refine ⟨v.ours, v.theirs, hv.ours, hv.theirs, ?_⟩
  rintro ⟨p, hp, hstate, hbacklog, hflight⟩ ⟨n, b⟩
  rw [hv.peer?_eq] at hp
  have hcoming : coming = [] := by
    have hall := hf.flight
    rw [← hv.flight, hflight, List.append_nil, hf.rest] at hall
    exact (congrArg Prod.fst hall).symm
  have htold := hf.told
  rw [hp, hcoming] at htold
  have hsame : v.theirs.assigned = v.ours.assigned := by
    cases htold with
    | accepted hfresh => exact absurd hfresh hstate
    | told _ hmap =>
      rw [Peer.decisions, hbacklog] at hmap
      exact hmap
  rw [hf.theirs.mem_entries_iff, hf.ours.mem_entries_iff, hsame]

/-- Room for two networks of 24 bits, in a cluster. -/
def pairConfig : StoreConfig :=
  { kind := .memory, bits := 24, elements := 2, seconds := 60, key := { cluster := 1, sticky := 2 } }

/-- A beginning with one table on either side. -/
def pairOpening : Replication where
  cluster := 1
  server :=
    { registry := { tables := [{ config := pairConfig }], registered := [⟨pairConfig.key, 0, 1⟩] }
      channels := [{ cluster := 1, address := { ip := .v4 (.replicate 4 0), port := 7000 }, watcher := ⟨0⟩ }] }
  client :=
    { registry := { tables := [{ config := pairConfig }], registered := [⟨pairConfig.key, 0, 1⟩] }
      followers := [{ cluster := 1, target := "127.0.0.1:7000", watcher := ⟨0⟩, post := .following [] }] }
  place := 0

/-- A network goes from one backend to another, and a second network gets a backend and loses it, after the follower was
accepted and before it is told the assignments. -/
def pairHistory : History :=
  let b : Balancer := { chance := { tape := id } }
  let attempt (i : UInt8) (port : UInt16) : Attempts :=
    { client := .ofOctets 10 i 0 7, list := [], remote := some { ip := .ofOctets 192 168 0 1, port } }
  [.arrive 100, .arrive 30, .send, .send, .send, .dump, .fail pairConfig.key b (attempt 1 80),
    .succeed pairConfig.key b (attempt 1 80), .succeed pairConfig.key b (attempt 0 81), .accept,
    .succeed pairConfig.key b (attempt 0 80)]

theorem converges_pair : (pairOpening.after pairHistory).Delivered ∧
    ∃ ours theirs, (pairOpening.after pairHistory).server.registry.tableOf? pairConfig.key = some ours ∧
      (pairOpening.after pairHistory).client.registry.tableOf? pairConfig.key = some theirs ∧
      ∀ x, x ∈ theirs.entries ↔ x ∈ ours.entries := by
  have ho : pairOpening.Opens pairConfig [pairConfig] [pairConfig] :=
    ⟨rfl, rfl, rfl, rfl, rfl, ⟨_, rfl, fun p hp => absurd hp List.not_mem_nil⟩, ⟨_, rfl, rfl, rfl⟩, rfl, rfl⟩
  have hlost : ∀ h' ∈ pairHistory.tails, ∀ p ∈ (pairOpening.after h').peer?, p.lost = 0 := by decide +kernel
  have hdelivered : (pairOpening.after pairHistory).Delivered := by
    refine ⟨_, rfl, ?_, ?_, ?_⟩
    · decide +kernel
    · decide +kernel
    · decide +kernel
  obtain ⟨ours, theirs, hours, htheirs, h⟩ := converges (h := pairHistory) ho (by decide) (by decide +kernel)
    (by decide +kernel) fun h' hs => hlost h' ((List.mem_tails h' _).2 hs)
  exact ⟨hdelivered, ours, theirs, hours, htheirs, h hdelivered⟩

end Replication

end AffinityRelay
