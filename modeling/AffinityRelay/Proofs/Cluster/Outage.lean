import AffinityRelay.Proofs.Cluster.Session

/-!
# A follower comes and goes

What a follower is told when it comes back is what its server assigns, and not what was withdrawn while it was away.

* `Replication.Incident`: what can happen where connections break, and others come and go too;
* `Replication.Stands`, `Replication.Stands.incident`: each incident takes the scene along its course;
* `Replication.answers_after_outages`: what the follower has once all is delivered, and for whom it has no answer.
-/

namespace AffinityRelay

open AffinityRelay.Frame

namespace Replication

/-- What can happen while one node follows another, and now and then is not connected. -/
inductive Incident where
  | move (m : Move)
  /-- The connection breaks. What is on the way is lost. -/
  | lose
  /-- The follower looks whether its pause is over. -/
  | resume
  /-- The follower connects, or fails to. -/
  | dial (failure : Option ConnectError)
  /-- Somebody else is accepted, which may be a connection of the follower that broke before. -/
  | join
  /-- It is noticed that somebody else went away. -/
  | part (number : Nat)

/-- Whether the follower is connected. -/
def connected (s : Replication) : Bool :=
  (s.client.followers[s.place]?).any Follower.connected

/-- Both nodes and what is on the way after an incident. Only who is connected is accepted. -/
def Incident.apply (s : Replication) : Incident → Replication
  | move m =>
    match m with
    | .accept => if s.connected then s.accept else s
    | m => m.apply s
  | lose =>
    { s with client := s.client.changeFollower s.place (Follower.lose s.now), number := none, flight := [] }
  | resume => { s with client := s.client.changeFollower s.place (Follower.resume s.now) }
  | dial failure => { s with client := s.client.changeFollower s.place (Follower.dial s.now s.client.signal failure) }
  | join => { s with server := s.server.changeChannel s.cluster (Channel.accept s.server.signal) }
  | part number =>
    if s.number = some number then s
    else { s with server := s.server.changeChannel s.cluster (Channel.leave number) }

/-- Both nodes and what is on the way after some incidents, the latest first. -/
def suffered (s : Replication) : List Incident → Replication
  | [] => s
  | i :: h => i.apply (s.suffered h)

/-- The decision that is made on the table of a key, if one is. -/
def Incident.decision? (key : Key) : Incident → Option Decision
  | move m => m.decision? key
  | _ => none

/-- What both nodes come to for the table of a key. -/
def scene (key : Key) (s : Replication) : Scene where
  ours := (s.server.registry.tableOf? key).getD {}
  peer := s.peer?
  flight := s.flight
  post := (s.client.followers[s.place]?).elim .dialing Follower.post
  theirs := (s.client.registry.tableOf? key).getD {}

variable {key : Key} {s : Replication} {v : Scene}

theorem Shows.eq_scene (h : s.Shows key v) : v = s.scene key := by
  obtain ⟨f, hf, -, hpost⟩ := h.follower
  obtain ⟨ours, peer, flight, post, theirs⟩ := v
  simp only [scene, h.ours, h.theirs, h.peer?_eq, h.flight, hf, Option.getD_some, Option.elim_some, Scene.mk.injEq]
  exact ⟨trivial, trivial, trivial, hpost.symm, trivial⟩

/-- Both nodes come to a scene, and who has a number is found by it. -/
structure Stands (key : Key) (s : Replication) : Prop where
  shows : s.Shows key (s.scene key)
  number : s.number.isSome → s.peer?.isSome

theorem Shows.stands (h : s.Shows key v) (hn : s.number.isSome → s.peer?.isSome) : s.Stands key :=
  ⟨h.eq_scene ▸ h, hn⟩

/-- The channel of a cluster after something was done to it. -/
theorem channel?_changed {f : Channel → Channel} (hf : ∀ c, (f c).cluster = c.cluster) {n : Node} {cluster : UInt64}
    {c : Channel} (hc : n.channel? cluster = some c) :
    (n.changeChannel cluster f).channel? cluster = some (f c) := by
  rw [Node.channel?_changeChannel fun c hcl => (hf c).trans hcl, if_pos rfl, hc, Option.map_some]

/-! ## Moves -/

/-- A follower that was accepted stays so. -/
theorem isSome_peer_of_step {d? : Option Decision} {v' : Scene} (h : Scene.Step key d? v v') (hv : v.peer.isSome) :
    v'.peer.isSome := by
  cases h with
  | decide | other => simpa using hv
  | idle | lookUp | arrive | lost => exact hv
  | accept | dump | send => rfl

theorem number_serve (f : Peer → List Frame × Peer) (s : Replication) : (s.serve f).number = s.number := by
  unfold serve
  split <;> rfl

/-- Only by being accepted a follower gets a number. -/
theorem Move.number_apply {m : Move} (hm : m ≠ .accept) (s : Replication) : (m.apply s).number = s.number := by
  cases m with
  | accept => exact absurd rfl hm
  | dump | send => exact number_serve _ s
  | succeed | fail | lookUp | arrive | wait => rfl

theorem Incident.apply_accept (s : Replication) :
    (Incident.move .accept).apply s = if s.connected then s.accept else s := rfl

theorem Incident.apply_move {m : Move} (hm : m ≠ .accept) (s : Replication) :
    (Incident.move m).apply s = m.apply s := by
  cases m with
  | accept => exact absurd rfl hm
  | succeed | fail | lookUp | dump | send | arrive | wait => rfl

namespace Stands

theorem move (h : s.Stands key) (hr : key.replicated) {m : Move} (hm : m ≠ .accept) :
    Scene.Course key (m.decision? key) (s.scene key) ((m.apply s).scene key) ∧ (m.apply s).Stands key := by
  obtain ⟨v', hstep, hv'⟩ := h.shows.apply hr m
  obtain rfl := hv'.eq_scene
  have hnumber : (m.apply s).number.isSome → s.peer?.isSome := fun hn => h.number (Move.number_apply hm s ▸ hn)
  refine ⟨.step hstep fun hv => Or.inl ?_, hv', fun hn => isSome_peer_of_step hstep (hnumber hn)⟩
  -- Without a number there is no peer.
  have hnone : (m.apply s).number = none :=
    Option.not_isSome_iff_eq_none.1 fun hn => by rw [show s.peer? = none from hv] at hnumber; exact nomatch hnumber hn
  show (m.apply s).peer? = none
  rw [peer?, hnone]
  rfl

theorem connected_iff (h : s.Shows key v) : s.connected ↔ ∃ held, v.post = .following held := by
  obtain ⟨f, hf, -, hpost⟩ := h.follower
  rw [connected, hf, ← hpost, Option.any_some, Follower.connected]
  cases f.post <;> simp

theorem accept (h : s.Stands key) (hc : s.connected) :
    Scene.Course key none (s.scene key) (s.accept.scene key) ∧ s.accept.Stands key := by
  obtain ⟨v', hstep, hv'⟩ := h.shows.accept
  obtain rfl := hv'.eq_scene
  refine ⟨.step hstep fun _ => Or.inr ((connected_iff h.shows).1 hc), hv', ?_⟩
  obtain ⟨c, hchannel, hn, -⟩ := h.shows.channel
  unfold Replication.accept
  split
  · rename_i c' hnum hc'
    obtain rfl : c = c' := Option.some.inj (hchannel.symm.trans hc')
    split
    · rename_i hw
      intro _
      have hchange := channel?_changed (Channel.cluster_accept s.server.signal) hchannel
      simp only [peer?, hchange, Option.bind_some, (hn.accept hw s.server.signal).2, Option.isSome_some]
    · exact h.number
  · exact h.number

/-! ## Other incidents -/

/-- Something is done to the follower. -/
theorem changeFollower (h : s.Shows key v) {f : Follower → Follower} (hf : ∀ g, (f g).cluster = g.cluster) : ∃ g,
    g.post = v.post ∧
    Shows key { s with client := s.client.changeFollower s.place f } { v with post := (f g).post } := by
  obtain ⟨g, hg, hcl, hpost⟩ := h.follower
  refine ⟨g, hpost, { h with follower := ⟨f g, ?_, (hf g).trans hcl, rfl⟩ }⟩
  simp [Node.changeFollower, hg]

theorem lose (h : s.Stands key) : Scene.Course key none (s.scene key) ((Incident.lose.apply s).scene key) ∧
    (Incident.lose.apply s).Stands key := by
  obtain ⟨g, -, hv⟩ := changeFollower h.shows (f := Follower.lose s.now) fun g => by
    unfold Follower.lose
    split <;> rfl
  have hno : ∀ held, (g.lose s.now).post ≠ .following held := by
    intro held
    unfold Follower.lose
    split
    · exact nofun
    · rename_i hpost
      exact hpost held
  obtain ⟨c, hc, hn, -⟩ := hv.channel
  have hv' : (Incident.lose.apply s).Shows key
      { s.scene key with peer := none, flight := [], post := (g.lose s.now).post } :=
    { hv with channel := ⟨c, hc, hn, rfl⟩, flight := rfl }
  rw [← hv'.eq_scene]
  exact ⟨.lose hno, hv'.stands nofun⟩

/-- A follower that is not connected does something, after which it may be connected. -/
theorem redial (h : s.Stands key) {f : Follower → Follower} (hf : ∀ g, (f g).cluster = g.cluster)
    (hsame : ∀ g held, g.post = .following held → f g = g)
    (hnil : ∀ g held, (∀ held, g.post ≠ .following held) → (f g).post = .following held → held = []) :
    Scene.Course key none (s.scene key)
      (scene key { s with client := s.client.changeFollower s.place f }) ∧
    Stands key { s with client := s.client.changeFollower s.place f } := by
  obtain ⟨g, hg, hv⟩ := changeFollower h.shows hf
  have hstands := hv.stands h.number
  rw [← hv.eq_scene]
  refine ⟨?_, hstands⟩
  by_cases hfollowing : ∃ held, (s.scene key).post = .following held
  · obtain ⟨held, hheld⟩ := hfollowing
    rw [hsame g held (hg.trans hheld), hg]
    exact .step .idle Or.inl
  · have hno : ∀ held, (s.scene key).post ≠ .following held := fun held hheld => hfollowing ⟨held, hheld⟩
    exact .dial hno fun held => hnil g held fun held => hg ▸ hno held

theorem resume (h : s.Stands key) :
    Scene.Course key none (s.scene key) ((Incident.resume.apply s).scene key) ∧
    (Incident.resume.apply s).Stands key := by
  refine h.redial (fun g => ?_) (fun g held hg => ?_) fun g held hno => ?_
  · unfold Follower.resume
    split
    · split <;> rfl
    · rfl
  · simp only [Follower.resume, hg]
  · unfold Follower.resume
    split
    · split
      · exact nofun
      · exact fun hheld => absurd hheld (hno held)
    · exact fun hheld => absurd hheld (hno held)

theorem dial (h : s.Stands key) (failure : Option ConnectError) :
    Scene.Course key none (s.scene key) (((Incident.dial failure).apply s).scene key) ∧
    ((Incident.dial failure).apply s).Stands key := by
  refine h.redial (fun g => ?_) (fun g held hg => ?_) fun g held hno => ?_
  · unfold Follower.dial
    split
    · split
      · rfl
      · cases failure <;> rfl
    · rfl
  · simp only [Follower.dial, hg]
  · unfold Follower.dial
    split
    · split
      · exact nofun
      · cases failure with
        | none => exact fun hheld => (FollowerPost.following.inj hheld).symm
        | some e => exact nofun
    · exact fun hheld => absurd hheld (hno held)

/-- Something is done to the channel that leaves the peer alone that the follower is. -/
theorem changeChannel (h : s.Stands key) {f : Channel → Channel} (hf : ∀ c, (f c).cluster = c.cluster)
    (hn : ∀ c, c.Numbered → (f c).Numbered)
    (hp : ∀ c i p, s.number = some i → c.peers.find? (·.number = i) = some p →
      (f c).peers.find? (·.number = i) = some p) :
    Scene.Course key none (s.scene key)
      (scene key { s with server := s.server.changeChannel s.cluster f }) ∧
    Stands key { s with server := s.server.changeChannel s.cluster f } := by
  obtain ⟨c, hc, hnumbered, hpeer⟩ := h.shows.channel
  have hpeer' : (s.number.bind fun i => (f c).peers.find? (·.number = i)) = s.peer? := by
    cases hi : s.number with
    | none =>
      rw [hi] at hpeer
      exact hpeer
    | some i =>
      obtain ⟨p, hsome⟩ := Option.isSome_iff_exists.1 (h.number (by rw [hi]; rfl))
      rw [hi] at hpeer
      exact (hp c i p hi (hpeer.trans hsome)).trans hsome.symm
  have hv : Shows key { s with server := s.server.changeChannel s.cluster f } (s.scene key) :=
    { h.shows with channel := ⟨f c, channel?_changed hf hc, hn c hnumbered, hpeer'⟩ }
  rw [← hv.eq_scene]
  exact ⟨.step .idle Or.inl, hv.stands fun hs => hv.peer?_eq ▸ h.number hs⟩

theorem join (h : s.Stands key) :
    Scene.Course key none (s.scene key) ((Incident.join.apply s).scene key) ∧
    (Incident.join.apply s).Stands key := by
  refine h.changeChannel (Channel.cluster_accept _) (fun c hn => ?_) fun c i p _ hp => ?_
  · cases hpost : c.post with
    | waiting => exact (hn.accept hpost _).1
    | resting | finished => simpa only [Channel.accept, hpost] using hn
  · unfold Channel.accept
    split
    · exact (List.find?_append ..).trans (by rw [hp]; rfl)
    · exact hp

theorem part (h : s.Stands key) (number : Nat) :
    Scene.Course key none (s.scene key) (((Incident.part number).apply s).scene key) ∧
    ((Incident.part number).apply s).Stands key := by
  simp only [Incident.apply]
  split
  · exact ⟨.step .idle Or.inl, h⟩
  · rename_i hne
    refine h.changeChannel (fun c => rfl) (fun c hn p hp => hn p (List.mem_filter.1 hp).1) fun c i p hi hp => ?_
    have hin : i ≠ number := fun he => hne (he ▸ hi)
    rw [Channel.leave, List.find?_filter, ← hp]
    congr 1
    funext q
    by_cases hq : q.number = i <;> simp [hq, hin]

/-- Whatever happens, the scene keeps its course. -/
theorem incident (h : s.Stands key) (hr : key.replicated) (i : Incident) :
    Scene.Course key (i.decision? key) (s.scene key) ((i.apply s).scene key) ∧
    (i.apply s).Stands key := by
  cases i with
  | move m =>
    by_cases hm : m = .accept
    · subst hm
      by_cases hc : s.connected
      · rw [Incident.apply_accept, if_pos hc]
        exact h.accept hc
      · rw [Incident.apply_accept, if_neg hc]
        exact ⟨.step .idle Or.inl, h⟩
    · rw [Incident.apply_move hm]
      exact h.move hr hm
  | lose => exact h.lose
  | resume => exact h.resume
  | dial failure => exact h.dial failure
  | join => exact h.join
  | part number => exact h.part number

end Stands

/-! ## All incidents -/

variable {config : StoreConfig} {here there : List StoreConfig} {networks : Finset Ip} {own : Ip → Prop}
  {h : List Incident}

theorem Opens.stands (ho : s.Opens config here there) : s.Stands config.key :=
  ho.shows.stands fun hn => by rw [ho.number] at hn; exact nomatch hn

theorem stands_suffered (hs : s.Stands key) (hr : key.replicated) : ∀ h, (s.suffered h).Stands key
  | [] => hs
  | i :: h => ((stands_suffered hs hr h).incident hr i).2

/-- What both nodes come to after some incidents. -/
def scenes (key : Key) (s : Replication) (h : List Incident) : Scene :=
  (s.suffered h).scene key

/-- The peer that the follower is after some incidents. -/
def peers (s : Replication) (h : List Incident) : Option Peer :=
  (s.suffered h).peer?

/-- What is remembered of the session of the follower. -/
def memory (key : Key) (s : Replication) (h : List Incident) : Scene.Memory :=
  Scene.memory (s.scenes key) (Incident.decision? key) h

theorem course_scenes (hs : s.Stands key) (hr : key.replicated) (i : Incident) (h : List Incident) :
    Scene.Course key (i.decision? key) (s.scenes key h) (s.scenes key (i :: h)) :=
  ((stands_suffered hs hr h).incident hr i).1

theorem Opens.kept_scene (ho : s.Opens config here there) (hroom : networks.card ≤ config.capacity) :
    (s.scene config.key).Kept config networks own
      ⟨(s.scene config.key).theirs.assigned, [], (s.scene config.key).ours.assigned, true⟩ := by
  rw [← ho.shows.eq_scene]
  exact ⟨Store.roomy_empty hroom, Store.roomy_empty hroom, rfl, rfl,
    .apart rfl rfl (fun held hheld => (FollowerPost.following.inj hheld).symm) rfl rfl⟩

/-- At the beginning both tables are empty. -/
theorem Opens.assigned_scene (ho : s.Opens config here there) :
    (s.scene config.key).ours.assigned = (fun _ => none) ∧ (s.scene config.key).theirs.assigned = fun _ => none := by
  rw [← ho.shows.eq_scene]
  exact ⟨rfl, rfl⟩

theorem Opens.kept (ho : s.Opens config here there) (hr : config.replicated) (hroom : networks.card ≤ config.capacity) :
    ∀ {h : List Incident}, (∀ d ∈ h.filterMap (Incident.decision? config.key), d.Within config.bits.toNat networks) →
      (s.scenes config.key h).Kept config networks own (s.memory config.key h)
  | [], _ => ho.kept_scene hroom
  | i :: h, hd => by
    have hkept := ho.kept hr hroom fun d hd' => hd d (mem_filterMap_of_suffix (List.suffix_cons i h) hd')
    exact hkept.course (course_scenes ho.stands hr i h) fun d hd' =>
      hd d (List.mem_filterMap.2 ⟨i, List.mem_cons_self, hd'⟩)

/-- The server's table after some incidents is that before them, after the decisions that were made. -/
theorem ours_append (ho : s.Opens config here there) (hr : config.replicated)
    (hroom : networks.card ≤ config.capacity) : ∀ {r h : List Incident},
    (∀ d ∈ (r ++ h).filterMap (Incident.decision? config.key), d.Within config.bits.toNat networks) →
    (s.scenes config.key (r ++ h)).ours.assigned = replay config.bits.toNat
      (r.filterMap (Incident.decision? config.key)).reverse (s.scenes config.key h).ours.assigned
  | [], h, _ => rfl
  | i :: r, h, hd => by
    have hd' : ∀ d ∈ (r ++ h).filterMap (Incident.decision? config.key), d.Within config.bits.toNat networks :=
      fun d hd' => hd d (mem_filterMap_of_suffix (List.suffix_cons i (r ++ h)) hd')
    have hkept : (s.scenes config.key (r ++ h)).Kept config networks (fun _ => False) _ := ho.kept hr hroom hd'
    have hours := (course_scenes ho.stands hr i (r ++ h)).ours hkept.ours hkept.config_ours fun d hid =>
      hd d (List.mem_filterMap.2 ⟨i, List.mem_cons_self, hid⟩)
    rw [List.cons_append, hours, ours_append ho hr hroom hd', ← replay_append]
    congr 1
    cases hi : i.decision? config.key <;> simp [hi]

/-- Whoever is the follower's peer was accepted, and told all assignments then or later. -/
theorem Opens.absence_suffix (ho : s.Opens config here there) (hr : config.replicated) (hp : s.peers h ≠ none) :
    absence s.peers h <:+ greeting s.peers h := by
  refine Scene.absence_suffix_greeting ?_ (fun i h hnone => ?_) h hp
  · rw [peers, suffered, peer?, ho.number]
    rfl
  · have hturn : Scene.Turn config.key ∅ (fun _ => True) _ (s.scenes config.key h) (s.scenes config.key (i :: h)) :=
      .course (course_scenes ho.stands hr i h)
    exact hturn.peer_of_none hnone

/-- What a follower has once all is delivered to it. A network that was decided on since the follower was accepted it
has as the server has it; another one as well if the server has an entry, and else it keeps what it had when it was
accepted. -/
theorem theirs_delivered (ho : s.Opens config here there) (hr : config.replicated)
    (hroom : networks.card ≤ config.capacity)
    (hwithin : ∀ d ∈ h.filterMap (Incident.decision? config.key), d.Within config.bits.toNat networks)
    (hlost : ∀ h', absence s.peers h <:+ h' → h' <:+ h → ∀ p ∈ s.peers h', p.lost = 0)
    (hd : (s.suffered h).Delivered) (n : Ip) :
    (s.scenes config.key h).theirs.assigned n =
      if ∃ d ∈ (session s.peers h).filterMap (Incident.decision? config.key), d.client.mask config.bits.toNat = n then
        ((s.scenes config.key h).ours.assigned n).map Address.unscoped
      else (((s.scenes config.key h).ours.assigned n).map Address.unscoped).or
        ((s.scenes config.key (absence s.peers h)).theirs.assigned n) := by
  obtain ⟨p, hp, hstate, hbacklog, hflight⟩ := hd
  have hkept : (s.scenes config.key h).Kept config networks (fun _ => True) (s.memory config.key h) :=
    ho.kept hr hroom hwithin
  have htheirs := hkept.delivered_session hp hstate hbacklog hflight hlost (n := n) trivial
  split
  · rename_i hmem
    have hours := ours_append ho hr hroom (r := session s.peers h) (h := absence s.peers h)
      (by rwa [session_append_absence])
    rw [session_append_absence] at hours
    -- Since there is a decision, what was there before does not matter.
    have hmem' : ∃ d ∈ ((session s.peers h).filterMap (Incident.decision? config.key)).reverse.map Decision.unscoped,
        d.client.mask config.bits.toNat = n := by
      obtain ⟨d, hd, hn⟩ := hmem
      exact ⟨d.unscoped, List.mem_map_of_mem (List.mem_reverse.2 hd), hn⟩
    rw [hours]
    calc (s.scenes config.key h).theirs.assigned n
      _ = replay config.bits.toNat _ _ n := htheirs
      _ = replay config.bits.toNat _
          (fun n => ((s.scenes config.key (absence s.peers h)).ours.assigned n).map Address.unscoped) n :=
        replay_of_mem hmem'
      _ = (replay config.bits.toNat _ _ n).map Address.unscoped := replay_unscoped rfl
  · rename_i hno
    have hne : ∀ d ∈ (session s.peers h).filterMap (Incident.decision? config.key),
        d.client.mask config.bits.toNat ≠ n := fun d hd hn => hno ⟨d, hd, hn⟩
    -- No decision was made after the server told its table either, so it has what it told.
    obtain ⟨r, hrh, hsub⟩ := Scene.exists_append_greeting (ho.absence_suffix hr fun hnone => by
      rw [peers, hp] at hnone
      cases hnone)
    have hours := ours_append ho hr hroom (r := r) (h := greeting s.peers h) (by rwa [hrh])
    rw [hrh] at hours
    have hsame : (s.scenes config.key h).ours.assigned n =
        (s.scenes config.key (greeting s.peers h)).ours.assigned n := by
      rw [hours]
      refine replay_of_forall_ne fun d hd => hne d ?_
      obtain ⟨i, hi, hdec⟩ := List.mem_filterMap.1 (List.mem_reverse.1 hd)
      exact List.mem_filterMap.2 ⟨i, hsub hi, hdec⟩
    rw [hsame]
    refine htheirs.trans (replay_of_forall_ne fun d hd => ?_)
    obtain ⟨d', hd', rfl⟩ := List.mem_map.1 hd
    exact hne d' (List.mem_reverse.1 hd')

/-- A follower loses its connection and comes back, any number of times, while balancers of the server go on deciding.
Whenever it was told all assignments in its latest session, and all updates since have arrived and none was lost: a
network that was decided on since the follower was accepted is in its table as it is in the server's, but for scopes.
Another network is so too if the server has an entry of it; and if not, the follower has what it had when it was
accepted. So for a network that the server has no entry of the follower answers nothing, if the network was decided on
since the follower was accepted, or the follower had no entry of it then. -/
theorem answers_after_outages (ho : s.Opens config here there) (hr : config.replicated)
    (hroom : (assignedNetworks config.bits.toNat (h.filterMap (Incident.decision? config.key))).card ≤ config.capacity)
    (hlost : ∀ h', absence s.peers h <:+ h' → h' <:+ h → ∀ p ∈ s.peers h', p.lost = 0)
    (hd : (s.suffered h).Delivered) : ∃ ours theirs before,
      (s.suffered h).server.registry.tableOf? config.key = some ours ∧
      (s.suffered h).client.registry.tableOf? config.key = some theirs ∧
      (s.suffered (absence s.peers h)).client.registry.tableOf? config.key = some before ∧
      (∀ n, theirs.assigned n =
        if ∃ d ∈ (session s.peers h).filterMap (Incident.decision? config.key), d.client.mask config.bits.toNat = n then
          (ours.assigned n).map Address.unscoped
        else ((ours.assigned n).map Address.unscoped).or (before.assigned n)) ∧
      ∀ now client, ours.lookup? client = none →
        (∃ d ∈ (session s.peers h).filterMap (Incident.decision? config.key),
          d.client.mask config.bits.toNat = client.mask config.bits.toNat) ∨ before.lookup? client = none →
        (theirs.get now client).1 = none := by
  have hwithin : ∀ d ∈ h.filterMap (Incident.decision? config.key), d.Within config.bits.toNat _ :=
    fun d hd => within_of_mem hd
  have hshows := (stands_suffered ho.stands hr h).shows
  have hkept : (s.scenes config.key h).Kept config _ (fun _ => True) _ := ho.kept hr hroom hwithin
  have hbefore : (s.scenes config.key (absence s.peers h)).Kept config _ (fun _ => True) _ :=
    ho.kept hr hroom fun d hd => hwithin d (mem_filterMap_of_suffix (absence_suffix _ h) hd)
  have hall := theirs_delivered ho hr hroom hwithin hlost hd
  refine ⟨(s.scenes config.key h).ours, (s.scenes config.key h).theirs,
    (s.scenes config.key (absence s.peers h)).theirs, hshows.ours, hshows.theirs,
    (stands_suffered ho.stands hr _).shows.theirs, hall, ?_⟩
  intro now client hours hor
  have hnetwork : ∀ {t : Store}, t.config = config → t.network client = client.mask config.bits.toNat := by
    rintro t rfl
    rfl
  have hnone : (s.scenes config.key h).ours.assigned (client.mask config.bits.toNat) = none := by
    rw [← hnetwork hkept.config_ours]
    exact Option.map_eq_none_iff.2 hours
  refine Store.get_of_assigned now ?_
  rw [hnetwork hkept.config_theirs, hall, hnone]
  split
  · rfl
  · rename_i hno
    rw [← hnetwork hbefore.config_theirs]
    exact Option.map_eq_none_iff.2 (hor.resolve_left hno)

def outageClient (i : UInt8) : Ip := .ofOctets 10 i 0 7

def outageBackend (port : UInt16) : Address := { ip := .ofOctets 192 168 0 1, port }

/-- Two networks are assigned backends. When the second loses its own, the connection breaks while that is told. Until
the follower is back, the first one loses its backend too, and the second is assigned another. -/
def outageHistory : List Incident :=
  let b : Balancer := { chance := { tape := id } }
  let attempt (i : UInt8) (port : UInt16) : Attempts :=
    { client := outageClient i, list := [], remote := some (outageBackend port) }
  [.move (.arrive 100), .move .dump, .move .accept, .dial none, .resume, .move (.wait second),
    .move (.succeed pairConfig.key b (attempt 1 81)), .move (.fail pairConfig.key b (attempt 0 80)), .lose,
    .move (.arrive 10), .move .send, .move (.fail pairConfig.key b (attempt 1 80)), .move (.arrive 100),
    .move .dump, .move .accept, .move (.succeed pairConfig.key b (attempt 1 80)),
    .move (.succeed pairConfig.key b (attempt 0 80))]

theorem opens_pairOpening : pairOpening.Opens pairConfig [pairConfig] [pairConfig] :=
  ⟨rfl, rfl, rfl, rfl, rfl, ⟨_, rfl, fun _ hp => absurd hp List.not_mem_nil⟩, ⟨_, rfl, rfl, rfl⟩, rfl, rfl⟩

theorem answers_after_outages_pair : (pairOpening.suffered outageHistory).Delivered ∧
    ∃ ours theirs before,
      (pairOpening.suffered outageHistory).server.registry.tableOf? pairConfig.key = some ours ∧
      (pairOpening.suffered outageHistory).client.registry.tableOf? pairConfig.key = some theirs ∧
      (pairOpening.suffered (absence pairOpening.peers outageHistory)).client.registry.tableOf? pairConfig.key =
        some before ∧
      ∀ n, theirs.assigned n = ((ours.assigned n).map Address.unscoped).or (before.assigned n) := by
  have hlost : ∀ h' ∈ outageHistory.tails, ∀ p ∈ pairOpening.peers h', p.lost = 0 := by decide +kernel
  have hdelivered : (pairOpening.suffered outageHistory).Delivered := by decide +kernel
  have hquiet : (session pairOpening.peers outageHistory).filterMap (Incident.decision? pairConfig.key) = [] := by
    decide +kernel
  obtain ⟨ours, theirs, before, hours, htheirs, hbefore, hall, -⟩ :=
    answers_after_outages opens_pairOpening (by decide) (by decide +kernel)
      (fun h' _ hs => hlost h' ((List.mem_tails h' _).2 hs)) hdelivered
  refine ⟨hdelivered, ours, theirs, before, hours, htheirs, hbefore, fun n => ?_⟩
  rw [hall n, hquiet, if_neg nofun]

/-- All is delivered, no update was lost, and what the server withdrew while the follower was away the follower
answers. -/
theorem withdrawal_outlived : pairOpening.Opens pairConfig [pairConfig] [pairConfig] ∧
    (pairOpening.suffered outageHistory).Delivered ∧
    (∀ h' ∈ outageHistory.tails, ∀ p ∈ pairOpening.peers h', p.lost = 0) ∧
    ((pairOpening.suffered outageHistory).server.registry.tableOf? pairConfig.key).map
      (fun s => s.lookup? (outageClient 0)) = some none ∧
    ((pairOpening.suffered outageHistory).client.registry.tableOf? pairConfig.key).map
      (fun s => (s.get (pairOpening.suffered outageHistory).now (outageClient 0)).1) =
        some (some (outageBackend 80)) := by
  refine ⟨opens_pairOpening, ?_, ?_, ?_, ?_⟩
  · decide +kernel
  · decide +kernel
  · decide +kernel
  · decide +kernel

end Replication

end AffinityRelay
