import AffinityRelay.Proofs.Cluster.Outage

/-!
# Decisions overlap

A decision is two steps: it is announced, and then written. Connections of their own make decisions at the same time, so
other steps come in between: of other decisions, of the accepting of a follower, and of telling it all assignments.

* `Node.balance_eq_write`: the two steps one after the other are what a balancer does;
* `Overlap`, `Overlap.Act`: a node follows another whose decisions overlap;
* `Overlap.entries_after_overlaps`: the server has what was written, and the follower what was written when it was told
  all assignments, and then what was announced since it was accepted;
* `Overlap.same_entries_in_order`: where decisions are written in the order in which they are announced, and before the
  follower is told the assignments if they were announced before it was accepted, both tables are the same.
-/

namespace AffinityRelay

open AffinityRelay.Frame

/-! ## The two steps of a decision -/

namespace Node

/-- A decision is handed to the channel of its table's cluster, if the table is shared. -/
def announce (key : Key) (d : Decision) (n : Node) : Node :=
  if key.replicated then n.publish key d.client d.backend else n

/-- A decision is written to the table of its key. -/
def write (now : Time) (key : Key) (d : Decision) (n : Node) : Node :=
  { n with registry := (n.registry.settle now key d.client d.backend).2 }

variable {n : Node} {key : Key}

/-- What a balancer does with a decision is to announce it and then to write it. -/
theorem balance_eq_write (h : n.registry.Sound) (hs : (n.registry.tableOf? key).isSome) {now : Time} {d : Decision}
    {f : Balancer → List Announcement × Balancer} (hf : ∀ b, f b = b.settle now d.client d.backend) (b : Balancer) :
    n.balance key f b = (n.announce key d).write now key d := by
  obtain ⟨s, hs⟩ := Option.isSome_iff_exists.1 hs
  obtain ⟨i, hi, ht⟩ := Option.bind_eq_some_iff.1 hs
  have hti : n.registry.table i = s := by simp [Registry.table, ht]
  have hregistry : n.registry.modify i (fun _ => s.settle now d.client d.backend) =
      n.registry.modify i (Store.settle now d.client d.backend) := by
    simp only [Registry.modify]
    congr 1
    refine List.ext_getElem? fun j => ?_
    rw [List.getElem?_modify, List.getElem?_modify]
    by_cases hj : i = j
    · subst hj
      simp [ht]
    · simp [hj]
  have hannounced : (n.announce key d).registry = n.registry := by
    unfold announce
    split <;> rfl
  have htold : Balancer.announce d.client d.backend { b with announces := true, store := s } =
      if key.replicated then [⟨key, d.client, d.backend⟩] else [] := by
    simp [Balancer.announce, StoreConfig.replicated, h.key_of_tableOf? hs]
  simp only [balance, hi, hti, hf, Balancer.settle, htold, write, hannounced, Registry.settle, hregistry]
  unfold announce
  split <;> rfl

end Node

/-- A node follows another, and some decisions of that were announced and have not been written. -/
structure Overlap where
  line : Replication
  /-- The decisions that were announced and not written, the first of them first. -/
  underway : List (Key × Decision) := []

namespace Overlap

/-- What can happen while one node follows another and decisions overlap. -/
inductive Act where
  | move (m : Replication.Move)
  /-- A balancer that works with the table of a key announces a decision. -/
  | announce (key : Key) (d : Decision)
  /-- One of the decisions that were announced is written. -/
  | write (i : Nat)

def Act.apply (o : Overlap) : Act → Overlap
  | move m => { o with line := (Replication.Incident.move m).apply o.line }
  | announce key d =>
    match o.line.server.registry.lookup key with
    | none => o
    | some _ =>
      { line := { o.line with server := o.line.server.announce key d }, underway := o.underway ++ [(key, d)] }
  | write i =>
    match o.underway[i]? with
    | none => o
    | some (key, d) =>
      { line := { o.line with server := o.line.server.write o.line.now key d }, underway := o.underway.eraseIdx i }

/-- What has become of both nodes after some acts, the latest first. -/
def after (o : Overlap) : List Act → Overlap
  | [] => o
  | a :: h => a.apply (o.after h)

/-- The decision on the table of a key that an act announces, if it does. -/
def Act.announced? (key : Key) : Act → Option Decision
  | move m => m.decision? key
  | announce k d => if k = key then some d else none
  | write _ => none

/-- The decision on the table of a key that an act writes, if it does. -/
def Act.written? (key : Key) (o : Overlap) : Act → Option Decision
  | move m => m.decision? key
  | announce _ _ => none
  | write i => (o.underway[i]?).bind fun u => if u.1 = key then some u.2 else none

/-- The decisions on the table of a key that were written, the first of them first. -/
def written (key : Key) (o : Overlap) : List Act → List Decision
  | [] => []
  | a :: h => o.written key h ++ (a.written? key (o.after h)).toList

/-- The peer that the follower is after some acts. -/
def peers (o : Overlap) (h : List Act) : Option Peer :=
  (o.after h).line.peer?

/-- The decisions on the table of a key that were announced since the follower was accepted, the first of them first. -/
def announced (key : Key) (o : Overlap) (h : List Act) : List Decision :=
  ((session o.peers h).filterMap (Act.announced? key)).reverse

variable {key : Key} {o : Overlap} {a : Act} {h : List Act} {config : StoreConfig} {networks : Finset Ip}
  {own : Ip → Prop}

section Steps

variable {s : Replication} {k : Key} {d : Decision}

/-- A decision is announced: the follower is handed it if it is told of the table. -/
theorem announce_turn (hs : s.Stands key) (hr : key.replicated) (k : Key) (d : Decision) :
    Scene.Turn key networks own (if k = key then some d else none) (s.scene key)
      (Replication.scene key { s with server := s.server.announce k d }) ∧
    Replication.Stands key { s with server := s.server.announce k d } ∧
    (Replication.scene key { s with server := s.server.announce k d }).ours = (s.scene key).ours := by
  by_cases hrep : k.replicated
  · obtain ⟨c, hc, hn, hp⟩ := hs.shows.publish (k := k) d.client d.backend
    have hannounce : s.server.announce k d = s.server.publish k d.client d.backend := if_pos hrep
    have hv : Replication.Shows key { s with server := s.server.announce k d }
        { s.scene key with peer := if k.cluster = key.cluster then
            (s.scene key).peer.map (Peer.hand ⟨k.sticky, d.client, d.backend⟩) else (s.scene key).peer } := by
      rw [hannounce]
      exact { hs.shows with channel := ⟨c, hc, hn, hp⟩ }
    have hstands := hv.stands fun hnum => by
      rw [hv.peer?_eq]
      have hsome : (s.scene key).peer.isSome := hs.number hnum
      split
      · simpa using hsome
      · exact hsome
    refine ⟨?_, hstands, by rw [← hv.eq_scene]⟩
    rw [← hv.eq_scene]
    by_cases hk : k = key
    · subst hk
      rw [if_pos rfl, if_pos rfl]
      exact .announce d
    · rw [if_neg hk]
      split
      · rename_i hcl
        exact .course (.step (.other fun hst => hk (congrArg₂ Key.mk hcl hst)) fun hnone =>
          Or.inl (Option.map_eq_none_iff.2 hnone))
      · exact .course (.step .idle Or.inl)
  · have hk : k ≠ key := fun hk => hrep (hk ▸ hr)
    have hannounce : s.server.announce k d = s.server := if_neg hrep
    rw [hannounce, if_neg hk]
    exact ⟨.course (.step .idle Or.inl), hs, rfl⟩

/-- A decision is written, to the table of its key. -/
theorem write_turn (hs : s.Stands config.key) {g : Scene.Memory}
    (hkept : (s.scene config.key).Kept config networks own g) (now : Time) (k : Key) (d : Decision)
    (hd : k = config.key → d.Within config.bits.toNat networks) :
    Scene.Turn config.key networks own none (s.scene config.key)
      (Replication.scene config.key { s with server := s.server.write now k d }) ∧
    Replication.Stands config.key { s with server := s.server.write now k d } ∧
    (Replication.scene config.key { s with server := s.server.write now k d }).ours.assigned =
      replay config.bits.toNat (if k = config.key then some d else none).toList (s.scene config.key).ours.assigned := by
  have htable := Registry.tableOf?_settle hs.shows.server now k config.key d.client d.backend
  rw [hs.shows.ours] at htable
  by_cases hk : k = config.key
  · subst hk
    rw [if_pos rfl, Option.map_some] at htable
    have hv : Replication.Shows config.key { s with server := s.server.write now config.key d }
        { s.scene config.key with ours := (s.scene config.key).ours.settle now d.client d.backend } :=
      { hs.shows with server := hs.shows.server.settle now _ d.client d.backend, ours := htable }
    obtain ⟨ho, ha⟩ := hkept.ours.settle now (hkept.config_ours ▸ hd rfl)
    rw [← hv.eq_scene, if_pos rfl]
    refine ⟨.elsewhere ho hkept.theirs (Store.config_settle ..) rfl fun _ _ => rfl, hv.stands hs.number, ?_⟩
    rw [ha, hkept.config_ours]
    rfl
  · rw [if_neg (Ne.symm hk)] at htable
    have hv : Replication.Shows config.key { s with server := s.server.write now k d } (s.scene config.key) :=
      { hs.shows with server := hs.shows.server.settle now _ d.client d.backend, ours := htable }
    rw [← hv.eq_scene, if_neg hk]
    exact ⟨.course (.step .idle Or.inl), hv.stands hs.number, rfl⟩

end Steps

/-- What an act does: it announces a decision, or writes one, or both. -/
theorem Act.turn (hs : o.line.Stands config.key) (hr : config.replicated) {g : Scene.Memory}
    (hkept : (o.line.scene config.key).Kept config networks own g)
    (hd : ∀ d ∈ a.written? config.key o, d.Within config.bits.toNat networks) :
    Scene.Turn config.key networks own (a.announced? config.key) (o.line.scene config.key)
      ((a.apply o).line.scene config.key) ∧
    (a.apply o).line.Stands config.key ∧
    ((a.apply o).line.scene config.key).ours.assigned =
      replay config.bits.toNat (a.written? config.key o).toList (o.line.scene config.key).ours.assigned := by
  cases a with
  | move m =>
    obtain ⟨hcourse, hstands⟩ := hs.incident hr (.move m)
    exact ⟨.course hcourse, hstands, hcourse.ours hkept.ours hkept.config_ours hd⟩
  | announce k d =>
    cases hl : o.line.server.registry.lookup k with
    | none =>
      have hk : k ≠ config.key := by
        rintro rfl
        have hsome := hs.shows.ours
        rw [Registry.tableOf?, hl] at hsome
        cases hsome
      simp only [apply, hl, announced?, if_neg hk]
      exact ⟨.course (.step .idle Or.inl), hs, rfl⟩
    | some i =>
      simp only [apply, hl]
      obtain ⟨hturn, hstands, hours⟩ := announce_turn hs hr k d
      exact ⟨hturn, hstands, congrArg Store.assigned hours⟩
  | write i =>
    cases hu : o.underway[i]? with
    | none =>
      simp only [apply, hu, written?]
      exact ⟨.course (.step .idle Or.inl), hs, rfl⟩
    | some u =>
      obtain ⟨k, d⟩ := u
      simp only [written?, hu, Option.bind_some] at hd ⊢
      simp only [apply, hu]
      exact write_turn hs hkept o.line.now k d fun hk => hd d (by rw [if_pos hk]; rfl)

/-! ## All acts -/

variable {here there : List StoreConfig}

/-- Whatever is underway was announced. -/
theorem mem_announced_of_underway (hu : o.underway = []) : ∀ {h : List Act} {d : Decision},
    (key, d) ∈ (o.after h).underway → d ∈ h.filterMap (Act.announced? key)
  | [], d, hd => by
    rw [after, hu] at hd
    exact nomatch hd
  | a :: h, d, hd => by
    have older : (key, d) ∈ (o.after h).underway → d ∈ (a :: h).filterMap (Act.announced? key) := fun hd =>
      mem_filterMap_of_suffix (List.suffix_cons a h) (mem_announced_of_underway hu hd)
    cases a with
    | move m => exact older hd
    | announce k d' =>
      simp only [after, Act.apply] at hd
      split at hd
      · exact older hd
      · rcases List.mem_append.1 hd with hd | hd
        · exact older hd
        · obtain ⟨rfl, rfl⟩ := Prod.mk.inj (List.mem_singleton.1 hd)
          exact List.mem_filterMap.2 ⟨_, List.mem_cons_self, if_pos rfl⟩
    | write i =>
      simp only [after, Act.apply] at hd
      split at hd
      · exact older hd
      · exact older (List.mem_of_mem_eraseIdx hd)

/-- What is written was announced. -/
theorem mem_announced_of_written (hu : o.underway = []) {d : Decision} (hd : d ∈ a.written? key (o.after h)) :
    d ∈ (a :: h).filterMap (Act.announced? key) := by
  cases a with
  | move m => exact List.mem_filterMap.2 ⟨_, List.mem_cons_self, hd⟩
  | announce k d' => exact nomatch hd
  | write i =>
    obtain ⟨⟨k, d'⟩, hi, hd'⟩ := Option.bind_eq_some_iff.1 hd
    obtain ⟨rfl, hsome⟩ := Option.ite_none_right_eq_some.1 hd'
    obtain rfl := Option.some.inj hsome
    exact mem_filterMap_of_suffix (List.suffix_cons _ h) (mem_announced_of_underway hu (List.mem_of_getElem? hi))

/-- What was written stays written. -/
theorem written_isPrefix_of_suffix (o : Overlap) (key : Key) : ∀ {h h' : List Act}, h' <:+ h →
    o.written key h' <+: o.written key h
  | [], _, hs => by
    rw [List.suffix_nil.1 hs]
  | a :: h, h', hs => by
    rcases List.suffix_cons_iff.1 hs with rfl | hs
    · exact List.prefix_rfl
    · exact (written_isPrefix_of_suffix o key hs).trans (List.prefix_append _ _)

/-- What both nodes come to after some acts. -/
def scenes (key : Key) (o : Overlap) (h : List Act) : Scene :=
  (o.after h).line.scene key

/-- The server has what was written, and what is kept of the scene is kept all the time. -/
theorem kept (ho : o.line.Opens config here there) (hu : o.underway = []) (hr : config.replicated)
    (hroom : networks.card ≤ config.capacity) : ∀ {h : List Act},
    (∀ d ∈ h.filterMap (Act.announced? config.key), d.Within config.bits.toNat networks) →
    (o.scenes config.key h).Kept config networks own
      (Scene.memory (o.scenes config.key) (Act.announced? config.key) h) ∧
    (o.after h).line.Stands config.key ∧
    (o.scenes config.key h).ours.assigned = replay config.bits.toNat (o.written config.key h) fun _ => none
  | [], _ => ⟨ho.kept_scene hroom, ho.stands, ho.assigned_scene.1⟩
  | a :: h, hd => by
    obtain ⟨hkept, hstands, hours⟩ := kept ho hu hr hroom fun d hd' =>
      hd d (mem_filterMap_of_suffix (List.suffix_cons a h) hd')
    obtain ⟨hturn, hstands', hours'⟩ := Act.turn (a := a) hstands hr hkept fun d hd' =>
      hd d (mem_announced_of_written hu hd')
    refine ⟨hkept.turn hturn fun d hd' => hd d (List.mem_filterMap.2 ⟨a, List.mem_cons_self, hd'⟩), hstands', ?_⟩
    rw [written, replay_append, ← hours]
    exact hours'

/-- The server has what was written. -/
theorem assigned_written (ho : o.line.Opens config here there) (hu : o.underway = []) (hr : config.replicated)
    (hroom : networks.card ≤ config.capacity)
    (hd : ∀ d ∈ h.filterMap (Act.announced? config.key), d.Within config.bits.toNat networks) :
    (o.scenes config.key h).ours.assigned = replay config.bits.toNat (o.written config.key h) fun _ => none := by
  have hkept : (o.scenes config.key h).Kept config networks (fun _ => True) _ ∧ _ ∧ _ := kept ho hu hr hroom hd
  exact hkept.2.2

/-- A follower that has a number keeps it. -/
theorem isSome_number_move {s : Replication} (m : Replication.Move) (hs : s.number.isSome) :
    ((Replication.Incident.move m).apply s).number.isSome := by
  by_cases hm : m = .accept
  · subst hm
    rw [Replication.Incident.apply_accept]
    split
    · unfold Replication.accept
      split
      · rename_i hnum _
        rw [hnum] at hs
        cases hs
      · exact hs
    · exact hs
  · rw [Replication.Incident.apply_move hm, Replication.Move.number_apply hm]
    exact hs

theorem isSome_number_apply (a : Act) (hs : o.line.number.isSome) : (a.apply o).line.number.isSome := by
  cases a with
  | move m => exact isSome_number_move m hs
  | announce k d =>
    simp only [Act.apply]
    split <;> exact hs
  | write i =>
    simp only [Act.apply]
    split <;> exact hs

/-- Until it is accepted a follower has nothing. -/
theorem theirs_of_apart (ho : o.line.Opens config here there) (hu : o.underway = []) (hr : config.replicated)
    (hroom : networks.card ≤ config.capacity) : ∀ {h : List Act},
    (∀ d ∈ h.filterMap (Act.announced? config.key), d.Within config.bits.toNat networks) → o.peers h = none →
    (o.scenes config.key h).theirs.assigned = fun _ => none
  | [], _, _ => ho.assigned_scene.2
  | a :: h, hd, hp => by
    have hd' : ∀ d ∈ h.filterMap (Act.announced? config.key), d.Within config.bits.toNat networks := fun d hd' =>
      hd d (mem_filterMap_of_suffix (List.suffix_cons a h) hd')
    obtain ⟨hkept, hstands, -⟩ := kept (o := o) (h := h) ho hu hr hroom hd'
    obtain ⟨hturn, hstands', -⟩ := Act.turn (a := a) hstands hr hkept fun d hd' =>
      hd d (mem_announced_of_written hu hd')
    -- Who has no number now has had none before.
    have hnumber : (o.after h).line.number = none := by
      refine Option.not_isSome_iff_eq_none.1 fun hs => ?_
      have hsome := hstands'.number (isSome_number_apply a hs)
      rw [show (a.apply (o.after h)).line.peer? = none from hp] at hsome
      exact nomatch hsome
    have hp' : o.peers h = none := by
      rw [peers, Replication.peer?, hnumber]
      rfl
    funext n
    rw [show (o.scenes config.key (a :: h)).theirs.assigned n = _ from hkept.theirs_of_apart hp' hturn (n := n) trivial,
      theirs_of_apart ho hu hr hroom hd' hp']

theorem mem_announced_of_mem_written (hu : o.underway = []) : ∀ {h : List Act} {d : Decision},
    d ∈ o.written key h → d ∈ h.filterMap (Act.announced? key)
  | [], _, hd => nomatch hd
  | a :: h, d, hd => by
    rcases List.mem_append.1 hd with hd | hd
    · exact mem_filterMap_of_suffix (List.suffix_cons a h) (mem_announced_of_mem_written hu hd)
    · exact mem_announced_of_written hu (Option.mem_toList.1 hd)

/-- Once all is delivered, the follower has what was written when it was told all assignments, and then what was
announced since it was accepted. -/
theorem assigned_delivered (ho : o.line.Opens config here there) (hu : o.underway = []) (hr : config.replicated)
    (hroom : networks.card ≤ config.capacity)
    (hwithin : ∀ d ∈ h.filterMap (Act.announced? config.key), d.Within config.bits.toNat networks)
    (hscope : ∀ d ∈ h.filterMap (Act.announced? config.key), ∀ b ∈ d.backend, b.scope = 0)
    (hlost : ∀ h', h' <:+ h → ∀ p ∈ o.peers h', p.lost = 0) (hd : (o.after h).line.Delivered) :
    (o.scenes config.key h).theirs.assigned = replay config.bits.toNat
      (o.written config.key (greeting o.peers h) ++ o.announced config.key h) fun _ => none := by
  obtain ⟨p, hp, hstate, hbacklog, hflight⟩ := hd
  have hkept : (o.scenes config.key h).Kept config networks (fun _ => True) _ := (kept ho hu hr hroom hwithin).1
  -- Before it was accepted the follower had nothing.
  have hbefore : (o.scenes config.key (absence o.peers h)).theirs.assigned = fun _ => none :=
    theirs_of_apart ho hu hr hroom (fun d hd => hwithin d (mem_filterMap_of_suffix (absence_suffix _ h) hd))
      (peer_absence (by rw [peers, after, Replication.peer?, ho.number]; rfl) h)
  -- What it was told had been written.
  have htold := greeting_suffix o.peers h
  have hdumped := assigned_written ho hu hr hroom fun d hd => hwithin d (mem_filterMap_of_suffix htold hd)
  have hunscoped : (o.written config.key (greeting o.peers h)).map Decision.unscoped =
      o.written config.key (greeting o.peers h) :=
    map_unscoped_eq fun d hd => hscope d (mem_filterMap_of_suffix htold (mem_announced_of_mem_written hu hd))
  have hlog : (o.announced config.key h).map Decision.unscoped = o.announced config.key h := by
    refine map_unscoped_eq fun d hd => hscope d ?_
    obtain ⟨a, ha, hda⟩ := List.mem_filterMap.1 (List.mem_reverse.1 hd)
    exact List.mem_filterMap.2 ⟨a, session_subset o.peers h ha, hda⟩
  funext n
  have htheirs := hkept.delivered_session hp hstate hbacklog hflight (fun h' _ hs => hlost h' hs) (n := n) trivial
  have htable := @replay_unscoped config.bits.toNat (o.written config.key (greeting o.peers h)) (fun _ => none)
    (fun _ => none) n rfl
  calc (o.scenes config.key h).theirs.assigned n
    _ = replay config.bits.toNat ((o.announced config.key h).map Decision.unscoped)
        (fun n => (((o.scenes config.key (greeting o.peers h)).ours.assigned n).map Address.unscoped).or
          ((o.scenes config.key (absence o.peers h)).theirs.assigned n)) n := htheirs
    _ = replay config.bits.toNat (o.announced config.key h)
        (replay config.bits.toNat (o.written config.key (greeting o.peers h)) fun _ => none) n := by
      rw [hlog]
      refine replay_congr ?_
      rw [hbefore, hdumped, Option.or_none, ← htable, hunscoped]
    _ = replay config.bits.toNat (o.written config.key (greeting o.peers h) ++ o.announced config.key h)
        (fun _ => none) n := congrFun (replay_append _ _).symm n

/-- Decisions overlap in any way with one another, with the accepting of a follower and with telling it all assignments.
Whenever all is delivered, the server has what was written, in the order in which it was written. The follower has what
had been written when it was told all assignments, and then what was announced since it was accepted, in the order in
which it was announced. So the two tables have the same entries just where these two make the same of an empty table. -/
theorem entries_after_overlaps (ho : o.line.Opens config here there) (hu : o.underway = []) (hr : config.replicated)
    (hroom : (assignedNetworks config.bits.toNat (h.filterMap (Act.announced? config.key))).card ≤ config.capacity)
    (hscope : ∀ d ∈ h.filterMap (Act.announced? config.key), ∀ b ∈ d.backend, b.scope = 0)
    (hlost : ∀ h', h' <:+ h → ∀ p ∈ o.peers h', p.lost = 0) (hd : (o.after h).line.Delivered) :
    ∃ ours theirs, (o.after h).line.server.registry.tableOf? config.key = some ours ∧
      (o.after h).line.client.registry.tableOf? config.key = some theirs ∧
      (∀ n b, (n, b) ∈ ours.entries ↔
        replay config.bits.toNat (o.written config.key h) (fun _ => none) n = some b) ∧
      (∀ n b, (n, b) ∈ theirs.entries ↔
        replay config.bits.toNat (o.written config.key (greeting o.peers h) ++ o.announced config.key h)
          (fun _ => none) n = some b) := by
  have hwithin : ∀ d ∈ h.filterMap (Act.announced? config.key), d.Within config.bits.toNat _ :=
    fun d hd => within_of_mem hd
  have hkept : (o.scenes config.key h).Kept config _ (fun _ => True) _ ∧ _ ∧ _ := kept ho hu hr hroom hwithin
  obtain ⟨hkept, hstands, hours⟩ := hkept
  have htheirs := assigned_delivered ho hu hr hroom hwithin hscope hlost hd
  refine ⟨(o.scenes config.key h).ours, (o.scenes config.key h).theirs, hstands.shows.ours, hstands.shows.theirs,
    fun n b => ?_, fun n b => ?_⟩
  · rw [hkept.ours.mem_entries_iff, hours]
  · rw [hkept.theirs.mem_entries_iff, htheirs]

/-- Where decisions are written in the order in which they are announced, and those that were announced before the
follower was accepted were written before it was told all assignments, both tables have the same entries once all is
delivered. -/
theorem same_entries_in_order (ho : o.line.Opens config here there) (hu : o.underway = []) (hr : config.replicated)
    (hroom : networks.card ≤ config.capacity)
    (hwithin : ∀ d ∈ h.filterMap (Act.announced? config.key), d.Within config.bits.toNat networks)
    (hscope : ∀ d ∈ h.filterMap (Act.announced? config.key), ∀ b ∈ d.backend, b.scope = 0)
    (hlost : ∀ h', h' <:+ h → ∀ p ∈ o.peers h', p.lost = 0) (hd : (o.after h).line.Delivered)
    (horder : o.written config.key h = (h.filterMap (Act.announced? config.key)).reverse)
    (hearlier : ((absence o.peers h).filterMap (Act.announced? config.key)).reverse <+:
      o.written config.key (greeting o.peers h)) :
    (o.scenes config.key h).theirs.assigned = (o.scenes config.key h).ours.assigned := by
  have hall : o.written config.key h = ((absence o.peers h).filterMap (Act.announced? config.key)).reverse ++
      o.announced config.key h := by
    rw [horder, announced, ← List.reverse_append, ← List.filterMap_append, session_append_absence]
  obtain ⟨early, hearly⟩ := hearlier
  -- What was written since the follower was accepted, and before it was told, was announced since then too.
  obtain ⟨late, hlate⟩ : early <+: o.announced config.key h := by
    have hprefix := written_isPrefix_of_suffix o config.key (greeting_suffix o.peers h)
    rwa [← hearly, hall, List.prefix_append_right_inj] at hprefix
  rw [assigned_delivered ho hu hr hroom hwithin hscope hlost hd, assigned_written ho hu hr hroom hwithin, hall,
    ← hearly, ← hlate]
  simp only [replay_append, replay_replay]

/-- Two decisions about a network that is assigned one backend and then another. -/
def overlapDecision (port : UInt16) : Decision :=
  ⟨.ofOctets 10 0 0 7, some { ip := .ofOctets 192 168 0 1, port }⟩

def overlapOpening : Overlap :=
  { line := Replication.pairOpening }

/-- A decision is announced, the follower is accepted and told all assignments, and then the decision is written. -/
def straddlingHistory : List Act :=
  [.move (.arrive 100), .write 0, .move .dump, .move .accept,
    .announce Replication.pairConfig.key (overlapDecision 80)]

/-- Two decisions are announced in one order, and written in the other. -/
def crossingHistory : List Act :=
  [.move (.arrive 100), .move .send, .move .send, .write 0, .write 1,
    .announce Replication.pairConfig.key (overlapDecision 81),
    .announce Replication.pairConfig.key (overlapDecision 80), .move .dump, .move .accept]

theorem entries_after_overlaps_crossing : (overlapOpening.after crossingHistory).line.Delivered ∧
    ∃ ours theirs,
      (overlapOpening.after crossingHistory).line.server.registry.tableOf? Replication.pairConfig.key = some ours ∧
      (overlapOpening.after crossingHistory).line.client.registry.tableOf? Replication.pairConfig.key = some theirs ∧
      (∀ n b, (n, b) ∈ ours.entries ↔
        replay 24 [overlapDecision 81, overlapDecision 80] (fun _ => none) n = some b) ∧
      (∀ n b, (n, b) ∈ theirs.entries ↔
        replay 24 [overlapDecision 80, overlapDecision 81] (fun _ => none) n = some b) := by
  have hlost : ∀ h' ∈ crossingHistory.tails, ∀ p ∈ overlapOpening.peers h', p.lost = 0 := by decide +kernel
  have hdelivered : (overlapOpening.after crossingHistory).line.Delivered := by decide +kernel
  have hwritten : overlapOpening.written Replication.pairConfig.key crossingHistory =
      [overlapDecision 81, overlapDecision 80] := by decide +kernel
  have htold : overlapOpening.written Replication.pairConfig.key (greeting overlapOpening.peers crossingHistory) ++
      overlapOpening.announced Replication.pairConfig.key crossingHistory =
      [overlapDecision 80, overlapDecision 81] := by decide +kernel
  obtain ⟨ours, theirs, hours, htheirs, hall, hall'⟩ :=
    entries_after_overlaps (o := overlapOpening) (h := crossingHistory) Replication.opens_pairOpening rfl (by decide)
      (by decide +kernel) (by decide +kernel) (fun h' hs => hlost h' ((List.mem_tails h' _).2 hs)) hdelivered
  rw [hwritten] at hall
  rw [htold] at hall'
  exact ⟨hdelivered, ours, theirs, hours, htheirs, hall, hall'⟩

/-- The assignments in the tables of the two nodes after some acts. -/
def entries? (h : List Act) : Option (List (Ip × Address)) × Option (List (Ip × Address)) :=
  let s := (overlapOpening.after h).line
  ((s.server.registry.tableOf? Replication.pairConfig.key).map Store.entries,
    (s.client.registry.tableOf? Replication.pairConfig.key).map Store.entries)

/-- All decisions were written and all is delivered, and the tables are not the same: a decision that the follower was
accepted and told all assignments in the middle of is lost, and of two decisions the server has the one and the follower
the other. -/
theorem decisions_fall_between :
    overlapOpening.line.Opens Replication.pairConfig [Replication.pairConfig] [Replication.pairConfig] ∧
    (∀ h ∈ [straddlingHistory, crossingHistory], (overlapOpening.after h).line.Delivered ∧
      (overlapOpening.after h).underway = [] ∧ ∀ h' ∈ h.tails, ∀ p ∈ overlapOpening.peers h', p.lost = 0) ∧
    entries? straddlingHistory = (some [(.v4 #v[10, 0, 0, 0], { ip := .v4 #v[192, 168, 0, 1], port := 80 })], some []) ∧
    entries? crossingHistory = (some [(.v4 #v[10, 0, 0, 0], { ip := .v4 #v[192, 168, 0, 1], port := 80 })],
      some [(.v4 #v[10, 0, 0, 0], { ip := .v4 #v[192, 168, 0, 1], port := 81 })]) := by
  refine ⟨Replication.opens_pairOpening, ?_⟩
  decide +kernel

end Overlap

end AffinityRelay
