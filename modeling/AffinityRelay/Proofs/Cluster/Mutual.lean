import AffinityRelay.Proofs.Cluster.Outage

/-!
# Two nodes follow each other

Each of two nodes tells the other what it decides, and also what it was told, when it comes to tell all its assignments.
So a node may be told an older decision of its own, and writes that down.

* `Exchange`: two nodes, and a line from each of them to the other;
* `Exchange.turn`: what happens on one line is for the other line the work of others;
* `Exchange.heard`: what came to a node on a line, and `Exchange.assigned_decided`: a node has what it decided last,
  while nothing else comes to it;
* `Exchange.last_decision_holds`: then the other node has that too.
-/

namespace AffinityRelay

open AffinityRelay.Frame

/-! ## One line -/

/-- What a balancer does leaves the followers of its node alone. -/
theorem Node.followers_balance (key : Key) (f : Balancer → List Announcement × Balancer) (b : Balancer) (n : Node) :
    (n.balance key f b).followers = n.followers := by
  have published : ∀ (told : List Announcement) (n : Node),
      (told.foldl (fun n t => n.publish t.key t.client t.backend) n).followers = n.followers := by
    intro told
    induction told with
    | nil => exact fun n => rfl
    | cons t told ih => exact fun n => ih _
  unfold balance
  split
  · rfl
  · exact published _ n

namespace Replication

variable {config : StoreConfig} {networks : Finset Ip} {own : Ip → Prop} {s : Replication} {g : Scene.Memory}

/-- The decisions on the table of a key that come to the follower in an incident. -/
def Incident.heard (key : Key) (s : Replication) : Incident → List Decision
  | move (.arrive n) =>
    match (s.scene key).post with
    | .following held => decisions key.sticky (decodeAll (held ++ s.flight.take n)).1
    | _ => []
  | _ => []

/-- What an incident on a line leaves alone: what the nodes have for a line the other way, and unless bytes arrive the
tables of the follower. -/
structure Incident.Spares (i : Incident) (s s' : Replication) : Prop where
  cluster : s'.cluster = s.cluster
  place : s'.place = s.place
  channels : s'.client.channels = s.client.channels
  followers : s'.server.followers = s.server.followers
  tables : (∃ n, i = .move (.arrive n)) ∨
    (∀ key, i.heard key s = []) ∧ s'.client.registry = s.client.registry

theorem Incident.spares (i : Incident) (s : Replication) : i.Spares s (i.apply s) := by
  have served : ∀ f, (s.serve f).cluster = s.cluster ∧ (s.serve f).place = s.place ∧
      (s.serve f).client = s.client ∧ (s.serve f).server.followers = s.server.followers := by
    intro f
    unfold serve
    split <;> exact ⟨rfl, rfl, rfl, rfl⟩
  have accepted : s.accept.cluster = s.cluster ∧ s.accept.place = s.place ∧ s.accept.client = s.client ∧
      s.accept.server.followers = s.server.followers := by
    unfold Replication.accept
    split
    · split <;> exact ⟨rfl, rfl, rfl, rfl⟩
    · exact ⟨rfl, rfl, rfl, rfl⟩
  have client_same : ∀ {i : Incident} {s' : Replication}, (∀ key, i.heard key s = []) →
      s'.cluster = s.cluster ∧ s'.place = s.place ∧ s'.client = s.client ∧
        s'.server.followers = s.server.followers → i.Spares s s' := by
    rintro i s' hheard ⟨hcluster, hplace, hclient, hfollowers⟩
    exact ⟨hcluster, hplace, congrArg Node.channels hclient, hfollowers,
      Or.inr ⟨hheard, congrArg Node.registry hclient⟩⟩
  cases i with
  | move m =>
    cases m with
    | succeed | fail | lookUp => exact client_same (fun _ => rfl) ⟨rfl, rfl, rfl, Node.followers_balance ..⟩
    | accept =>
      rw [apply_accept]
      split
      · exact client_same (fun _ => rfl) accepted
      · exact client_same (fun _ => rfl) ⟨rfl, rfl, rfl, rfl⟩
    | dump | send => exact client_same (fun _ => rfl) (served _)
    | arrive n =>
      refine ⟨rfl, rfl, ?_, rfl, Or.inl ⟨n, rfl⟩⟩
      show (s.client.receive s.now s.place (s.flight.take n)).channels = _
      unfold Node.receive
      split <;> rfl
    | wait => exact client_same (fun _ => rfl) ⟨rfl, rfl, rfl, rfl⟩
  | lose | resume | dial => exact ⟨rfl, rfl, rfl, rfl, Or.inr ⟨fun _ => rfl, rfl⟩⟩
  | join => exact client_same (fun _ => rfl) ⟨rfl, rfl, rfl, rfl⟩
  | part number =>
    simp only [apply]
    split <;> exact client_same (fun _ => rfl) ⟨rfl, rfl, rfl, rfl⟩

/-- What arrives is written to the follower's table. -/
theorem Stands.theirs_arrive (hs : s.Stands config.key)
    (hkept : (s.scene config.key).Kept config networks own g) (n : Nat) :
    (((Incident.move (.arrive n)).apply s).scene config.key).theirs.assigned =
      replay config.bits.toNat ((Incident.move (.arrive n)).heard config.key s)
        (s.scene config.key).theirs.assigned := by
  obtain ⟨f, hf, hcl, hpost⟩ := hs.shows.follower
  have hregistry : ((Incident.move (.arrive n)).apply s).client.registry =
      (f.receive s.now (s.flight.take n) s.client.registry).2 := by
    show (s.client.receive s.now s.place (s.flight.take n)).registry = _
    simp only [Node.receive, hf]
  simp only [Incident.heard]
  split
  · rename_i held hheld
    rcases hd : decodeAll (held ++ s.flight.take n) with ⟨fs, left⟩
    have hreceive : (f.receive s.now (s.flight.take n) s.client.registry).2 =
        applyFrames s.now config.key.cluster s.client.registry fs := by
      simp only [Follower.receive, hpost, hheld, hd, hcl, hs.shows.cluster]
    have htable := (Registry.tableOf?_applyFrames hs.shows.client s.now config.key fs).2
    rw [hs.shows.theirs, Option.map_some, ← hreceive, ← hregistry] at htable
    have hwithin := (hkept.within_arrived hheld hd).2
    rw [← hkept.config_theirs] at hwithin
    have hsettle := (hkept.theirs.settleAll s.now hwithin).2
    rw [hkept.config_theirs] at hsettle
    rw [← hsettle, scene, htable]
    rfl
  · rename_i hno
    have hreceive : (f.receive s.now (s.flight.take n) s.client.registry).2 = s.client.registry := by
      unfold Follower.receive
      split
      · rename_i held hheld
        exact absurd (hpost.symm.trans hheld) (hno held)
      · rfl
    rw [scene, hregistry, hreceive]
    rfl

/-- Only by what comes to it the follower's table changes. -/
theorem Stands.theirs (hs : s.Stands config.key) (hkept : (s.scene config.key).Kept config networks own g)
    (i : Incident) : ((i.apply s).scene config.key).theirs.assigned =
      replay config.bits.toNat (i.heard config.key s) (s.scene config.key).theirs.assigned := by
  obtain ⟨n, rfl⟩ | ⟨hheard, hregistry⟩ := (i.spares s).tables
  · exact hs.theirs_arrive hkept n
  · rw [hheard, scene, hregistry]
    rfl

end Replication

/-! ## Both lines -/

/-- Two nodes of a cluster, each of which follows the other. A line goes from either of them, and goes by its name. -/
structure Exchange where
  cluster : UInt64
  node : Bool → Node
  /-- The place of the follower of a line at its node. -/
  place : Bool → Nat
  now : Time := 0
  /-- The number of the follower of a line among the peers, once it was accepted. -/
  number : Bool → Option Nat := fun _ => none
  /-- The bytes that were sent on a line and have not arrived. -/
  flight : Bool → List UInt8 := fun _ => []

namespace Exchange

/-- The line from a node to the other. -/
def line (i : Bool) (e : Exchange) : Replication where
  cluster := e.cluster
  server := e.node i
  client := e.node (!i)
  place := e.place i
  now := e.now
  number := e.number i
  flight := e.flight i

/-- What has become of a line becomes of both nodes. -/
def put (i : Bool) (s : Replication) (e : Exchange) : Exchange :=
  { e with
    node := fun j => if j = i then s.server else s.client
    now := s.now
    number := fun j => if j = i then s.number else e.number j
    flight := fun j => if j = i then s.flight else e.flight j }

/-- Both nodes after an incident on one of the lines. -/
def apply (e : Exchange) (a : Bool × Replication.Incident) : Exchange :=
  e.put a.1 (a.2.apply (e.line a.1))

/-- All that happened, and on which line, the latest first. -/
abbrev History := List (Bool × Replication.Incident)

/-- Both nodes after some incidents. -/
def after (e : Exchange) : History → Exchange
  | [] => e
  | a :: h => (e.after h).apply a

/-- The beginning of both lines. -/
def Opens (config : StoreConfig) (here : Bool → List StoreConfig) (e : Exchange) : Prop :=
  ∀ i, (e.line i).Opens config (here i) (here (!i))

/-- The decision on the table of a key that a node makes in an incident, if it does. -/
def decision? (key : Key) (i : Bool) (a : Bool × Replication.Incident) : Option Decision :=
  if a.1 = i then a.2.decision? key else none

theorem mem_filterMap_decision? {key : Key} {i : Bool} {h : History} {d : Decision} :
    d ∈ h.filterMap (decision? key i) ↔ ∃ x, (i, x) ∈ h ∧ x.decision? key = some d := by
  cases i <;> simp [List.mem_filterMap, decision?]

/-- The decisions on the table of a key that came to the follower of a line, the first of them first. -/
def heard (key : Key) (i : Bool) (e : Exchange) : History → List Decision
  | [] => []
  | a :: h => e.heard key i h ++ if a.1 = i then a.2.heard key ((e.after h).line i) else []

/-- The peer that the follower of a line is after some incidents. -/
def peers (i : Bool) (e : Exchange) (h : History) : Option Peer :=
  ((e.after h).line i).peer?

/-- What a line comes to after some incidents. -/
def scenes (key : Key) (i : Bool) (e : Exchange) (h : History) : Scene :=
  ((e.after h).line i).scene key

variable {e : Exchange} {i j : Bool} {key : Key} {s : Replication} {config : StoreConfig} {networks : Finset Ip}
  {own : Bool → Ip → Prop} {a : Bool × Replication.Incident} {h : History}

theorem after_append (e : Exchange) (h : History) : ∀ r,
    e.after (r ++ h) = (e.after h).after r
  | [] => rfl
  | a :: r => congrArg (apply · a) (after_append e h r)

theorem line_put (hc : s.cluster = e.cluster) (hp : s.place = e.place i) : (e.put i s).line i = s := by
  obtain ⟨cluster, server, client, place, now, number, flight⟩ := s
  obtain rfl : cluster = e.cluster := hc
  obtain rfl : place = e.place i := hp
  simp [put, line]

theorem line_apply (e : Exchange) (i : Bool) (x : Replication.Incident) :
    (e.apply (i, x)).line i = x.apply (e.line i) :=
  line_put (x.spares _).cluster (x.spares _).place

theorem line_put_not : (e.put i s).line (!i) =
    { e.line (!i) with server := s.client, client := s.server, now := s.now } := by
  simp [put, line]

/-- Both lines end at one pair of tables. -/
theorem theirs_not : ((e.line (!i)).scene key).theirs = ((e.line i).scene key).ours := by
  simp [Replication.scene, line]

/-- For the line the other way, others wrote to both tables. -/
theorem shows_put_not (hs : (e.line (!i)).Stands key) (hs' : s.Stands key)
    (hchannels : s.client.channels = (e.node (!i)).channels) (hfollowers : s.server.followers = (e.node i).followers) :
    ((e.put i s).line (!i)).Shows key
      { (e.line (!i)).scene key with ours := (s.scene key).theirs, theirs := (s.scene key).ours } := by
  rw [line_put_not]
  obtain ⟨c, hc, hn, hp⟩ := hs.shows.channel
  obtain ⟨f, hf, hcl, hpost⟩ := hs.shows.follower
  refine ⟨hs.shows.cluster, hs'.shows.client, hs'.shows.server, hs'.shows.theirs, hs'.shows.ours,
    ⟨c, ?_, hn, hp⟩, ⟨f, ?_, hcl, hpost⟩, hs.shows.flight⟩
  · show s.client.channels.find? _ = _
    rw [hchannels]
    exact hc
  · show s.server.followers[e.place (!i)]? = _
    rw [hfollowers]
    simpa [line] using hf

/-- An incident on a line takes its scene along its course. For the line the other way, others wrote to both tables. -/
theorem scene_apply (hs : ∀ i, (e.line i).Stands key) (hr : key.replicated) (a : Bool × Replication.Incident)
    (i : Bool) : ((e.apply a).line i).Stands key ∧
    (a.1 = i ∧ Scene.Course key (a.2.decision? key) ((e.line i).scene key) (((e.apply a).line i).scene key) ∨
      a.1 = !i ∧ ((e.apply a).line i).scene key =
        { (e.line i).scene key with
          ours := (((e.apply a).line (!i)).scene key).theirs
          theirs := (((e.apply a).line (!i)).scene key).ours }) := by
  obtain ⟨j, x⟩ := a
  obtain ⟨hcourse, hstands⟩ := (hs j).incident hr x
  have hspares := x.spares (e.line j)
  rcases Bool.eq_or_eq_not j i with rfl | rfl
  · rw [line_apply]
    exact ⟨hstands, Or.inl ⟨rfl, hcourse⟩⟩
  · have hshows := shows_put_not (hs (!!i)) hstands hspares.channels hspares.followers
    rw [line_apply]
    rw [Bool.not_not] at hshows
    exact ⟨hshows.stands fun hn => by
      rw [hshows.peer?_eq]
      exact (hs i).number (by simpa [apply, put, line] using hn), Or.inr ⟨rfl, hshows.eq_scene.symm⟩⟩

/-- An incident on one line is a turn of either. -/
theorem turn (hs : ∀ i, (e.line i).Stands config.key) (hr : config.replicated) {g : Bool → Scene.Memory}
    (hkept : ∀ i, ((e.line i).scene config.key).Kept config networks (own i) (g i))
    (hd : ∀ d ∈ a.2.decision? config.key,
      d.Within config.bits.toNat networks ∧ ¬ own (!a.1) (d.client.mask config.bits.toNat)) (i : Bool) :
    Scene.Turn config.key networks (own i) (decision? config.key i a) ((e.line i).scene config.key)
      (((e.apply a).line i).scene config.key) := by
  obtain ⟨-, ⟨rfl, hcourse⟩ | ⟨hnot, hscene⟩⟩ := scene_apply hs hr a i
  · rw [decision?, if_pos rfl]
    exact .course hcourse
  · obtain ⟨-, ⟨-, hcourse⟩ | ⟨hother, -⟩⟩ := scene_apply hs hr a (!i)
    · have hkept' := (hkept (!i)).course hcourse fun d hd' => (hd d hd').1
      rw [decision?, if_neg (by simp [hnot]), hscene]
      refine .elsewhere hkept'.theirs hkept'.ours ?_ ?_ fun n hn => ?_
      · rw [hkept'.config_theirs, (hkept i).config_ours]
      · rw [hkept'.config_ours, (hkept i).config_theirs]
      · -- What the server of the other line decides is not about the networks of this one's own.
        rw [hcourse.ours (hkept (!i)).ours (hkept (!i)).config_ours fun d hd' => (hd d hd').1, ← theirs_not,
          Bool.not_not]
        exact replay_of_forall_ne fun d hd' he => (hd d (Option.mem_toList.1 hd')).2 (by rwa [hnot, Bool.not_not, he])
    · simp [hnot] at hother

/-! ## All incidents -/

/-- What is remembered of the session of the follower of a line. -/
def memory (key : Key) (i : Bool) (e : Exchange) (h : History) : Scene.Memory :=
  Scene.memory (e.scenes key i) (decision? key i) h

/-- There is room for what is decided, and no node decides about the other's own networks. -/
def Divided (config : StoreConfig) (networks : Finset Ip) (own : Bool → Ip → Prop)
    (h : History) : Prop :=
  ∀ a ∈ h, ∀ d ∈ a.2.decision? config.key,
    d.Within config.bits.toNat networks ∧ ¬ own (!a.1) (d.client.mask config.bits.toNat)

theorem Divided.mono {h' : History} (hd : Divided config networks own h) (hs : h' ⊆ h) :
    Divided config networks own h' :=
  fun a ha => hd a (hs ha)

theorem Divided.tail (hd : Divided config networks own (a :: h)) : Divided config networks own h :=
  hd.mono (List.subset_cons_self a h)

variable {here : Bool → List StoreConfig} {r : History} {n : Ip}

theorem stands_after (ho : e.Opens config here) (hr : config.replicated) : ∀ h i,
    ((e.after h).line i).Stands config.key
  | [], i => (ho i).stands
  | a :: h, i => (scene_apply (stands_after ho hr h) hr a i).1

/-- What is kept of the scene of a line is kept all the time. -/
theorem kept (ho : e.Opens config here) (hr : config.replicated)
    (hroom : networks.card ≤ config.capacity) : ∀ {h : History},
    Divided config networks own h → ∀ i,
    (e.scenes config.key i h).Kept config networks (own i) (e.memory config.key i h)
  | [], _, i => (ho i).kept_scene hroom
  | a :: h, hd, i => by
    have hkept := kept ho hr hroom hd.tail
    have hturn := turn (stands_after ho hr h) hr hkept (hd a List.mem_cons_self) i
    refine (hkept i).turn hturn fun d hd' => ?_
    rw [decision?] at hd'
    split at hd'
    · exact (hd a List.mem_cons_self d hd').1
    · exact nomatch hd'

/-- Whoever is the peer of a line was accepted, and told all assignments then or later. -/
theorem absence_suffix_greeting (ho : e.Opens config here) (hr : config.replicated)
    (hp : e.peers i h ≠ none) : absence (e.peers i) h <:+ greeting (e.peers i) h := by
  refine Scene.absence_suffix_greeting ?_ (fun a h hnone => ?_) h hp
  · rw [peers, after, Replication.peer?, (ho i).number]
    rfl
  · obtain ⟨-, ⟨-, hcourse⟩ | ⟨-, hscene⟩⟩ := scene_apply (stands_after ho hr h) hr a i
    · have hturn : Scene.Turn config.key ∅ (fun _ => True) _ (e.scenes config.key i h)
          (e.scenes config.key i (a :: h)) := .course hcourse
      exact hturn.peer_of_none hnone
    · exact Or.inl ((congrArg Scene.peer hscene).trans hnone)

/-- A node writes what it decides, and what comes to it. -/
theorem ours_apply (hs : ∀ i, (e.line i).Stands config.key) (hr : config.replicated) {g : Bool → Scene.Memory}
    (hkept : ∀ i, ((e.line i).scene config.key).Kept config networks (own i) (g i))
    (hd : ∀ d ∈ a.2.decision? config.key, d.Within config.bits.toNat networks) (i : Bool) :
    (((e.apply a).line i).scene config.key).ours.assigned =
      replay config.bits.toNat
        (if a.1 = !i then a.2.heard config.key (e.line (!i)) else (a.2.decision? config.key).toList)
        ((e.line i).scene config.key).ours.assigned := by
  obtain ⟨j, x⟩ := a
  by_cases hij : j = !i
  · subst hij
    rw [if_pos rfl, ← theirs_not, ← theirs_not, line_apply]
    exact (hs (!i)).theirs (hkept (!i)) x
  · obtain rfl : j = i := by
      cases i <;> cases j <;> simp_all
    rw [if_neg hij, line_apply]
    exact ((hs j).incident hr x).1.ours (hkept j).ours (hkept j).config_ours hd

/-- What came to a follower earlier came to it. -/
theorem heard_subset_of_suffix (e : Exchange) (key : Key) (i : Bool) : ∀ {r r' : History},
    r' <:+ r → e.heard key i r' ⊆ e.heard key i r
  | [], _, hs => by
    rw [List.suffix_nil.1 hs]
    exact List.Subset.refl _
  | a :: r, r', hs => by
    rcases List.suffix_cons_iff.1 hs with rfl | hs
    · exact List.Subset.refl _
    · exact fun d hd => List.mem_append_left _ (heard_subset_of_suffix e key i hs hd)

/-- What a node has of a network it has, while it makes no decision about it and nothing else comes to it. -/
theorem assigned_server (ho : e.Opens config here) (hr : config.replicated)
    (hroom : networks.card ≤ config.capacity) : ∀ {r : History},
    Divided config networks own (r ++ h) →
    (∀ d ∈ r.filterMap (decision? config.key i), d.client.mask config.bits.toNat ≠ n) →
    (∀ d ∈ (e.after h).heard config.key (!i) r, d.client.mask config.bits.toNat = n →
      d.backend = (e.scenes config.key i h).ours.assigned n) →
    (e.scenes config.key i (r ++ h)).ours.assigned n = (e.scenes config.key i h).ours.assigned n
  | [], _, _, _ => rfl
  | a :: r, hd, hquiet, hheard => by
    have hkept := kept ho hr hroom hd.tail
    have hours := ours_apply (stands_after ho hr (r ++ h)) hr hkept
      (fun d hd' => (hd a List.mem_cons_self d hd').1) i
    have ih := assigned_server ho hr hroom hd.tail
      (fun d hd' => hquiet d (mem_filterMap_of_suffix (List.suffix_cons a r) hd'))
      fun d hd' => hheard d (List.mem_append_left _ hd')
    refine (congrFun hours n).trans (Eq.trans (replay_of_forall_eq fun d hd' hn => ?_) ih)
    refine Eq.trans ?_ ih.symm
    split at hd'
    · rename_i hai
      refine hheard d (List.mem_append_right _ ?_) hn
      rwa [if_pos hai, ← after_append]
    · rename_i hai
      have hai : a.1 = i := by
        cases i <;> cases h1 : a.1 <;> simp_all
      refine absurd hn (hquiet d (List.mem_filterMap.2 ⟨a, List.mem_cons_self, ?_⟩))
      rw [decision?, if_pos hai]
      exact Option.mem_toList.1 hd'

/-- Once all that was sent on a line is delivered, its follower has of its server's own networks what was announced
since it was accepted, on top of what the server told it, on top of what it had. -/
theorem theirs_delivered (ho : e.Opens config here) (hr : config.replicated)
    (hroom : networks.card ≤ config.capacity) (hdiv : Divided config networks own h) (hown : own i n)
    (hlost : ∀ h', absence (e.peers i) h <:+ h' → h' <:+ h → ∀ p ∈ e.peers i h', p.lost = 0)
    (hd : ((e.after h).line i).Delivered) :
    (e.scenes config.key i h).theirs.assigned n =
      replay config.bits.toNat
        (((session (e.peers i) h).filterMap (decision? config.key i)).reverse.map Decision.unscoped)
        (fun n => (((e.scenes config.key i (greeting (e.peers i) h)).ours.assigned n).map Address.unscoped).or
          ((e.scenes config.key i (absence (e.peers i) h)).theirs.assigned n)) n := by
  obtain ⟨p, hp, hstate, hbacklog, hflight⟩ := hd
  exact (kept ho hr hroom hdiv i).delivered_session hp hstate hbacklog hflight hlost hown

section LastDecision

variable {x : Replication.Incident} {d : Decision}

/-- A decision is the last one that a node made about a network, before some incidents. -/
structure Last (config : StoreConfig) (i : Bool) (r : History) (x : Replication.Incident) (d : Decision) : Prop where
  decided : x.decision? config.key = some d
  quiet : ∀ d' ∈ r.filterMap (decision? config.key i),
    d'.client.mask config.bits.toNat ≠ d.client.mask config.bits.toNat

theorem Last.of_suffix {r' : History} (h : Last config i r x d) (hs : r' <:+ r) : Last config i r' x d :=
  ⟨h.decided, fun d' hd => h.quiet d' (mem_filterMap_of_suffix hs hd)⟩

/-- What a node decided last about a network it has, while nothing else comes to it. -/
theorem assigned_decided (ho : e.Opens config here) (hr : config.replicated)
    (hroom : networks.card ≤ config.capacity) (hdiv : Divided config networks own (r ++ (i, x) :: h))
    (hlast : Last config i r x d)
    (hheard : ∀ d' ∈ (e.after ((i, x) :: h)).heard config.key (!i) r,
      d'.client.mask config.bits.toNat = d.client.mask config.bits.toNat → d'.backend = d.backend) :
    (e.scenes config.key i (r ++ (i, x) :: h)).ours.assigned (d.client.mask config.bits.toNat) = d.backend := by
  have hdiv' : Divided config networks own ((i, x) :: h) := hdiv.mono (List.subset_append_right r _)
  have hkept := kept ho hr hroom hdiv'.tail
  have hours := ours_apply (stands_after ho hr h) hr hkept
    (fun d' hd' => (hdiv' _ List.mem_cons_self d' hd').1) i
  rw [if_neg (by simp), hlast.decided] at hours
  have hnow : (e.scenes config.key i ((i, x) :: h)).ours.assigned (d.client.mask config.bits.toNat) = d.backend :=
    (congrFun hours _).trans (Function.update_self ..)
  rw [assigned_server ho hr hroom hdiv hlast.quiet fun d' hd' hn => (hheard d' hd' hn).trans hnow.symm, hnow]

/-- Once all that was sent on a line is delivered, its follower has what its server decided last about a network of its
own, if that was decided since the follower was accepted. -/
theorem assigned_announced (ho : e.Opens config here) (hr : config.replicated)
    (hroom : networks.card ≤ config.capacity) (hdiv : Divided config networks own (r ++ (i, x) :: h))
    (hown : own i (d.client.mask config.bits.toNat)) (hlast : Last config i r x d)
    (hscope : ∀ b ∈ d.backend, b.scope = 0) (hlate : absence (e.peers i) (r ++ (i, x) :: h) <:+ h)
    (hlost : ∀ h', absence (e.peers i) (r ++ (i, x) :: h) <:+ h' → h' <:+ r ++ (i, x) :: h →
      ∀ p ∈ e.peers i h', p.lost = 0)
    (hd : ((e.after (r ++ (i, x) :: h)).line i).Delivered) :
    (e.scenes config.key i (r ++ (i, x) :: h)).theirs.assigned (d.client.mask config.bits.toNat) = d.backend := by
  obtain ⟨mid, hmid⟩ := session_of_absence_suffix hlate
  have hdec : decision? config.key i (i, x) = some d := (if_pos rfl).trans hlast.decided
  rw [theirs_delivered ho hr hroom hdiv hown hlost hd, hmid, List.filterMap_append, List.filterMap_cons_some hdec,
    List.reverse_append, List.reverse_cons, List.map_append, List.map_append, replay_append, replay_append,
    replay_of_forall_ne fun d' hd' => ?_]
  · rw [List.map_singleton, Decision.unscoped_eq hscope]
    exact Function.update_self ..
  · obtain ⟨d', hd'', rfl⟩ := List.mem_map.1 hd'
    exact hlast.quiet d' (List.mem_reverse.1 hd'')

/-- If it was decided before that, and nothing else came to the server since, the follower has what the server told it
of the network, or what it had itself where the server had nothing to tell. -/
theorem assigned_told (ho : e.Opens config here) (hr : config.replicated)
    (hroom : networks.card ≤ config.capacity) (hdiv : Divided config networks own (r ++ (i, x) :: h))
    (hown : own i (d.client.mask config.bits.toNat)) (hlast : Last config i r x d)
    (hheard : ∀ d' ∈ (e.after ((i, x) :: h)).heard config.key (!i) r,
      d'.client.mask config.bits.toNat = d.client.mask config.bits.toNat → d'.backend = d.backend)
    (hscope : ∀ b ∈ d.backend, b.scope = 0) (hlate : ¬ absence (e.peers i) (r ++ (i, x) :: h) <:+ h)
    (hlost : ∀ h', absence (e.peers i) (r ++ (i, x) :: h) <:+ h' → h' <:+ r ++ (i, x) :: h →
      ∀ p ∈ e.peers i h', p.lost = 0)
    (hd : ((e.after (r ++ (i, x) :: h)).line i).Delivered) :
    (e.scenes config.key i (r ++ (i, x) :: h)).theirs.assigned (d.client.mask config.bits.toNat) =
      d.backend.or ((e.scenes config.key i (absence (e.peers i) (r ++ (i, x) :: h))).theirs.assigned
        (d.client.mask config.bits.toNat)) := by
  have hearly : (i, x) :: h <:+ absence (e.peers i) (r ++ (i, x) :: h) := by
    rcases List.suffix_or_suffix_of_suffix (absence_suffix (e.peers i) (r ++ (i, x) :: h))
      (List.suffix_append r ((i, x) :: h)) with hs | hs
    · rcases List.suffix_cons_iff.1 hs with heq | hs
      · rw [heq]
      · exact absurd hs hlate
    · exact hs
  -- When the follower was told the table, the server had what it had decided.
  have hsome : e.peers i (r ++ (i, x) :: h) ≠ none := by
    obtain ⟨p, hp, -⟩ := hd
    exact fun hnone => nomatch hp.symm.trans hnone
  obtain ⟨r', hr'⟩ := hearly.trans (absence_suffix_greeting ho hr hsome)
  have hsuffix : r' <:+ r := by
    obtain ⟨t, ht⟩ := greeting_suffix (e.peers i) (r ++ (i, x) :: h)
    rw [← hr', ← List.append_assoc] at ht
    exact ⟨t, (List.append_left_inj _).1 ht⟩
  have hdumped := assigned_decided (r := r') ho hr hroom
    (hdiv.mono (List.append_subset.2 ⟨fun a ha => List.mem_append_left _ (hsuffix.subset ha),
      List.subset_append_right r _⟩)) (hlast.of_suffix hsuffix)
    fun d' hd' => hheard d' (heard_subset_of_suffix _ _ _ hsuffix hd')
  have harrives : d.backend.map Address.unscoped = d.backend := congrArg Decision.backend (Decision.unscoped_eq hscope)
  rw [theirs_delivered ho hr hroom hdiv hown hlost hd, replay_of_forall_ne fun d' hd' => ?_, ← hr', hdumped, harrives]
  obtain ⟨d', hd'', rfl⟩ := List.mem_map.1 hd'
  obtain ⟨a, ha, hda⟩ := List.mem_filterMap.1 (List.mem_reverse.1 hd'')
  exact hlast.quiet d' (List.mem_filterMap.2 ⟨a, session_subset_of_suffix_absence hearly ha, hda⟩)

end LastDecision

/-- Two nodes follow each other. Let all be delivered that one of them sent, and no update be lost since the other was
accepted, and let only this one decide about a network. The other has what was decided last about the network, if that
was since it was accepted. If nothing else about the network came back since it was decided, this one has it too. Then
so has the other one in any case, unless the network had lost its backend and the other had an entry of it when it was
accepted. A network that is never assigned a backend is in neither table. -/
theorem last_decision_holds (ho : e.Opens config here) (hr : config.replicated)
    (hroom : (assignedNetworks config.bits.toNat (h.filterMap fun a => a.2.decision? config.key)).card ≤
      config.capacity)
    (hscope : ∀ d ∈ h.filterMap (decision? config.key i), ∀ b ∈ d.backend, b.scope = 0)
    (hlost : ∀ h', absence (e.peers i) h <:+ h' → h' <:+ h → ∀ p ∈ e.peers i h', p.lost = 0)
    (hd : ((e.after h).line i).Delivered) : ∃ (tables : Bool → Store) (before : Store),
      (∀ j, ((e.after h).node j).registry.tableOf? config.key = some (tables j)) ∧
      ((e.after (absence (e.peers i) h)).node (!i)).registry.tableOf? config.key = some before ∧
      ∀ n, (∀ d ∈ h.filterMap (decision? config.key (!i)), d.client.mask config.bits.toNat ≠ n) →
        ((∀ d ∈ h.filterMap (decision? config.key i), d.client.mask config.bits.toNat = n → d.backend = none) →
          ∀ j, (tables j).assigned n = none) ∧
        ∀ r x older d, h = r ++ (i, x) :: older →
          x.decision? config.key = some d → d.client.mask config.bits.toNat = n →
          (∀ d' ∈ r.filterMap (decision? config.key i), d'.client.mask config.bits.toNat ≠ n) →
          (absence (e.peers i) h <:+ older → (tables (!i)).assigned n = d.backend) ∧
          ((∀ d' ∈ (e.after ((i, x) :: older)).heard config.key (!i) r,
              d'.client.mask config.bits.toNat = n → d'.backend = d.backend) →
            (tables i).assigned n = d.backend ∧
            ((d.backend = none → absence (e.peers i) h <:+ older ∨ before.assigned n = none) →
              (tables (!i)).assigned n = d.backend)) := by
  have hdiv : Divided config (assignedNetworks config.bits.toNat (h.filterMap fun a => a.2.decision? config.key))
      (fun j n => ∀ d ∈ h.filterMap (decision? config.key (!j)), d.client.mask config.bits.toNat ≠ n) h := by
    rintro ⟨j, x⟩ ha d hd
    refine ⟨within_of_mem (List.mem_filterMap.2 ⟨(j, x), ha, hd⟩), fun hno => hno d ?_ rfl⟩
    rw [Bool.not_not]
    exact mem_filterMap_decision?.2 ⟨x, ha, hd⟩
  have hstands := stands_after ho hr
  have hother : (e.scenes config.key (!i) h).ours = (e.scenes config.key i h).theirs := by
    show (((e.after h).line (!i)).scene config.key).ours = _
    rw [← theirs_not, Bool.not_not]
    rfl
  refine ⟨fun j => (e.scenes config.key j h).ours, (e.scenes config.key i (absence (e.peers i) h)).theirs,
    fun j => (hstands h j).shows.ours, (hstands _ i).shows.theirs, fun n hn => ⟨fun hno j => ?_, ?_⟩⟩
  · refine (kept ho hr hroom hdiv j).ours.assigned_of_notMem fun hmem => ?_
    obtain ⟨d, hd', hsome, hdn⟩ := mem_assignedNetworks.1 hmem
    obtain ⟨⟨k, x⟩, ha, hdecided⟩ := List.mem_filterMap.1 hd'
    rcases Bool.eq_or_eq_not k i with rfl | rfl
    · exact hsome (hno d (mem_filterMap_decision?.2 ⟨x, ha, hdecided⟩) hdn)
    · exact hn d (mem_filterMap_decision?.2 ⟨x, ha, hdecided⟩) hdn
  · rintro r x older d rfl hdecided rfl hquiet
    have hunscoped : ∀ b ∈ d.backend, b.scope = 0 := hscope d (mem_filterMap_decision?.2 ⟨x, by simp, hdecided⟩)
    have hlast : Last config i r x d := ⟨hdecided, hquiet⟩
    have hannounced := fun hlate => assigned_announced ho hr hroom hdiv hn hlast hunscoped hlate hlost hd
    simp only [hother]
    refine ⟨hannounced, fun hheard => ⟨assigned_decided ho hr hroom hdiv hlast hheard, fun hnothing => ?_⟩⟩
    by_cases hlate : absence (e.peers i) (r ++ (i, x) :: older) <:+ older
    · exact hannounced hlate
    · rw [assigned_told ho hr hroom hdiv hn hlast hheard hunscoped hlate hlost hd]
      cases hb : d.backend with
      | some b => rfl
      | none => exact (hnothing hb).resolve_left hlate

/-- A beginning with one table on either side, where each node is connected to the other. -/
def pairExchange : Exchange where
  cluster := 1
  node := fun i =>
    { Replication.pairOpening.server with
      followers := Replication.pairOpening.client.followers.map fun f =>
        { f with target := if i then "127.0.0.1:7001" else "127.0.0.1:7000" } }
  place := fun _ => 0

theorem opens_pairExchange : pairExchange.Opens Replication.pairConfig fun _ => [Replication.pairConfig] := fun _ =>
  ⟨rfl, rfl, rfl, rfl, rfl, ⟨_, rfl, fun _ hp => absurd hp List.not_mem_nil⟩, ⟨_, rfl, rfl, rfl⟩, rfl, rfl⟩

/-- A network is assigned a backend by the one node. -/
def assign (port : UInt16) : Replication.Incident :=
  .move (.succeed Replication.pairConfig.key { chance := { tape := id } }
    { client := Replication.outageClient 0, list := [], remote := some (Replication.outageBackend port) })

/-- It loses its backend there. -/
def withdraw (port : UInt16) : Replication.Incident :=
  .move (.fail Replication.pairConfig.key { chance := { tape := id } }
    { client := Replication.outageClient 0, list := [], remote := some (Replication.outageBackend port) })

/-- The follower of a line is accepted, and told all assignments. -/
def greet (i : Bool) : History :=
  [(i, .move .dump), (i, .move .accept)]

/-- What waits for the follower of a line is sent and arrives. -/
def deliver (i : Bool) : History :=
  [(i, .move (.arrive 100)), (i, .move .send)]

/-- The follower of a line is connected again after its pause. -/
def redial (i : Bool) : History :=
  [(i, .dial none), (i, .resume), (i, .move (.wait second))]

/-- A network is assigned a backend, the other node tells that back, and it arrives. -/
def earlierHistory : History :=
  [(false, .move (.arrive 100))] ++ greet false ++ deliver true ++ [(true, assign 80)] ++ greet true

/-- The network is assigned another backend after that, and the other node comes to tell this back too. -/
def laterHistory : History :=
  [(false, .move (.arrive 100))] ++ greet false ++ redial false ++ [(false, .lose)] ++ deliver true

theorem last_decision_holds_later :
    ((pairExchange.after (laterHistory ++ (true, assign 81) :: earlierHistory)).line true).Delivered ∧
    ∃ tables : Bool → Store,
      (∀ j, ((pairExchange.after (laterHistory ++ (true, assign 81) :: earlierHistory)).node j).registry.tableOf?
        Replication.pairConfig.key = some (tables j)) ∧
      ∀ j, (tables j).assigned ((Replication.outageClient 0).mask 24) = some (Replication.outageBackend 81) := by
  have hlost : ∀ h' ∈ (laterHistory ++ (true, assign 81) :: earlierHistory).tails, ∀ p ∈ pairExchange.peers true h',
      p.lost = 0 := by decide +kernel
  have hdelivered :
      ((pairExchange.after (laterHistory ++ (true, assign 81) :: earlierHistory)).line true).Delivered := by
    decide +kernel
  obtain ⟨tables, before, htables, -, hall⟩ :=
    last_decision_holds opens_pairExchange (by decide) (by decide +kernel)
      (by decide +kernel) (fun h' _ hs => hlost h' ((List.mem_tails h' _).2 hs)) hdelivered
  obtain ⟨-, hdecided⟩ := hall ((Replication.outageClient 0).mask 24) (by decide +kernel)
  obtain ⟨-, hheard⟩ := hdecided laterHistory (assign 81) earlierHistory
    ⟨Replication.outageClient 0, some (Replication.outageBackend 81)⟩ rfl rfl rfl (by decide +kernel)
  obtain ⟨hthis, hthat⟩ := hheard (by decide +kernel)
  exact ⟨hdelivered, tables, htables, Bool.forall_bool.2 ⟨hthat nofun, hthis⟩⟩

/-- The other node tells a backend back, and before that arrives the network is assigned another. -/
def carriedHistory : History :=
  [(false, .move (.arrive 100))] ++ deliver true ++ [(true, assign 81)] ++ greet false ++ deliver true ++
    [(true, assign 80)] ++ greet true

/-- A network loses its backend while the other node is not connected. -/
def partedHistory : History :=
  greet true ++ redial true ++ [(true, withdraw 80), (true, .lose)] ++ deliver true ++ [(true, assign 80)] ++
    greet true ++ greet false

/-- What the tables of the two nodes assign to the network after some incidents. -/
def backends? (h : History) : List (Option (Option Address)) :=
  [true, false].map fun i => (((pairExchange.after h).node i).registry.tableOf? Replication.pairConfig.key).map
    (·.assigned ((Replication.outageClient 0).mask 24))

/-- One node makes all decisions, all is delivered either way, no update was lost, and the tables are not the same: an
older decision comes back to the node that made it, and the other one keeps what was withdrawn while it was away. -/
theorem decisions_come_back :
    pairExchange.Opens Replication.pairConfig (fun _ => [Replication.pairConfig]) ∧
    (∀ h ∈ [carriedHistory, partedHistory], h.filterMap (decision? Replication.pairConfig.key false) = [] ∧
      ∀ i, ((pairExchange.after h).line i).Delivered ∧ ∀ h' ∈ h.tails, ∀ p ∈ pairExchange.peers i h', p.lost = 0) ∧
    (carriedHistory.filterMap (decision? Replication.pairConfig.key true)).head? =
      some ⟨Replication.outageClient 0, some (Replication.outageBackend 81)⟩ ∧
    backends? carriedHistory =
      [some (some (Replication.outageBackend 80)), some (some (Replication.outageBackend 81))] ∧
    (partedHistory.filterMap (decision? Replication.pairConfig.key true)).head? =
      some ⟨Replication.outageClient 0, none⟩ ∧
    backends? partedHistory = [some none, some (some (Replication.outageBackend 80))] := by
  refine ⟨opens_pairExchange, ?_⟩
  decide +kernel

end Exchange

end AffinityRelay
