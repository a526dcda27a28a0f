import AffinityRelay.Proofs.Cluster.Convergence

/-!
# A session of a follower

Connections break, and a follower that comes back has a table already. From the moment it is accepted it is announced
every decision, and at some moment it is told the table of the server. All that matters to its own table is in a
`Memory`: what it had when it was accepted, what was announced to it since, and what the server had when it told that.

* `Scene.Course`, `Scene.Turn`: what can happen to a scene where connections break, and where besides the two steps of a
  decision come apart and others write to the tables too;
* `Scene.Kept`, `Scene.Kept.turn`: what is kept of a scene and its memory, and that every turn keeps it;
* `Scene.Kept.delivered`: once all is delivered and no update was lost, the follower has what was announced, on top of
  what it was told, on top of what it had;
* `absence`, `session`, `greeting`, `Scene.memory_eq`: the memory of a history, read off its latest session;
* `Scene.Kept.delivered_session`: what the follower has once all is delivered, read off that session too.
-/

namespace AffinityRelay

open AffinityRelay.Frame

/-! ## The latest moment of a history -/

section Latest

variable {α : Type} {p : List α → Bool} {a : α} {h : List α}

/-- The latest moment of a history, which lists the latest first, at which something was so; or its beginning. -/
def latest (p : List α → Bool) : List α → List α
  | [] => []
  | a :: h => if p (a :: h) then a :: h else latest p h

/-- What happened after that. -/
def since (p : List α → Bool) : List α → List α
  | [] => []
  | a :: h => if p (a :: h) then [] else a :: since p h

theorem since_append_latest (p : List α → Bool) : ∀ h, since p h ++ latest p h = h
  | [] => rfl
  | a :: h => by
    rw [since, latest]
    split
    · rfl
    · rw [List.cons_append, since_append_latest p h]

/-- What was so at the beginning was so at the latest moment that there is. -/
theorem of_latest (h0 : p []) : ∀ h, p (latest p h)
  | [] => h0
  | a :: h => by
    rw [latest]
    split
    · assumption
    · exact of_latest h0 h

theorem latest_suffix (p : List α → Bool) (h : List α) : latest p h <:+ h :=
  ⟨_, since_append_latest p h⟩

/-- Whether a follower was accepted and has been told nothing. -/
def awaits (peer : Option Peer) : Bool :=
  peer.any (·.state = .fresh)

/-- The history until a follower was accepted last. -/
def absence (peer : List α → Option Peer) : List α → List α :=
  latest fun h => (peer h).isNone

/-- What happened since then. -/
def session (peer : List α → Option Peer) : List α → List α :=
  since fun h => (peer h).isNone

/-- The history until a follower was told all assignments last. -/
def greeting (peer : List α → Option Peer) : List α → List α :=
  latest fun h => awaits (peer h)

variable {peer : List α → Option Peer}

theorem absence_cons : absence peer (a :: h) = if (peer (a :: h)).isNone then a :: h else absence peer h := rfl

theorem session_cons : session peer (a :: h) = if (peer (a :: h)).isNone then [] else a :: session peer h := rfl

theorem greeting_cons : greeting peer (a :: h) = if awaits (peer (a :: h)) then a :: h else greeting peer h := rfl

theorem peer_absence (h0 : peer [] = none) (h : List α) : peer (absence peer h) = none :=
  Option.isNone_iff_eq_none.1 (of_latest (p := fun h => (peer h).isNone) (by rw [h0]; rfl) h)

theorem session_append_absence (peer : List α → Option Peer) (h : List α) : session peer h ++ absence peer h = h :=
  since_append_latest _ h

theorem absence_suffix (peer : List α → Option Peer) (h : List α) : absence peer h <:+ h :=
  latest_suffix _ h

theorem greeting_suffix (peer : List α → Option Peer) (h : List α) : greeting peer h <:+ h :=
  latest_suffix _ h

/-- What happened after a follower was accepted is in the session since then. -/
theorem session_of_absence_suffix {r : List α} (hs : absence peer (r ++ a :: h) <:+ h) :
    ∃ mid, session peer (r ++ a :: h) = r ++ a :: mid := by
  obtain ⟨mid, hmid⟩ := hs
  refine ⟨mid, (List.append_left_inj (absence peer (r ++ a :: h))).1 ?_⟩
  rw [session_append_absence, List.append_assoc, List.cons_append, hmid]

/-- What happened before it was accepted is not. -/
theorem session_subset_of_suffix_absence {r : List α} (hs : h <:+ absence peer (r ++ h)) :
    session peer (r ++ h) ⊆ r := by
  obtain ⟨mid, hmid⟩ := hs
  have hall : session peer (r ++ h) ++ mid = r := by
    refine (List.append_left_inj h).1 ?_
    rw [List.append_assoc, hmid, session_append_absence]
  exact fun b hb => hall ▸ List.mem_append_left mid hb

/-- What was made of something earlier in a history was made of something in it. -/
theorem mem_filterMap_of_suffix {β : Type} {f : α → Option β} {b : β} {h' : List α} (hs : h' <:+ h)
    (hb : b ∈ h'.filterMap f) : b ∈ h.filterMap f :=
  (hs.sublist.filterMap f).subset hb

theorem session_subset (peer : List α → Option Peer) (h : List α) : session peer h ⊆ h := by
  intro a ha
  rw [← session_append_absence peer h]
  exact List.mem_append_left _ ha

end Latest

/-! ## What comes and what waits -/

/-- A decision that is announced is the one decision that its update tells. -/
theorem decisions_update {sticky : UInt64} (d : Decision) :
    decisions sticky [.update ⟨sticky, d.client, d.backend⟩] = [d] :=
  List.filterMap_cons_some (if_pos rfl)

/-- A decision arrives about the networks that it was made about. -/
theorem Decision.Within.unscoped {bits : Nat} {networks : Finset Ip} {d : Decision} (h : d.Within bits networks) :
    d.unscoped.Within bits networks := by
  intro b hb
  obtain ⟨b', hb', -⟩ := Option.map_eq_some_iff.1 hb
  exact h b' hb'

/-- Where updates are lost, no others take their place. -/
theorem Peer.decisions_hand_subset {sticky : UInt64} {u : Update} {p : Peer} :
    (p.hand u).decisions sticky ⊆ p.decisions sticky ++ AffinityRelay.decisions sticky [.update u] := by
  have happend : p.decisions sticky ++ AffinityRelay.decisions sticky [.update u] =
      AffinityRelay.decisions sticky ((p.backlog ++ [u]).map .update) := by
    rw [decisions, List.map_append, decisions_append]
    rfl
  obtain ⟨n, hn⟩ : ∃ n, (p.hand u).backlog = (p.backlog ++ [u]).drop n := by
    rw [hand]
    exact ⟨_, by with_reducible rfl⟩
  rw [happend, decisions, hn]
  exact (((List.drop_sublist n _).map _).filterMap _).subset

namespace Scene

/-- Some frames come to a follower, out of bytes that it holds and others that are on the way. -/
structure Carried (config : StoreConfig) (networks : Finset Ip) (post : FollowerPost) (flight held : List UInt8)
    (coming : List Frame) : Prop where
  following : post = .following held
  rest : decodeAll held = ([], ⟨held, none⟩)
  frames : decodeAll (held ++ flight) = (coming, ⟨[], none⟩)
  within : ∀ d ∈ decisions config.key.sticky coming, d.Within config.bits.toNat networks

section Carried

variable {config : StoreConfig} {networks : Finset Ip} {post : FollowerPost} {flight held : List UInt8}
  {coming : List Frame}

theorem carried_nil (config : StoreConfig) (networks : Finset Ip) :
    Carried config networks (.following []) [] [] [] :=
  ⟨rfl, decodeAll_of_incomplete rfl, decodeAll_of_incomplete rfl, nofun⟩

/-- Frames are sent. They come last, and without scopes. -/
theorem Carried.sent (h : Carried config networks post flight held coming) {fs : List Frame}
    (hd : ∀ d ∈ decisions config.key.sticky fs, d.Within config.bits.toNat networks) :
    Carried config networks post (flight ++ fs.flatMap encode) held (coming ++ fs.map unscoped) := by
  refine ⟨h.following, h.rest, ?_, ?_⟩
  · rw [← List.append_assoc]
    exact decodeAll_sent h.frames fs
  · intro d hd'
    rw [decisions_append, decisions_map_unscoped] at hd'
    rcases List.mem_append.1 hd' with hd' | hd'
    · exact h.within d hd'
    · obtain ⟨d', hmem, rfl⟩ := List.mem_map.1 hd'
      exact (hd d' hmem).unscoped

/-- Bytes arrive. The frames that they complete came first. -/
theorem Carried.arrive (h : Carried config networks post flight held coming) (n : Nat) {fs : List Frame}
    {left : Leftover} (hd : decodeAll (held ++ flight.take n) = (fs, left)) :
    left.error = none ∧ ∃ more, coming = fs ++ more ∧
      Carried config networks (.following left.rest) (flight.drop n) left.rest more := by
  have hall := h.frames
  rw [← List.take_append_drop n flight, ← List.append_assoc] at hall
  obtain ⟨hnone, hrest, more, hmore, rfl⟩ := decodeAll_arrived hall hd
  refine ⟨hnone, more, rfl, rfl, hrest, hmore, fun d hd' => h.within d ?_⟩
  rw [decisions_append]
  exact List.mem_append_right _ hd'

/-- Where nothing is on the way, nothing comes. -/
theorem Carried.nothing (h : Carried config networks post [] held coming) : coming = [] := by
  have hall := h.frames
  rw [List.append_nil, h.rest] at hall
  exact (congrArg Prod.fst hall).symm

end Carried

/-! ## Turns -/

/-- What can happen to a scene where connections break, with the decision that is made if there is one. -/
inductive Course (key : Key) : Option Decision → Scene → Scene → Prop
  /-- Nobody is accepted who is not connected. -/
  | step {d? : Option Decision} {v v' : Scene} : Step key d? v v' →
      (v.peer = none → v'.peer = none ∨ ∃ held, v.post = .following held) → Course key d? v v'
  /-- The connection breaks, and what was on the way is lost. -/
  | lose {v : Scene} {post : FollowerPost} : (∀ held, post ≠ .following held) →
      Course key none v { v with peer := none, flight := [], post }
  /-- A follower without a connection pauses, or connects. -/
  | dial {v : Scene} {post : FollowerPost} : (∀ held, v.post ≠ .following held) →
      (∀ held, post = .following held → held = []) → Course key none v { v with post }

/-- What else can happen where a decision is announced and written in two steps, and others write to both tables too: to
the follower's only at networks that are not its server's own. -/
inductive Turn (key : Key) (networks : Finset Ip) (own : Ip → Prop) : Option Decision → Scene → Scene → Prop
  | course {d? : Option Decision} {v v' : Scene} : Course key d? v v' → Turn key networks own d? v v'
  | announce {v : Scene} (d : Decision) : Turn key networks own (some d) v
      { v with peer := v.peer.map (Peer.hand ⟨key.sticky, d.client, d.backend⟩) }
  | elsewhere {v : Scene} {ours theirs : Store} : ours.Roomy networks → theirs.Roomy networks →
      ours.config = v.ours.config → theirs.config = v.theirs.config →
      (∀ n, own n → theirs.assigned n = v.theirs.assigned n) →
      Turn key networks own none v { v with ours, theirs }

section Turn

variable {config : StoreConfig} {networks : Finset Ip} {own : Ip → Prop} {d? : Option Decision} {v v' : Scene}

/-- Along its course a decision changes the server's table, and nothing else does. -/
theorem Course.ours (h : Course config.key d? v v') (hv : v.ours.Roomy networks) (hc : v.ours.config = config)
    (hd : ∀ d ∈ d?, d.Within config.bits.toNat networks) :
    v'.ours.assigned = replay config.bits.toNat d?.toList v.ours.assigned := by
  cases h with
  | step hs _ =>
    cases hs with
    | decide now d =>
      rw [(hv.settle now (hc ▸ hd d rfl)).2, hc]
      rfl
    | lookUp client => exact (hv.touch client).2
    | idle | other | accept | dump | send | arrive | lost => rfl
  | lose => rfl
  | dial => rfl

/-- A follower that is accepted has been told nothing. -/
theorem Turn.peer_of_none (h : Turn config.key networks own d? v v') (hv : v.peer = none) :
    v'.peer = none ∨ awaits v'.peer := by
  cases h with
  | course hc =>
    cases hc with
    | step hs _ =>
      cases hs with
      | accept _ hp _ => exact Or.inr (by simp [awaits, hp])
      | dump _ hv' => rw [hv] at hv'; cases hv'
      | send _ hv' => rw [hv] at hv'; cases hv'
      | decide | other => exact Or.inl (Option.map_eq_none_iff.2 hv)
      | idle | lookUp | arrive | lost => exact Or.inl hv
    | lose => exact Or.inl rfl
    | dial => exact Or.inl hv
  | announce => exact Or.inl (Option.map_eq_none_iff.2 hv)
  | elsewhere => exact Or.inl hv

end Turn

/-! ## What is remembered -/

/-- What matters to the table of a follower. -/
structure Memory where
  /-- What it had when it was not accepted last. -/
  before : Ip → Option Address
  /-- What was announced since then. -/
  log : List Decision
  /-- What the server had when it was about to tell that last. -/
  dumped : Ip → Option Address
  /-- Whether no update was lost since the follower was accepted. -/
  whole : Bool

namespace Memory

/-- What is remembered after a turn, of the scene then and the decision that was announced. -/
def turn (d? : Option Decision) (v : Scene) (g : Memory) : Memory where
  before := if v.peer.isNone then v.theirs.assigned else g.before
  log := if v.peer.isNone then [] else g.log ++ d?.toList
  dumped := if awaits v.peer then v.ours.assigned else g.dumped
  whole := v.peer.isNone || (g.whole && v.peer.all (·.lost = 0))

/-- What the follower has after it was told the server's table: of each network what it was told, or what it had. -/
def base (g : Memory) (n : Ip) : Option Address :=
  ((g.dumped n).map Address.unscoped).or (g.before n)

/-- What it has after all that was announced, too. -/
def outcome (bits : Nat) (g : Memory) : Ip → Option Address :=
  replay bits (g.log.map Decision.unscoped) g.base

end Memory

variable {config : StoreConfig} {networks : Finset Ip} {own : Ip → Prop} {v : Scene} {g : Memory}

/-- Where a follower stands, and what its table comes to: what is announced and has not arrived makes of it what all
that was announced makes of what it was told. -/
inductive Phase (config : StoreConfig) (networks : Finset Ip) (own : Ip → Prop) (v : Scene) (g : Memory) : Prop
  | apart : v.peer = none → v.flight = [] → (∀ held, v.post = .following held → held = []) →
      g.before = v.theirs.assigned → g.log = [] → Phase config networks own v g
  | accepted {p : Peer} : v.peer = some p → p.state = .fresh → v.flight = [] → v.post = .following [] →
      (∀ d ∈ p.decisions config.key.sticky, d.Within config.bits.toNat networks) →
      (∀ n, own n → v.theirs.assigned n = g.before n) → g.dumped = v.ours.assigned →
      (g.whole → p.lost = 0 ∧ g.log = p.decisions config.key.sticky) → Phase config networks own v g
  | told {p : Peer} {since : Time} {held : List UInt8} {coming : List Frame} : v.peer = some p →
      p.state = .waiting since → Carried config networks v.post v.flight held coming →
      (∀ d ∈ p.decisions config.key.sticky, d.Within config.bits.toNat networks) →
      (g.whole → p.lost = 0 ∧ ∀ n, own n →
        replay config.bits.toNat
          (decisions config.key.sticky coming ++ (p.decisions config.key.sticky).map Decision.unscoped)
          v.theirs.assigned n = g.outcome config.bits.toNat n) →
      Phase config networks own v g

/-- What is kept of a scene and of what is remembered. -/
structure Kept (config : StoreConfig) (networks : Finset Ip) (own : Ip → Prop) (v : Scene) (g : Memory) : Prop where
  ours : v.ours.Roomy networks
  theirs : v.theirs.Roomy networks
  config_ours : v.ours.config = config
  config_theirs : v.theirs.config = config
  phase : Phase config networks own v g

/-! ## One turn -/

section Phase

variable {d? : Option Decision} {p : Peer}

theorem Memory.whole_turn (hv : v.peer = some p) (h : (g.turn d? v).whole) : g.whole ∧ p.lost = 0 := by
  simpa [turn, hv] using h

/-- To write to the server's table after a decision was announced changes no more than what the server may tell. -/
theorem Memory.turn_turn (ours : Store) : (g.turn d? v).turn none { v with ours } = g.turn d? { v with ours } := by
  simp only [turn, Memory.mk.injEq]
  refine ⟨?_, ?_, ?_, ?_⟩
  · split <;> rfl
  · split
    · rfl
    · simp
  · split <;> rfl
  · cases v.peer.isNone <;> cases v.peer.all (·.lost = 0) <;> simp

theorem Phase.of_apart (hv : v.peer = none) (hflight : v.flight = [])
    (hpost : ∀ held, v.post = .following held → held = []) : v.Phase config networks own (g.turn d? v) := by
  refine .apart hv hflight hpost ?_ ?_
  · simp [Memory.turn, hv]
  · simp [Memory.turn, hv]

theorem Phase.of_accepted (hv : v.peer = some p) (hp : p.state = .fresh) (hflight : v.flight = [])
    (hpost : v.post = .following [])
    (hwait : ∀ d ∈ p.decisions config.key.sticky, d.Within config.bits.toNat networks)
    (hheld : ∀ n, own n → v.theirs.assigned n = g.before n)
    (hlog : g.whole → p.lost = 0 → g.log ++ d?.toList = p.decisions config.key.sticky) :
    v.Phase config networks own (g.turn d? v) := by
  refine .accepted hv hp hflight hpost hwait ?_ ?_ fun hw => ?_
  · simpa [Memory.turn, hv] using hheld
  · simp [Memory.turn, awaits, hv, hp]
  · obtain ⟨hw, hl⟩ := Memory.whole_turn hv hw
    exact ⟨hl, by simpa [Memory.turn, hv] using hlog hw hl⟩

theorem Phase.of_told {since : Time} {held : List UInt8} {coming : List Frame} (hv : v.peer = some p)
    (hp : p.state = .waiting since) (hc : Carried config networks v.post v.flight held coming)
    (hwait : ∀ d ∈ p.decisions config.key.sticky, d.Within config.bits.toNat networks)
    (hr : g.whole → p.lost = 0 → ∀ n, own n →
      replay config.bits.toNat
        (decisions config.key.sticky coming ++ (p.decisions config.key.sticky).map Decision.unscoped)
        v.theirs.assigned n =
      replay config.bits.toNat (d?.toList.map Decision.unscoped) (g.outcome config.bits.toNat) n) :
    v.Phase config networks own (g.turn d? v) := by
  have hg : (g.turn d? v).outcome config.bits.toNat =
      replay config.bits.toNat (d?.toList.map Decision.unscoped) (g.outcome config.bits.toNat) := by
    simp only [Memory.outcome, Memory.turn, awaits, hv, hp, Option.isNone_some, Bool.false_eq_true,
      if_false, List.map_append, replay_append, Option.any_some]
    rfl
  refine .told hv hp hc hwait fun hw => ?_
  obtain ⟨hw, hl⟩ := Memory.whole_turn hv hw
  rw [hg]
  exact ⟨hl, hr hw hl⟩

end Phase

namespace Kept

/-- The tables are written, the follower's only at networks that are not the server's own. -/
theorem tables (h : v.Kept config networks own g) {ours theirs : Store} (ho : ours.Roomy networks)
    (ht : theirs.Roomy networks) (hco : ours.config = config) (hct : theirs.config = config)
    (hown : ∀ n, own n → theirs.assigned n = v.theirs.assigned n) :
    ({ v with ours, theirs } : Scene).Kept config networks own (g.turn none { v with ours, theirs }) := by
  refine ⟨ho, ht, hco, hct, ?_⟩
  cases h.phase with
  | apart hv hflight hpost => exact .of_apart hv hflight hpost
  | accepted hv hp hflight hpost hwait hheld _ hlog =>
    exact .of_accepted hv hp hflight hpost hwait (fun n hn => (hown n hn).trans (hheld n hn))
      fun hw _ => (List.append_nil _).trans (hlog hw).2
  | told hv hp hc hwait hr =>
    exact .of_told hv hp hc hwait fun hw _ n hn => (replay_congr (hown n hn)).trans ((hr hw).2 n hn)

/-- An update is handed to the follower, if that was accepted. -/
theorem hand (h : v.Kept config networks own g) {u : Update} (d? : Option Decision)
    (hu : decisions config.key.sticky [.update u] = d?.toList)
    (hd : ∀ d ∈ d?, d.Within config.bits.toNat networks) :
    ({ v with peer := v.peer.map (Peer.hand u) } : Scene).Kept config networks own
      (g.turn d? { v with peer := v.peer.map (Peer.hand u) }) := by
  refine ⟨h.ours, h.theirs, h.config_ours, h.config_theirs, ?_⟩
  have within : ∀ {p : Peer}, (∀ d ∈ p.decisions config.key.sticky, d.Within config.bits.toNat networks) →
      ∀ d ∈ (p.hand u).decisions config.key.sticky, d.Within config.bits.toNat networks := by
    intro p hwait d hd'
    have hmem := Peer.decisions_hand_subset hd'
    rw [hu] at hmem
    exact (List.mem_append.1 hmem).elim (hwait d) fun hd' => hd d (Option.mem_toList.1 hd')
  have handed : ∀ {p : Peer}, (p.hand u).lost = 0 →
      (p.hand u).decisions config.key.sticky = p.decisions config.key.sticky ++ d?.toList := by
    intro p hl
    rw [Peer.decisions_hand hl, hu]
  cases h.phase with
  | apart hv hflight hpost => exact .of_apart (Option.map_eq_none_iff.2 hv) hflight hpost
  | accepted hv hp hflight hpost hwait hheld _ hlog =>
    refine .of_accepted (Option.map_eq_some_iff.2 ⟨_, hv, rfl⟩) ((Peer.state_hand ..).trans hp) hflight hpost
      (within hwait) hheld fun hw hl => ?_
    rw [handed hl, (hlog hw).2]
  | told hv hp hc hwait hr =>
    refine .of_told (Option.map_eq_some_iff.2 ⟨_, hv, rfl⟩) ((Peer.state_hand ..).trans hp) hc (within hwait)
      fun hw hl n hn => ?_
    rw [handed hl, List.map_append, ← List.append_assoc, replay_append]
    exact replay_congr ((hr hw).2 n hn)

/-- A follower that is connected is accepted. -/
theorem accept (h : v.Kept config networks own g) {p : Peer} (hv : v.peer = none) (hp : p.state = .fresh)
    (hb : p.backlog = []) {held : List UInt8} (hpost : v.post = .following held) :
    ({ v with peer := some p } : Scene).Kept config networks own (g.turn none { v with peer := some p }) := by
  refine ⟨h.ours, h.theirs, h.config_ours, h.config_theirs, ?_⟩
  have hdec : p.decisions config.key.sticky = [] := by
    rw [Peer.decisions, hb]
    rfl
  cases h.phase with
  | accepted hv' => rw [hv] at hv'; cases hv'
  | told hv' => rw [hv] at hv'; cases hv'
  | apart _ hflight hnil hbefore hlog =>
    obtain rfl := hnil held hpost
    refine .of_accepted rfl hp hflight hpost ?_ (fun n _ => by rw [hbefore]) fun _ _ => ?_
    · rw [hdec]
      exact List.forall_mem_nil _
    · rw [hdec, hlog]
      rfl

/-- The follower is told all assignments. -/
theorem dump (h : v.Kept config networks own g) {p : Peer} (hv : v.peer = some p) (hp : p.state = .fresh) (now : Time)
    {fs : List Frame} (hfs : decisions config.key.sticky fs = v.ours.told) :
    ({ v with peer := some { p with state := .waiting now }, flight := v.flight ++ fs.flatMap encode } : Scene).Kept
      config networks own (g.turn none
        { v with peer := some { p with state := .waiting now }, flight := v.flight ++ fs.flatMap encode }) := by
  refine ⟨h.ours, h.theirs, h.config_ours, h.config_theirs, ?_⟩
  cases h.phase with
  | apart hv' => rw [hv] at hv'; cases hv'
  | told hv' hp' =>
    obtain rfl := Option.some.inj (hv.symm.trans hv')
    rw [hp] at hp'
    cases hp'
  | accepted hv' _ hflight hpost hwait hheld hdumped hlog =>
    obtain rfl := Option.some.inj (hv.symm.trans hv')
    have hwithin : ∀ d ∈ decisions config.key.sticky fs, d.Within config.bits.toNat networks := by
      intro d hd b hb
      rw [hfs] at hd
      obtain ⟨e, he, rfl⟩ := List.mem_map.1 hd
      have hmask : e.client.mask config.bits.toNat = e.client := h.config_ours ▸ h.ours.masked e he
      exact hmask.symm ▸ h.ours.among e he
    have hnone : Carried config networks v.post v.flight [] [] := by
      rw [hflight, hpost]
      exact carried_nil config networks
    refine .of_told rfl rfl (hnone.sent hwithin) hwait fun hw _ n hn => ?_
    -- What is told comes first, then what waits, which is all that was announced.
    have htold := h.ours.replay_told_map Address.unscoped v.theirs.assigned n
    rw [h.config_ours] at htold
    have hwaiting : Peer.decisions config.key.sticky { p with state := .waiting now } = g.log := (hlog hw).2.symm
    rw [hwaiting, decisions_append, decisions_map_unscoped, hfs]
    refine (congrFun (replay_append _ _) n).trans (replay_congr (htold.trans ?_))
    rw [Memory.base, hdumped, hheld n hn]

/-- What waits for the follower is sent. -/
theorem send (h : v.Kept config networks own g) {p p' : Peer} (hv : v.peer = some p) {now : Time}
    {fs : List Frame} (hn : p.next now = some (fs, p')) :
    ({ v with peer := some p', flight := v.flight ++ fs.flatMap encode } : Scene).Kept config networks own
      (g.turn none { v with peer := some p', flight := v.flight ++ fs.flatMap encode }) := by
  refine ⟨h.ours, h.theirs, h.config_ours, h.config_theirs, ?_⟩
  obtain ⟨⟨since, hs⟩, backlog, rfl, hcases⟩ := Peer.next_cases hn
  cases h.phase with
  | apart hv' => rw [hv] at hv'; cases hv'
  | accepted hv' hp' =>
    obtain rfl := Option.some.inj (hv.symm.trans hv')
    rw [hs] at hp'
    cases hp'
  | told hv' _ hc hwait hr =>
    obtain rfl := Option.some.inj (hv.symm.trans hv')
    have hdec : decisions config.key.sticky fs ++ decisions config.key.sticky (backlog.map .update) =
        p.decisions config.key.sticky := by
      rcases hcases with ⟨-, rfl, rfl⟩ | ⟨-, u, hb, rfl⟩ | ⟨-, hb, rfl, rfl⟩
      · rfl
      · rw [Peer.decisions, hb, List.map_cons, ← decisions_append, List.singleton_append]
      · rw [Peer.decisions, hb]
        rfl
    rw [← hdec] at hwait hr
    refine .of_told rfl rfl (hc.sent fun d hd => hwait d (List.mem_append_left _ hd))
      (fun d hd => hwait d (List.mem_append_right _ hd)) fun hw _ n hn => ?_
    have hleft : Peer.decisions config.key.sticky { p with state := .waiting now, lost := 0, backlog } =
      decisions config.key.sticky (backlog.map .update) := rfl
    rw [hleft, decisions_append, decisions_map_unscoped, List.append_assoc, ← List.map_append]
    exact (hr hw).2 n hn

/-- Nothing comes to a follower that was told nothing. What comes is about networks that there is room for. -/
theorem within_arrived (h : v.Kept config networks own g) {n : Nat} {held : List UInt8} {fs : List Frame}
    {left : Leftover} (hpost : v.post = .following held) (hd : decodeAll (held ++ v.flight.take n) = (fs, left)) :
    ((∀ p ∈ v.peer, p.state = .fresh) → held = [] ∧ v.flight = [] ∧ fs = [] ∧ left = ⟨[], none⟩) ∧
    ∀ d ∈ decisions config.key.sticky fs, d.Within config.bits.toNat networks := by
  have nothing : v.flight = [] → held = [] → held = [] ∧ v.flight = [] ∧ fs = [] ∧ left = ⟨[], none⟩ := by
    intro hflight hheld
    rw [hflight, hheld, List.take_nil, List.append_nil, decodeAll_of_incomplete rfl] at hd
    exact ⟨hheld, hflight, (Prod.mk.inj hd).1.symm, (Prod.mk.inj hd).2.symm⟩
  cases h.phase with
  | apart hv hflight hnil =>
    have hall := nothing hflight (hnil held hpost)
    exact ⟨fun _ => hall, by rw [hall.2.2.1]; exact nofun⟩
  | accepted hv hp hflight hpost' =>
    have hall := nothing hflight (FollowerPost.following.inj (hpost.symm.trans hpost'))
    exact ⟨fun _ => hall, by rw [hall.2.2.1]; exact nofun⟩
  | told hv hp hc =>
    obtain rfl := FollowerPost.following.inj (hpost.symm.trans hc.following)
    refine ⟨fun hfresh => ?_, fun d hd' => hc.within d ?_⟩
    · have := hfresh _ hv
      rw [hp] at this
      cases this
    · obtain ⟨-, more, rfl, -⟩ := hc.arrive n hd
      rw [decisions_append]
      exact List.mem_append_left _ hd'

/-- Bytes arrive, and what they tell of the table is written there. -/
theorem arrive (h : v.Kept config networks own g) (now : Time) (n : Nat) {held : List UInt8} {fs : List Frame}
    {left : Leftover} (hpost : v.post = .following held) (hd : decodeAll (held ++ v.flight.take n) = (fs, left)) :
    ({ v with
        flight := v.flight.drop n
        post := match left.error with
          | none => .following left.rest
          | some _ => .pausing (now + Follower.pause)
        theirs := v.theirs.settleAll now (decisions config.key.sticky fs) } : Scene).Kept config networks own
      (g.turn none { v with
        flight := v.flight.drop n
        post := match left.error with
          | none => .following left.rest
          | some _ => .pausing (now + Follower.pause)
        theirs := v.theirs.settleAll now (decisions config.key.sticky fs) }) := by
  obtain ⟨nothing, hwithin⟩ := h.within_arrived hpost hd
  have hfs : ∀ d ∈ decisions config.key.sticky fs, d.Within v.theirs.config.bits.toNat networks := by
    rw [h.config_theirs]
    exact hwithin
  obtain ⟨htheirs, hassigned⟩ := h.theirs.settleAll now hfs
  refine ⟨h.ours, htheirs, h.config_ours, (Store.config_settleAll ..).trans h.config_theirs, ?_⟩
  cases h.phase with
  | apart hv hflight hnil =>
    obtain ⟨rfl, hflight, rfl, rfl⟩ := nothing fun p hp => by rw [hv] at hp; cases hp
    exact .of_apart hv (by rw [hflight, List.drop_nil]) fun _ hheld => (FollowerPost.following.inj hheld).symm
  | accepted hv hp hflight hpost' hwait hheld _ hlog =>
    obtain ⟨rfl, hflight, rfl, rfl⟩ := nothing fun p hp' => by
      obtain rfl := Option.some.inj (hv.symm.trans hp')
      exact hp
    exact .of_accepted hv hp (by rw [hflight, List.drop_nil]) rfl hwait hheld
      fun hw _ => (List.append_nil _).trans (hlog hw).2
  | told hv hp hc hwait hr =>
    obtain rfl := FollowerPost.following.inj (hpost.symm.trans hc.following)
    obtain ⟨hnone, more, rfl, hc'⟩ := hc.arrive n hd
    rw [decisions_append] at hr
    simp only [hnone]
    refine .of_told hv hp hc' hwait fun hw _ n hn => ?_
    rw [hassigned, h.config_theirs, ← replay_append, ← List.append_assoc]
    exact (hr hw).2 n hn

theorem step (h : v.Kept config networks own g) {v' : Scene} {d? : Option Decision} (hs : Step config.key d? v v')
    (hpost : v.peer = none → v'.peer = none ∨ ∃ held, v.post = .following held)
    (hd : ∀ d ∈ d?, d.Within config.bits.toNat networks) : v'.Kept config networks own (g.turn d? v') := by
  have same : ∀ {ours : Store}, ours.Roomy networks → ours.config = config →
      ({ v with ours } : Scene).Kept config networks own (g.turn none { v with ours }) :=
    fun ho hc => h.tables ho h.theirs hc h.config_theirs fun _ _ => rfl
  cases hs with
  | idle => exact same h.ours h.config_ours
  | decide now d =>
    obtain ⟨ho, -⟩ := h.ours.settle now (h.config_ours ▸ hd d rfl)
    have hc := (Store.config_settle now d.client d.backend v.ours).trans h.config_ours
    have hwrite := (h.hand (some d) (decisions_update d) hd).tables ho h.theirs hc h.config_theirs fun _ _ => rfl
    exact (Memory.turn_turn (v.ours.settle now d.client d.backend)).subst hwrite
  | other hu => exact h.hand none (List.filterMap_cons_none (if_neg hu)) nofun
  | lookUp client => exact same (h.ours.touch client).1 ((Store.config_touch ..).trans h.config_ours)
  | @accept _ p hv hp hb =>
    rcases hpost hv with hno | ⟨held, hheld⟩
    · cases hno
    · exact h.accept hv hp hb hheld
  | dump now hv hp hfs => exact h.dump hv hp now hfs
  | send now hv hn => exact h.send hv hn
  | arrive now n hheld hfs => exact h.arrive now n hheld hfs
  | lost n hno =>
    refine ⟨h.ours, h.theirs, h.config_ours, h.config_theirs, ?_⟩
    cases h.phase with
    | apart hv hflight hnil => exact .of_apart hv (by rw [hflight, List.drop_nil]) hnil
    | accepted _ _ _ hheld => exact absurd hheld (hno [])
    | told _ _ hc => exact absurd hc.following (hno _)

theorem course (h : v.Kept config networks own g) {v' : Scene} {d? : Option Decision}
    (hc : Course config.key d? v v') (hd : ∀ d ∈ d?, d.Within config.bits.toNat networks) :
    v'.Kept config networks own (g.turn d? v') := by
  cases hc with
  | step hs hpost => exact h.step hs hpost hd
  | lose hno =>
    exact ⟨h.ours, h.theirs, h.config_ours, h.config_theirs,
      .of_apart rfl rfl fun held hheld => absurd hheld (hno held)⟩
  | dial hno hnil =>
    refine ⟨h.ours, h.theirs, h.config_ours, h.config_theirs, ?_⟩
    cases h.phase with
    | apart hv hflight => exact .of_apart hv hflight hnil
    | accepted _ _ _ hheld => exact absurd hheld (hno [])
    | told _ _ hc => exact absurd hc.following (hno _)

/-- Whatever happens, what is kept of a scene is kept. -/
theorem turn (h : v.Kept config networks own g) {v' : Scene} {d? : Option Decision}
    (ht : Turn config.key networks own d? v v') (hd : ∀ d ∈ d?, d.Within config.bits.toNat networks) :
    v'.Kept config networks own (g.turn d? v') := by
  cases ht with
  | course hc => exact h.course hc hd
  | announce d => exact h.hand (some d) (decisions_update d) hd
  | elsewhere ho ht hco hct hown =>
    exact h.tables ho ht (hco.trans h.config_ours) (hct.trans h.config_theirs) hown

/-- Nothing arrives at a follower that was not accepted. -/
theorem theirs_of_apart (h : v.Kept config networks own g) (hv : v.peer = none) {v' : Scene} {d? : Option Decision}
    (ht : Turn config.key networks own d? v v') {n : Ip} (hn : own n) :
    v'.theirs.assigned n = v.theirs.assigned n := by
  cases ht with
  | course hc =>
    cases hc with
    | step hs _ =>
      cases hs with
      | idle | decide | other | lookUp | accept | dump | send | lost => rfl
      | arrive now k hheld hfs =>
        obtain ⟨-, -, rfl, -⟩ := (h.within_arrived hheld hfs).1 fun p hp => by rw [hv] at hp; cases hp
        rfl
    | lose => rfl
    | dial => rfl
  | announce => rfl
  | elsewhere _ _ _ _ hown => exact hown n hn

/-- Once all is delivered and no update was lost, the follower has what was announced, on top of what it was told, on
top of what it had. -/
theorem delivered (h : v.Kept config networks own g) {p : Peer} (hv : v.peer = some p) (hp : p.state ≠ .fresh)
    (hb : p.backlog = []) (hflight : v.flight = []) (hw : g.whole) {n : Ip} (hn : own n) :
    v.theirs.assigned n = g.outcome config.bits.toNat n := by
  cases h.phase with
  | apart hv' => rw [hv] at hv'; cases hv'
  | accepted hv' hp' =>
    obtain rfl := Option.some.inj (hv.symm.trans hv')
    exact absurd hp' hp
  | told hv' _ hc _ hr =>
    obtain rfl := Option.some.inj (hv.symm.trans hv')
    rw [hflight] at hc
    have hwait : p.decisions config.key.sticky = [] := by
      rw [Peer.decisions, hb]
      rfl
    have hall := (hr hw).2 n hn
    rwa [hc.nothing, hwait] at hall

end Kept

/-! ## Histories -/

section Histories

variable {α : Type} {peer : List α → Option Peer} {scene : List α → Scene} {told : α → Option Decision} {a : α}
  {h : List α}

/-- What is remembered after a history of scenes. -/
def memory (scene : List α → Scene) (told : α → Option Decision) : List α → Memory
  | [] => ⟨(scene []).theirs.assigned, [], (scene []).ours.assigned, true⟩
  | a :: h => (memory scene told h).turn (told a) (scene (a :: h))

/-- What is remembered is what the follower had when it was not accepted last, what was announced in the session since
then, and what the server had when the follower was last to be told that. -/
theorem memory_eq (scene : List α → Scene) (told : α → Option Decision) : ∀ h, memory scene told h =
    { before := (scene (absence (fun h => (scene h).peer) h)).theirs.assigned
      log := ((session (fun h => (scene h).peer) h).filterMap told).reverse
      dumped := (scene (greeting (fun h => (scene h).peer) h)).ours.assigned
      whole := (memory scene told h).whole }
  | [] => rfl
  | a :: h => by
    rw [memory, memory_eq scene told h]
    simp only [Memory.turn, absence_cons, session_cons, greeting_cons, Memory.mk.injEq]
    refine ⟨?_, ?_, ?_, trivial⟩
    · split <;> rfl
    · split
      · rfl
      · cases ht : told a <;> simp [ht]
    · split <;> rfl

/-- While no update is lost since the follower was accepted, what is remembered is all. -/
theorem whole_memory : ∀ {h : List α}, (∀ h', absence (fun h => (scene h).peer) h <:+ h' → h' <:+ h →
    ∀ p ∈ (scene h').peer, p.lost = 0) → (memory scene told h).whole
  | [], _ => rfl
  | a :: h, hl => by
    cases hv : (scene (a :: h)).peer with
    | none => simp [memory, Memory.turn, hv]
    | some p =>
      simp only [absence_cons, hv, Option.isNone_some, Bool.false_eq_true, if_false] at hl
      have hh : (memory scene told h).whole :=
        whole_memory fun h' hs hs' => hl h' hs (hs'.trans (List.suffix_cons a h))
      have hp := hl (a :: h) ((absence_suffix _ h).trans (List.suffix_cons a h)) List.suffix_rfl p hv
      simp [memory, Memory.turn, hv, hh, hp]

/-- Once all is delivered and no update was lost since the follower was accepted, it has what was announced since then,
on top of what the server told it, on top of what it had. -/
theorem Kept.delivered_session {config : StoreConfig} {networks : Finset Ip} {own : Ip → Prop} {n : Ip} {p : Peer}
    (hkept : (scene h).Kept config networks own (memory scene told h)) (hv : (scene h).peer = some p)
    (hp : p.state ≠ .fresh) (hb : p.backlog = []) (hflight : (scene h).flight = [])
    (hlost : ∀ h', absence (fun h => (scene h).peer) h <:+ h' → h' <:+ h → ∀ p ∈ (scene h').peer, p.lost = 0)
    (hn : own n) : (scene h).theirs.assigned n =
      replay config.bits.toNat
        (((session (fun h => (scene h).peer) h).filterMap told).reverse.map Decision.unscoped)
        (fun n => (((scene (greeting (fun h => (scene h).peer) h)).ours.assigned n).map Address.unscoped).or
          ((scene (absence (fun h => (scene h).peer) h)).theirs.assigned n)) n := by
  have htheirs := hkept.delivered hv hp hb hflight (whole_memory hlost) hn
  rw [memory_eq] at htheirs
  exact htheirs

/-- What happened since a follower was told all assignments happened since it was accepted. -/
theorem exists_append_greeting (hs : absence peer h <:+ greeting peer h) :
    ∃ r, r ++ greeting peer h = h ∧ r ⊆ session peer h := by
  obtain ⟨r, hr⟩ := greeting_suffix peer h
  obtain ⟨mid, hmid⟩ := hs
  refine ⟨r, hr, ?_⟩
  have hall : r ++ mid ++ absence peer h = session peer h ++ absence peer h := by
    rw [session_append_absence, List.append_assoc, hmid]
    exact hr
  rw [← List.append_cancel_right hall]
  exact List.subset_append_left r mid

/-- Who is accepted is told the assignments later. -/
theorem absence_suffix_greeting (h0 : peer [] = none)
    (hstep : ∀ a h, peer h = none → peer (a :: h) = none ∨ awaits (peer (a :: h))) :
    ∀ h, peer h ≠ none → absence peer h <:+ greeting peer h
  | [], hne => absurd h0 hne
  | a :: h, hne => by
    have hsome : (peer (a :: h)).isNone = false := by simpa [Option.ne_none_iff_isSome] using hne
    rw [absence_cons, greeting_cons, hsome]
    simp only [Bool.false_eq_true, if_false]
    split
    · exact (absence_suffix _ h).trans (List.suffix_cons a h)
    · rename_i hno
      refine absence_suffix_greeting h0 hstep h fun hnone => ?_
      exact (hstep a h hnone).elim hne hno

end Histories

end Scene

end AffinityRelay
