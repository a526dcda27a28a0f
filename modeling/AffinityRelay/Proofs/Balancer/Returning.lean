import AffinityRelay.Proofs.Affinity.Recency
import AffinityRelay.Proofs.Balancer.Chain

/-!
# Clients that come back

Everything that happens to a balancer and to the table it asks is a `Balancer.History`, the latest first. Of such a
history the table has one of its own (`Balancer.onTable`), and is the table that this leads to
(`Balancer.store_reached`); what was written last for a network stays so while nothing is decided about it
(`Balancer.lastWrite_kept`). So a client that comes back is sent where its network was sent last, if its own list of
addresses has that backend still, and not too long after; else the policy chooses, as for any other client
(`Balancer.returning_client`).
-/

namespace AffinityRelay

namespace Store

variable {config : StoreConfig} {n : Ip} {h : History}

/-- The network that an event writes a decision for. -/
def Event.written (bits : Nat) : Event → Option Ip
  | put client _ | withdraw client => some (client.mask bits)
  | get _ | entries | size | wait _ => none

/-- A decision about a network stays the last one while no other is written for it. -/
theorem lastWrite_append_of_not_written : ∀ {later : History}, (∀ e ∈ later, e.written config.bits.toNat ≠ some n) →
    lastWrite config n (later ++ h) = lastWrite config n h
  | [], _ => rfl
  | e :: later, hn => by
    have ih := lastWrite_append_of_not_written (List.forall_mem_cons.1 hn).2
    have he := (List.forall_mem_cons.1 hn).1
    cases e with
    | put client backend | withdraw client =>
      have hne : client.mask config.bits.toNat ≠ n := by simpa [Event.written] using he
      rw [List.cons_append, lastWrite, if_neg hne, ih]
    | get client | entries | size | wait span => exact ih

end Store

namespace Balancer

/-! ## What happens to a balancer and its table -/

/-- What can happen to a balancer, for whatever connection, client or node, and to the table that others may share with
it. -/
inductive Move where
  | wait (span : Time)
  | install (list : List Address)
  | start (client : Ip)
  | next (a : Attempts)
  | succeed (a : Attempts)
  | fail (a : Attempts)
  | settle (client : Ip) (backend : Option Address)
  /-- Someone else looks a client up. -/
  | ask (client : Ip)

/-- All that happened, the latest first. -/
abbrev History := List Move

/-- The time after a history. -/
def clock : History → Time
  | [] => 0
  | .wait span :: h => clock h + span
  | _ :: h => clock h

/-- The balancer after a move. -/
def Move.apply (now : Time) (b : Balancer) : Move → Balancer
  | wait _ => b
  | install list => b.install list
  | start client => (b.start client).2
  | next a => (b.next now a).2.2
  | succeed a => (b.succeed now a).2
  | fail a => (b.fail now a).2.2
  | settle client backend => (b.settle now client backend).2
  | ask client => { b with store := (b.store.get now client).2 }

/-- The balancer that a history leads to. -/
def reached (b₀ : Balancer) : History → Balancer
  | [] => b₀
  | m :: h => m.apply (clock h) (reached b₀ h)

/-- The client that a move decides about, if it does: it has a backend now, or none any more. -/
def Move.decided : Move → Option Ip
  | succeed a => a.remote.map fun _ => a.client
  | fail a => some a.client
  | settle client _ => some client
  | wait _ | install _ | start _ | next _ | ask _ => none

/-- What a move is to the table, if anything. -/
def Move.onTable (policy : Policy) : Move → Option Store.Event
  | wait span => some (.wait span)
  | install _ | start _ => none
  | next a => if a.count == 0 && policy ≠ .first then some (.get a.client) else none
  | succeed a => a.remote.map (.put a.client)
  | fail a => some (.withdraw a.client)
  | settle client backend => some (backend.elim (.withdraw client) (.put client))
  | ask client => some (.get client)

/-- What happened to the table. -/
def onTable (policy : Policy) : History → Store.History
  | [] => []
  | m :: h => (m.onTable policy).toList ++ onTable policy h

/-! ## The history of the table -/

variable {b₀ : Balancer} {h : History}

theorem store_apply (now : Time) (m : Move) (b : Balancer) :
    (m.apply now b).store = (m.onTable b.policy).elim b.store fun e => e.apply now b.store := by
  cases m with
  | wait span => rfl
  | install list => rfl
  | start client =>
    simp only [Move.apply, start]
    split <;> rfl
  | next a =>
    have hasked : (b.next now a).2.2.store = (b.asked a).store := by
      unfold next
      split <;> rfl
    simp only [Move.apply, hasked, Move.onTable, asked, asksStore]
    by_cases hc : (a.count == 0 && b.policy ≠ .first) = true
    · simp only [hc, if_true]
      rfl
    · simp only [hc]
      rfl
  | succeed a =>
    simp only [Move.apply, succeed, Move.onTable]
    cases a.remote <;> rfl
  | fail a => rfl
  | settle client backend => cases backend <;> rfl
  | ask client => rfl

theorem policy_apply (now : Time) (m : Move) (b : Balancer) : (m.apply now b).policy = b.policy := by
  cases m with
  | wait span => rfl
  | install list => rfl
  | start client => exact policy_start client b
  | next a => exact policy_next now a b
  | succeed a =>
    simp only [Move.apply, succeed]
    split <;> rfl
  | fail a => rfl
  | settle client backend => rfl
  | ask client => rfl

@[simp] theorem policy_reached : ∀ h : History, (reached b₀ h).policy = b₀.policy
  | [] => rfl
  | m :: h => (policy_apply (clock h) m _).trans (policy_reached h)

@[simp] theorem onTable_append (policy : Policy) (later h : History) :
    onTable policy (later ++ h) = onTable policy later ++ onTable policy h := by
  induction later with
  | nil => rfl
  | cons m later ih => simp [onTable, ih]

@[simp] theorem clock_onTable (policy : Policy) : ∀ h : History, Store.clock (onTable policy h) = clock h
  | [] => rfl
  | m :: h => by
    have ih := clock_onTable policy h
    cases m with
    | wait span => exact congrArg (· + span) ih
    | install list | start client | fail a | ask client => exact ih
    | next a =>
      simp only [onTable, Move.onTable]
      split <;> exact ih
    | succeed a =>
      simp only [onTable, Move.onTable]
      cases a.remote <;> exact ih
    | settle client backend => cases backend <;> exact ih

/-- The table is what its own history makes of it. -/
theorem store_reached (hs : b₀.store.held = []) :
    ∀ h : History, (reached b₀ h).store = Store.after b₀.store.config (onTable b₀.policy h)
  | [] => by
    show b₀.store = { config := b₀.store.config }
    rw [← hs]
  | m :: h => by
    have ih := store_reached hs h
    rw [reached, store_apply, policy_reached, ih, onTable]
    cases hm : m.onTable b₀.policy with
    | none => rfl
    | some e =>
      show _ = e.apply (Store.clock (onTable b₀.policy h)) _
      rw [clock_onTable]
      rfl

/-- A move writes for the network of the client it decides about, and for no other. -/
theorem written_onTable {policy : Policy} {m : Move} {e : Store.Event} (he : m.onTable policy = some e) (bits : Nat) :
    e.written bits = m.decided.map (·.mask bits) := by
  cases m with
  | wait span | fail a | ask client => cases he; rfl
  | install list | start client => cases he
  | next a =>
    simp only [Move.onTable] at he
    split at he <;> cases he
    rfl
  | succeed a =>
    obtain ⟨x, hx, rfl⟩ := Option.map_eq_some_iff.1 he
    simp [Store.Event.written, Move.decided, hx]
  | settle client backend => cases backend <;> cases he <;> rfl

/-- What was written last for a network stays so while nothing is decided about its clients. -/
theorem lastWrite_kept {config : StoreConfig} {policy : Policy} {n : Ip} {later : History}
    (hl : ∀ m ∈ later, m.decided.map (·.mask config.bits.toNat) ≠ some n) :
    Store.lastWrite config n (onTable policy (later ++ h)) = Store.lastWrite config n (onTable policy h) := by
  rw [onTable_append]
  refine Store.lastWrite_append_of_not_written ?_
  induction later with
  | nil => simp [onTable]
  | cons m later ih =>
    obtain ⟨hm, hl⟩ := List.forall_mem_cons.1 hl
    intro e he
    obtain he | he := List.mem_append.1 he
    · rw [written_onTable (Option.mem_toList.1 he)]
      exact hm
    · exact ih hl e he

/-- While nothing else is decided about a network and no full table of others was touched, its clients are answered
where the last attempt went, as long as the table answers so old an assignment. -/
theorem answer_returning (hempty : b₀.store.held = []) {earlier later : History} {a : Attempts} {x : Address}
    {client : Ip} (hx : a.remote = some x)
    (hclient : client.mask b₀.store.config.bits.toNat = a.client.mask b₀.store.config.bits.toNat)
    (hquiet : ∀ m ∈ later, m.decided.map (·.mask b₀.store.config.bits.toNat) ≠
      some (client.mask b₀.store.config.bits.toNat))
    (hroom : (Store.touchedSince b₀.store.config (client.mask b₀.store.config.bits.toNat)
      (onTable b₀.policy (later ++ .succeed a :: earlier))).card < b₀.store.config.capacity)
    (now : Time) (y : Address) :
    (reached b₀ (later ++ .succeed a :: earlier)).store.answer now client = some y ↔
      y = x ∧ now ≤ clock earlier + b₀.store.config.lifetime := by
  have hlast : Store.lastWrite b₀.store.config (client.mask b₀.store.config.bits.toNat)
      (onTable b₀.policy (later ++ .succeed a :: earlier)) = some (some (x, clock earlier)) := by
    rw [lastWrite_kept hquiet]
    simp [onTable, Move.onTable, hx, Store.lastWrite, hclient]
  have hr : Store.Recorded b₀.store.config (onTable b₀.policy (later ++ .succeed a :: earlier)) :=
    Store.recorded_after _
  rw [store_reached hempty, hr.answer_eq_some_iff, hlast]
  constructor
  · rintro ⟨-, t, ht, hf⟩
    simp only [Option.some.injEq, Prod.mk.injEq] at ht
    obtain ⟨rfl, rfl⟩ := ht
    exact ⟨rfl, Nat.sub_le_iff_le_add'.1 hf⟩
  · rintro ⟨rfl, hf⟩
    exact ⟨hr.kept hlast hroom, clock earlier, rfl, Nat.sub_le_iff_le_add'.2 hf⟩

/-! ## The first choice of a connection -/

section First

variable {b : Balancer} {a : Attempts} {list : List Address} {place : Nat} {now : Time}

/-- The first choice of a policy: on a ring the place where the walk begins, at random any place. It is on the list, and
only an empty list has none. -/
theorem pick_of_at {policy : Policy} (h : a.At list place policy 0) (chance : Chance) :
    (policy.usesRing → (a.pick policy chance).1 = list[place % list.length]?) ∧
    (policy = .random → (a.pick policy chance).1 = list[(chance.below list.length).1]?) ∧
    (∀ x, (a.pick policy chance).1 = some x → x ∈ list) ∧
    ((a.pick policy chance).1 = none ↔ list = []) := by
  by_cases hnil : list = []
  · have hnone := Attempts.pick_nil (h.list_eq.trans hnil) policy chance
    simp [hnone, hnil]
  have hpos : 0 < list.length := List.length_pos_iff.2 hnil
  obtain ⟨x, hx, hmem, hring, -⟩ := h.pick hpos chance
  rw [hx]
  refine ⟨fun hu => ?_, ?_, ?_, by simp [hnil]⟩
  · rw [← hring hu, List.getElem?_rotate hpos, Nat.zero_add]
  · rintro rfl
    rw [← hx]
    simp [Attempts.pick, h.list_eq, hnil]
  · rintro y hy
    obtain rfl := Option.some.inj hy
    exact hmem

/-- An attempt that asks the table has the answer assigned, if it is on the list. -/
theorem assigned_eq_some_iff {x : Address} (h : b.asksStore a = true) :
    b.assigned now a = some x ↔ b.store.answer now a.client = some x ∧ x ∈ a.list := by
  rw [assigned, if_pos h, Option.filter_eq_some_iff, List.contains_iff_mem]

theorem next_of_not_assigned (hn : b.assigned now a = none) :
    (b.next now a).1 = (({ a with count := a.count + 1 } : Attempts).pick b.policy b.chance).1 := by
  have hc : (b.asked a).chance = b.chance := by
    unfold asked
    split <;> rfl
  simp only [next, hn, choose, policy_asked, hc]

theorem next_of_assigned {x : Address} (hx : b.assigned now a = some x) :
    b.next now a = (some x, { a with count := a.count + 1, remote := some x }, b.asked a) := by
  simp only [next, hx]

end First

/-- Where a client comes from is decided for its whole network. Say an attempt of one of its clients succeeded,
nothing was decided about any of them since, and fewer other networks were touched since than the table has room for.
Then a connection of any of its clients goes first to the backend of that attempt, if the list of the connection has
it and the table may answer still, and takes nothing of its ring, its budget or of chance. If the list does not have
it, or the time is over, the first choice is the policy's: the place where the ring of the connection begins, or any
of its list. It is on the list, and only an empty list has none. -/
theorem returning_client {b₀ : Balancer} (hfirst : b₀.policy ≠ .first) (hempty : b₀.store.held = [])
    (earlier later between : History) {a : Attempts} {x : Address} {client : Ip} (hx : a.remote = some x)
    (hclient : client.mask b₀.store.config.bits.toNat = a.client.mask b₀.store.config.bits.toNat)
    (hquiet : ∀ m ∈ between ++ later, m.decided.map (·.mask b₀.store.config.bits.toNat) ≠
      some (client.mask b₀.store.config.bits.toNat))
    (hroom : (Store.touchedSince b₀.store.config (client.mask b₀.store.config.bits.toNat)
      (onTable b₀.policy (between ++ .start client :: later ++ .succeed a :: earlier))).card <
        b₀.store.config.capacity) :
    let began := reached b₀ (later ++ .succeed a :: earlier)
    let c := (began.start client).1
    let h := between ++ .start client :: later ++ .succeed a :: earlier
    let b := reached b₀ h
    (x ∈ began.addresses → clock h ≤ clock earlier + b₀.store.config.lifetime →
      b.next (clock h) c =
        (some x, { c with count := 1, remote := some x }, { b with store := b.store.touch client })) ∧
    (x ∉ began.addresses ∨ clock earlier + b₀.store.config.lifetime < clock h →
      (b₀.policy.usesRing →
        (b.next (clock h) c).1 = began.addresses[began.started.toNat % began.addresses.length]?) ∧
      (b₀.policy = .random →
        (b.next (clock h) c).1 = began.addresses[(b.chance.below began.addresses.length).1]?) ∧
      (∀ y, (b.next (clock h) c).1 = some y → y ∈ began.addresses) ∧
      ((b.next (clock h) c).1 = none ↔ began.addresses = [])) := by
  intro began c h b
  have hat : c.At began.addresses began.started.toNat b₀.policy 0 := by
    have := start_at client began
    rwa [policy_reached] at this
  have hclient' : c.client = client := client_start client began
  have hcount : c.count = 0 := count_start client began
  have hpolicy : b.policy = b₀.policy := policy_reached h
  have hasks : b.asksStore c = true := by simp [asksStore, hcount, hpolicy, hfirst]
  have hquiet' : ∀ m ∈ between ++ .start client :: later, m.decided.map (·.mask b₀.store.config.bits.toNat) ≠
      some (client.mask b₀.store.config.bits.toNat) := by
    simp only [List.forall_mem_append, List.forall_mem_cons] at hquiet ⊢
    exact ⟨hquiet.1, (Option.some_ne_none _).symm, hquiet.2⟩
  have hassigned (y : Address) : b.assigned (clock h) c = some y ↔
      (y = x ∧ clock h ≤ clock earlier + b₀.store.config.lifetime) ∧ y ∈ began.addresses := by
    rw [assigned_eq_some_iff hasks, hclient', hat.list_eq]
    exact and_congr_left' (answer_returning hempty hx hclient hquiet' hroom (clock h) y)
  refine ⟨fun hmem htime => ?_, fun hmiss => ?_⟩
  · rw [next_of_assigned ((hassigned x).2 ⟨⟨rfl, htime⟩, hmem⟩), asked, if_pos hasks, hclient', hcount]
  · have hnone : b.assigned (clock h) c = none := by
      refine Option.eq_none_iff_forall_ne_some.2 fun y hy => ?_
      obtain ⟨⟨rfl, htime⟩, hmem⟩ := (hassigned y).1 hy
      exact hmiss.elim (fun hm => hm hmem) (Nat.not_lt_of_le htime)
    rw [next_of_not_assigned hnone, hpolicy]
    exact pick_of_at (hat.count c.remote (c.count + 1)) b.chance

/-! A port with two backends, of which the second was reached by a first client. -/

def homeBackend : Address := { ip := .v4 #v[192, 168, 0, 2], port := 80 }

def otherBackend : Address := { ip := .v4 #v[192, 168, 0, 1], port := 80 }

def laterBackend : Address := { ip := .v4 #v[192, 168, 0, 3], port := 80 }

def portBalancer : Balancer where
  policy := .ring
  store := { config := { kind := .memory, bits := 24, elements := 2, seconds := 60 } }
  chance := .ofSeed 7

def firstAttempt : Attempts :=
  { client := .v4 #v[10, 0, 0, 7], list := [otherBackend, homeBackend], remote := some homeBackend, count := 2 }

def otherAttempt : Attempts :=
  { client := .v4 #v[10, 0, 1, 1], list := [otherBackend, homeBackend], remote := some otherBackend, count := 1 }

def beforeFirst : History :=
  [.wait 5, .start (.v4 #v[10, 0, 0, 7]), .install [otherBackend, homeBackend]]

def afterFirst : History :=
  [.wait (40 * second), .install [homeBackend, laterBackend], .succeed otherAttempt]

/-- A neighbour of the first client comes, and its backend is off the list before the first choice. So long after that
the choice is made. -/
def afterStart (span : Time) : History :=
  [.wait span, .fail otherAttempt, .install [laterBackend]]

theorem returning_client_neighbour :
    let began := reached portBalancer (afterFirst ++ .succeed firstAttempt :: beforeFirst)
    let chosen (span : Time) :=
      let h := afterStart span ++ .start (.v4 #v[10, 0, 0, 9]) :: afterFirst ++ .succeed firstAttempt :: beforeFirst
      ((reached portBalancer h).next (clock h) (began.start (.v4 #v[10, 0, 0, 9])).1).1
    chosen (20 * second) = some homeBackend ∧ chosen (20 * second + 1) = some laterBackend := by
  have h (span : Time) := @returning_client portBalancer (by decide) rfl beforeFirst afterFirst (afterStart span)
    firstAttempt homeBackend (.v4 #v[10, 0, 0, 9]) rfl
  constructor
  · exact congrArg Prod.fst ((h (20 * second) (by decide) (by decide) (by decide)).1 (by decide) (by decide))
  · exact ((h (20 * second + 1) (by decide) (by decide) (by decide)).2 (.inr (by decide))).1 rfl

end Balancer

end AffinityRelay
