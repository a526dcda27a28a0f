import Mathlib.Data.Int.CardIntervalMod
import AffinityRelay.Proofs.Balancer.Returning

/-!
# Every place of a ring has its share of first picks

Connections begin one after another at a balancer that walks its list as a ring. Their attempts are made in any order,
and so is whatever else happens.

* `Traffic`: a balancer with the connections that began at it, each with its picks so far, and `Traffic.run`: what can
  happen to them, one thing after another;
* `Attempts.place?`: where on its list a connection is next. The pick of a ring is the address there (`pick_of_ring`);
* `Call.Paced`, `Traffic.Paced`: the walk of a connection begins where the count stood when the connection began, and
  the first pick of the policy is made there. What happens keeps that (`Paced.step`), so every run does (`paced_run`);
* `count_places`: of so many counts in a row, as many fall on one place as on another, but for one;
* `Traffic.first_picks_shared`: what that comes to.
-/

namespace AffinityRelay

/-! ## The places of the picks -/

namespace Attempts

/-- The place of the list where the walk goes next. -/
def place? (a : Attempts) : Option Nat :=
  (a.ring.bind Ring.next?).map Prod.fst

/-- A policy on a ring picks the address at the next place. -/
theorem pick_of_ring {policy : Policy} (h : policy.usesRing) (a : Attempts) (chance : Chance) :
    (a.pick policy chance).1 = a.place?.bind (a.list[·]?) := by
  cases policy with
  | first | random => cases h
  | ring | sortedRing | shuffledRing =>
    simp only [pick, place?]
    split
    · rename_i hn
      simp [hn]
    · rename_i hn
      simp [hn]

@[simp] theorem list_pick (policy : Policy) (a : Attempts) (chance : Chance) :
    (a.pick policy chance).2.1.list = a.list := by
  unfold pick
  split
  · rfl
  · split <;> rfl
  all_goals split <;> rfl

/-- A walk that begins where a count stands begins there around the list. -/
theorem place?_ofCount {a : Attempts} {count : Nat} (hr : a.ring = some (Ring.ofCount count a.list.length))
    (hlist : a.list ≠ []) : a.place? = some (count % a.list.length) := by
  have hpos : 0 < a.list.length := List.length_pos_iff.2 hlist
  simp [place?, hr, Ring.ofCount, Ring.next?, Ring.hasNext, hpos]

end Attempts

namespace Balancer

@[simp] theorem list_next (now : Time) (a : Attempts) (b : Balancer) : (b.next now a).2.1.list = a.list := by
  unfold next
  split
  · rfl
  · exact Attempts.list_pick ..

end Balancer

/-- What was picked for an attempt: the backend that was assigned to the client, or one of the policy's choice, with its
place where the policy walks a ring. -/
inductive Pick where
  | assigned (backend : Address)
  | chosen (place : Option Nat) (backend : Option Address)
  deriving DecidableEq

namespace Pick

/-- Whether nothing was assigned. -/
def isChosen : Pick → Bool
  | assigned _ => false
  | chosen _ _ => true

def place? : Pick → Option Nat
  | assigned _ => none
  | chosen place _ => place

def backend? : Pick → Option Address
  | assigned backend => some backend
  | chosen _ backend => backend

end Pick

/-- What is picked for the next attempt of a connection. -/
def Balancer.picked (now : Time) (a : Attempts) (b : Balancer) : Pick :=
  match b.assigned now a with
  | some backend => .assigned backend
  | none => .chosen a.place? (b.next now a).1

/-! ## Connections at a balancer -/

/-- A connection, and what was picked for its attempts, the first of them first. -/
structure Call where
  attempts : Attempts
  picks : List Pick := []

namespace Call

def next (now : Time) (b : Balancer) (c : Call) : Call where
  attempts := (b.next now c.attempts).2.1
  picks := c.picks ++ [b.picked now c.attempts]

def fail (now : Time) (b : Balancer) (c : Call) : Call :=
  { c with attempts := (b.fail now c.attempts).1 }

/-- Whether the connection is on a list, and its first attempt was made and had no backend assigned. -/
def missed (list : List Address) (c : Call) : Bool :=
  c.attempts.list = list && c.picks.head?.any Pick.isChosen

end Call

/-- A balancer and the connections that began at it, the first of them first. -/
structure Traffic where
  balancer : Balancer
  calls : List Call := []

namespace Traffic

/-- What can happen: a new list, a new connection, an attempt of a connection or what it came to, and a decision of
another node. -/
inductive Act where
  | install (list : List Address)
  | start (client : Ip)
  | next (now : Time) (i : Nat)
  | succeed (now : Time) (i : Nat)
  | fail (now : Time) (i : Nat)
  | settle (now : Time) (client : Ip) (backend : Option Address)

/-- What that is for the balancer, if it is anything. -/
def event? (t : Traffic) : Act → Option Balancer.Event
  | .install list => some (.install list)
  | .start client => some (.start client)
  | .next now i => t.calls[i]?.map fun c => .next now c.attempts
  | .succeed now i => t.calls[i]?.map fun c => .succeed now c.attempts
  | .fail now i => t.calls[i]?.map fun c => .fail now c.attempts
  | .settle now client backend => some (.settle now client backend)

/-- The connections after it. -/
def callsAfter (t : Traffic) : Act → List Call
  | .start client => t.calls ++ [{ attempts := (t.balancer.start client).1 }]
  | .next now i => t.calls.modify i (·.next now t.balancer)
  | .fail now i => t.calls.modify i (·.fail now t.balancer)
  | .install _ | .succeed _ _ | .settle _ _ _ => t.calls

def step (t : Traffic) (x : Act) : Traffic where
  balancer := t.balancer.after (t.event? x).toList
  calls := t.callsAfter x

/-- What comes of the acts, the first of them first. -/
def run (t : Traffic) (acts : List Act) : Traffic :=
  acts.foldl step t

def firstPick? (t : Traffic) (i : Nat) : Option Pick :=
  t.calls[i]?.bind (·.picks.head?)

/-- How many of the `m` connections from one on had their first pick at a place. -/
def firstPicksAt (t : Traffic) (start m place : Nat) : Nat :=
  Nat.count (fun k => (t.firstPick? (start + k)).bind Pick.place? = some place) m

end Traffic

/-! ## The walk of a connection -/

/-- The first pick of a connection comes from where the count stood when the connection began: so is its walk set up as
long as no attempt was made, and nothing that is picked later matters. -/
structure Call.Paced (count : Nat) (c : Call) : Prop where
  ring : c.picks = [] → c.attempts.ring = some (Ring.ofCount count c.attempts.list.length)
  first : c.attempts.list ≠ [] → ∀ p, c.picks.head? = some p → p.isChosen →
    p = .chosen (some (count % c.attempts.list.length)) c.attempts.list[count % c.attempts.list.length]?

section Paced

variable {count : Nat} {c : Call} {b : Balancer}

theorem Call.paced_start (hb : b.policy.usesRing) (client : Ip) :
    Call.Paced b.started.toNat { attempts := (b.start client).1 } where
  ring _ := by
    unfold Balancer.start
    rw [if_pos hb]
  first _ p hp := by cases hp

theorem Call.Paced.next (h : c.Paced count) (hb : b.policy.usesRing) (now : Time) : (c.next now b).Paced count where
  ring hnil := by simp [Call.next] at hnil
  first hlist p hp hchosen := by
    have hlist' : (c.next now b).attempts.list = c.attempts.list := Balancer.list_next ..
    rw [hlist'] at hlist ⊢
    -- Once there is a first pick it stays the first. If this one is it, the walk is still where it began.
    cases hpicks : c.picks with
    | cons q rest =>
      refine h.first hlist p ?_ hchosen
      simpa [Call.next, hpicks] using hp
    | nil =>
      obtain rfl : b.picked now c.attempts = p := by simpa [Call.next, hpicks] using hp
      have hplace := Attempts.place?_ofCount (h.ring hpicks) hlist
      unfold Balancer.picked at hchosen ⊢
      split at hchosen
      · cases hchosen
      · rename_i hnone
        have hsame : ({ c.attempts with count := c.attempts.count + 1 } : Attempts).place? = c.attempts.place? := rfl
        rw [Balancer.next_of_not_assigned hnone, Attempts.pick_of_ring hb, hsame, hplace]
        rfl

theorem Call.Paced.fail (h : c.Paced count) (now : Time) (b : Balancer) : (c.fail now b).Paced count :=
  ⟨h.ring, h.first⟩

end Paced

/-! ## What happens keeps the pace -/

namespace Balancer

@[simp] theorem started_asked (a : Attempts) (b : Balancer) : (b.asked a).started = b.started := by
  unfold asked
  split <;> rfl

@[simp] theorem started_next (now : Time) (a : Attempts) (b : Balancer) :
    (b.next now a).2.2.started = b.started := by
  unfold next
  split
  · exact started_asked a b
  · exact started_asked a b

theorem started_start {b : Balancer} (hb : b.policy.usesRing) (client : Ip) :
    (b.start client).2.started = b.started + 1 := by
  unfold start
  rw [if_pos hb]

/-- Only a new connection is counted. -/
theorem started_apply {e : Event} (he : ∀ client, e ≠ .start client) (b : Balancer) :
    (e.apply b).started = b.started := by
  cases e with
  | start client => exact absurd rfl (he client)
  | install list => rfl
  | next now a => exact started_next now a b
  | succeed now a =>
    simp only [Event.apply, succeed]
    split <;> rfl
  | fail now a => rfl
  | settle now client backend => rfl

end Balancer

namespace Traffic

/-- The connections after the first `base` keep pace with a count that stood at `count` when the first of them began. -/
structure Paced (base count : Nat) (t : Traffic) : Prop where
  ring : t.balancer.policy.usesRing
  base_le : base ≤ t.calls.length
  started : t.balancer.started.toNat = (count + (t.calls.length - base)) % 2 ^ 64
  calls : ∀ k c, t.calls[base + k]? = some c → c.Paced ((count + k) % 2 ^ 64)

variable {base count : Nat} {t : Traffic} {x : Act}

theorem paced_now (ht : t.balancer.policy.usesRing) : t.Paced t.calls.length t.balancer.started.toNat where
  ring := ht
  base_le := Nat.le_refl _
  started := by
    have := t.balancer.started.toNat_lt
    omega
  calls k c hc := by
    rw [List.getElem?_eq_none (by omega)] at hc
    cases hc

@[simp] theorem policy_step (x : Act) (t : Traffic) : (t.step x).balancer.policy = t.balancer.policy :=
  Balancer.policy_after ..

theorem started_step (hx : ∀ client, x ≠ .start client) (t : Traffic) :
    (t.step x).balancer.started = t.balancer.started := by
  simp only [step, Balancer.after]
  cases he : t.event? x with
  | none => rfl
  | some e =>
    refine Balancer.started_apply (fun client hc => ?_) t.balancer
    subst hc
    cases x with
    | start client => exact hx client rfl
    | install | settle => simp [event?] at he
    | next | succeed | fail => simp [event?] at he

theorem paced_of_modify {f : Call → Call} (hf : ∀ c count, c.Paced count → (f c).Paced count) {i j : Nat} {c' : Call}
    (h : (t.calls.modify j f)[i]? = some c') :
    ∃ c, t.calls[i]? = some c ∧ ∀ count, c.Paced count → c'.Paced count := by
  rw [List.getElem?_modify] at h
  obtain ⟨c, hc, rfl⟩ := Option.map_eq_some_iff.1 h
  refine ⟨c, hc, fun count hp => ?_⟩
  split
  · exact hf c count hp
  · exact hp

/-- What happens to a connection that has begun takes nothing from its pace. -/
theorem paced_of_callsAfter (hx : ∀ client, x ≠ .start client) (hb : t.balancer.policy.usesRing) {i : Nat} {c' : Call}
    (h : (t.callsAfter x)[i]? = some c') :
    ∃ c, t.calls[i]? = some c ∧ ∀ count, c.Paced count → c'.Paced count := by
  cases x with
  | start client => exact absurd rfl (hx client)
  | install | succeed | settle => exact ⟨c', h, fun _ => id⟩
  | next now j => exact paced_of_modify (fun c count hp => hp.next hb now) h
  | fail now j => exact paced_of_modify (fun c count hp => hp.fail now t.balancer) h

theorem length_callsAfter (hx : ∀ client, x ≠ .start client) (t : Traffic) :
    (t.callsAfter x).length = t.calls.length := by
  cases x with
  | start client => exact absurd rfl (hx client)
  | next | fail => exact List.length_modify ..
  | install | succeed | settle => rfl

theorem Paced.start (h : t.Paced base count) (client : Ip) : (t.step (.start client)).Paced base count where
  ring := (policy_step ..).symm ▸ h.ring
  base_le := by
    have := h.base_le
    simp only [step, callsAfter, List.length_append, List.length_singleton]
    omega
  started := by
    have hs : (t.step (.start client)).balancer.started = t.balancer.started + 1 := Balancer.started_start h.ring client
    have hstarted := h.started
    have hbase := h.base_le
    rw [hs, UInt64.toNat_add, hstarted]
    simp only [step, callsAfter, List.length_append, List.length_singleton, UInt64.toNat_one]
    omega
  calls k c hc := by
    have hbase := h.base_le
    simp only [step, callsAfter] at hc
    obtain hk | hk := Nat.lt_or_ge (base + k) t.calls.length
    · rw [List.getElem?_append_left hk] at hc
      exact h.calls k c hc
    · rw [List.getElem?_append_right hk, List.getElem?_singleton] at hc
      split at hc
      · obtain rfl := Option.some.inj hc
        have hk' : k = t.calls.length - base := by omega
        have hcount := h.started
        rw [← hk'] at hcount
        rw [← hcount]
        exact Call.paced_start h.ring client
      · cases hc

theorem Paced.step (h : t.Paced base count) (x : Act) : (t.step x).Paced base count := by
  by_cases hx : ∃ client, x = .start client
  · obtain ⟨client, rfl⟩ := hx
    exact h.start client
  · have hx : ∀ client, x ≠ .start client := fun client he => hx ⟨client, he⟩
    refine ⟨(policy_step ..).symm ▸ h.ring, (length_callsAfter hx t).symm ▸ h.base_le, ?_, fun k c hc => ?_⟩
    · rw [started_step hx, h.started]
      simp only [Traffic.step, length_callsAfter hx]
    · obtain ⟨c₀, hc₀, hkeep⟩ := paced_of_callsAfter hx h.ring hc
      exact hkeep _ (h.calls k c₀ hc₀)

/-- Every run keeps the pace. -/
theorem paced_run (h : t.Paced base count) : ∀ acts, (t.run acts).Paced base count := by
  intro acts
  induction acts generalizing t with
  | nil => exact h
  | cons x acts ih => exact ih (h.step x)

end Traffic

/-! ## The share of a place -/

/-- Of `m` counts in a row, a place of `n` is where `m / n` or one more of them fall. -/
theorem count_places (count m : Nat) {n place : Nat} (hplace : place < n) :
    Nat.count (fun k => (count + k) % n = place) m = m / n ∨
      Nat.count (fun k => (count + k) % n = place) m = (m + n - 1) / n := by
  -- The counts that fall on the place are those from one number on in steps of `n`.
  have hiff (k : Nat) : (count + k) % n = place ↔ k ≡ place + (n - 1) * count [MOD n] := by
    have hturn : count + (place + (n - 1) * count) = place + n * count := by
      obtain ⟨d, rfl⟩ := Nat.exists_eq_add_of_lt (Nat.zero_lt_of_lt hplace)
      simp only [Nat.zero_add, Nat.add_sub_cancel]
      ring
    have hhere : count + (place + (n - 1) * count) ≡ place [MOD n] := by
      rw [hturn]
      exact Nat.add_modEq_left_iff.2 (Nat.dvd_mul_right ..)
    rw [← (Nat.ModEq.refl count).add_iff_left]
    constructor
    · intro hk
      refine Nat.ModEq.trans ?_ hhere.symm
      rw [Nat.ModEq, hk, Nat.mod_eq_of_lt hplace]
    · intro hk
      rw [hk.trans hhere, Nat.mod_eq_of_lt hplace]
  have hpos : 0 < n := Nat.zero_lt_of_lt hplace
  simp only [hiff, Nat.count_modEq_card m hpos]
  split
  · rename_i hrest
    right
    have hm := Nat.div_add_mod' m n
    have hlt := Nat.mod_lt m hpos
    refine (Nat.div_eq_of_lt_le ?_ ?_).symm
    · rw [Nat.add_mul]
      omega
    · simp only [Nat.add_mul]
      omega
  · exact .inl (Nat.add_zero _)

namespace Traffic

variable {t : Traffic} {list : List Address} {m : Nat}

/-- The first pick of a connection that was counted before the count began anew. -/
theorem Paced.firstPick {base count k : Nat} (h : t.Paced base count) (hlist : list ≠ []) (hk : count + k < 2 ^ 64)
    (hm : t.calls[base + k]?.any (·.missed list)) :
    t.firstPick? (base + k) =
      some (.chosen (some ((count + k) % list.length)) list[(count + k) % list.length]?) := by
  cases hc : t.calls[base + k]? with
  | none => simp [hc] at hm
  | some c =>
    simp only [hc, Option.any_some, Call.missed, Bool.and_eq_true, decide_eq_true_eq] at hm
    obtain ⟨rfl, hfirst⟩ := hm
    cases hp : c.picks.head? with
    | none => simp [hp] at hfirst
    | some p =>
      simp only [hp, Option.any_some] at hfirst
      have := (h.calls k c hc).first hlist p hp hfirst
      rw [Nat.mod_eq_of_lt hk] at this
      simp [firstPick?, hc, hp, this]

/-- Connections begin one after another at a balancer with a ring, whatever connections there are already, and the count
does not begin anew between them. Whatever happens then, in whatever order: say all of them have begun with the same
list, and each has made its first attempt and had no backend assigned for it. Then the first pick of each is at the
place where the count stood when it began. So of any `m` of them in a row, each place of the list has the first pick of
`m / n` rounded down or up, where `n` is the length of the list, and of `n` in a row each place has one. -/
theorem first_picks_shared (t : Traffic) (acts : List Act) {list : List Address} {total : Nat}
    (hring : t.balancer.policy.usesRing) (hlist : list ≠ []) (hcount : t.balancer.started.toNat + total ≤ 2 ^ 64)
    (hmissed : ∀ k < total, (t.run acts).calls[t.calls.length + k]?.any (·.missed list)) :
    (∀ k < total, (t.run acts).firstPick? (t.calls.length + k) =
      some (.chosen (some ((t.balancer.started.toNat + k) % list.length))
        list[(t.balancer.started.toNat + k) % list.length]?)) ∧
    (∀ i m place, i + m ≤ total → place < list.length →
      (t.run acts).firstPicksAt (t.calls.length + i) m place = m / list.length ∨
      (t.run acts).firstPicksAt (t.calls.length + i) m place = (m + list.length - 1) / list.length) ∧
    ∀ i place, i + list.length ≤ total → place < list.length →
      (t.run acts).firstPicksAt (t.calls.length + i) list.length place = 1 := by
  have hpaced := paced_run (paced_now hring) acts
  have hfirst (k : Nat) (hk : k < total) :=
    hpaced.firstPick hlist (Nat.lt_of_lt_of_le (Nat.add_lt_add_left hk _) hcount) (hmissed k hk)
  have hshare (i m place : Nat) (him : i + m ≤ total) (hplace : place < list.length) :
      (t.run acts).firstPicksAt (t.calls.length + i) m place = m / list.length ∨
      (t.run acts).firstPicksAt (t.calls.length + i) m place = (m + list.length - 1) / list.length := by
    have hcongr : (t.run acts).firstPicksAt (t.calls.length + i) m place =
        Nat.count (fun k => (t.balancer.started.toNat + i + k) % list.length = place) m := by
      refine List.countP_congr fun k hk => ?_
      have hk : k < m := List.mem_range.1 hk
      have := hfirst (i + k) (by omega)
      simp only [← Nat.add_assoc] at this
      simp [this, Pick.place?]
    rw [hcongr]
    exact count_places _ m hplace
  refine ⟨hfirst, hshare, fun i place him hplace => ?_⟩
  have hpos : 0 < list.length := Nat.zero_lt_of_lt hplace
  have hone : (list.length + list.length - 1) / list.length = 1 := Nat.div_eq_of_lt_le (by omega) (by omega)
  obtain h | h := hshare i _ place him hplace
  · rw [h, Nat.div_self hpos]
  · rw [h, hone]

/-! A port with three backends and a client that has come before, whose attempts go on while four others come. -/

def port : Traffic where
  balancer := { Balancer.portBalancer with
    failover := true, started := 4
    addresses := [Balancer.otherBackend, Balancer.homeBackend, Balancer.laterBackend] }
  calls := [{ attempts := Balancer.firstAttempt }]

/-- The last to come makes the first attempt, and the second has to try again. -/
def rush : List Act :=
  [.start (.ofOctets 10 0 1 1), .start (.ofOctets 10 0 2 1), .next 0 0, .start (.ofOctets 10 0 3 1),
    .start (.ofOctets 10 0 4 1), .next 1 4, .fail 2 0, .next 2 2, .succeed 3 4, .fail 3 2, .next 3 2,
    .settle 3 (.ofOctets 10 0 9 1) (some Balancer.homeBackend), .install [Balancer.laterBackend], .next 4 1,
    .succeed 4 2, .next 5 3, .next 5 0]

theorem first_picks_shared_rush :
    (port.run rush).firstPick? 4 = some (.chosen (some 1) (some Balancer.homeBackend)) ∧
      (∀ place < 3, (port.run rush).firstPicksAt 1 4 place = 1 ∨ (port.run rush).firstPicksAt 1 4 place = 2) ∧
      ∀ place < 3, (port.run rush).firstPicksAt 2 3 place = 1 := by
  obtain ⟨hfirst, hshare, hone⟩ := @first_picks_shared port rush
    [Balancer.otherBackend, Balancer.homeBackend, Balancer.laterBackend] 4 rfl (by decide) (by decide) (by decide)
  exact ⟨hfirst 3 (by decide), fun place => hshare 0 4 place (by decide), fun place => hone 1 place (by decide)⟩

end Traffic

end AffinityRelay
