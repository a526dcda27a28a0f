import Mathlib.Data.List.Rotate
import AffinityRelay.Proofs.Balancer.Amid

/-!
# The attempts of a connection

Whatever else happens to a balancer while a client is being connected, the attempts depend on the list as it was when the
connection began, and on the count of connections then.

* `Attempts.At`: what is left of the walk or of the budget after so many choices of the policy. It says when a further
  attempt may be made (`Attempts.At.mayRetry`), and then there is a choice (`Attempts.At.pick`);
* `Balancer.Chain.Walks`: the attempts are choices of the policy. It is so wherever no backend is assigned
  (`dialAmid_walks`), and after an assigned one (`dialAmid_assigned`);
* `Balancer.attempt_chain`: all attempts of a new connection.
-/

namespace AffinityRelay

/-! ## What is left of a list -/

namespace Attempts

/-- Attempts on a list, from a place of its ring on, of which so many were of the policy's choice. -/
structure At (list : List Address) (place : Nat) (policy : Policy) (k : Nat) (a : Attempts) : Prop where
  list_eq : a.list = list
  ring_eq : policy.usesRing → a.ring = some ⟨place % list.length, list.length, k⟩
  budget_eq : policy = .random → a.budget = list.length - k

/-- Nothing can be chosen from no addresses. -/
theorem pick_nil {a : Attempts} (h : a.list = []) (policy : Policy) (chance : Chance) :
    (a.pick policy chance).1 = none := by
  cases policy with
  | first | random => simp [pick, h]
  | ring | sortedRing | shuffledRing =>
    simp only [pick, h]
    split <;> simp

section At

variable {list : List Address} {place k : Nat} {policy : Policy} {a : Attempts}

/-- The backend of an attempt and the number of attempts do not matter. -/
theorem At.count (h : a.At list place policy k) (remote : Option Address) (count : Nat) :
    ({ a with remote, count } : Attempts).At list place policy k :=
  ⟨h.list_eq, h.ring_eq, h.budget_eq⟩

/-- As long as not as many choices were made as there are addresses, another attempt may follow. -/
theorem At.mayRetry (h : a.At list place policy k) (failover : Bool) :
    a.mayRetry policy failover = true ↔ (failover = true ∧ policy ≠ .first) ∧ k < list.length := by
  cases policy with
  | first => simp [Attempts.mayRetry]
  | random =>
    have hb := h.budget_eq rfl
    have hl : 0 < a.budget ↔ k < list.length := by omega
    simp [Attempts.mayRetry, hl]
  | ring | sortedRing | shuffledRing =>
    have hr := h.ring_eq rfl
    simp [Attempts.mayRetry, hr, Ring.hasNext]

/-- As long as not as many choices were made as there are addresses, a policy has one. On a ring it is the next. -/
theorem At.pick (h : a.At list place policy k) (hk : k < list.length) (chance : Chance) :
    ∃ x, (a.pick policy chance).1 = some x ∧ x ∈ list ∧ (policy.usesRing → (list.rotate place)[k]? = some x) ∧
      (a.pick policy chance).2.1.At list place policy (k + 1) := by
  have hl := h.list_eq
  cases policy with
  | first =>
    obtain ⟨x, rest, hx⟩ := List.exists_cons_of_length_pos (Nat.zero_lt_of_lt hk)
    refine ⟨x, by simp [Attempts.pick, hl, hx], by simp [hx], by simp [Policy.usesRing], ?_⟩
    exact ⟨hl, by simp [Policy.usesRing], by simp⟩
  | random =>
    have hi : (chance.below list.length).1 < list.length := Nat.mod_lt _ (Nat.zero_lt_of_lt hk)
    have hne : list ≠ [] := List.ne_nil_of_length_pos (Nat.zero_lt_of_lt hk)
    have hp : a.pick .random chance = (list[(chance.below list.length).1]?, { a with budget := a.budget - 1 },
        (chance.below list.length).2) := by
      simp [Attempts.pick, hl, hne]
    rw [hp]
    refine ⟨_, List.getElem?_eq_getElem hi, List.getElem_mem hi, by simp [Policy.usesRing], ?_⟩
    refine ⟨hl, by simp [Policy.usesRing], fun _ => ?_⟩
    have hb := h.budget_eq rfl
    show a.budget - 1 = list.length - (k + 1)
    omega
  | ring | sortedRing | shuffledRing =>
    have hr := h.ring_eq rfl
    have hn : (Ring.mk (place % list.length) list.length k).next? =
        some ((k + place) % list.length, ⟨place % list.length, list.length, k + 1⟩) := by
      simp [Ring.next?, Ring.hasNext, hk, Nat.add_comm k]
    have hi : (k + place) % list.length < list.length := Nat.mod_lt _ (Nat.zero_lt_of_lt hk)
    simp only [Attempts.pick, hr, Option.bind_some, hn, hl]
    refine ⟨_, List.getElem?_eq_getElem hi, List.getElem_mem hi, fun _ => ?_, ?_⟩
    · rw [List.getElem?_rotate hk, List.getElem?_eq_getElem hi]
    · exact ⟨rfl, fun _ => rfl, by simp⟩

end At

end Attempts

/-! ## The choices of a policy -/

/-- How many choices of a policy there are in a chain of failed attempts, if there is room for `n` of them. -/
def Policy.choices (policy : Policy) (failover : Bool) (n : Nat) : Nat :=
  if failover = true ∧ policy ≠ .first then n else 1

namespace Balancer

variable {ε : Type} {list : List Address} {place k : Nat}

/-- The attempts of a chain are the choices of a policy after its first `k`, all of them if none reached a backend. -/
structure Chain.Walks (list : List Address) (place : Nat) (policy : Policy) (failover : Bool) (k : Nat)
    (chain : Chain ε) : Prop where
  found : chain.dialed ≠ .noBackend
  mem : ∀ x ∈ chain.picks, x ∈ list
  ring : policy.usesRing → chain.picks <+: (list.rotate place).drop k
  length_le : chain.picks.length ≤ policy.choices failover (list.length - k)
  length_eq : (∀ x, chain.dialed ≠ .connected x) →
    chain.picks.length = policy.choices failover (list.length - k)

namespace Chain.Walks

variable {policy : Policy} {failover : Bool} {x : Address} {d : Dialed ε}

theorem one (hk : k < list.length) (hx : x ∈ list) (hr : policy.usesRing → (list.rotate place)[k]? = some x)
    (hd : d ≠ .noBackend)
    (hl : (∃ y, d = .connected y) ∨ ¬ ((failover = true ∧ policy ≠ .first) ∧ k + 1 < list.length)) :
    (⟨[x], d⟩ : Chain ε).Walks list place policy failover k where
  found := hd
  mem := by simpa using hx
  ring h := by
    obtain ⟨hk', rfl⟩ := List.getElem?_eq_some_iff.1 (hr h)
    rw [List.drop_eq_getElem_cons hk']
    simp
  length_le := by
    simp only [Policy.choices, List.length_singleton]
    split <;> omega
  length_eq h := by
    obtain ⟨y, hy⟩ | hl := hl
    · exact absurd hy (h y)
    · unfold Policy.choices
      split
      · rename_i hm
        have : ¬ k + 1 < list.length := fun hk' => hl ⟨hm, hk'⟩
        simp only [List.length_singleton]
        omega
      · rfl

theorem cons (hx : x ∈ list) (hr : policy.usesRing → (list.rotate place)[k]? = some x) {chain : Chain ε}
    (h : chain.Walks list place policy failover (k + 1)) (hm : failover = true ∧ policy ≠ .first)
    (hk : k + 1 < list.length) :
    (⟨x :: chain.picks, chain.dialed⟩ : Chain ε).Walks list place policy failover k where
  found := h.found
  mem := by
    simp only [List.mem_cons, forall_eq_or_imp]
    exact ⟨hx, h.mem⟩
  ring hu := by
    obtain ⟨hk', rfl⟩ := List.getElem?_eq_some_iff.1 (hr hu)
    rw [List.drop_eq_getElem_cons hk']
    exact List.cons_prefix_cons.2 ⟨rfl, h.ring hu⟩
  length_le := by
    have := h.length_le
    rw [Policy.choices, if_pos hm] at *
    simp only [List.length_cons]
    omega
  length_eq hd := by
    have := h.length_eq hd
    rw [Policy.choices, if_pos hm] at *
    simp only [List.length_cons]
    omega

end Chain.Walks

variable {t : Turn ε} {turns : Nat → Turn ε} {i : Nat} {now : Time} {a : Attempts} {b : Balancer} {x : Address}

theorem start_at (client : Ip) (b : Balancer) :
    (b.start client).1.At b.addresses b.started.toNat b.policy 0 := by
  unfold start
  split
  · rename_i h
    exact ⟨rfl, fun _ => rfl, fun hr => by simp [hr, Policy.usesRing] at h⟩
  · rename_i h
    exact ⟨rfl, fun hr => absurd hr h, fun _ => rfl⟩

/-- Only the first attempt may have an assigned backend. -/
theorem assigned_of_count (h : 0 < a.count) : b.assigned now a = none := by
  have hc : (a.count == 0) = false := by simp; omega
  simp [assigned, asksStore, hc]

theorem assigned_eq_some (h : b.assigned now a = some x) : x ∈ a.list ∧ b.policy ≠ .first := by
  unfold assigned at h
  split at h
  · rename_i hask
    simp only [asksStore, Bool.and_eq_true, decide_eq_true_eq] at hask
    exact ⟨by simpa using (Option.filter_eq_some_iff.1 h).2, hask.2⟩
  · cases h

/-- An attempt without an assigned backend goes to the next choice of the policy. -/
theorem Turn.choice_of_at (h : a.At list place b.policy k) (hk : k < list.length)
    (hm : (b.after t.before).assigned t.now a = none) :
    ∃ x, (t.choice a b).1 = some x ∧ x ∈ list ∧ (b.policy.usesRing → (list.rotate place)[k]? = some x) ∧
      (t.choice a b).2.1.At list place b.policy (k + 1) ∧ 0 < (t.choice a b).2.1.count := by
  have hc : t.choice a b = ((b.after t.before).asked a).choose { a with count := a.count + 1 } := by
    simp only [Turn.choice, next, hm]
  obtain ⟨x, hx, hmem, hr, hat⟩ := (h.count a.remote (a.count + 1)).pick hk ((b.after t.before).asked a).chance
  have hcount := Attempts.count_pick b.policy { a with count := a.count + 1 } ((b.after t.before).asked a).chance
  simp only [hc, choose, policy_asked, policy_after]
  exact ⟨x, hx, hmem, hr, hat.count _ _, by simp [hcount]⟩

/-- The attempts without an assigned backend, from a turn on. -/
theorem dialAmid_walks (turns : Nat → Turn ε) (i : Nat) (h : a.At list place b.policy k) (hk : k < list.length)
    (hm : (b.after (turns i).before).assigned (turns i).now a = none) :
    (dialAmid turns i a b).Walks list place b.policy b.failover k := by
  -- On what is left of the list: a further attempt is made where there is more than this choice.
  induction hd : list.length - k generalizing i a b k with
  | zero => omega
  | succ d ih =>
    obtain ⟨x, hx, hmem, hr, hat, hcount⟩ := Turn.choice_of_at h hk hm
    rw [dialAmid_some hx]
    cases hc : (turns i).connect x with
    | none => exact .one hk hmem hr (by simp) (.inl ⟨x, rfl⟩)
    | some why =>
      have hretry := hat.mayRetry b.failover
      rw [← mayRetry_failed] at hretry
      by_cases hagain : ((turns i).failed a b).2.mayRetry ((turns i).failed a b).1
      · obtain ⟨hmore, hk'⟩ := hretry.1 hagain
        have hfail : ((turns i).failed a b).1.At list place ((turns i).failed a b).2.policy (k + 1) := by
          rw [policy_failed]
          exact hat.count none _
        have hrest := ih (i + 1) hfail hk' (assigned_of_count hcount) (by omega)
        rw [policy_failed, failover_failed] at hrest
        simp only [hagain, if_true]
        exact .cons hmem hr hrest hmore hk'
      · simp only [hagain]
        exact .one hk hmem hr (by simp) (.inr fun hl => hagain (hretry.2 hl))

/-- An assigned backend takes nothing from the choices of the policy. -/
theorem Turn.choice_of_assigned (h : a.At list place b.policy k)
    (hm : (b.after t.before).assigned t.now a = some x) :
    (t.choice a b).1 = some x ∧ (t.choice a b).2.1.At list place b.policy k ∧ 0 < (t.choice a b).2.1.count := by
  simp only [Turn.choice, next, hm]
  exact ⟨trivial, h.count _ _, Nat.succ_pos _⟩

/-- After an assigned backend come the choices of the policy, from the same one on, or nothing. -/
theorem dialAmid_assigned (turns : Nat → Turn ε) (i : Nat) (h : a.At list place b.policy k) (hk : k < list.length)
    (hm : (b.after (turns i).before).assigned (turns i).now a = some x) :
    (∃ d, dialAmid turns i a b = ⟨[x], d⟩ ∧ d ≠ .noBackend ∧ ((∃ y, d = .connected y) ∨ b.failover = false)) ∨
      ∃ rest : Chain ε, dialAmid turns i a b = ⟨x :: rest.picks, rest.dialed⟩ ∧ b.failover = true ∧
        rest.Walks list place b.policy b.failover k := by
  obtain ⟨hx, hat, hcount⟩ := Turn.choice_of_assigned h hm
  have hp : b.policy ≠ .first := by simpa using (assigned_eq_some hm).2
  rw [dialAmid_some hx]
  cases hc : (turns i).connect x with
  | none => exact .inl ⟨_, rfl, by simp, .inl ⟨x, rfl⟩⟩
  | some why =>
    have hretry := hat.mayRetry b.failover
    rw [← mayRetry_failed] at hretry
    by_cases hf : b.failover = true
    · have hfail : ((turns i).failed a b).1.At list place ((turns i).failed a b).2.policy k := by
        rw [policy_failed]
        exact hat.count none _
      have hrest := dialAmid_walks turns (i + 1) hfail hk (assigned_of_count hcount)
      rw [policy_failed, failover_failed] at hrest
      simp only [hretry.2 ⟨⟨hf, hp⟩, hk⟩, if_true]
      exact .inr ⟨_, rfl, hf, hrest⟩
    · have hlast : ¬ ((turns i).failed a b).2.mayRetry ((turns i).failed a b).1 := fun hr => hf (hretry.1 hr).1.1
      simp only [hlast]
      exact .inl ⟨_, rfl, by simp, .inr (by simpa using hf)⟩

theorem Turn.choice_nil (h : a.list = []) : (t.choice a b).1 = none := by
  have hm : (b.after t.before).assigned t.now a = none := by
    cases hx : (b.after t.before).assigned t.now a with
    | none => rfl
    | some x => simpa [h] using (assigned_eq_some hx).1
  simp only [Turn.choice, next, hm]
  exact Attempts.pick_nil (show ({ a with count := a.count + 1 } : Attempts).list = [] from h) _ _

/-- The backend assigned to the client of a new connection, when its first backend is chosen. -/
def hit (client : Ip) (first : Turn ε) (b : Balancer) : Option Address :=
  ((b.start client).2.after first.before).assigned first.now (b.start client).1

/-- A backend is assigned if the policy asks the table, and that answers a backend that is on the list. -/
theorem hit_eq_some_iff {client : Ip} {x : Address} (first : Turn ε) (b : Balancer) : b.hit client first = some x ↔
    b.policy ≠ .first ∧ ((b.start client).2.after first.before).store.answer first.now client = some x ∧
      x ∈ b.addresses := by
  have hlist : (b.start client).1.list = b.addresses := (start_at client b).list_eq
  by_cases hfirst : b.policy = .first
  · simp [hit, assigned, asksStore, policy_start, hfirst]
  · simp [hit, assigned, asksStore, policy_start, hfirst, hlist, Option.filter_eq_some_iff]

/-- All attempts of a new connection of a client. -/
def dialNew (client : Ip) (turns : Nat → Turn ε) (b : Balancer) : Chain ε :=
  dialAmid turns 0 (b.start client).1 (b.start client).2

/-- The attempts of a new connection: one at the assigned backend, if there is one, and then the choices of the policy. -/
theorem dialNew_picks (client : Ip) (turns : Nat → Turn ε) (hS : b.addresses ≠ []) :
    ∃ rest, (b.dialNew client turns).picks = (b.hit client (turns 0)).toList ++ rest ∧
      (∀ x ∈ rest, x ∈ b.addresses) ∧ (b.policy.usesRing → rest <+: b.addresses.rotate b.started.toNat) ∧
      rest.length ≤ b.addresses.length ∧ (b.dialNew client turns).dialed ≠ .noBackend ∧
      ((∀ x, (b.dialNew client turns).dialed ≠ .connected x) →
        if b.failover = true ∧ b.policy ≠ .first then rest.length = b.addresses.length
        else (b.dialNew client turns).picks.length = 1) := by
  have hk : 0 < b.addresses.length := List.length_pos_iff.2 hS
  have hat : (b.start client).1.At b.addresses b.started.toNat (b.start client).2.policy 0 := by
    rw [policy_start]
    exact start_at client b
  cases hm : b.hit client (turns 0) with
  | none =>
    have h := dialAmid_walks turns 0 hat hk hm
    rw [policy_start, failover_start] at h
    refine ⟨_, rfl, h.mem, h.ring, ?_, h.found, fun hl => ?_⟩
    · refine h.length_le.trans ?_
      unfold Policy.choices
      split <;> omega
    · have := h.length_eq hl
      unfold Policy.choices at this
      split
      · rename_i hmore
        rwa [if_pos hmore] at this
      · rename_i hone
        rwa [if_neg hone] at this
  | some x =>
    have hfirst : b.policy ≠ .first := by simpa using (assigned_eq_some hm).2
    have hcases := dialAmid_assigned turns 0 hat hk hm
    rw [policy_start, failover_start] at hcases
    change (∃ d, b.dialNew client turns = _ ∧ _) ∨ ∃ rest, b.dialNew client turns = _ ∧ _ at hcases
    obtain ⟨d, he, hd, hlast⟩ | ⟨rest, he, hf, h⟩ := hcases
    · rw [he]
      refine ⟨[], rfl, by simp, fun _ => List.nil_prefix, Nat.zero_le _, hd, fun hl => ?_⟩
      obtain ⟨y, hy⟩ | hf := hlast
      · exact absurd hy (hl y)
      · simp [hf]
    · have hchoices : b.policy.choices b.failover (b.addresses.length - 0) = b.addresses.length :=
        if_pos ⟨hf, hfirst⟩
      rw [he]
      refine ⟨rest.picks, rfl, h.mem, h.ring, hchoices ▸ h.length_le, h.found, fun hl => ?_⟩
      rw [if_pos ⟨hf, hfirst⟩]
      exact (h.length_eq hl).trans hchoices

theorem dialNew_nil (client : Ip) (turns : Nat → Turn ε) (hS : b.addresses = []) :
    b.dialNew client turns = ⟨[], .noBackend⟩ :=
  dialAmid_none (Turn.choice_nil ((start_at client b).list_eq.trans hS))

theorem dialed_eq_noBackend_iff (b : Balancer) (client : Ip) (turns : Nat → Turn ε) :
    (b.dialNew client turns).dialed = .noBackend ↔ b.addresses = [] := by
  refine ⟨fun hd => ?_, fun hS => by rw [dialNew_nil client turns hS]⟩
  by_contra hS
  obtain ⟨-, -, -, -, -, hfound, -⟩ := dialNew_picks client turns hS
  exact hfound hd

/-- Every backend that is tried is on the list as it was when the connection began. Only an empty list gives none, and
that before any was tried: a further attempt that may be made has a backend. If no attempt of the chain reaches its
backend, there is one attempt where no other may follow a failed one. Else those after the assigned backend are once
around the ring, or as many random choices as there are addresses. The assigned backend is what the table answers when
the first backend is chosen, if the policy asks it, and if that is on the list. -/
theorem attempt_chain (b : Balancer) (client : Ip) (turns : Nat → Turn ε) :
    (∀ x, b.hit client (turns 0) = some x ↔ b.policy ≠ .first ∧
      ((b.start client).2.after (turns 0).before).store.answer (turns 0).now client = some x ∧ x ∈ b.addresses) ∧
    (∀ x ∈ (b.dialNew client turns).picks, x ∈ b.addresses) ∧
    ((b.dialNew client turns).dialed = .noBackend ↔ b.addresses = []) ∧
    (b.addresses = [] → (b.dialNew client turns).picks = []) ∧
    (b.dialNew client turns).picks.length ≤ (b.hit client (turns 0)).toList.length + b.addresses.length ∧
    (b.addresses ≠ [] →
      (∀ i x, (b.dialNew client turns).picks[i]? = some x → (turns i).connect x ≠ none) →
      ((b.policy = .first ∨ b.failover = false) → (b.dialNew client turns).picks.length = 1) ∧
      (b.failover = true → b.policy.usesRing → (b.dialNew client turns).picks =
        (b.hit client (turns 0)).toList ++ b.addresses.rotate b.started.toNat) ∧
      (b.failover = true → b.policy = .random → ∃ chosen, chosen.length = b.addresses.length ∧
        (b.dialNew client turns).picks = (b.hit client (turns 0)).toList ++ chosen)) := by
  refine ⟨fun x => hit_eq_some_iff (turns 0) b, ?_⟩
  by_cases hS : b.addresses = []
  · simp [dialNew_nil client turns hS, hS]
  obtain ⟨rest, hp, hmem, hring, hle, -, hlen⟩ := dialNew_picks client turns hS
  refine ⟨fun x hx => ?_, dialed_eq_noBackend_iff b client turns, fun h => absurd h hS, ?_, fun _ hfail => ?_⟩
  · rw [hp, List.mem_append, Option.mem_toList] at hx
    obtain hx | hx := hx
    · exact (start_at client b).list_eq ▸ (assigned_eq_some hx).1
    · exact hmem x hx
  · rw [hp, List.length_append]
    omega
  · have hlost : ∀ x, (b.dialNew client turns).dialed ≠ .connected x := by
      intro x hx
      obtain ⟨j, hj, hc⟩ := connected_of_dialed turns 0 _ _ hx
      rw [Nat.zero_add] at hc
      exact hfail j x hj hc
    have hlen := hlen hlost
    refine ⟨fun hone => ?_, fun hf hu => ?_, fun hf hr => ?_⟩
    · rwa [if_neg (by rintro ⟨hf, hne⟩; simp_all)] at hlen
    · rw [if_pos ⟨hf, by rintro he; simp [he, Policy.usesRing] at hu⟩] at hlen
      rw [hp, (hring hu).eq_of_length (by rw [hlen, List.length_rotate])]
    · rw [if_pos ⟨hf, by simp [hr]⟩] at hlen
      exact ⟨rest, hlen, hp⟩

end Balancer

end AffinityRelay
