import AffinityRelay.Balancer.Dial

/-!
# Attempts amid whatever else happens

While a client is being connected, anything else may happen to the balancer: new addresses, other connections, and
decisions about any client (`Balancer.Event`). `Balancer.dialAmid` makes one attempt after another amid all that.

* `settled_apply`: no event changes the policy or whether a failed attempt is followed by another;
* `connected_of_dialed`: attempts that come to a connection end with one that reached its backend;
* `dialed_quiet`: where nothing else happens and no time passes they are those of `Balancer.dial`.
-/

namespace AffinityRelay

namespace Attempts

theorem count_pick (policy : Policy) (a : Attempts) (chance : Chance) :
    (a.pick policy chance).2.1.count = a.count := by
  unfold pick
  split
  · rfl
  · split <;> rfl
  all_goals split <;> rfl

end Attempts

namespace Balancer

/-! ## What else happens to a balancer -/

/-- What can happen to a balancer, for whatever connection, client or node of the cluster. -/
inductive Event where
  | install (list : List Address)
  | start (client : Ip)
  | next (now : Time) (a : Attempts)
  | succeed (now : Time) (a : Attempts)
  | fail (now : Time) (a : Attempts)
  | settle (now : Time) (client : Ip) (backend : Option Address)

def Event.apply : Event → Balancer → Balancer
  | install list, b => b.install list
  | start client, b => (b.start client).2
  | next now a, b => (b.next now a).2.2
  | succeed now a, b => (b.succeed now a).2
  | fail now a, b => (b.fail now a).2.2
  | settle now client backend, b => (b.settle now client backend).2

/-- The balancer after some events, the first of them first. -/
def after (events : List Event) (b : Balancer) : Balancer :=
  events.foldl (fun b e => e.apply b) b

/-- A new connection is its client's, and no attempt was made. -/
@[simp] theorem client_start (client : Ip) (b : Balancer) : (b.start client).1.client = client := by
  unfold start
  split <;> rfl

@[simp] theorem count_start (client : Ip) (b : Balancer) : (b.start client).1.count = 0 := by
  unfold start
  split <;> rfl

@[simp] theorem policy_start (client : Ip) (b : Balancer) : (b.start client).2.policy = b.policy := by
  unfold start
  split <;> rfl

@[simp] theorem failover_start (client : Ip) (b : Balancer) : (b.start client).2.failover = b.failover := by
  unfold start
  split <;> rfl

@[simp] theorem failover_asked (a : Attempts) (b : Balancer) : (b.asked a).failover = b.failover := by
  unfold asked
  split <;> rfl

@[simp] theorem failover_next (now : Time) (a : Attempts) (b : Balancer) :
    (b.next now a).2.2.failover = b.failover := by
  unfold next
  split <;> simp

theorem settled_apply (e : Event) (b : Balancer) :
    (e.apply b).policy = b.policy ∧ (e.apply b).failover = b.failover := by
  cases e with
  | install list => exact ⟨rfl, rfl⟩
  | start client => exact ⟨policy_start client b, failover_start client b⟩
  | next now a => exact ⟨policy_next now a b, failover_next now a b⟩
  | succeed now a =>
    simp only [Event.apply, succeed]
    split <;> exact ⟨rfl, rfl⟩
  | fail now a => exact ⟨rfl, rfl⟩
  | settle now client backend => exact ⟨rfl, rfl⟩

/-- Nothing that happens changes the policy. -/
@[simp] theorem policy_after (events : List Event) (b : Balancer) : (b.after events).policy = b.policy := by
  induction events generalizing b with
  | nil => rfl
  | cons e events ih => exact (ih (e.apply b)).trans (settled_apply e b).1

@[simp] theorem failover_after (events : List Event) (b : Balancer) : (b.after events).failover = b.failover := by
  induction events generalizing b with
  | nil => rfl
  | cons e events ih => exact (ih (e.apply b)).trans (settled_apply e b).2

/-! ## Attempts amid events -/

/-- One attempt of a connection: when its backend is chosen and what happens before that, why a backend cannot be
reached, and what happens until that is known and until a further attempt is considered. -/
structure Turn (ε : Type) where
  now : Time
  before : List Event := []
  connect : Address → Option ε
  during : List Event := []
  done : Time
  after : List Event := []

/-- The backend of an attempt, with the attempts and the balancer after it was chosen. -/
def Turn.choice {ε : Type} (t : Turn ε) (a : Attempts) (b : Balancer) : Option Address × Attempts × Balancer :=
  (b.after t.before).next t.now a

/-- The attempts and the balancer when a further attempt is considered. -/
def Turn.failed {ε : Type} (t : Turn ε) (a : Attempts) (b : Balancer) : Attempts × Balancer :=
  let n := t.choice a b
  let f := (n.2.2.after t.during).fail t.done n.2.1
  (f.1, f.2.2.after t.after)

/-- The backends that were tried, and what that came to. -/
structure Chain (ε : Type) where
  picks : List Address
  dialed : Dialed ε

section Amid

variable {ε : Type}

theorem policy_failed (t : Turn ε) (a : Attempts) (b : Balancer) : (t.failed a b).2.policy = b.policy := by
  simp [Turn.failed, Turn.choice, fail, settle]

theorem failover_failed (t : Turn ε) (a : Attempts) (b : Balancer) : (t.failed a b).2.failover = b.failover := by
  simp [Turn.failed, Turn.choice, fail, settle]

theorem attempts_failed (t : Turn ε) (a : Attempts) (b : Balancer) :
    (t.failed a b).1 = { (t.choice a b).2.1 with remote := none } := rfl

theorem mayRetry_failed (t : Turn ε) (a : Attempts) (b : Balancer) :
    (t.failed a b).2.mayRetry (t.failed a b).1 = (t.choice a b).2.1.mayRetry b.policy b.failover := by
  rw [mayRetry, policy_failed, failover_failed, attempts_failed]
  cases b.policy <;> rfl

/-- A failed attempt after which another may be made has used up a part of what was left. -/
theorem left_failed_lt {t : Turn ε} {a : Attempts} {b : Balancer} (hx : (t.choice a b).1.isSome)
    (h : (t.failed a b).2.mayRetry (t.failed a b).1) :
    (t.failed a b).1.left (t.failed a b).2.policy < a.left b.policy := by
  have hr : (t.choice a b).2.2.mayRetry (t.choice a b).2.1 := by
    rw [mayRetry_failed] at h
    simpa [mayRetry, Turn.choice] using h
  rw [policy_failed, ← policy_after t.before b]
  exact left_next_lt hx hr

/-- One attempt after another, each amid the events of its turn, from a given turn on. -/
def dialAmid (turns : Nat → Turn ε) (i : Nat) (a : Attempts) (b : Balancer) : Chain ε :=
  match _hx : ((turns i).choice a b).1 with
  | none => { picks := [], dialed := .noBackend }
  | some backend =>
    match (turns i).connect backend with
    | none => { picks := [backend], dialed := .connected backend }
    | some why =>
      if _hr : ((turns i).failed a b).2.mayRetry ((turns i).failed a b).1 then
        let r := dialAmid turns (i + 1) ((turns i).failed a b).1 ((turns i).failed a b).2
        { picks := backend :: r.picks, dialed := r.dialed }
      else { picks := [backend], dialed := .exhausted backend why }
termination_by a.left b.policy
decreasing_by exact left_failed_lt (by rw [_hx]; rfl) _hr

variable {turns : Nat → Turn ε} {i : Nat} {a : Attempts} {b : Balancer} {x : Address}

theorem dialAmid_none (hx : ((turns i).choice a b).1 = none) :
    dialAmid turns i a b = { picks := [], dialed := .noBackend } := by
  rw [dialAmid]
  split
  · rfl
  · simp_all

/-- A backend that is chosen is tried first. What follows is another attempt, or nothing. -/
theorem dialAmid_some (hx : ((turns i).choice a b).1 = some x) :
    dialAmid turns i a b =
      match (turns i).connect x with
      | none => { picks := [x], dialed := .connected x }
      | some why =>
        if ((turns i).failed a b).2.mayRetry ((turns i).failed a b).1 then
          { picks := x :: (dialAmid turns (i + 1) ((turns i).failed a b).1 ((turns i).failed a b).2).picks
            dialed := (dialAmid turns (i + 1) ((turns i).failed a b).1 ((turns i).failed a b).2).dialed }
        else { picks := [x], dialed := .exhausted x why } := by
  rw [dialAmid]
  split
  · simp_all
  · rename_i y hy
    obtain rfl : x = y := Option.some.inj (hx.symm.trans hy)
    rfl

/-- A chain that reached a backend made an attempt that did. -/
theorem connected_of_dialed (turns : Nat → Turn ε) (i : Nat) (a : Attempts) (b : Balancer)
    (h : (dialAmid turns i a b).dialed = .connected x) :
    ∃ j, (dialAmid turns i a b).picks[j]? = some x ∧ (turns (i + j)).connect x = none := by
  fun_induction dialAmid turns i a b with
  | case1 => cases h
  | case2 i a b y hy hc =>
    cases h
    exact ⟨0, rfl, hc⟩
  | case3 i a b y hy why hc hr r ih =>
    obtain ⟨j, hj, hcj⟩ := ih h
    exact ⟨j + 1, hj, by rwa [Nat.add_right_comm] at hcj⟩
  | case4 => cases h

theorem count_next (now : Time) (a : Attempts) (b : Balancer) : (b.next now a).2.1.count = a.count + 1 := by
  unfold next
  split
  · rfl
  · exact Attempts.count_pick _ _ _

/-- A turn at which nothing else happens and no time passes. -/
def Turn.quiet (connect : Nat → Address → Option ε) (now : Time) (i : Nat) : Turn ε :=
  { now, connect := connect (i + 1), done := now }

theorem mayRetry_quiet (connect : Nat → Address → Option ε) (now : Time) (i : Nat) (a : Attempts) (b : Balancer) :
    ((Turn.quiet connect now i).failed a b).2.mayRetry ((Turn.quiet connect now i).failed a b).1 =
      (b.next now a).2.2.mayRetry (b.next now a).2.1 := by
  rw [mayRetry_failed, ← policy_next now a b, ← failover_next now a b]
  rfl

/-- If nothing else happens and no time passes, these are the attempts of `dial`. -/
theorem dialed_quiet (connect : Nat → Address → Option ε) (now : Time) (a : Attempts) (b : Balancer) :
    (dialAmid (Turn.quiet connect now) a.count a b).dialed = (b.dial connect now a).1 := by
  fun_induction Balancer.dial connect now a b with
  | case1 a b n hx =>
    rw [dialAmid_none (show ((Turn.quiet connect now a.count).choice a b).1 = none from hx)]
  | case2 a b n x hx hc s =>
    have hq : (Turn.quiet connect now a.count).connect x = none := by rwa [count_next] at hc
    rw [dialAmid_some (show ((Turn.quiet connect now a.count).choice a b).1 = some x from hx), hq]
  | case3 a b n x hx why hc f hr r ih =>
    have hq : (Turn.quiet connect now a.count).connect x = some why := by rwa [count_next] at hc
    have hm := (mayRetry_quiet connect now a.count a b).trans hr
    rw [dialAmid_some (show ((Turn.quiet connect now a.count).choice a b).1 = some x from hx), hq]
    simp only [hm, if_true]
    rw [show a.count + 1 = f.1.count from (count_next now a b).symm]
    exact ih
  | case4 a b n x hx why hc f hr =>
    have hq : (Turn.quiet connect now a.count).connect x = some why := by rwa [count_next] at hc
    have hm := (mayRetry_quiet connect now a.count a b).trans (Bool.eq_false_iff.2 hr)
    rw [dialAmid_some (show ((Turn.quiet connect now a.count).choice a b).1 = some x from hx), hq]
    simp only [hm]
    rfl

end Amid

end Balancer

end AffinityRelay
