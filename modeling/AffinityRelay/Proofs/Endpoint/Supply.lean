import AffinityRelay.Endpoint.Basic
import AffinityRelay.Proofs.Balancer.Canonical
import AffinityRelay.Proofs.Balancer.Chain
import AffinityRelay.Proofs.Balancer.Returning

/-!
# An endpoint that has addresses keeps having some

Addresses are looked up again and again, and whoever is asked may answer differently each time, or not at all.

* `answers`: what is answered for one backend after another. What is found is all of that in its order (`gather_eq`);
* `Policy.Arranges`: the list that a policy makes of what was found (`Balancer.arranges_install`);
* `Endpoint.install_found`: what comes of addresses that were found. Where none were found nothing comes of it
  (`Endpoint.install_nil`);
* `Service`: an endpoint with the connections that began at it, and all that can happen to them (`Service.step`);
* `Service.Supplied`: there are addresses, and so there were for the connections that began and were not asked for yet.
  What happens keeps that (`Service.Supplied.step`), so every run does (`Service.Supplied.run`);
* `Service.supplied_once_resolved`: what that comes to.
-/

namespace AffinityRelay

/-! ## What is found -/

section Found

variable {σ : Type} (look : Lookup σ)

/-- The answers for one backend after another. -/
def answers (hosts : List HostPort) : StateM σ (List (List Address)) :=
  hosts.mapM look

/-- What is found is all that was answered, in its order. -/
theorem gather_eq (hosts : List HostPort) (s : σ) :
    gather look hosts s = ((answers look hosts s).1.flatten, (answers look hosts s).2) := by
  induction hosts generalizing s with
  | nil => rfl
  | cons h hs ih =>
    simp only [gather, ih, answers, List.mapM_cons]
    rfl

end Found

/-- The list that a policy makes of the addresses that were found: in canonical order, in any order, or just as they
came. -/
def Policy.Arranges (policy : Policy) (found list : List Address) : Prop :=
  match policy with
  | .first | .random | .ring => list = found
  | .sortedRing => list.Perm found ∧ list.Pairwise Address.Precedes
  | .shuffledRing => list.Perm found

theorem Balancer.arranges_install (found : List Address) (b : Balancer) :
    b.policy.Arranges found (b.install found).addresses := by
  have hperm := b.install_perm found
  cases hp : b.policy with
  | first | random | ring => simp only [Policy.Arranges, install, arrange, hp]
  | sortedRing =>
    refine ⟨hperm, ?_⟩
    simp only [install, arrange, hp]
    exact (Address.pairwise_sort found).imp Address.le_iff_precedes.1
  | shuffledRing => exact hperm

theorem Policy.Arranges.ne_nil {policy : Policy} {found list : List Address} (h : policy.Arranges found list)
    (hfound : found ≠ []) : list ≠ [] := by
  have hperm : list.Perm found := by
    cases policy with
    | first | random | ring => exact List.Perm.of_eq h
    | sortedRing => exact h.1
    | shuffledRing => exact h
  rintro rfl
  exact hfound (List.nil_perm.1 hperm)

namespace Endpoint

variable {σ : Type} {now : Time} {found : List Address}

/-- Addresses that were found are installed, and nothing but the list, the marks of the endpoint and chance changes. -/
theorem install_found (now : Time) (hfound : found ≠ []) (e : Endpoint) :
    ∃ list chance, e.install now found = (.ok found.length,
      { e with
        used := false
        good := now + 300 * second
        balancer := { e.balancer with addresses := list, chance } }) ∧
      e.balancer.policy.Arranges found list := by
  refine ⟨_, (e.balancer.install found).chance, ?_, e.balancer.arranges_install found⟩
  have hempty : found.isEmpty = false := by simpa using hfound
  simp only [install, hempty]
  rfl

theorem resolve_eq (look : Lookup σ) (now : Time) (e : Endpoint) (s : σ) :
    e.resolve look now s = ((e.install now (answers look e.specs s).1.flatten).1,
      (e.install now (answers look e.specs s).1.flatten).2, (answers look e.specs s).2) := by
  simp only [resolve, gather_eq]

end Endpoint

/-! ## An endpoint at work -/

/-- An endpoint, what those who look up remember, the time, and the connections that began, the first of them first. -/
structure Service (σ : Type) where
  endpoint : Endpoint
  names : σ
  now : Time
  calls : List Attempts := []

namespace Service

/-- What can happen: time passes, those who are asked will answer differently, backends are looked up, the answers to an
earlier question arrive, a connection begins, a backend is asked for it or an attempt came to something, and the table
of assignments is changed by anyone. -/
inductive Act (σ : Type) where
  | advance (time : Time)
  | rename (names : σ)
  | resolve
  | arrive (found : List Address)
  | start (client : Ip)
  | next (i : Nat)
  | succeed (i : Nat)
  | fail (i : Nat)
  | table (store : Store)

variable {σ : Type} (look : Lookup σ)

/-- The endpoint after its balancer has done something. -/
def withBalancer (balancer : Balancer) (x : Service σ) : Service σ :=
  { x with endpoint := { x.endpoint with balancer } }

def step (x : Service σ) : Act σ → Service σ
  | .advance time => { x with now := x.now + time }
  | .rename names => { x with names }
  | .resolve =>
    let r := x.endpoint.resolve look x.now x.names
    { x with endpoint := r.2.1, names := r.2.2 }
  | .arrive found => { x with endpoint := (x.endpoint.install x.now found).2 }
  | .start client =>
    let r := x.endpoint.start client
    { x with endpoint := r.2, calls := x.calls ++ [r.1] }
  | .next i =>
    match x.calls[i]? with
    | none => x
    | some a =>
      let r := x.endpoint.next x.now a
      { x with endpoint := r.2.2, calls := x.calls.set i r.2.1 }
  | .succeed i =>
    match x.calls[i]? with
    | none => x
    | some a => x.withBalancer (x.endpoint.balancer.succeed x.now a).2
  | .fail i =>
    match x.calls[i]? with
    | none => x
    | some a =>
      let r := x.endpoint.balancer.fail x.now a
      { x.withBalancer r.2.2 with calls := x.calls.set i r.1 }
  | .table store => { x with endpoint := x.endpoint.withStore store }

/-- What is answered to the one who wants addresses. -/
def answer (x : Service σ) : Act σ → Option (Except ResolveError Nat)
  | .resolve => some (x.endpoint.resolve look x.now x.names).1
  | .arrive found => some (x.endpoint.install x.now found).1
  | _ => none

/-- What comes of the acts, the first of them first. -/
def run (x : Service σ) (acts : List (Act σ)) : Service σ :=
  acts.foldl (step look) x

end Service

namespace Balancer

@[simp] theorem addresses_asked (a : Attempts) (b : Balancer) : (b.asked a).addresses = b.addresses := by
  unfold asked
  split <;> rfl

@[simp] theorem addresses_start (client : Ip) (b : Balancer) : (b.start client).2.addresses = b.addresses := by
  unfold start
  split <;> rfl

@[simp] theorem addresses_next (now : Time) (a : Attempts) (b : Balancer) :
    (b.next now a).2.2.addresses = b.addresses := by
  unfold next
  split <;> exact addresses_asked a b

@[simp] theorem addresses_succeed (now : Time) (a : Attempts) (b : Balancer) :
    (b.succeed now a).2.addresses = b.addresses := by
  unfold succeed
  split <;> rfl

/-- A connection that began with addresses and for which the policy made no choice yet has a backend. -/
theorem isSome_next_of_at {list : List Address} {place : Nat} {a : Attempts} {b : Balancer}
    (h : a.At list place b.policy 0) (hlist : list ≠ []) (now : Time) : (b.next now a).1.isSome := by
  cases hm : b.assigned now a with
  | some x => rw [next_of_assigned hm, Option.isSome_some]
  | none =>
    obtain ⟨x, hx, -⟩ := (h.count a.remote (a.count + 1)).pick (List.length_pos_iff.2 hlist) b.chance
    rw [next_of_not_assigned hm, hx, Option.isSome_some]

end Balancer

namespace Service

variable {σ : Type} {look : Lookup σ} {x : Service σ} {base : Nat}

/-- Whatever is found, the policy stays, and there are addresses if there were some or some were found. -/
theorem list_install (now : Time) (found : List Address) (e : Endpoint) :
    (e.install now found).2.balancer.policy = e.balancer.policy ∧
      (e.balancer.addresses ≠ [] ∨ found ≠ [] → (e.install now found).2.balancer.addresses ≠ []) := by
  by_cases hfound : found = []
  · subst hfound
    rw [Endpoint.install_nil]
    exact ⟨rfl, by simp⟩
  · obtain ⟨list, chance, heq, harranged⟩ := e.install_found now hfound
    rw [heq]
    exact ⟨rfl, fun _ => harranged.ne_nil hfound⟩

/-- No act changes the policy, and none takes the last address away. -/
theorem list_step (look : Lookup σ) (x : Service σ) (a : Act σ) :
    (x.step look a).endpoint.balancer.policy = x.endpoint.balancer.policy ∧
    (x.endpoint.balancer.addresses ≠ [] → (x.step look a).endpoint.balancer.addresses ≠ []) := by
  cases a with
  | advance | rename | table => exact ⟨rfl, id⟩
  | resolve =>
    simp only [step, Endpoint.resolve_eq]
    exact (list_install ..).imp_right fun h hlist => h (.inl hlist)
  | arrive found => exact (list_install ..).imp_right fun h hlist => h (.inl hlist)
  | start client => exact ⟨Balancer.policy_start client _, by simp [step, Endpoint.start]⟩
  | next i =>
    simp only [step]
    split
    · exact ⟨rfl, id⟩
    · exact ⟨Balancer.policy_next .., by simp [Endpoint.next]⟩
  | succeed i =>
    simp only [step]
    split
    · exact ⟨rfl, id⟩
    · exact ⟨(Balancer.settled_apply (.succeed x.now _) _).1, by simp [withBalancer]⟩
  | fail i =>
    simp only [step]
    split <;> exact ⟨rfl, id⟩

/-- A connection for which no backend was asked is as it was when it began, and began with addresses. -/
def Ready (policy : Policy) (a : Attempts) : Prop :=
  a.count = 0 → ∃ list place, list ≠ [] ∧ a.At list place policy 0

/-- There are addresses, and the connections from one on are ready. -/
structure Supplied (base : Nat) (x : Service σ) : Prop where
  addresses : x.endpoint.balancer.addresses ≠ []
  ready : ∀ i a, base ≤ i → x.calls[i]? = some a → Ready x.endpoint.balancer.policy a

/-- Addresses that were found are a supply for all connections that begin then. -/
theorem supplied_of_found {a : Act σ} {n : Nat} (h : x.answer look a = some (.ok n)) :
    (x.step look a).Supplied x.calls.length := by
  have hinstall {found : List Address} (hok : (x.endpoint.install x.now found).1 = .ok n) :
      (x.endpoint.install x.now found).2.balancer.addresses ≠ [] := by
    refine (list_install ..).2 (.inr ?_)
    rintro rfl
    cases hok
  have hready {y : Service σ} (hy : y.calls = x.calls) (i : Nat) (c : Attempts) (hi : x.calls.length ≤ i)
      (hc : y.calls[i]? = some c) : Ready y.endpoint.balancer.policy c := by
    rw [hy, List.getElem?_eq_none hi] at hc
    cases hc
  cases a with
  | advance | rename | start | next | succeed | fail | table => cases h
  | resolve =>
    refine ⟨?_, hready rfl⟩
    simp only [answer, step, Endpoint.resolve_eq, Option.some.injEq] at h ⊢
    exact hinstall h
  | arrive found =>
    simp only [answer, Option.some.injEq] at h
    exact ⟨hinstall h, hready rfl⟩

/-- One connection is replaced by one that is ready if it was. -/
theorem ready_set {policy : Policy} {calls : List Attempts} {j : Nat} {c c' : Attempts} (hj : calls[j]? = some c)
    (hready : Ready policy c → Ready policy c')
    (h : ∀ i a, base ≤ i → calls[i]? = some a → Ready policy a) :
    ∀ i a, base ≤ i → (calls.set j c')[i]? = some a → Ready policy a := by
  intro i a hi ha
  rw [List.getElem?_set] at ha
  split at ha
  · rename_i hij
    subst hij
    split at ha
    · cases ha
      exact hready (h j c hi hj)
    · cases ha
  · exact h i a hi ha

theorem Supplied.step (h : x.Supplied base) (a : Act σ) : (x.step look a).Supplied base := by
  obtain ⟨hpolicy, hlist⟩ := list_step look x a
  suffices hcalls : ∀ i c, base ≤ i → (x.step look a).calls[i]? = some c → Ready x.endpoint.balancer.policy c from
    ⟨hlist h.addresses, hpolicy.symm ▸ hcalls⟩
  cases a with
  | advance | rename | resolve | arrive | table => exact h.ready
  | start client =>
    intro i c hi hc
    simp only [Service.step, List.getElem?_append] at hc
    split at hc
    · exact h.ready i c hi hc
    · -- It begins with the addresses that are there now.
      obtain rfl : (x.endpoint.balancer.start client).1 = c := by
        rw [List.getElem?_singleton] at hc
        split at hc
        · exact Option.some.inj hc
        · cases hc
      exact fun _ => ⟨_, _, h.addresses, Balancer.start_at client _⟩
  | next i =>
    simp only [Service.step]
    split
    · exact h.ready
    · rename_i c hc
      refine ready_set hc (fun _ hcount => ?_) h.ready
      have hone : (x.endpoint.next x.now c).2.1.count = c.count + 1 := Balancer.count_next ..
      omega
  | succeed i =>
    simp only [Service.step]
    split <;> exact h.ready
  | fail i =>
    simp only [Service.step]
    split
    · exact h.ready
    · rename_i c hc
      refine ready_set hc (fun hready hcount => ?_) h.ready
      obtain ⟨list, place, hlist, hat⟩ := hready hcount
      exact ⟨list, place, hlist, hat.count none c.count⟩

theorem Supplied.run : ∀ {x : Service σ} (acts : List (Act σ)), x.Supplied base → (x.run look acts).Supplied base
  | _, [], h => h
  | _, a :: acts, h => Supplied.run acts (h.step a)

/-- A lookup that found nothing leaves the endpoint as it was. One that found something installs all that was answered,
for one backend after another, in the order that the policy wants, and says how many addresses that are; nothing else
changes but that the endpoint is unused, and its addresses are good for 300 seconds. So from the first lookup on that
found something there are always addresses, whatever is found later, and every connection that begins from then on has a
backend for its first attempt. -/
theorem supplied_once_resolved {σ : Type} (look : Lookup σ) :
    (∀ now (e : Endpoint) s, (answers look e.specs s).1.flatten = [] →
      (e.resolve look now s).1 = .error (.unresolved e.specs) ∧ (e.resolve look now s).2.1 = e) ∧
    (∀ now (e : Endpoint) s, (answers look e.specs s).1.flatten ≠ [] →
      (e.resolve look now s).1 = .ok (answers look e.specs s).1.flatten.length ∧
      ∃ list chance, e.balancer.policy.Arranges (answers look e.specs s).1.flatten list ∧
        (e.resolve look now s).2.1 =
          { e with
            used := false
            good := now + 300 * second
            balancer := { e.balancer with addresses := list, chance } }) ∧
    (∀ (x : Service σ) (a : Act σ) n, x.answer look a = some (.ok n) → ∀ later,
      let y := (x.step look a).run look later
      y.endpoint.balancer.addresses ≠ [] ∧
      ∀ i c, x.calls.length ≤ i → y.calls[i]? = some c → c.count = 0 → (y.endpoint.next y.now c).1.isSome) := by
  refine ⟨fun now e s hnone => ?_, fun now e s hsome => ?_, fun x a n hfound later => ?_⟩
  · rw [Endpoint.resolve_eq, hnone]
    exact ⟨rfl, rfl⟩
  · obtain ⟨list, chance, heq, harranged⟩ := e.install_found now hsome
    rw [Endpoint.resolve_eq, heq]
    exact ⟨rfl, list, chance, harranged, rfl⟩
  · have h : ((x.step look a).run look later).Supplied x.calls.length := (supplied_of_found hfound).run later
    refine ⟨h.addresses, fun i c hi hc hcount => ?_⟩
    obtain ⟨list, place, hlist, hat⟩ := h.ready i c hi hc hcount
    exact Balancer.isSome_next_of_at hat hlist _

/-! One of two backends is found, then none of them any more. A connection that began before has no backend, and one
that began after has one. -/

def soleHost : HostTable := { hosts := [("b", [.ofOctets 10 0 0 1])] }

def soleService : Service HostTable where
  endpoint := .create [⟨"a", 80⟩, ⟨"b", 81⟩] { policy := .ring, chance := .ofSeed 1 } 5
  names := soleHost
  now := 7

def soleActs : List (Act HostTable) :=
  [.rename {}, .start (.ofOctets 10 9 9 9), .advance (400 * second), .resolve]

theorem supplied_once_resolved_emptied :
    let x := soleService.step HostTable.look (.start (.ofOctets 10 8 8 8))
    let y := (x.step HostTable.look .resolve).run HostTable.look soleActs
    x.answer HostTable.look .resolve = some (.ok 1) ∧ y.names.hosts = [] ∧
      y.answer HostTable.look .resolve = some (.error (.unresolved [⟨"a", 80⟩, ⟨"b", 81⟩])) ∧
      y.endpoint.balancer.addresses = [⟨.ofOctets 10 0 0 1, 81, 0⟩] ∧
      ∃ c, y.calls[1]? = some c ∧ c.count = 0 ∧ (y.endpoint.next y.now c).1.isSome := by
  intro x y
  have h := (supplied_once_resolved HostTable.look).2.2 x .resolve 1 rfl soleActs
  exact ⟨rfl, rfl, rfl, rfl, _, rfl, rfl, h.2 1 _ (by decide) rfl rfl⟩

end Service

end AffinityRelay
