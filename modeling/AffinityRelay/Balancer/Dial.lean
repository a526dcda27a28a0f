import AffinityRelay.Balancer.Basic

/-!
# Reaching a backend

- `Balancer.dial`: one attempt after another until a backend is reached or no further attempt may be made;
- `Dialed`: what the attempts came to.

Every further attempt uses up a place of the ring or a part of the budget of random choices, so the attempts come to an
end (`Balancer.left_next_lt`).
-/

namespace AffinityRelay

/-- What the attempts of a connection came to. -/
inductive Dialed (ε : Type) where
  | connected (backend : Address)
  | noBackend
  | exhausted (last : Address) (why : ε)
  deriving DecidableEq, Repr

namespace Attempts

/-- How many further choices a policy has, and one more for the table before the first attempt. -/
def left (policy : Policy) (a : Attempts) : Nat :=
  (if a.count = 0 then 1 else 0) +
    match policy with
    | .first => 0
    | .random => a.budget
    | .ring | .sortedRing | .shuffledRing => a.ring.elim 0 Ring.left

end Attempts

namespace Balancer

@[simp] theorem policy_choose (a : Attempts) (b : Balancer) : (b.choose a).2.2.policy = b.policy := rfl

@[simp] theorem failover_choose (a : Attempts) (b : Balancer) : (b.choose a).2.2.failover = b.failover := rfl

@[simp] theorem policy_asked (a : Attempts) (b : Balancer) : (b.asked a).policy = b.policy := by
  unfold asked
  split <;> rfl

@[simp] theorem policy_next (now : Time) (a : Attempts) (b : Balancer) : (b.next now a).2.2.policy = b.policy := by
  unfold next
  split <;> simp

/-- A choice after which another attempt may be made has used up a part of what was left. -/
theorem left_choose_lt {a : Attempts} {b : Balancer} (hx : (b.choose a).1.isSome)
    (h : (b.choose a).2.2.mayRetry (b.choose a).2.1) : (b.choose a).2.1.left b.policy < a.left b.policy := by
  simp only [choose, mayRetry] at *
  cases hp : b.policy with
  | first => simp [hp, Attempts.mayRetry] at h
  | random =>
    simp only [hp, Attempts.pick] at *
    split at hx
    · simp at hx
    · rename_i he
      simp only [he, Bool.false_eq_true, if_false, Attempts.mayRetry, Bool.and_eq_true, decide_eq_true_eq] at h
      simp only [he, Bool.false_eq_true, if_false, Attempts.left]
      omega
  | ring | sortedRing | shuffledRing =>
    simp only [hp, Attempts.pick] at *
    cases hr : a.ring.bind Ring.next? with
    | none => simp [hr] at hx
    | some p =>
      obtain ⟨r, hr', hn⟩ := Option.bind_eq_some_iff.1 hr
      have := Ring.left_of_next? (show r.next? = some (p.1, p.2) from hn)
      simp only [Attempts.left, hr', Option.elim]
      omega

/-- An attempt after which another may be made has used up a part of what was left. -/
theorem left_next_lt {now : Time} {a : Attempts} {b : Balancer} (hx : (b.next now a).1.isSome)
    (h : (b.next now a).2.2.mayRetry (b.next now a).2.1) : (b.next now a).2.1.left b.policy < a.left b.policy := by
  unfold next at *
  split at hx <;> rename_i hs
  · simp only [Attempts.left]
    simp only [assigned] at hs
    split at hs <;> rename_i hask
    · simp only [asksStore, Bool.and_eq_true, beq_iff_eq] at hask
      simp [hask.1]
    · cases hs
  · simp only [hs] at h ⊢
    have hstart : ({ a with count := a.count + 1 } : Attempts).left b.policy ≤ a.left b.policy := by
      simp only [Attempts.left]
      split <;> omega
    have := left_choose_lt hx h
    rw [policy_asked] at this
    exact Nat.lt_of_lt_of_le this hstart

/-- Attempts, one after another. `connect` says of an attempt, by its number and backend, why it fails, if it does.
Gives what the attempts came to, the attempts, what was announced, and the balancer after them. -/
def dial {ε : Type} (connect : Nat → Address → Option ε) (now : Time) (a : Attempts) (b : Balancer) :
    Dialed ε × Attempts × List Announcement × Balancer :=
  let n := b.next now a
  match _hx : n.1 with
  | none => (.noBackend, n.2.1, [], n.2.2)
  | some backend =>
    match connect n.2.1.count backend with
    | none =>
      let s := n.2.2.succeed now n.2.1
      (.connected backend, n.2.1, s.1, s.2)
    | some why =>
      let f := n.2.2.fail now n.2.1
      if _hr : n.2.2.mayRetry n.2.1 then
        let r := f.2.2.dial connect now f.1
        (r.1, r.2.1, f.2.1 ++ r.2.2.1, r.2.2.2)
      else (.exhausted backend why, f.1, f.2.1, f.2.2)
termination_by a.left b.policy
decreasing_by
  have := left_next_lt (by rw [_hx]; rfl) _hr
  simpa [fail, settle, Attempts.left] using this

end Balancer

end AffinityRelay
