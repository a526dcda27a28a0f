import AffinityRelay.Clock
import AffinityRelay.Shutdown.Watch

/-!
# Loops that watch a signal

The signal is raised before a loop begins to watch it, or after that, at any moment, and whatever else can happen to the
loop happens in any order.

* `Loop`: a loop by what it is at and what can happen to it; `Loop.reached` and `Loop.signal` are what a history leads to;
* `Loop.Ends`: the loop ends by timers, by the signal and by what runs already. `Loop.Deaf`: only what needs someone outside
  could wake it;
* `Loop.Heeds`, `Loop.HeedsUnlessLate`: whether a loop ends whenever the signal is raised, or only if it did not begin
  after that (`heedsUnlessLate_of_keeps`);
* `Loop.reached_keeps`: what holds of every history, by one induction for all loops;
* `Keen`: what a watcher has seen. It has seen that the signal is raised only if it came late.
-/

namespace AffinityRelay

/-- A loop that watches the signal to stop. -/
structure Loop (σ α : Type) where
  /-- What the loop is at when it begins, and begins to watch the signal. -/
  start : Time → Watch → σ
  step : Time → Watch → σ → α → σ
  /-- What needs someone outside: a client, a peer, or bytes that arrive. -/
  outside : α → Prop
  /-- Whether the loop waits for the first of several things, one of which is the signal. -/
  parked : σ → Prop
  ended : σ → Prop
  not_parked : ∀ s, ended s → ¬ parked s

namespace Loop

variable {σ α : Type} (L : Loop σ α)

/-- What can happen to a loop and to the signal, each at one moment. -/
inductive Act (α : Type) where
  | raise
  | start (now : Time)
  | act (now : Time) (action : α)

/-- All that happened, the latest first. -/
abbrev History (α : Type) := List (Act α)

/-- The signal after a history. -/
def signal : History α → Watch
  | [] => {}
  | .raise :: h => (signal h).raise
  | .start _ :: h | .act _ _ :: h => signal h

/-- What the loop is at after a history, if it has begun. It begins once. -/
def reached : History α → Option σ
  | [] => none
  | .raise :: h => reached h
  | .start now :: h => (reached h).or (some (L.start now (signal h)))
  | .act now action :: h => (reached h).map fun s => L.step now (signal h) s action

/-- Whether the signal was raised when the loop began to watch it. -/
def late : History α → Bool
  | [] => false
  | .raise :: h | .act _ _ :: h => late h
  | .start _ :: h => if (L.reached h).isSome then late h else (signal h).value

/-- What the loop comes to by some actions, each at its time. -/
def run (w : Watch) (s : σ) (actions : List (Time × α)) : σ :=
  actions.foldl (fun s a => L.step a.1 w s a.2) s

/-- At some later time the loop comes to its end, and nobody outside has a part in that. -/
def Ends (w : Watch) (s : σ) : Prop :=
  ∀ now : Time, ∃ later, now ≤ later ∧ ∃ actions : List α,
    (∀ a ∈ actions, ¬ L.outside a) ∧ L.ended (L.run w s (actions.map (later, ·)))

/-- The loop waits, and goes on waiting until there is something that needs someone outside. -/
def Deaf (w : Watch) (s : σ) : Prop :=
  ∀ actions : List (Time × α), (∀ a ∈ actions, ¬ L.outside a.2) → L.parked (L.run w s actions)

/-- Once the signal is raised, the loop comes to its end and is not deaf. -/
def Heeds : Prop :=
  ∀ h s, L.reached h = some s → (signal h).value = true → L.Ends (signal h) s ∧ ¬ L.Deaf (signal h) s

/-- Once the signal is raised, the loop comes to its end and is not deaf, unless it waits and began to watch after that. Then
it is deaf, and comes to its end after the first thing from outside that wakes it. -/
def HeedsUnlessLate : Prop :=
  ∀ h s, L.reached h = some s → (signal h).value = true →
    (¬ (L.late h = true ∧ L.parked s) → L.Ends (signal h) s ∧ ¬ L.Deaf (signal h) s) ∧
    (L.late h = true → L.parked s → L.Deaf (signal h) s ∧
      ∀ now a, ¬ L.parked (L.step now (signal h) s a) → L.Ends (signal h) (L.step now (signal h) s a))

theorem closed_raise {w : Watch} (h : w.closed = false) : w.raise.closed = false := by
  unfold Watch.raise Watch.set
  split
  · exact h
  · split <;> exact h

theorem closed_signal : ∀ h : History α, (signal h).closed = false
  | [] => rfl
  | .raise :: h => closed_raise (closed_signal h)
  | .start _ :: h | .act _ _ :: h => closed_signal h

/-- What holds when a loop begins, and stays so when the signal is raised and whatever the loop does, always holds. -/
theorem reached_keeps {P : Watch → Bool → σ → Prop}
    (hstart : ∀ now w, w.closed = false → P w w.value (L.start now w))
    (hraise : ∀ w l s, w.closed = false → P w l s → P w.raise l s)
    (hstep : ∀ now w l s a, w.closed = false → P w l s → P w l (L.step now w s a)) :
    ∀ (h : History α) s, L.reached h = some s → P (signal h) (L.late h) s
  | .raise :: h, s, hs => hraise _ _ s (closed_signal h) (reached_keeps hstart hraise hstep h s hs)
  | .start now :: h, s, hs => by
    simp only [reached, late] at hs ⊢
    cases hr : L.reached h with
    | none =>
      simp only [hr, Option.none_or, Option.some.injEq] at hs
      rw [← hs]
      exact hstart now (signal h) (closed_signal h)
    | some s' =>
      simp only [hr, Option.some_or, Option.some.injEq] at hs
      rw [← hs]
      exact reached_keeps hstart hraise hstep h s' hr
  | .act now action :: h, s, hs => by
    simp only [reached, Option.map_eq_some_iff] at hs
    obtain ⟨s', hs', rfl⟩ := hs
    exact hstep now _ _ s' action (closed_signal h) (reached_keeps hstart hraise hstep h s' hs')

variable {L}

/-- The loop ends by some actions at a time of its own choice. -/
theorem Ends.of_actions {w : Watch} {s : σ} (later : Time → Time) (actions : List α) (hlater : ∀ now, now ≤ later now)
    (hown : ∀ a ∈ actions, ¬ L.outside a)
    (hended : ∀ now, L.ended (L.run w s (actions.map (later now, ·)))) : L.Ends w s :=
  fun now => ⟨later now, hlater now, actions, hown, hended now⟩

theorem Ends.of_ended {w : Watch} {s : σ} (h : L.ended s) : L.Ends w s :=
  .of_actions id [] (fun _ => Nat.le_refl _) (by simp) fun _ => h

/-- A loop that ends without anyone outside is not deaf. -/
theorem Ends.not_deaf {w : Watch} {s : σ} (h : L.Ends w s) : ¬ L.Deaf w s := by
  intro hdeaf
  obtain ⟨later, -, actions, hown, hended⟩ := h 0
  refine L.not_parked _ hended (hdeaf _ fun a ha => ?_)
  obtain ⟨action, haction, rfl⟩ := List.mem_map.1 ha
  exact hown action haction

/-- What makes a waiting loop deaf, and is kept by all that needs nobody outside. -/
theorem Deaf.of_kept {w : Watch} {Q : σ → Prop} (hparked : ∀ s, Q s → L.parked s)
    (hstep : ∀ now s a, Q s → ¬ L.outside a → Q (L.step now w s a)) {s : σ} (hs : Q s) : L.Deaf w s := by
  intro actions hown
  suffices h : Q (L.run w s actions) from hparked _ h
  induction actions generalizing s with
  | nil => exact hs
  | cons a actions ih =>
    exact ih (hstep a.1 s a.2 hs (hown a List.mem_cons_self)) fun b hb => hown b (List.mem_cons_of_mem _ hb)

/-- A loop that ends unless it waits and came late, and is deaf if it does, all that by an invariant. -/
theorem heedsUnlessLate_of_keeps {P : Watch → Bool → σ → Prop}
    (hkeeps : ∀ (h : History α) s, L.reached h = some s → P (signal h) (L.late h) s)
    (hstep : ∀ now w l s a, w.closed = false → P w l s → P w l (L.step now w s a))
    (hends : ∀ w l s, w.value = true → P w l s → ¬ (l = true ∧ L.parked s) → L.Ends w s)
    (hdeaf : ∀ w s, w.closed = false → w.value = true → P w true s → L.parked s → L.Deaf w s) : L.HeedsUnlessLate := by
  intro h s hs hv
  have hP := hkeeps h s hs
  refine ⟨fun hno => ?_, fun hl hp => ⟨hdeaf _ s (closed_signal h) hv (hl ▸ hP) hp, fun now a hwoken => ?_⟩⟩
  · have hend := hends _ _ s hv hP hno
    exact ⟨hend, hend.not_deaf⟩
  · exact hends _ _ _ hv (hstep now _ _ s a (closed_signal h) hP) fun hno => hwoken hno.2

end Loop

/-! ## What a watcher has seen -/

/-- A signal that is raised either was so before, or is set anew. -/
theorem Watch.raise_cases {w : Watch} (hc : w.closed = false) :
    w.raise = w ∨ w.value = false ∧ w.raise = { w with value := true, version := w.version + 1 } := by
  cases hv : w.value with
  | true => exact .inl (by rw [Watch.raise, if_pos hv])
  | false => exact .inr ⟨rfl, by simp [Watch.raise, Watch.set, hv, hc]⟩

/-- A watcher of a signal has seen that it is raised if and only if it came late. -/
structure Keen (w : Watch) (late : Bool) (r : Watcher) : Prop where
  seen_le : r.seen ≤ w.version
  late_iff : late = true ↔ w.value = true ∧ r.seen = w.version

namespace Keen

variable {w : Watch} {late : Bool} {r : Watcher}

theorem subscribe (w : Watch) : Keen w w.value w.subscribe where
  seen_le := Nat.le_refl _
  late_iff := by simp [Watch.subscribe]

theorem raise (h : Keen w late r) (hc : w.closed = false) : Keen w.raise late r := by
  obtain hsame | ⟨hv, hraise⟩ := Watch.raise_cases hc
  · rwa [hsame]
  · have hlate : late = false := by
      have := h.late_iff
      simpa [hv] using this
    rw [hraise]
    refine ⟨Nat.le_succ_of_le h.seen_le, ?_⟩
    have := h.seen_le
    simp only [hlate, Bool.false_eq_true, true_and, false_iff]
    omega

/-- Whoever looks at a signal that is not raised has seen nothing of it. -/
theorem poll (h : Keen w late r) (hv : w.value = false) : Keen w late (r.poll w).2 where
  seen_le := Nat.le_of_eq (Watcher.seen_poll w r)
  late_iff := by
    have := h.late_iff
    simp only [hv, Bool.false_eq_true, false_and] at this ⊢
    exact this

theorem poll_of_late (h : Keen w true r) (hc : w.closed = false) : r.poll w = (.nothing, r) := by
  have hseen := (h.late_iff.1 rfl).2
  simp [Watcher.poll, hseen, hc]

/-- Whoever did not come late is woken by a signal that is raised. -/
theorem poll_of_not_late (h : Keen w late r) (hl : ¬ late = true) (hv : w.value = true) :
    r.poll w = (.changed, ⟨w.version⟩) := by
  have hseen : r.seen ≠ w.version := fun he => hl (h.late_iff.2 ⟨hv, he⟩)
  simp [Watcher.poll, hseen]

end Keen

/-- A time after another at which a timer for some moment has gone off. -/
def Time.past (deadline now : Time) : Time :=
  max now (deadline + millisecond)

theorem Time.le_past (deadline now : Time) : now ≤ deadline.past now :=
  Nat.le_max_left _ _

theorem Time.le_tick_past (deadline now : Time) : deadline ≤ (deadline.past now).tick := by
  have hlt := (deadline.past now).lt_tick_add
  have hle : deadline + millisecond ≤ deadline.past now := Nat.le_max_right _ _
  exact Nat.le_of_lt (Nat.lt_of_add_lt_add_right (Nat.lt_of_le_of_lt hle hlt))

end AffinityRelay
