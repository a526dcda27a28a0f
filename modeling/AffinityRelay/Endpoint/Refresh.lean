import AffinityRelay.Endpoint.Basic
import AffinityRelay.Shutdown.Watch

/-!
# Looking addresses up in the background

- `refreshAll`: one pass over all endpoints, which looks up those that need it;
- `Refresher`: when the next pass is due, and what the refresher has seen of the signal to stop;
- `Refresher.reason`, `Refresher.heed`: what the refresher would wake up for, and what it does then;
- `Refresher.settle`: it goes on until there is nothing to wake up for, which comes to pass (`Refresher.backlog_lt`).

Passes are an interval apart. One that is a few milliseconds late does not delay those after it; after one that is later
than that, the next comes an interval after it was made. No interval is longer than thirty years. A change of the signal
that does not say to stop makes a pass as well, and delays none.
-/

namespace AffinityRelay

/-- One pass: each endpoint that needs it at its turn is looked up. -/
def refreshAll {σ : Type} (look : Lookup σ) (now : Time) : List Endpoint → σ → List Endpoint × σ
  | [], s => ([], s)
  | e :: es, s =>
    let (e, s) := if e.needsRefresh now then (e.resolve look now s).2 else (e, s)
    let (es, s) := refreshAll look now es s
    (e :: es, s)

/-- The background task, for as long as it runs. -/
structure Refresher where
  interval : Time
  due : Time
  watcher : Watcher
  interval_pos : 0 < interval
  deriving DecidableEq, Repr

namespace Refresher

/-- The longest interval: thirty years of 365 days. -/
def longest : Time := 30 * 365 * 86400 * second

/-- A task that begins, with a pass at once. There is none that makes passes without time between them. -/
def begin? (interval now : Time) (w : Watch) : Option Refresher :=
  if h : 0 < interval then
    some {
      interval := min interval longest
      due := now
      watcher := w.subscribe
      interval_pos := Nat.lt_min.2 ⟨h, by decide⟩ }
  else none

/-- What the task wakes up for: a change of the signal before a pass that is due. -/
inductive Reason where
  | signal
  | hangup
  | timer
  deriving DecidableEq, Repr

/-- Why the task would wake up now. -/
def reason (now : Time) (w : Watch) (r : Refresher) : Option Reason :=
  match (r.watcher.poll w).1 with
  | .changed => some .signal
  | .closed => some .hangup
  | .nothing => if r.due ≤ now.tick then some .timer else none

/-- How late a pass may be and not delay the next. -/
def leeway : Time := 5 * millisecond

/-- When the pass after one is due that is made now. -/
def next (now : Time) (r : Refresher) : Time :=
  (if now ≤ r.due + leeway then r.due else now) + r.interval

/-- The task after it woke up for a reason, unless it ends. If it does not end, it makes a pass. -/
def heed (now : Time) (w : Watch) (reason : Reason) (r : Refresher) : Option Refresher :=
  if w.value then none
  else
    match reason with
    | .signal => some { r with watcher := (r.watcher.poll w).2 }
    | .hangup => none
    | .timer => some { r with due := r.next now }

/-- How much there can be to wake up for: a setting of the signal, and all the time since a pass was due. -/
def backlog (now : Time) (w : Watch) (r : Refresher) : Nat :=
  (if r.watcher.seen = w.version then 0 else 1) + (now + 1 - r.due)

theorem lt_next {now : Time} {r : Refresher} (h : r.due ≤ now) : r.due < r.next now := by
  have hp : ∀ t : Time, t < t + r.interval := fun t => Nat.lt_add_of_pos_right r.interval_pos
  unfold next
  split
  · exact hp r.due
  · exact Nat.lt_of_le_of_lt h (hp now)

theorem seen_ne_of_reason {now : Time} {w : Watch} {r : Refresher} (h : r.reason now w = some .signal) :
    r.watcher.seen ≠ w.version := by
  unfold reason at h
  split at h
  · rename_i hp
    exact (Watcher.poll_eq_changed_iff w r.watcher).1 hp
  · cases h
  · split at h <;> cases h

theorem due_le_of_reason {now : Time} {w : Watch} {r : Refresher} (h : r.reason now w = some .timer) : r.due ≤ now := by
  unfold reason at h
  split at h
  · cases h
  · cases h
  · split at h
    · rename_i hd
      exact Nat.le_trans hd now.tick_le
    · cases h

/-- Whatever the task wakes up for, there is less of it after that. -/
theorem backlog_lt {now : Time} {w : Watch} {why : Reason} {r after : Refresher} (hr : r.reason now w = some why)
    (hh : r.heed now w why = some after) : after.backlog now w < r.backlog now w := by
  unfold heed at hh
  split at hh
  · cases hh
  · split at hh <;> cases hh
    · simp [backlog, seen_ne_of_reason hr]
    · have hd := due_le_of_reason hr
      exact Nat.add_lt_add_left (Nat.sub_lt_sub_left (Nat.lt_succ_of_le hd) (lt_next hd)) _

/-- The task wakes up for one thing after another, until it ends or there is nothing left. -/
def settle {σ : Type} (look : Lookup σ) (now : Time) (w : Watch) (r : Refresher) (endpoints : List Endpoint)
    (s : σ) : Option Refresher × List Endpoint × σ :=
  match _hr : r.reason now w with
  | none => (some r, endpoints, s)
  | some why =>
    match _hh : r.heed now w why with
    | none => (none, endpoints, s)
    | some after =>
      let pass := refreshAll look now endpoints s
      after.settle look now w pass.1 pass.2
termination_by r.backlog now w
decreasing_by exact backlog_lt _hr _hh

end Refresher

end AffinityRelay
