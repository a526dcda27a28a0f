/-!
# Watched values

- `Watch`: a value that one side sets and others watch, with a count of the times it was set;
- `Watcher`: how much of that a watcher has seen;
- `Watcher.poll`: whether there is something new, or nothing can come any more.

A watcher that begins to watch has seen the value that is there then.
-/

namespace AffinityRelay

/-- A value, how many times it was set, and whether it can be set again. -/
structure Watch where
  value : Bool := false
  version : Nat := 0
  closed : Bool := false
  deriving DecidableEq, Repr

/-- How many settings of a value a watcher has seen. -/
structure Watcher where
  seen : Nat
  deriving DecidableEq, Repr

/-- What a watcher finds. -/
inductive Watched where
  | nothing
  | changed
  | closed
  deriving DecidableEq, Repr

namespace Watch

/-- The value is set, whether or not it was the same before. -/
def set (value : Bool) (w : Watch) : Watch :=
  if w.closed then w else { w with value, version := w.version + 1 }

/-- The value is set to true, unless it is. -/
def raise (w : Watch) : Watch :=
  if w.value then w else w.set true

/-- The value is never set again. -/
def close (w : Watch) : Watch :=
  { w with closed := true }

/-- Someone begins to watch. -/
def subscribe (w : Watch) : Watcher :=
  ⟨w.version⟩

end Watch

namespace Watcher

/-- What there is to find, and the watcher after it was found. -/
def poll (w : Watch) (r : Watcher) : Watched × Watcher :=
  if r.seen ≠ w.version then (.changed, ⟨w.version⟩)
  else if w.closed then (.closed, r)
  else (.nothing, r)

theorem poll_eq_changed_iff (w : Watch) (r : Watcher) : (r.poll w).1 = .changed ↔ r.seen ≠ w.version := by
  unfold poll
  split <;> rename_i h
  · simp [h]
  · split <;> simp_all

/-- Whoever looks has seen all settings after that. -/
@[simp] theorem seen_poll (w : Watch) (r : Watcher) : (r.poll w).2.seen = w.version := by
  unfold poll
  split <;> rename_i h
  · rfl
  · split <;> exact Decidable.not_not.1 h

end Watcher

end AffinityRelay
