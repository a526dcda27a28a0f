/-!
# Workers

- `Worker`: the clients that wait for a worker in its queue, and those whose bridges it runs;
- `Worker.Action`, `Worker.step`: what a worker does, one thing at a time;
- `Worker.feed`, `Worker.hangup`: what is done to its queue from outside.

A worker has finished once nothing can come through its queue any more and all its bridges have ended; until then there is
something that it waits for (`Worker.finished_step`). Clients are known by the numbers they were accepted under.
-/

namespace AffinityRelay

/-- One of those that run bridges. -/
structure Worker where
  /-- The clients that were handed to the worker and that it has not taken, the next one first. -/
  queue : List Nat := []
  /-- Whether more clients can be handed to it. -/
  fed : Bool := true
  /-- Whether the worker still looks at its queue. -/
  accepting : Bool := true
  /-- The bridges that have not ended. -/
  running : List Nat := []
  /-- The bridges that have ended and that the worker has not put away. -/
  ended : List Nat := []
  finished : Bool := false
  deriving DecidableEq, Repr

namespace Worker

/-- How many clients a queue has room for. -/
def room : Nat := 8

/-- What happens to a worker, each at one moment. -/
inductive Action where
  /-- The next client is taken out of the queue, or it turns out that none can come any more. -/
  | take
  /-- A bridge ends, well or not. -/
  | finish (client : Nat)
  /-- A bridge that has ended is put away. -/
  | reap (client : Nat)
  deriving DecidableEq, Repr

/-- Whether the worker has bridges, of which some may have ended. -/
def busy (w : Worker) : Bool :=
  !w.running.isEmpty || !w.ended.isEmpty

/-- Whether there is anything that the worker waits for. -/
def waits (w : Worker) : Bool :=
  w.accepting || w.busy

/-- The worker looks whether it goes on. -/
def check (w : Worker) : Worker :=
  { w with finished := !w.waits }

/-- One action. One that is not possible changes nothing. -/
def step (w : Worker) : Action → Worker
  | .take =>
    if w.finished || !w.accepting then w
    else
      match w.queue with
      | client :: rest => ({ w with queue := rest, running := w.running ++ [client] } : Worker).check
      | [] => if w.fed then w else ({ w with accepting := false } : Worker).check
  | .finish client =>
    if w.running.contains client then
      { w with running := w.running.erase client, ended := w.ended ++ [client] }
    else w
  | .reap client =>
    if w.ended.contains client then ({ w with ended := w.ended.erase client } : Worker).check else w

/-- Whether a client can be handed to the worker now. -/
def hasRoom (w : Worker) : Bool :=
  w.queue.length < room

/-- A client is handed to the worker. -/
def feed (client : Nat) (w : Worker) : Worker :=
  { w with queue := w.queue ++ [client] }

/-- No more clients are handed to the worker. -/
def hangup (w : Worker) : Worker :=
  { w with fed := false }

theorem finished_check (w : Worker) : w.check.finished = !w.check.waits := rfl

/-- A worker has finished if and only if there is nothing that it waits for. -/
theorem finished_step {w : Worker} (h : w.finished = !w.waits) (a : Action) : (w.step a).finished = !(w.step a).waits := by
  cases a with
  | take =>
    simp only [step]
    split
    · exact h
    · split
      · exact finished_check _
      · split
        · exact h
        · exact finished_check _
  | finish client =>
    simp only [step]
    split
    · rename_i hc
      have hb : w.running ≠ [] := fun e => by simp [e] at hc
      have : w.finished = false := by simp [h, waits, busy, hb]
      simp [waits, busy, this]
    · exact h
  | reap client =>
    simp only [step]
    split
    · exact finished_check _
    · exact h

end Worker

end AffinityRelay
