import AffinityRelay.Clock
import AffinityRelay.Machine
import AffinityRelay.Relay.Worker
import AffinityRelay.Shutdown.Drain
import AffinityRelay.Shutdown.Watch

/-!
# Accepting clients

- `Acceptor`: what accepts clients and hands them to workers, one worker after another;
- `Acceptor.Action`, `Acceptor.step`: what happens to it and to its workers, one thing at a time;
- `Acceptor.run`: a list of actions.

While a client waits for room in the queue of its worker, no other client is accepted. The signal to stop is looked at
after everything else that the acceptor wakes up for; what it wakes up for on its own account is a setting of the signal
that comes after it began to watch.
-/

namespace AffinityRelay

/-- What an acceptor is at. -/
inductive Post where
  /-- Its workers are there, and it does not watch the signal yet. -/
  | starting
  /-- It waits for a client or the signal. -/
  | waiting (watcher : Watcher)
  /-- A client waits for room in the queue of its worker. -/
  | handing (watcher : Watcher) (client : Nat)
  /-- No client could be accepted, and it rests for a while. -/
  | resting (watcher : Watcher) (deadline : Time)
  | finished
  deriving DecidableEq, Repr

/-- What accepts clients, with its workers and a count of the bridges that they run. -/
structure Acceptor where
  workers : List Worker
  post : Post := .starting
  /-- How many clients were accepted, which is the number of the next one. -/
  accepted : Nat := 0
  /-- The clients that were dropped because their worker had finished. -/
  dropped : List Nat := []
  drain : Drain := {}
  deriving Repr

namespace Acceptor

/-- How long an acceptor rests when a client could not be accepted. -/
def rest : Time := 10 * millisecond

/-- An acceptor with some workers, and at least one. -/
def ofWorkers (n : Nat) : Acceptor :=
  { workers := List.replicate (max n 1) {} }

/-- An acceptor with some workers, unless there cannot be room for their queues, of which each takes eight bytes. -/
def ofWorkers? (n : Nat) : Option Acceptor :=
  if Machine.holds n 8 then some (ofWorkers n) else none

/-- What happens to an acceptor and its workers, each at one moment. -/
inductive Action where
  | subscribe
  | accept
  | acceptFails
  /-- The client that waits for room is handed to its worker. -/
  | hand
  /-- The rest is over. -/
  | resume
  /-- The signal was set. -/
  | heed
  /-- A worker does something. -/
  | work (worker : Nat) (what : Worker.Action)
  /-- Notice is given that no bridge is left. -/
  | notify
  deriving DecidableEq, Repr

/-- The number of the worker that a client is handed to. The count that it goes by begins anew at 2 ^ 64. -/
def workerOf (client : Nat) (a : Acceptor) : Nat :=
  client % Machine.words % a.workers.length

/-- No more clients are accepted, and none are handed to the workers. -/
def stop (a : Acceptor) : Acceptor :=
  { a with post := .finished, workers := a.workers.map Worker.hangup }

/-- The acceptor looks whether it is to stop. -/
def check (signal : Watch) (watcher : Watcher) (a : Acceptor) : Acceptor :=
  if signal.value then a.stop else { a with post := .waiting watcher }

/-- A client is handed to its worker if there is room, or dropped if the worker has finished. -/
def give (signal : Watch) (watcher : Watcher) (client : Nat) (a : Acceptor) : Acceptor :=
  match a.workers[a.workerOf client]? with
  | none => a
  | some w =>
    if w.finished then { a with dropped := a.dropped ++ [client] }.check signal watcher
    else if w.hasRoom then
      { a with workers := a.workers.modify (a.workerOf client) (Worker.feed client) }.check signal watcher
    else a

/-- How the count of bridges changes with the bridges that a worker runs. -/
def recount (now : Time) (before after : Worker) (d : Drain) : Drain :=
  if before.running.length < after.running.length then d.step now .enter
  else if after.running.length < before.running.length then d.step now .leave
  else d

/-- A worker does something, and the count of bridges changes with it. -/
def work (now : Time) (i : Nat) (what : Worker.Action) (a : Acceptor) : Acceptor :=
  match a.workers[i]? with
  | none => a
  | some w =>
    { a with workers := a.workers.set i (w.step what), drain := recount now w (w.step what) a.drain }

/-- One action. One that is not possible changes nothing. -/
def step (now : Time) (signal : Watch) (a : Acceptor) (action : Action) : Acceptor :=
  match action, a.post with
  | .subscribe, .starting => { a with post := .waiting signal.subscribe }
  | .accept, .waiting watcher => { a with post := .handing watcher a.accepted, accepted := a.accepted + 1 }
  | .acceptFails, .waiting watcher => { a with post := .resting watcher (now + rest) }
  | .hand, .handing watcher client => a.give signal watcher client
  | .resume, .resting watcher deadline => if deadline ≤ now.tick then a.check signal watcher else a
  | .heed, .waiting watcher =>
    match watcher.poll signal with
    | (.changed, watcher) => a.check signal watcher
    | (.closed, _) => a.stop
    | (.nothing, _) => a
  | .work i what, _ => a.work now i what
  | .notify, _ => { a with drain := a.drain.step now .notify }
  | _, _ => a

/-- A list of actions, one after another. -/
def run (now : Time) (signal : Watch) (a : Acceptor) (actions : List Action) : Acceptor :=
  actions.foldl (step now signal) a

/-- Whether clients are accepted. -/
def listening (a : Acceptor) : Bool :=
  a.post ≠ .finished

end Acceptor

end AffinityRelay
