import AffinityRelay.Clock

/-!
# Waiting until no bridge is left

- `Drain`: how many bridges there are, who waits for the last one to end, and the notices they are given;
- `Drain.Action`, `Drain.step`: what happens to it, one atomic action at a time;
- `Drain.settle`: every wait goes as far as it can.

Whoever ends the last bridge takes it off the count first and gives notice after that. A wait first takes a ticket, then
looks at the count, and only then lies down; a notice wakes everyone whose ticket is older, and who was woken begins
anew. So a notice that comes between looking and lying down is not missed.
-/

namespace AffinityRelay

/-- Where a wait stands. A ticket is the number of notices given before it was taken. -/
inductive WaitState where
  | looking (ticket : Nat)
  | lying (ticket : Nat)
  | finished (drained : Bool)
  deriving DecidableEq, Repr

/-- A wait, and when it gives up. -/
structure Wait where
  deadline : Time
  state : WaitState
  deriving DecidableEq, Repr

/-- Bridges that are counted, and waits for the count to be zero. -/
structure Drain where
  active : Nat := 0
  notices : Nat := 0
  /-- How many have taken the last bridge off the count and not given notice yet. -/
  owed : Nat := 0
  waits : List Wait := []
  deriving DecidableEq, Repr

namespace Drain

/-- What can happen, each at one moment. -/
inductive Action where
  /-- A bridge begins. -/
  | enter
  /-- A bridge is taken off the count. -/
  | leave
  /-- Notice is given by one who owes it. -/
  | notify
  /-- A wait begins: it takes a ticket. -/
  | arrive (deadline : Time)
  /-- A wait looks at the count. -/
  | look (wait : Nat)
  /-- A wait that was given notice takes a new ticket. -/
  | wake (wait : Nat)
  /-- A wait gives up. -/
  | expire (wait : Nat)
  deriving DecidableEq, Repr

/-- A wait looks at the count. -/
def lookAt (active : Nat) (w : Wait) : Wait :=
  match w.state with
  | .looking ticket => { w with state := if active = 0 then .finished true else .lying ticket }
  | _ => w

/-- A wait whose ticket is older than the last notice takes a new one. -/
def wakeUp (notices : Nat) (w : Wait) : Wait :=
  match w.state with
  | .lying ticket => if ticket < notices then { w with state := .looking notices } else w
  | _ => w

/-- A wait whose time is over gives up. -/
def giveUp (now : Time) (w : Wait) : Wait :=
  match w.state with
  | .lying _ => if w.deadline ≤ now.tick then { w with state := .finished false } else w
  | _ => w

/-- One action. One that is not possible changes nothing. -/
def step (now : Time) (d : Drain) : Action → Drain
  | .enter => { d with active := d.active + 1 }
  | .leave => { d with active := d.active - 1, owed := if d.active = 1 then d.owed + 1 else d.owed }
  | .notify => if d.owed = 0 then d else { d with owed := d.owed - 1, notices := d.notices + 1 }
  | .arrive deadline => { d with waits := d.waits ++ [⟨deadline, .looking d.notices⟩] }
  | .look i => { d with waits := d.waits.modify i (lookAt d.active) }
  | .wake i => { d with waits := d.waits.modify i (wakeUp d.notices) }
  | .expire i => { d with waits := d.waits.modify i (giveUp now) }

/-- A list of actions, one after another. -/
def run (now : Time) (d : Drain) (actions : List Action) : Drain :=
  actions.foldl (step now) d

/-- What brings one wait as far as it can go while the count stands still. -/
def pursue (i : Nat) : List Action :=
  [.look i, .wake i, .look i, .expire i]

/-- Every notice that is owed is given, and every wait goes as far as it can. -/
def settle (now : Time) (d : Drain) : Drain :=
  d.run now (List.replicate d.owed .notify ++ (List.range d.waits.length).flatMap pursue)

/-- What a wait came to, once it is over. -/
def result (w : Wait) : Option Bool :=
  match w.state with
  | .finished drained => some drained
  | _ => none

end Drain

end AffinityRelay
