import AffinityRelay.Endpoint.Refresh
import AffinityRelay.Proofs.Endpoint.Supply

/-!
# The endpoints that are looked up in the background

A task makes passes over all endpoints. In a pass each endpoint has its turn, and there it is looked up if it needs it.
All else may happen at any moment, also in the middle of a pass: time passes, endpoints are used, others look them up
too, whoever is asked changes his answers, and the signal to stop is set one way or the other.

* `Upkeep`: endpoints with the task, the signal, the time, and all that the task asked for; `Upkeep.step`,
  `Upkeep.reached`: what can happen, and what a history of it leads to;
* `Upkeep.went`: all that can come of it that the task goes on;
* `Upkeep.usedSince`, `Upkeep.goodUntil`: whether an endpoint was used since addresses were last found for it, and until
  when these are good, as the history has it. So are the marks of the endpoint (`Upkeep.marks_reached`), and so it is
  due or not (`Upkeep.Due`, `Upkeep.needsRefresh_iff`);
* `Upkeep.asked_turn`, `Upkeep.asked_step`: what the task asks for at a turn, and that it asks for nothing else;
* `Upkeep.not_due_after`, `Upkeep.due_after`: an endpoint for which addresses were found is not due until it is used or
  they are no longer good, and one that is due stays so until some are found.
-/

namespace AffinityRelay

/-- Finds addresses, and keeps a record of all that was asked. -/
def Lookup.recorded {σ : Type} (look : Lookup σ) : Lookup (σ × List HostPort) := fun h s =>
  ((look h s.1).1, (look h s.1).2, s.2 ++ [h])

theorem gather_recorded {σ : Type} (look : Lookup σ) (hosts : List HostPort) (s : σ) (record : List HostPort) :
    gather look.recorded hosts (s, record) = ((gather look hosts s).1, (gather look hosts s).2, record ++ hosts) := by
  induction hosts generalizing s record with
  | nil => simp [gather]
  | cons h hs ih => simp [gather, Lookup.recorded, ih]

/-- Whether the task may wake up for a reason. If there are several it may be any of them. -/
def Refresher.mayWake (now : Time) (w : Watch) (r : Refresher) : Reason → Bool
  | .signal => (r.watcher.poll w).1 = .changed
  | .hangup => (r.watcher.poll w).1 = .closed
  | .timer => r.due ≤ now.tick

theorem Refresher.mayWake_of_reason {now : Time} {w : Watch} {r : Refresher} {why : Reason}
    (h : r.reason now w = some why) : r.mayWake now w why := by
  unfold reason at h
  split at h
  · rename_i hp
    cases h
    simp [mayWake, hp]
  · rename_i hp
    cases h
    simp [mayWake, hp]
  · split at h
    · rename_i hd
      cases h
      simpa [mayWake] using hd
    · cases h

/-- What the task is at: it waits, it is the turn of an endpoint, or an endpoint was looked up and this was found. -/
inductive Station where
  | waiting
  | turn (i : Nat)
  | answer (i : Nat) (found : List Address)
  deriving DecidableEq

/-- Endpoints, what those who look up remember, all that the task asked for, the signal to stop, the time, and the task,
if it runs. -/
structure Upkeep (σ : Type) where
  endpoints : List Endpoint
  names : σ
  asked : List HostPort := []
  signal : Watch := {}
  now : Time
  task : Option (Refresher × Station) := none

namespace Upkeep

/-- What can happen. The last three are what the task does: it begins, it wakes up, and it goes on with a pass. -/
inductive Act (σ : Type) where
  | advance (time : Time)
  | rename (names : σ)
  | use (i : Nat) (a : Attempts)
  | arrive (i : Nat) (found : List Address)
  | set (value : Bool)
  | hangUp
  | begin (interval : Time)
  | wake (why : Refresher.Reason)
  | go

variable {σ : Type} (look : Lookup σ)

/-- The upkeep with a change made to one endpoint. -/
def change (i : Nat) (f : Endpoint → Endpoint) (x : Upkeep σ) : Upkeep σ :=
  { x with endpoints := x.endpoints.modify i f }

/-- The task wakes up, if it waits and there is that reason. It ends, or begins a pass. -/
def wake (why : Refresher.Reason) (x : Upkeep σ) : Upkeep σ :=
  match x.task with
  | some (r, .waiting) =>
    if r.mayWake x.now x.signal why then
      { x with task := (r.heed x.now x.signal why).map fun r => (r, .turn 0) }
    else x
  | _ => x

/-- The task goes on with its pass: it looks an endpoint up at its turn if that needs it, or takes what was found. -/
def go (x : Upkeep σ) : Upkeep σ :=
  match x.task with
  | some (r, .turn i) =>
    match x.endpoints[i]? with
    | none => { x with task := some (r, .waiting) }
    | some e =>
      if e.needsRefresh x.now then
        let p := gather look.recorded e.specs (x.names, x.asked)
        { x with names := p.2.1, asked := p.2.2, task := some (r, .answer i p.1) }
      else { x with task := some (r, .turn (i + 1)) }
  | some (r, .answer i found) =>
    { x.change i fun e => (e.install x.now found).2 with task := some (r, .turn (i + 1)) }
  | _ => x

def step (x : Upkeep σ) : Act σ → Upkeep σ
  | .advance time => { x with now := x.now + time }
  | .rename names => { x with names }
  | .use i a => x.change i fun e => (e.next x.now a).2.2
  | .arrive i found => x.change i fun e => (e.install x.now found).2
  | .set value => { x with signal := x.signal.set value }
  | .hangUp => { x with signal := x.signal.close }
  | .begin interval =>
    match x.task with
    | none => { x with task := (Refresher.begin? interval x.now x.signal).map fun r => (r, .waiting) }
    | some _ => x
  | .wake why => x.wake why
  | .go => x.go look

/-- What a history leads to, the latest act first. -/
def reached (start : Upkeep σ) : List (Act σ) → Upkeep σ
  | [] => start
  | a :: past => (reached start past).step look a

/-- The endpoint whose turn it is. -/
def turn? (x : Upkeep σ) : Option Nat :=
  match x.task with
  | some (_, .turn i) => some i
  | _ => none

/-- How many turns are over, if the task makes a pass. -/
def over? (x : Upkeep σ) : Option Nat :=
  match x.task with
  | some (_, .turn i) => some i
  | some (_, .answer i _) => some (i + 1)
  | _ => none

/-- The addresses that an endpoint is given by an act, if it is given the answer to a question. -/
def given? (i : Nat) (x : Upkeep σ) : Act σ → Option (List Address)
  | .arrive j found => if j = i then some found else none
  | .go =>
    match x.task with
    | some (_, .answer j found) => if j = i then some found else none
    | _ => none
  | _ => none

/-- Whether an act gives an endpoint addresses. -/
def supplies (i : Nat) (x : Upkeep σ) (a : Act σ) : Bool :=
  (x.given? i a).any (!·.isEmpty)

def Act.uses (i : Nat) : Act σ → Bool
  | .use j _ => j = i
  | _ => false

/-- Whether an endpoint was used since addresses were last found for it, or else since it was made. -/
def usedSince (start : Upkeep σ) (i : Nat) : List (Act σ) → Bool
  | [] => false
  | a :: past => a.uses i || usedSince start i past && !(reached look start past).supplies i a

/-- Until when the addresses of an endpoint are good: 300 seconds from when they were found, or else until it was made.
-/
def goodUntil (start : Upkeep σ) (i : Nat) : List (Act σ) → Time
  | [] => start.endpoints[i]?.elim 0 Endpoint.good
  | a :: past =>
    if (reached look start past).supplies i a then (reached look start past).now + 300 * second
    else goodUntil start i past

/-- An endpoint is due: it was used since addresses were last found for it, or these are no longer good. -/
def Due (start : Upkeep σ) (i : Nat) (h : List (Act σ)) : Prop :=
  usedSince look start i h = true ∨ goodUntil look start i h < (reached look start h).now

instance (start : Upkeep σ) (i : Nat) (h : List (Act σ)) : Decidable (Due look start i h) :=
  inferInstanceAs (Decidable (_ ∨ _))

/-! ## One step -/

section Step

variable {look} {x : Upkeep σ} {i : Nat} {e : Endpoint}

theorem turn?_eq_some_iff : x.turn? = some i ↔ ∃ r, x.task = some (r, .turn i) := by
  unfold turn?
  split
  · rename_i r j htask
    simp [htask]
  · rename_i hturn
    simp only [reduceCtorEq, false_iff, not_exists]
    exact fun r htask => hturn r i htask

/-- A task that begins changes nothing but the task. -/
theorem begin_eq (look : Lookup σ) (interval : Time) (x : Upkeep σ) :
    ∃ task, x.step look (.begin interval) = { x with task } := by
  simp only [step]
  split
  · exact ⟨_, rfl⟩
  · exact ⟨x.task, rfl⟩

/-- Nor does one that wakes up. -/
theorem wake_eq (why : Refresher.Reason) (x : Upkeep σ) : ∃ task, x.wake why = { x with task } := by
  simp only [wake]
  split
  · split
    · exact ⟨_, rfl⟩
    · exact ⟨x.task, rfl⟩
  · exact ⟨x.task, rfl⟩

/-- All that can come of it that the task goes on. -/
inductive Went (look : Lookup σ) (x : Upkeep σ) : Upkeep σ → Prop where
  | idle : (x.task = none ∨ ∃ r, x.task = some (r, .waiting)) → Went look x x
  | ended {r i} : x.task = some (r, .turn i) → x.endpoints[i]? = none →
      Went look x { x with task := some (r, .waiting) }
  | passed {r i e} : x.task = some (r, .turn i) → x.endpoints[i]? = some e → e.needsRefresh x.now = false →
      Went look x { x with task := some (r, .turn (i + 1)) }
  | asked {r i e} : x.task = some (r, .turn i) → x.endpoints[i]? = some e → e.needsRefresh x.now = true →
      Went look x { x with
        names := (gather look e.specs x.names).2
        asked := x.asked ++ e.specs
        task := some (r, .answer i (gather look e.specs x.names).1) }
  | installed {r i found} : x.task = some (r, .answer i found) →
      Went look x { x.change i fun e => (e.install x.now found).2 with task := some (r, .turn (i + 1)) }

theorem went (look : Lookup σ) (x : Upkeep σ) : Went look x (x.step look .go) := by
  simp only [step, go]
  split
  · rename_i r i htask
    split
    · rename_i he
      exact .ended htask he
    · rename_i e he
      split
      · rename_i hneeds
        simp only [gather_recorded]
        exact .asked htask he hneeds
      · rename_i hneeds
        exact .passed htask he (Bool.eq_false_iff.2 hneeds)
  · rename_i r i found htask
    exact .installed htask
  · rename_i hturn hanswer
    refine .idle ?_
    obtain htask | ⟨⟨r, station⟩, htask⟩ := x.task.eq_none_or_eq_some
    · exact .inl htask
    · cases station with
      | waiting => exact .inr ⟨r, htask⟩
      | turn i => exact absurd htask (hturn r i)
      | answer i found => exact absurd htask (hanswer r i found)

/-- What an act makes of an endpoint. -/
def effect (i : Nat) (x : Upkeep σ) (a : Act σ) (e : Endpoint) : Endpoint :=
  match x.given? i a with
  | some found => (e.install x.now found).2
  | none =>
    match a with
    | .use j attempts => if j = i then (e.next x.now attempts).2.2 else e
    | _ => e

theorem getElem?_change (i j : Nat) (f : Endpoint → Endpoint) (x : Upkeep σ) :
    (x.change j f).endpoints[i]? = x.endpoints[i]?.map fun e => if j = i then f e else e := by
  simp only [change, List.getElem?_modify]
  split <;> simp_all

theorem getElem?_step (i : Nat) (x : Upkeep σ) (a : Act σ) :
    (x.step look a).endpoints[i]? = x.endpoints[i]?.map (effect i x a) := by
  have hsame {y : Upkeep σ} (hy : y.endpoints = x.endpoints) (hid : effect i x a = fun e => e) :
      y.endpoints[i]? = x.endpoints[i]?.map (effect i x a) := by
    rw [hy, hid, Option.map_id']
  cases a with
  | advance | rename | set | hangUp => exact hsame rfl rfl
  | use j attempts => exact getElem?_change i j _ x
  | arrive j found =>
    refine (getElem?_change i j _ x).trans (congrArg (Option.map · _) (funext fun e => ?_))
    by_cases hj : j = i <;> simp [effect, given?, hj]
  | begin interval =>
    obtain ⟨task, hbegin⟩ := begin_eq look interval x
    exact hsame (by rw [hbegin]) rfl
  | wake why =>
    obtain ⟨task, hwake⟩ := wake_eq why x
    exact hsame (by rw [step, hwake]) rfl
  | go =>
    have hwent := went look x
    generalize x.step look .go = y at hwent ⊢
    cases hwent with
    | idle htask =>
      refine hsame rfl (funext fun e => ?_)
      obtain htask | ⟨r, htask⟩ := htask <;> simp [effect, given?, htask]
    | ended htask | passed htask | asked htask => exact hsame rfl (funext fun e => by simp [effect, given?, htask])
    | @installed r k found htask =>
      refine (getElem?_change i k _ x).trans (congrArg (Option.map · _) (funext fun e => ?_))
      by_cases hk : k = i <;> simp [effect, given?, htask, hk]

/-- Found addresses clear the mark of use and are good for 300 seconds, and none change nothing. -/
theorem marks_install (now : Time) (found : List Address) (e : Endpoint) :
    (e.install now found).2.specs = e.specs ∧
    (e.install now found).2.used = (e.used && found.isEmpty) ∧
    (e.install now found).2.good = (if found.isEmpty then e.good else now + 300 * second) ∧
    (found.isEmpty → (e.install now found).2.balancer.addresses = e.balancer.addresses) := by
  unfold Endpoint.install
  split <;> rename_i hfound <;> simp [hfound, Endpoint.lifetime]

/-- An act marks an endpoint as used, or its addresses as good. -/
theorem marks_effect (i : Nat) (x : Upkeep σ) (a : Act σ) (e : Endpoint) :
    (effect i x a e).specs = e.specs ∧
    (effect i x a e).used = (a.uses i || e.used && !x.supplies i a) ∧
    (effect i x a e).good = (if x.supplies i a then x.now + 300 * second else e.good) ∧
    (x.supplies i a = false → (effect i x a e).balancer.addresses = e.balancer.addresses) := by
  cases hg : x.given? i a with
  | some found =>
    have huses : a.uses i = false := by
      cases a with
      | use => cases hg
      | _ => rfl
    obtain ⟨hspecs, hused, hgood, haddresses⟩ := marks_install x.now found e
    cases hempty : found.isEmpty <;> simp_all [effect, supplies]
  | none =>
    have hsupplies : x.supplies i a = false := by simp [supplies, hg]
    cases a with
    | use j attempts =>
      by_cases hj : j = i
      · subst hj
        simp [effect, hg, hsupplies, Act.uses, Endpoint.next]
      · simp [effect, hg, hsupplies, Act.uses, hj]
    | _ => simp [effect, hg, hsupplies, Act.uses]

/-- At a turn the task asks for all backends of an endpoint that needs it. -/
theorem asked_turn (hturn : x.turn? = some i) (he : x.endpoints[i]? = some e) :
    (x.step look .go).asked = x.asked ++ (if e.needsRefresh x.now then e.specs else []) := by
  obtain ⟨r, htask⟩ := turn?_eq_some_iff.1 hturn
  simp only [step, go, htask, he]
  split
  · simp [gather_recorded]
  · simp

/-- At anything but the turn of an endpoint it asks for nothing. -/
theorem asked_step {a : Act σ} (h : a = .go → ∀ i, x.turn? = some i → x.endpoints[i]? = none) :
    (x.step look a).asked = x.asked := by
  cases a with
  | advance | rename | use | arrive | set | hangUp => rfl
  | begin interval =>
    obtain ⟨task, hbegin⟩ := begin_eq look interval x
    rw [hbegin]
  | wake why =>
    obtain ⟨task, hwake⟩ := wake_eq why x
    rw [step, hwake]
  | go =>
    have hwent := went look x
    generalize x.step look .go = y at hwent ⊢
    cases hwent with
    | idle | ended | passed | installed => rfl
    | asked htask he => exact absurd (he.symm.trans (h rfl _ (turn?_eq_some_iff.2 ⟨_, htask⟩))) (Option.some_ne_none _)

theorem now_le_step (x : Upkeep σ) (a : Act σ) : x.now ≤ (x.step look a).now := by
  cases a with
  | advance time => exact Nat.le_add_right x.now time
  | rename | use | arrive | set | hangUp => exact Nat.le_refl _
  | begin interval =>
    obtain ⟨task, hbegin⟩ := begin_eq look interval x
    rw [hbegin]
  | wake why =>
    obtain ⟨task, hwake⟩ := wake_eq why x
    rw [step, hwake]
  | go =>
    have hwent := went look x
    generalize x.step look .go = y at hwent ⊢
    cases hwent <;> exact Nat.le_refl _

end Step

/-! ## What a history says of an endpoint -/

section History

variable {look} {start : Upkeep σ} {h : List (Act σ)} {i : Nat} {e : Endpoint}

/-- The backends of an endpoint stay, and its marks are what the history says. -/
theorem marks_reached : ∀ {h : List (Act σ)} {e : Endpoint}, (∀ e ∈ start.endpoints, e.used = false) →
    (reached look start h).endpoints[i]? = some e →
    (∃ e₀, start.endpoints[i]? = some e₀ ∧ e.specs = e₀.specs) ∧ e.used = usedSince look start i h ∧
      e.good = goodUntil look start i h
  | [], e, hnew, he => by
    have he : start.endpoints[i]? = some e := he
    exact ⟨⟨e, he, rfl⟩, hnew e (List.mem_of_getElem? he), by simp [goodUntil, he]⟩
  | a :: past, e, hnew, he => by
    simp only [reached, getElem?_step, Option.map_eq_some_iff] at he
    obtain ⟨e', he', rfl⟩ := he
    obtain ⟨⟨e₀, he₀, hspecs⟩, hused, hgood⟩ := marks_reached hnew he'
    obtain ⟨hspecs', hused', hgood', -⟩ := marks_effect i (reached look start past) a e'
    refine ⟨⟨e₀, he₀, hspecs'.trans hspecs⟩, ?_, ?_⟩
    · rw [hused', hused, usedSince]
    · rw [hgood', hgood, goodUntil]

/-- An endpoint needs to be looked up just where it is due. -/
theorem needsRefresh_iff (hnew : ∀ e ∈ start.endpoints, e.used = false)
    (he : (reached look start h).endpoints[i]? = some e) :
    e.needsRefresh (reached look start h).now = true ↔ Due look start i h := by
  obtain ⟨-, hused, hgood⟩ := marks_reached hnew he
  simp [Endpoint.needsRefresh, Endpoint.expired, Due, hused, hgood]

theorem now_le_reached (h : List (Act σ)) : ∀ later : List (Act σ),
    (reached look start h).now ≤ (reached look start (later ++ h)).now
  | [] => Nat.le_refl _
  | a :: later => (now_le_reached h later).trans (now_le_step _ a)

/-- An endpoint that was given addresses is not due as long as it is not used and these are good. -/
theorem not_due_after {a : Act σ} (hgiven : (reached look start h).supplies i a = true) :
    ∀ later : List (Act σ), (∀ b ∈ later, b.uses i = false) →
      usedSince look start i (later ++ a :: h) = false ∧
        (reached look start h).now + 300 * second ≤ goodUntil look start i (later ++ a :: h)
  | [], _ => by
    have huses : a.uses i = false := by
      cases a with
      | use => simp [supplies, given?] at hgiven
      | _ => rfl
    simp [usedSince, goodUntil, huses, hgiven]
  | b :: later, hunused => by
    obtain ⟨hused, hgood⟩ := not_due_after hgiven later fun c hc => hunused c (List.mem_cons_of_mem b hc)
    refine ⟨by simp [usedSince, hused, hunused b List.mem_cons_self], ?_⟩
    simp only [List.cons_append, goodUntil]
    split
    · have hnow : (reached look start h).now ≤ (reached look start (later ++ a :: h)).now :=
        (now_le_step _ a).trans (now_le_reached (a :: h) later)
      exact Nat.add_le_add_right hnow _
    · exact hgood

/-- No act of what comes after a history gives an endpoint addresses. -/
def Unsupplied (look : Lookup σ) (start : Upkeep σ) (i : Nat) (h later : List (Act σ)) : Prop :=
  ∀ m a, a :: m <:+ later → (reached look start (m ++ h)).supplies i a = false

/-- An endpoint that is due stays so, with the addresses that it has, until it is given some. -/
theorem due_after (hdue : Due look start i h) (he : (reached look start h).endpoints[i]? = some e) :
    ∀ later : List (Act σ), Unsupplied look start i h later → Due look start i (later ++ h) ∧
      ∃ e', (reached look start (later ++ h)).endpoints[i]? = some e' ∧ e'.balancer.addresses = e.balancer.addresses
  | [], _ => ⟨hdue, e, he, rfl⟩
  | a :: later, hnone => by
    have hsupplies := hnone later a List.suffix_rfl
    obtain ⟨hdue, e', he', haddresses⟩ :=
      due_after hdue he later fun m b hb => hnone m b (hb.trans (List.suffix_cons a later))
    refine ⟨?_, effect i _ a e', ?_, ((marks_effect i _ a e').2.2.2 hsupplies).trans haddresses⟩
    · simp only [Due, List.cons_append, usedSince, goodUntil, hsupplies] at hdue ⊢
      obtain hused | hgood := hdue
      · exact .inl (by simp [hused])
      · exact .inr (hgood.trans_le (now_le_step _ a))
    · rw [List.cons_append, reached, getElem?_step, he', Option.map_some]

end History

end Upkeep

end AffinityRelay
