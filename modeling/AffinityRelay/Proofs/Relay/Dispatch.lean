import Mathlib.Algebra.GroupWithZero.Nat
import Mathlib.Data.List.Perm.Basic
import AffinityRelay.Relay.Acceptor

/-!
# Every accepted client has one bridge

Clients are accepted, wait for room in the queue of a worker, have a bridge begun for them there, and the bridge ends; or
the signal to stop is set at any moment. Of each worker a log is kept of the clients that came into its queue, of those
whose bridges it began, and of those whose bridges ended (`Worker.Log`).

* `Worker.OneStep`: what a worker can come to by one action (`oneStep_step`);
* `Worker.Books`: what a worker is at, by its log, and that it waits for something or has finished. Whatever a worker
  does keeps its books (`Books.step`), and so does what is done to its queue (`Books.feed`, `Books.hangup`);
* `Acceptor.Sound`: the books of all workers, to which of them each client went, and how many bridges are counted; with
  the client that waits for room it is `Acceptor.Kept`, which every action keeps (`Kept.step`), and so every history
  (`kept_reached`);
* `Acceptor.Kept.hand_of_room`, `Acceptor.Kept.hand_of_full`: what becomes of a client that waits, with room and without;
* `Acceptor.one_bridge_each`: what that comes to.
-/

namespace AffinityRelay

/-! ## The books of one worker -/

namespace Worker

/-- The clients that came into the queue of a worker, those whose bridges it began, and those whose bridges ended. -/
structure Log where
  handed : List Nat := []
  begun : List Nat := []
  past : List Nat := []

/-- A log with what a change of its worker added to the lists of the worker. -/
def Log.add (before after : Worker) (l : Log) : Log where
  handed := l.handed ++ after.queue.drop before.queue.length
  begun := l.begun ++ after.running.drop before.running.length
  past := l.past ++ after.ended.drop before.ended.length

/-- What a worker is at, by its log. -/
structure Books (l : Log) (w : Worker) : Prop where
  handed_eq : l.handed = l.begun ++ w.queue
  begun_perm : l.begun.Perm (l.past ++ w.running)
  length_le : w.queue.length ≤ room
  finished_eq : w.finished = !w.waits
  closed : w.accepting = false → w.fed = false ∧ w.queue = []

variable {l : Log} {w w' : Worker}

theorem Log.add_of_eq (hq : w'.queue = w.queue) (hr : w'.running = w.running) (he : w'.ended = w.ended) :
    l.add w w' = l := by
  simp [add, hq, hr, he]

/-- What a worker can come to by one action. -/
inductive OneStep (w : Worker) : Worker → Prop where
  | nothing : OneStep w w
  | taken {client : Nat} {rest : List Nat} (accepting : w.accepting = true) (queue : w.queue = client :: rest) :
    OneStep w ({ w with queue := rest, running := w.running ++ [client] } : Worker).check
  | closed (fed : w.fed = false) (queue : w.queue = []) : OneStep w ({ w with accepting := false } : Worker).check
  | passed {client : Nat} (running : client ∈ w.running) :
    OneStep w { w with running := w.running.erase client, ended := w.ended ++ [client] }
  | reaped (client : Nat) : OneStep w ({ w with ended := w.ended.erase client } : Worker).check

theorem oneStep_step (w : Worker) : ∀ what, w.OneStep (w.step what)
  | .take => by
    simp only [step]
    split
    · exact .nothing
    · rename_i hon
      simp only [Bool.or_eq_true, Bool.not_eq_true', not_or, Bool.not_eq_false] at hon
      split
      · rename_i hqueue
        exact .taken hon.2 hqueue
      · rename_i hqueue
        split
        · exact .nothing
        · rename_i hfed
          exact .closed (Bool.eq_false_iff.2 hfed) hqueue
  | .finish client => by
    simp only [step]
    split
    · rename_i hc
      exact .passed (by simpa using hc)
    · exact .nothing
  | .reap client => by
    simp only [step]
    split
    · exact .reaped client
    · exact .nothing

theorem Books.oneStep (h : w.Books l) (hs : w.OneStep w') (hf : w'.finished = !w'.waits) : w'.Books (l.add w w') := by
  cases hs with
  | nothing => rwa [Log.add_of_eq rfl rfl rfl]
  | @taken client rest haccepting hqueue =>
    have hlog : l.add w ({ w with queue := rest, running := w.running ++ [client] } : Worker).check =
        { l with begun := l.begun ++ [client] } := by
      simp [Log.add, check, hqueue]
    rw [hlog]
    refine ⟨?_, ?_, ?_, hf, fun hc => absurd (haccepting.symm.trans hc) (by simp)⟩
    · show l.handed = l.begun ++ [client] ++ rest
      rw [h.handed_eq, hqueue, List.append_assoc]
      rfl
    · show (l.begun ++ [client]).Perm (l.past ++ (w.running ++ [client]))
      rw [← List.append_assoc]
      exact h.begun_perm.append_right [client]
    · have := h.length_le
      simp only [hqueue, List.length_cons] at this
      exact Nat.le_of_succ_le this
  | closed hfed hqueue =>
    have hlog : l.add w ({ w with accepting := false } : Worker).check = l := Log.add_of_eq rfl rfl rfl
    rw [hlog]
    exact ⟨h.handed_eq, h.begun_perm, h.length_le, hf, fun _ => ⟨hfed, hqueue⟩⟩
  | @passed client hmem =>
    have hlog : l.add w { w with running := w.running.erase client, ended := w.ended ++ [client] } =
        { l with past := l.past ++ [client] } := by
      simp [Log.add, List.length_erase_of_mem hmem]
    rw [hlog]
    refine ⟨h.handed_eq, ?_, h.length_le, hf, h.closed⟩
    show l.begun.Perm (l.past ++ [client] ++ w.running.erase client)
    rw [List.append_assoc]
    exact h.begun_perm.trans ((List.perm_cons_erase hmem).append_left l.past)
  | reaped client =>
    have hlog : l.add w ({ w with ended := w.ended.erase client } : Worker).check = l := by
      simp [Log.add, check, List.drop_eq_nil_of_le (List.length_erase_le (l := w.ended))]
    rw [hlog]
    exact ⟨h.handed_eq, h.begun_perm, h.length_le, hf, h.closed⟩

/-- Whatever a worker does keeps its books. -/
theorem Books.step (h : w.Books l) (what : Action) : (w.step what).Books (l.add w (w.step what)) :=
  h.oneStep (w.oneStep_step what) (finished_step h.finished_eq what)

/-- A worker that can be handed a client looks at its queue, and has not finished. -/
theorem Books.goes_on (h : w.Books l) (hfed : w.fed = true) : w.accepting = true ∧ w.finished = false := by
  have ha : w.accepting = true := by
    by_contra hno
    have := (h.closed (by simpa using hno)).1
    simp [hfed] at this
  exact ⟨ha, by simp [h.finished_eq, waits, ha]⟩

theorem Books.feed (h : w.Books l) (hfed : w.fed = true) (hroom : w.hasRoom = true) (client : Nat) :
    (w.feed client).Books (l.add w (w.feed client)) := by
  have hlog : l.add w (w.feed client) = { l with handed := l.handed ++ [client] } := by
    simp [Log.add, Worker.feed]
  rw [hlog]
  refine ⟨?_, h.begun_perm, ?_, h.finished_eq, fun hc => ?_⟩
  · simp [h.handed_eq, Worker.feed]
  · have hlt : w.queue.length < room := by simpa [hasRoom] using hroom
    show (w.queue ++ [client]).length ≤ room
    rw [List.length_append]
    exact hlt
  · exact absurd ((h.goes_on hfed).1.symm.trans hc) (by simp)

theorem Books.hangup (h : w.Books l) : w.hangup.Books l :=
  ⟨h.handed_eq, h.begun_perm, h.length_le, h.finished_eq, fun hc => ⟨rfl, (h.closed hc).2⟩⟩

/-- A worker has finished only when nothing is left that it could do. -/
theorem Books.finished (h : w.Books l) (hf : w.finished = true) :
    w.fed = false ∧ w.queue = [] ∧ w.running = [] ∧ w.ended = [] := by
  have hwaits : w.waits = false := by simpa [hf] using h.finished_eq.symm
  simp only [waits, busy, Bool.or_eq_false_iff, Bool.not_eq_false', List.isEmpty_iff] at hwaits
  have hclosed := h.closed hwaits.1
  exact ⟨hclosed.1, hclosed.2, hwaits.2.1, hwaits.2.2⟩

/-- Whoever is first in the queue of a worker can be taken out of it. -/
theorem Books.next_taken (h : w.Books l) {client : Nat} {rest : List Nat} (hqueue : w.queue = client :: rest) :
    (w.step .take).running = w.running ++ [client] ∧ (w.step .take).queue = rest := by
  have ha : w.accepting = true := by
    by_contra hno
    have := (h.closed (by simpa using hno)).2
    simp [hqueue] at this
  have hf : w.finished = false := by simp [h.finished_eq, waits, ha]
  simp [Worker.step, ha, hf, hqueue, check]

/-- A queue that is full has room once its worker has taken the next client. -/
theorem Books.hasRoom_take (h : w.Books l) (hfull : w.hasRoom = false) : (w.step .take).hasRoom = true := by
  cases hqueue : w.queue with
  | nil => simp [hasRoom, hqueue, room] at hfull
  | cons client rest =>
    have hle := h.length_le
    rw [hqueue, List.length_cons] at hle
    simp only [hasRoom, (h.next_taken hqueue).2, decide_eq_true_eq]
    exact hle

/-- A worker to which no more clients come, and whose queue is empty, does not look at it any more. -/
theorem accepting_take (hfed : w.fed = false) (hqueue : w.queue = []) (hon : w.finished = false) :
    (w.step .take).accepting = false := by
  by_cases ha : w.accepting = true
  · simp [Worker.step, hon, ha, hqueue, hfed, check]
  · simp [Worker.step, ha]

/-- The bridges that a worker runs change by one at most. -/
theorem OneStep.length_running (hs : w.OneStep w') : w'.running.length = w.running.length ∨
    w'.running.length = w.running.length + 1 ∨ w'.running.length + 1 = w.running.length := by
  cases hs with
  | nothing | closed | reaped => exact .inl rfl
  | taken => exact .inr (.inl (by simp [check]))
  | passed hmem => exact .inr (.inr (List.length_erase_add_one hmem))

/-- The queue is the acceptor's: a worker does not close it. -/
theorem OneStep.fed_eq (hs : w.OneStep w') : w'.fed = w.fed := by
  cases hs <;> rfl

/-- Nothing that a worker does brings clients into its queue. -/
theorem OneStep.length_queue_le (hs : w.OneStep w') : w'.queue.length ≤ w.queue.length := by
  cases hs with
  | nothing | closed | passed | reaped => exact Nat.le_refl _
  | taken _ hqueue => simp [check, hqueue]

end Worker

/-! ## The books of all workers -/

namespace Acceptor

/-- How many bridges some workers run. -/
def bridges (workers : List Worker) : Nat :=
  (workers.map fun w => w.running.length).sum

theorem bridges_set {workers : List Worker} {i : Nat} {w : Worker} (hw : workers[i]? = some w) (w' : Worker) :
    bridges (workers.set i w') + w.running.length = bridges workers + w'.running.length := by
  induction workers generalizing i with
  | nil => cases hw
  | cons x rest ih =>
    cases i with
    | zero =>
      obtain rfl : x = w := by simpa using hw
      simp only [bridges, List.set_cons_zero, List.map_cons, List.sum_cons]
      omega
    | succ i =>
      have := ih (i := i) (by simpa using hw)
      simp only [bridges, List.set_cons_succ, List.map_cons, List.sum_cons] at this ⊢
      omega

theorem length_running_le {workers : List Worker} {i : Nat} {w : Worker} (hw : workers[i]? = some w) :
    w.running.length ≤ bridges workers := by
  have := bridges_set hw {}
  simp only [List.length_nil] at this
  omega

/-- The count changes with the bridges that a worker runs. -/
theorem active_recount (now : Time) (what : Worker.Action) {w : Worker} {d : Drain} (hle : w.running.length ≤ d.active) :
    (recount now w (w.step what) d).active + w.running.length = d.active + (w.step what).running.length := by
  unfold recount
  obtain h | h | h := (w.oneStep_step what).length_running
  · rw [h, if_neg (Nat.lt_irrefl _), if_neg (Nat.lt_irrefl _)]
  · rw [h, if_pos (Nat.lt_succ_self _)]
    simp only [Drain.step]
    omega
  · rw [if_neg (by omega), if_pos (by omega)]
    simp only [Drain.step]
    omega

variable {a a' : Acceptor} {n k : Nat} {logs : Nat → Worker.Log} {signal : Watch} {watcher : Watcher}

/-- A worker by its number. -/
def workerAt (i : Nat) (a : Acceptor) : Worker :=
  a.workers[i]?.getD {}

/-- How many clients were handed to the workers: all but one that waits for room. -/
def placed (a : Acceptor) : Nat :=
  match a.post with
  | .handing _ client => client
  | _ => a.accepted

/-- After some clients were handed to the workers: the books of all of them, which clients went to which, and how many
bridges are counted. -/
structure Sound (n k : Nat) (logs : Nat → Worker.Log) (a : Acceptor) : Prop where
  length_eq : a.workers.length = n
  dropped : a.dropped = []
  fed : ∀ w ∈ a.workers, w.fed = a.listening
  active : a.drain.active = bridges a.workers
  books : ∀ i (w : Worker), a.workers[i]? = some w → w.Books (logs i)
  handed : ∀ i < a.workers.length, (logs i).handed = (List.range k).filter fun c => a.workerOf c = i

/-- What no worker has a part in. -/
theorem Sound.same (h : Sound n k logs a) (hw : a'.workers = a.workers) (hd : a'.dropped = a.dropped)
    (hn : a'.drain.active = a.drain.active) (hl : a'.listening = a.listening) : Sound n k logs a' := by
  have hof (c : Nat) : a'.workerOf c = a.workerOf c := by rw [workerOf, workerOf, hw]
  refine ⟨hw ▸ h.length_eq, hd.trans h.dropped, ?_, ?_, ?_, ?_⟩
  · rw [hw, hl]
    exact h.fed
  · rw [hw, hn]
    exact h.active
  · rw [hw]
    exact h.books
  · simp only [hw, hof]
    exact h.handed

theorem Sound.stop (h : Sound n k logs a) : Sound n k logs a.stop := by
  have hof (c : Nat) : a.stop.workerOf c = a.workerOf c := by simp [workerOf, Acceptor.stop]
  refine ⟨?_, h.dropped, fun w hw => ?_, ?_, fun i w hw => ?_, fun i hi => ?_⟩
  · rw [← h.length_eq]
    exact List.length_map ..
  · obtain ⟨x, -, rfl⟩ := List.mem_map.1 (show w ∈ a.workers.map Worker.hangup from hw)
    rfl
  · rw [show a.stop.drain.active = _ from h.active]
    simp [bridges, Acceptor.stop, Function.comp_def, Worker.hangup]
  · have hw' : (a.workers.map Worker.hangup)[i]? = some w := hw
    rw [List.getElem?_map] at hw'
    obtain ⟨x, hx, rfl⟩ := Option.map_eq_some_iff.1 hw'
    exact (h.books i x hx).hangup
  · simp only [hof]
    exact h.handed i (by simpa [Acceptor.stop] using hi)

/-- The logs of all workers with what a change of the acceptor added to their lists. -/
def grown (logs : Nat → Worker.Log) (a a' : Acceptor) (i : Nat) : Worker.Log :=
  (logs i).add (a.workerAt i) (a'.workerAt i)

theorem grown_same (hw : a'.workers = a.workers) : grown logs a a' = logs := by
  funext i
  exact Worker.Log.add_of_eq (by rw [workerAt, workerAt, hw]) (by rw [workerAt, workerAt, hw])
    (by rw [workerAt, workerAt, hw])

@[simp] theorem grown_stop (logs : Nat → Worker.Log) (a a' : Acceptor) : grown logs a a'.stop = grown logs a a' := by
  funext i
  simp only [grown, workerAt, Acceptor.stop, List.getElem?_map]
  cases a'.workers[i]? <;> rfl

@[simp] theorem grown_check (logs : Nat → Worker.Log) (a a' : Acceptor) :
    grown logs a (a'.check signal watcher) = grown logs a a' := by
  unfold Acceptor.check
  split
  · exact grown_stop logs a a'
  · rfl

section One

variable {j : Nat} {w w' : Worker}

/-- A change of one worker adds to its log only. -/
theorem grown_set (hw : a.workers[j]? = some w) (ha : a'.workers = a.workers.set j w') (i : Nat) :
    grown logs a a' i = if j = i then (logs i).add w w' else logs i := by
  obtain ⟨hj, rfl⟩ := List.getElem?_eq_some_iff.1 hw
  by_cases hji : j = i
  · subst hji
    simp [grown, workerAt, ha, hj]
  · simp only [grown, workerAt, ha, List.getElem?_set_ne hji, if_neg hji]
    exact Worker.Log.add_of_eq rfl rfl rfl

/-- A change of one worker that keeps its books. -/
theorem Sound.set (h : Sound n k logs a) (hw : a.workers[j]? = some w) (ha : a'.workers = a.workers.set j w')
    (hd : a'.dropped = a.dropped) (hl : a'.listening = a.listening) (hf : w'.fed = w.fed)
    (hb : w'.Books ((logs j).add w w')) (hn : a'.drain.active = bridges a'.workers) {k' : Nat}
    (hh : ∀ i < a.workers.length,
      (grown logs a a' i).handed = (List.range k').filter fun c => a.workerOf c = i) :
    Sound n k' (grown logs a a') a' := by
  have hof (c : Nat) : a'.workerOf c = a.workerOf c := by simp [workerOf, ha]
  refine ⟨?_, hd.trans h.dropped, fun x hx => ?_, hn, fun i x hx => ?_, ?_⟩
  · rw [ha, List.length_set, h.length_eq]
  · rw [ha] at hx
    rw [hl]
    obtain hx | rfl := List.mem_or_eq_of_mem_set hx
    · exact h.fed x hx
    · exact hf.trans (h.fed w (List.mem_of_getElem? hw))
  · rw [grown_set hw ha]
    by_cases hji : j = i
    · subst hji
      have hj : j < a.workers.length := (List.getElem?_eq_some_iff.1 hw).1
      obtain rfl : w' = x := by simpa [ha, hj] using hx
      simpa using hb
    · rw [ha, List.getElem?_set_ne hji] at hx
      rw [if_neg hji]
      exact h.books i x hx
  · simpa [ha, hof] using hh

/-- A client is handed to the worker whose turn it is. -/
theorem Sound.feed (h : Sound n k logs a) (hl : a.listening = true) (hw : a.workers[a.workerOf k]? = some w)
    (hroom : w.hasRoom = true) (ha : a' = { a with workers := a.workers.set (a.workerOf k) (w.feed k) }) :
    Sound n (k + 1) (grown logs a a') a' := by
  have hset : a'.workers = a.workers.set (a.workerOf k) (w.feed k) := by rw [ha]
  have hfed : w.fed = true := (h.fed w (List.mem_of_getElem? hw)).trans hl
  refine h.set hw hset (by rw [ha]) (by rw [ha]; rfl) rfl ((h.books _ w hw).feed hfed hroom k) ?_ fun i hi => ?_
  · have hcount := bridges_set hw (w.feed k)
    have hsame : (w.feed k).running.length = w.running.length := rfl
    rw [hset, show a'.drain.active = bridges a.workers by rw [ha]; exact h.active]
    omega
  · rw [grown_set hw hset, List.range_succ, List.filter_append]
    by_cases hki : a.workerOf k = i
    · subst hki
      simp [Worker.Log.add, Worker.feed, h.handed _ hi]
    · simp [hki, h.handed i hi]

/-- A worker does something. -/
theorem Sound.work (h : Sound n k logs a) (now : Time) (j : Nat) (what : Worker.Action) :
    Sound n k (grown logs a (a.work now j what)) (a.work now j what) := by
  unfold Acceptor.work
  split
  · rw [grown_same rfl]
    exact h
  · rename_i w hw
    have hset : ({ a with workers := a.workers.set j (w.step what), drain := recount now w (w.step what) a.drain } :
      Acceptor).workers = a.workers.set j (w.step what) := rfl
    refine h.set hw hset rfl rfl (w.oneStep_step what).fed_eq ((h.books j w hw).step what) ?_ fun i hi => ?_
    · have hcount := active_recount now what (d := a.drain) (h.active ▸ length_running_le hw)
      have hset := bridges_set hw (w.step what)
      rw [h.active] at hcount
      show (recount now w (w.step what) a.drain).active = bridges (a.workers.set j (w.step what))
      omega
    · rw [grown_set hw hset, ← h.handed i hi]
      split
      · simp [Worker.Log.add, List.drop_eq_nil_of_le (w.oneStep_step what).length_queue_le]
      · rfl

end One

/-! ## Every history -/

/-- Between two actions. The client that waits for room is the one that was accepted last. -/
structure Kept (n : Nat) (logs : Nat → Worker.Log) (a : Acceptor) : Prop where
  sound : Sound n a.placed logs a
  queues : ∀ watcher client, a.post = .handing watcher client → a.accepted = client + 1

theorem placed_of_post (hno : ∀ watcher client, a.post ≠ .handing watcher client) : a.placed = a.accepted := by
  unfold placed
  split
  · rename_i hp
    exact absurd hp (hno _ _)
  · rfl

theorem Kept.of_post (hno : ∀ watcher client, a.post ≠ .handing watcher client) (h : Sound n a.accepted logs a) :
    Kept n logs a :=
  ⟨by rwa [placed_of_post hno], fun watcher client hp => absurd hp (hno watcher client)⟩

theorem kept_stop (h : Sound n a.accepted logs a) : Kept n logs a.stop :=
  .of_post nofun h.stop

/-- After the acceptor looked at the signal no client waits. -/
theorem kept_check (h : Sound n a.accepted logs a) (hl : a.listening = true) : Kept n logs (a.check signal watcher) := by
  unfold Acceptor.check
  split
  · exact kept_stop h
  · exact .of_post nofun (h.same rfl rfl rfl (hl.symm ▸ rfl))

/-- A client that waits is handed over as soon as there is room, and never dropped. -/
theorem Kept.give {client : Nat} (h : Kept n logs a) (hp : a.post = .handing watcher client) :
    Kept n (grown logs a (a.give signal watcher client)) (a.give signal watcher client) := by
  have hl : a.listening = true := by simp [listening, hp]
  have hk : a.placed = client := by simp [placed, hp]
  have hs : Sound n client logs a := hk ▸ h.sound
  unfold Acceptor.give
  split
  · rwa [grown_same rfl]
  · rename_i w hw
    have hfinished := ((hs.books _ w hw).goes_on ((hs.fed w (List.mem_of_getElem? hw)).trans hl)).2
    rw [if_neg (by simp [hfinished])]
    split
    · rename_i hroom
      have hset : a.workers.modify (a.workerOf client) (Worker.feed client) =
          a.workers.set (a.workerOf client) (w.feed client) := by
        simp [List.modify_eq_set_getElem?, hw]
      rw [grown_check, hset]
      have hfed := hs.feed hl hw hroom rfl
      rw [← h.queues watcher client hp] at hfed
      exact kept_check hfed hl
    · rwa [grown_same rfl]

theorem Kept.grown (h : Kept n logs a') (hw : a'.workers = a.workers) : Kept n (grown logs a a') a' := by
  rwa [grown_same hw]

/-- What happens while the acceptor stays at what it is at. -/
theorem Kept.stay {logs' : Nat → Worker.Log} (h : Kept n logs a) (hp : a'.post = a.post) (ha : a'.accepted = a.accepted)
    (hs : Sound n a.placed logs' a') : Kept n logs' a' := by
  refine ⟨?_, by rw [hp, ha]; exact h.queues⟩
  rwa [placed, hp, ha, ← placed]

/-- Every action keeps the books. -/
theorem Kept.step (h : Kept n logs a) (now : Time) (signal : Watch) (action : Action) :
    Kept n (Acceptor.grown logs a (a.step now signal action)) (a.step now signal action) := by
  have hs := h.sound
  unfold Acceptor.step
  split
  · rename_i hp
    rw [placed_of_post (by simp [hp])] at hs
    have hw : Sound n a.accepted logs { a with post := .waiting signal.subscribe } :=
      hs.same rfl rfl rfl (by simp [listening, hp])
    exact (Kept.of_post (by simp) hw).grown rfl
  · rename_i watcher hp
    rw [placed_of_post (by simp [hp])] at hs
    refine Kept.grown ⟨hs.same rfl rfl rfl (by simp [listening, hp]), fun _ client hq => ?_⟩ rfl
    obtain ⟨-, rfl⟩ : watcher = _ ∧ a.accepted = client := by simpa using hq
    rfl
  · rename_i watcher hp
    rw [placed_of_post (by simp [hp])] at hs
    have hw : Sound n a.accepted logs { a with post := .resting watcher (now + rest) } :=
      hs.same rfl rfl rfl (by simp [listening, hp])
    exact (Kept.of_post (by simp) hw).grown rfl
  · rename_i watcher client hp
    exact h.give hp
  · rename_i watcher deadline hp
    rw [placed_of_post (by simp [hp])] at hs
    split
    · rw [grown_check]
      exact kept_check (by rwa [grown_same rfl]) (by simp [listening, hp])
    · exact h.grown rfl
  · rename_i watcher hp
    rw [placed_of_post (by simp [hp])] at hs
    split
    · rw [grown_check]
      exact kept_check (by rwa [grown_same rfl]) (by simp [listening, hp])
    · rw [grown_stop]
      exact kept_stop (by rwa [grown_same rfl])
    · exact h.grown rfl
  · rename_i j what
    refine h.stay ?_ ?_ (hs.work now j what)
    all_goals
      unfold Acceptor.work
      split <;> rfl
  · have hn : (a.drain.step now .notify).active = a.drain.active := by
      simp only [Drain.step]
      split <;> rfl
    have hk : Kept n logs { a with drain := a.drain.step now .notify } := h.stay rfl rfl (hs.same rfl rfl hn rfl)
    exact hk.grown rfl
  · exact h.grown rfl

section Hand

variable {client : Nat}

/-- The worker whose turn it is has not finished. -/
theorem Kept.turn (h : Kept n logs a) (hn : 0 < n) (hl : a.listening = true) (client : Nat) :
    ∃ w, a.workers[a.workerOf client]? = some w ∧ a.workerAt (a.workerOf client) = w ∧ w.finished = false := by
  have hlt : a.workerOf client < a.workers.length := Nat.mod_lt _ (h.sound.length_eq.symm ▸ hn)
  refine ⟨_, List.getElem?_eq_getElem hlt, by simp [workerAt, hlt], ?_⟩
  have hfed := (h.sound.fed _ (List.getElem_mem hlt)).trans hl
  exact ((h.sound.books _ _ (List.getElem?_eq_getElem hlt)).goes_on hfed).2

theorem queue_check (signal : Watch) (watcher : Watcher) (a : Acceptor) (j : Nat) :
    ((a.check signal watcher).workerAt j).queue = (a.workerAt j).queue := by
  unfold Acceptor.check
  split
  · simp only [workerAt, Acceptor.stop, List.getElem?_map]
    cases a.workers[j]? <;> rfl
  · rfl

theorem post_check (signal : Watch) (watcher : Watcher) (a : Acceptor) :
    (a.check signal watcher).post = (if signal.value then .finished else .waiting watcher) ∧
      (a.check signal watcher).accepted = a.accepted := by
  unfold Acceptor.check
  split <;> exact ⟨rfl, rfl⟩

/-- With room, the client that waits comes last in the queue of its worker, and no longer waits. -/
theorem Kept.hand_of_room (h : Kept n logs a) (hn : 0 < n) (hp : a.post = .handing watcher client) (now : Time)
    (signal : Watch) (hroom : (a.workerAt (a.workerOf client)).hasRoom = true) :
    let b := a.step now signal .hand
    b.post = (if signal.value then .finished else .waiting watcher) ∧ b.accepted = a.accepted ∧
      ∀ j, (b.workerAt j).queue = (a.workerAt j).queue ++ if j = a.workerOf client then [client] else [] := by
  obtain ⟨w, hw, hat, hfinished⟩ := h.turn hn (by simp [listening, hp]) client
  rw [hat] at hroom
  let fed : Acceptor := { a with workers := a.workers.modify (a.workerOf client) (Worker.feed client) }
  have hstep : a.step now signal .hand = fed.check signal watcher := by
    simp only [Acceptor.step, hp, Acceptor.give, hw, hfinished, hroom, Bool.false_eq_true, if_false, if_true, fed]
  obtain ⟨hpost, haccepted⟩ := post_check signal watcher fed
  simp only [hstep]
  refine ⟨hpost, haccepted, fun j => ?_⟩
  rw [queue_check]
  by_cases hj : j = a.workerOf client
  · subst hj
    simp [fed, workerAt, Worker.feed, hw]
  · have hne : a.workerOf client ≠ j := fun h => hj h.symm
    simp [fed, workerAt, hne, hj]

/-- Without room nothing happens, until the worker has taken the next client. -/
theorem Kept.hand_of_full (h : Kept n logs a) (hn : 0 < n) (hp : a.post = .handing watcher client) (now : Time)
    (signal : Watch) (hfull : (a.workerAt (a.workerOf client)).hasRoom = false) :
    a.step now signal .hand = a ∧
      let b := a.step now signal (.work (a.workerOf client) .take)
      b.post = a.post ∧ (b.workerAt (a.workerOf client)).hasRoom = true := by
  obtain ⟨w, hw, hat, hfinished⟩ := h.turn hn (by simp [listening, hp]) client
  rw [hat] at hfull
  have hlt := (List.getElem?_eq_some_iff.1 hw).1
  refine ⟨?_, ?_⟩
  · simp only [Acceptor.step, hp, Acceptor.give, hw, hfinished, hfull, Bool.false_eq_true, if_false]
  · simp only [Acceptor.step, Acceptor.work, hw]
    refine ⟨trivial, ?_⟩
    simpa [workerAt, hlt] using (h.sound.books _ w hw).hasRoom_take hfull

/-- An acceptor that waits and is to stop does so when it hears of it. -/
theorem heed_of_stop (hp : a.post = .waiting watcher) (now : Time) (signal : Watch) (hstop : signal.value = true)
    (hnews : (watcher.poll signal).1 ≠ .nothing) : (a.step now signal .heed).listening = false := by
  simp only [Acceptor.step, hp]
  split
  · simp [Acceptor.check, hstop, Acceptor.stop, listening]
  · simp [Acceptor.stop, listening]
  · rename_i hnothing
    simp [hnothing] at hnews

end Hand

/-- What happens at one moment: the time, the signal then, and an action. -/
structure Moment where
  now : Time
  signal : Watch
  action : Action

/-- All that happened, the latest first. -/
abbrev History := List Moment

/-- An acceptor of so many workers after a history. -/
def reached (n : Nat) : History → Acceptor
  | [] => ofWorkers n
  | m :: h => (reached n h).step m.now m.signal m.action

/-- The log of a worker. -/
def log (n i : Nat) : History → Worker.Log
  | [] => {}
  | m :: h => (log n i h).add ((reached n h).workerAt i) ((reached n (m :: h)).workerAt i)

theorem kept_ofWorkers (n : Nat) : Kept (max n 1) (fun _ => {}) (ofWorkers n) := by
  refine .of_post nofun ⟨List.length_replicate, rfl, ?_, ?_, fun i w hw => ?_, ?_⟩
  · intro w hw
    rw [(List.mem_replicate.1 hw).2]
    rfl
  · simp [ofWorkers, bridges]
  · rw [(List.mem_replicate.1 (List.mem_of_getElem? hw)).2]
    exact ⟨rfl, .refl _, Nat.zero_le _, rfl, nofun⟩
  · simp [ofWorkers]

theorem kept_reached (n : Nat) : ∀ h : History, Kept (max n 1) (fun i => log n i h) (reached n h)
  | [] => kept_ofWorkers n
  | m :: h => (kept_reached n h).step m.now m.signal m.action

/-- Every accepted client has one bridge. Whatever happens, and in whatever order: all accepted clients but one that
waits for room were put into the queue of a worker, one worker after another and no client into two, as long as the
count that this goes by has not begun anew; and none was dropped because its worker had finished. While none waits one
can be accepted; after a failure to accept one, that is so again once a rest is over. One that waits can be put last
into the queue of its worker, and into no other, if there is room; if not, there is once the worker has taken the next
client. A worker begins a bridge for each client that came into its queue, in the order they came, once, and it can
always begin the next one. The bridges that are counted are those that were begun and have not ended. A worker has
finished only when no more clients can come, none is in its queue and all its bridges were put away; until then there
is something that it waits for, and that can happen. No more clients can come once the acceptor has noticed that it is
to stop. -/
theorem one_bridge_each (n : Nat) (h : History) :
    let a := reached n h
    (a.workers.length = max n 1 ∧ a.dropped = []) ∧
    (a.placed = a.accepted ∨ a.accepted = a.placed + 1 ∧ ∃ watcher, a.post = .handing watcher a.placed) ∧
    (∀ client < Machine.words, ∀ i < max n 1, (log n i h).handed.count client =
      if client < a.placed ∧ client % max n 1 = i then 1 else 0) ∧
    (∀ watcher now signal, a.post = .waiting watcher →
      ((a.step now signal .accept).post = .handing watcher a.accepted ∧
        (a.step now signal .accept).accepted = a.accepted + 1) ∧
      ((a.step now signal .acceptFails).post = .resting watcher (now + rest) ∧
        (a.step now signal .acceptFails).accepted = a.accepted) ∧
      (signal.value = true → (watcher.poll signal).1 ≠ .nothing → (a.step now signal .heed).listening = false)) ∧
    (∀ watcher deadline now signal, a.post = .resting watcher deadline → deadline ≤ now.tick →
      (a.step now signal .resume).post = if signal.value then .finished else .waiting watcher) ∧
    (∀ watcher client now signal, a.post = .handing watcher client →
      let i := client % Machine.words % max n 1
      let b := a.step now signal .hand
      let c := a.step now signal (.work i .take)
      ((a.workerAt i).hasRoom = true →
        b.post = (if signal.value then .finished else .waiting watcher) ∧ b.accepted = a.accepted ∧
        ∀ j, (b.workerAt j).queue = (a.workerAt j).queue ++ if j = i then [client] else []) ∧
      ((a.workerAt i).hasRoom = false → b = a ∧ c.post = a.post ∧ (c.workerAt i).hasRoom = true)) ∧
    a.drain.active = (a.workers.map fun w => w.running.length).sum ∧
    ∀ i w, a.workers[i]? = some w →
      ((log n i h).handed = (log n i h).begun ++ w.queue ∧ (log n i h).handed.Nodup ∧
        w.queue.length ≤ Worker.room) ∧
      (∀ client rest, w.queue = client :: rest →
        (w.step .take).running = w.running ++ [client] ∧ (w.step .take).queue = rest) ∧
      (log n i h).begun.Perm ((log n i h).past ++ w.running) ∧
      (w.finished = true → w.fed = false ∧ w.queue = [] ∧ w.running = [] ∧ w.ended = []) ∧
      (w.finished = false → w.accepting = true ∨ w.busy = true) ∧
      w.fed = a.listening ∧
      (∀ now signal what, (a.step now signal (.work i what)).workers = a.workers.set i (w.step what)) ∧
      (w.finished = false → w.fed = false → w.queue = [] → (w.step .take).accepting = false) ∧
      (∀ client ∈ w.running, (w.step (.finish client)).running = w.running.erase client ∧
        (w.step (.finish client)).ended = w.ended ++ [client]) ∧
      ∀ client ∈ w.ended, (w.step (.reap client)).ended = w.ended.erase client := by
  intro a
  have hk := kept_reached n h
  have hs := hk.sound
  have hpos : 0 < max n 1 := Nat.lt_of_lt_of_le Nat.zero_lt_one (Nat.le_max_right n 1)
  have hturn (client : Nat) : a.workerOf client = client % Machine.words % max n 1 :=
    congrArg (client % Machine.words % ·) hs.length_eq
  have hhanded : ∀ i < max n 1, (log n i h).handed = (List.range a.placed).filter fun c => a.workerOf c = i :=
    fun i hi => hs.handed i (hs.length_eq ▸ hi)
  refine ⟨⟨hs.length_eq, hs.dropped⟩, ?_, fun client hc i hi => ?_, fun watcher now signal hp => ?_,
    fun watcher deadline now signal hp hover => ?_, fun watcher client now signal hp => ?_, hs.active,
    fun i w hw => ⟨⟨?_, ?_, ?_⟩, ?_⟩⟩
  · unfold placed
    split
    · rename_i watcher client hp
      exact .inr ⟨hk.queues watcher client hp, watcher, hp⟩
    · exact .inl rfl
  · have hof : a.workerOf client = client % max n 1 := by rw [hturn, Nat.mod_eq_of_lt hc]
    have hnodup : ((List.range a.placed).filter fun c => a.workerOf c = i).Nodup := List.nodup_range.filter _
    rw [hhanded i hi, hnodup.count]
    simp [hof]
  · exact ⟨by simp [Acceptor.step, hp], by simp [Acceptor.step, hp], heed_of_stop hp now signal⟩
  · simp only [Acceptor.step, hp, if_pos hover]
    exact (post_check signal watcher a).1
  · intro i b c
    have hi : i = a.workerOf client := (hturn client).symm
    simp only [b, c, hi]
    exact ⟨hk.hand_of_room hpos hp now signal, hk.hand_of_full hpos hp now signal⟩
  · exact (hs.books i w hw).handed_eq
  · have hi : i < max n 1 := by
      rw [← hs.length_eq]
      exact (List.getElem?_eq_some_iff.1 hw).1
    rw [hhanded i hi]
    exact List.nodup_range.filter _
  · exact (hs.books i w hw).length_le
  · have hb := hs.books i w hw
    refine ⟨fun client rest => hb.next_taken, hb.begun_perm, hb.finished, fun hf => ?_,
      hs.fed w (List.mem_of_getElem? hw), fun now signal what => ?_, fun hf hfed hqueue => ?_, fun client hc => ?_,
      fun client hc => ?_⟩
    · have hwaits : w.waits = true := by simpa [hf] using hb.finished_eq
      simpa only [Worker.waits, Bool.or_eq_true] using hwaits
    · simp [Acceptor.step, Acceptor.work, hw]
    · exact Worker.accepting_take hfed hqueue hf
    · simp [Worker.step, hc]
    · simp [Worker.step, hc, Worker.check]

/-- What happens while nobody stops the acceptor, and the time stands still. -/
def calmly (actions : List Action) : History :=
  actions.reverse.map fun action => { now := 0, signal := {}, action }

/-- Nine clients come for the one worker of an acceptor, which does nothing. -/
def crowd : History :=
  calmly (.subscribe :: (List.replicate 9 [.accept, .hand]).flatten)

/-- The ninth client has no room until the worker has taken the first. -/
theorem one_bridge_each_full :
    let a := reached 1 crowd
    let b := a.step 0 {} (.work 0 .take)
    a.post = .handing ⟨0⟩ 8 ∧ (a.workerAt 0).queue = [0, 1, 2, 3, 4, 5, 6, 7] ∧ a.step 0 {} .hand = a ∧
      b.post = .handing ⟨0⟩ 8 ∧ (b.workerAt 0).running = [0] ∧ (b.workerAt 0).hasRoom = true ∧
      ((b.step 0 {} .hand).workerAt 0).queue = [1, 2, 3, 4, 5, 6, 7, 8] := by
  intro a b
  have hpost : a.post = .handing ⟨0⟩ 8 := by decide
  have hqueue : (a.workerAt 0).queue = [0, 1, 2, 3, 4, 5, 6, 7] := by decide
  obtain ⟨-, -, -, -, -, hhand, -⟩ := one_bridge_each 1 crowd
  obtain ⟨hstays, hsame, hroom⟩ := (hhand ⟨0⟩ 8 0 {} hpost).2 (by decide)
  obtain ⟨-, -, -, -, -, hhand, -⟩ := one_bridge_each 1 (⟨0, {}, .work 0 .take⟩ :: crowd)
  obtain ⟨-, -, hqueues⟩ := (hhand ⟨0⟩ 8 0 {} (hsame.trans hpost)).1 hroom
  exact ⟨hpost, hqueue, hstays, hsame.trans hpost, by decide, hroom, (hqueues 0).trans (by decide)⟩

end Acceptor

end AffinityRelay
