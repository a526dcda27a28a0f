import AffinityRelay.Cluster.Channel
import AffinityRelay.Cluster.Follower
import AffinityRelay.Endpoint.Refresh
import AffinityRelay.Proofs.Relay.Dispatch
import AffinityRelay.Proofs.Shutdown.Loop

/-!
# Which loops heed the signal to stop

Four loops watch the signal: the one that accepts clients, the one that accepts the peers of a cluster, the one that
follows another node, and the one that looks addresses up.

* `heeds_follower`, `heeds_refresher`: these look at the signal before they wait, and end whenever it is raised;
* `heedsUnlessLate_acceptor`, `heedsUnlessLate_channel`: these look at it only after they woke up. If they begin when it is
  raised they are deaf until someone comes, and else they end;
* `signal_reaches_loops`: all four. `late_loops_deaf`: the two that fail.
-/

namespace AffinityRelay

/-! ## Accepting clients -/

namespace Acceptor

/-- The loop that accepts clients, with its workers and their bridges. A bridge ends when someone outside closes it. -/
def loop (n : Nat) : Loop Acceptor Action where
  start now w := (ofWorkers n).step now w .subscribe
  step now w a action := a.step now w action
  outside action := action = .accept ∨ action = .acceptFails ∨ ∃ i client, action = .work i (.finish client)
  parked a := ∃ watcher, a.post = .waiting watcher
  ended a := a.post = .finished
  not_parked a hended := by simp [hended]

/-- What the loop has of the signal, as long as it goes on. -/
def watcher? (a : Acceptor) : Option Watcher :=
  match a.post with
  | .waiting watcher | .handing watcher _ | .resting watcher _ => some watcher
  | .starting | .finished => none

variable {a : Acceptor} {w : Watch} {now : Time} {r : Watcher} {late : Bool} {n : Nat}

theorem watcher?_check {signal : Watch} {watcher : Watcher} (h : (a.check signal watcher).watcher? = some r) :
    r = watcher ∧ signal.value = false := by
  unfold check at h
  split at h
  · simp [watcher?, stop] at h
  · rename_i hv
    exact ⟨by simpa [watcher?] using h.symm, by simpa using hv⟩

theorem watcher?_give {client : Nat} (hp : a.post = .handing r client) {r' : Watcher}
    (h : (a.give w r client).watcher? = some r') : a.watcher? = some r' := by
  have hr : a.watcher? = some r := by simp [watcher?, hp]
  unfold give at h
  split at h
  · exact h
  · split at h
    · rw [(watcher?_check h).1, hr]
    · split at h
      · rw [(watcher?_check h).1, hr]
      · exact h

theorem post_work (now : Time) (i : Nat) (what : Worker.Action) (a : Acceptor) : (a.work now i what).post = a.post := by
  unfold work
  split <;> rfl

theorem watcher?_of_post {b : Acceptor} (h : b.post = a.post) : b.watcher? = a.watcher? := by
  rw [watcher?, watcher?, h]

/-- The loop looks at the signal on its own account only while it waits, and goes on only if the signal is not raised. -/
theorem watcher?_step {action : Action} (hb : a.post ≠ .starting) (h : (a.step now w action).watcher? = some r) :
    a.watcher? = some r ∨ w.value = false ∧ ∃ r₀, a.watcher? = some r₀ ∧ r = (r₀.poll w).2 := by
  unfold step at h
  split at h
  · rename_i hp
    exact absurd hp hb
  · rename_i watcher hp
    exact .inl (by simpa [watcher?, hp] using h)
  · rename_i watcher hp
    exact .inl (by simpa [watcher?, hp] using h)
  · rename_i watcher client hp
    exact .inl (watcher?_give hp h)
  · rename_i watcher deadline hp
    split at h
    · have hr := (watcher?_check h).1
      exact .inl (by simp [watcher?, hp, hr])
    · exact .inl h
  · rename_i watcher hp
    have hw : a.watcher? = some watcher := by simp [watcher?, hp]
    split at h
    · rename_i found hpoll
      obtain ⟨hr, hv⟩ := watcher?_check h
      exact .inr ⟨hv, watcher, hw, by rw [hpoll, hr]⟩
    · simp [watcher?, stop] at h
    · exact .inl h
  · rename_i i what
    rw [watcher?_of_post (post_work now i what a)] at h
    exact .inl h
  · exact .inl h
  · exact .inl h

theorem post_step_ne_starting (action : Action) (h : a.post ≠ .starting) :
    (a.step now w action).post ≠ .starting := by
  have hcheck (b : Acceptor) (signal : Watch) (watcher : Watcher) : (b.check signal watcher).post ≠ .starting := by
    unfold check
    split <;> simp [stop]
  unfold step
  split
  · simp
  · simp
  · simp
  · unfold give
    split
    · exact h
    · split
      · exact hcheck _ _ _
      · split
        · exact hcheck _ _ _
        · exact h
  · split
    · exact hcheck _ _ _
    · exact h
  · split
    · exact hcheck _ _ _
    · simp [stop]
    · exact h
  · rw [post_work]
    exact h
  · exact h
  · exact h

/-- What is so of the loop and the signal between two moments. -/
structure Watching (n : Nat) (w : Watch) (late : Bool) (a : Acceptor) : Prop where
  kept : ∃ logs, Kept (max n 1) logs a
  begun : a.post ≠ .starting
  keen : ∀ r, a.watcher? = some r → Keen w late r

theorem watching_start (n : Nat) (now : Time) (w : Watch) : Watching n w w.value ((loop n).start now w) where
  kept := ⟨_, (kept_ofWorkers n).step now w .subscribe⟩
  begun := by simp [loop, step, ofWorkers]
  keen r h := by
    obtain rfl : w.subscribe = r := by simpa [loop, step, ofWorkers, watcher?] using h
    exact .subscribe w

theorem Watching.step (h : Watching n w late a) (now : Time) (action : Action) :
    Watching n w late (a.step now w action) where
  kept := h.kept.elim fun _ hk => ⟨_, hk.step now w action⟩
  begun := post_step_ne_starting action h.begun
  keen r hr := by
    obtain hr | ⟨hv, r₀, hr₀, rfl⟩ := watcher?_step h.begun hr
    · exact h.keen r hr
    · exact (h.keen r₀ hr₀).poll hv

/-- While a client waits for room, its worker can make some, and then the client is handed over. -/
theorem ends_handing {client : Nat} (h : Watching n w late a) (hp : a.post = .handing r client)
    (hv : w.value = true) : (loop n).Ends w a := by
  obtain ⟨logs, hk⟩ := h.kept
  have hn : 0 < max n 1 := Nat.lt_of_lt_of_le Nat.zero_lt_one (Nat.le_max_right n 1)
  cases hroom : (a.workerAt (a.workerOf client)).hasRoom with
  | true =>
    refine .of_actions id [.hand] (fun _ => Nat.le_refl _) (by simp [loop]) fun now => ?_
    exact (hk.hand_of_room hn hp now w hroom).1.trans (if_pos hv)
  | false =>
    refine .of_actions id [.work (a.workerOf client) .take, .hand] (fun _ => Nat.le_refl _) (by simp [loop])
      fun now => ?_
    obtain ⟨-, hpost, hroom'⟩ := hk.hand_of_full hn hp now w hroom
    have hk' := hk.step now w (.work (a.workerOf client) .take)
    have hof : (a.step now w (.work (a.workerOf client) .take)).workerOf client = a.workerOf client :=
      congrArg (client % Machine.words % ·) (hk'.sound.length_eq.trans hk.sound.length_eq.symm)
    exact (hk'.hand_of_room hn (hpost.trans hp) now w (by rw [hof]; exact hroom')).1.trans (if_pos hv)

/-- Once the signal is raised the loop ends, unless it waits and has seen the signal already. -/
theorem ends_of_watching (h : Watching n w late a) (hv : w.value = true)
    (hno : ¬ (late = true ∧ ∃ watcher, a.post = .waiting watcher)) : (loop n).Ends w a := by
  cases hp : a.post with
  | starting => exact absurd hp h.begun
  | waiting watcher =>
    have hl : ¬ late = true := fun hl => hno ⟨hl, watcher, hp⟩
    have hpoll := (h.keen watcher (by simp [watcher?, hp])).poll_of_not_late hl hv
    refine .of_actions id [.heed] (fun _ => Nat.le_refl _) (by simp [loop]) fun now => ?_
    show (a.step now w .heed).post = .finished
    simp only [Acceptor.step, hp, hpoll]
    exact (post_check w _ _).1.trans (if_pos hv)
  | handing watcher client => exact ends_handing h hp hv
  | resting watcher deadline =>
    refine .of_actions deadline.past [.resume] deadline.le_past (by simp [loop]) fun now => ?_
    show (a.step (deadline.past now) w .resume).post = .finished
    simp only [Acceptor.step, hp, deadline.le_tick_past now, if_true]
    exact (post_check w _ _).1.trans (if_pos hv)
  | finished => exact .of_ended hp

/-- A loop that waits and has seen the signal already is woken by nothing but a client. -/
theorem deaf_of_watching (h : Watching n w true a) (hc : w.closed = false)
    (hp : ∃ watcher, a.post = .waiting watcher) : (loop n).Deaf w a := by
  obtain ⟨watcher, hp⟩ := hp
  have hpoll := (h.keen watcher (by simp [watcher?, hp])).poll_of_late hc
  refine Loop.Deaf.of_kept (L := loop n) (Q := fun b => b.post = .waiting watcher) (fun b hb => ⟨watcher, hb⟩)
    (fun now b action hb hown => ?_) hp
  simp only [loop, not_or] at hown
  show (b.step now w action).post = .waiting watcher
  cases action with
  | accept => exact absurd rfl hown.1
  | acceptFails => exact absurd rfl hown.2.1
  | work i what => simpa only [Acceptor.step, post_work] using hb
  | heed => simp only [Acceptor.step, hb, hpoll]
  | subscribe | hand | resume | notify => simp only [Acceptor.step, hb]

theorem heedsUnlessLate_acceptor (n : Nat) : (loop n).HeedsUnlessLate := by
  have hstep (now w l s a) (_ : w.closed = false) (h : Watching n w l s) : Watching n w l ((loop n).step now w s a) :=
    h.step now a
  refine Loop.heedsUnlessLate_of_keeps ?_ hstep (fun w l s hv h => ends_of_watching h hv)
    fun w s hc _ h hp => deaf_of_watching h hc hp
  refine (loop n).reached_keeps (fun now w _ => watching_start n now w) (fun w l s hc h => ?_) hstep
  exact ⟨h.kept, h.begun, fun r hr => (h.keen r hr).raise hc⟩

end Acceptor

/-! ## Accepting peers -/

namespace Channel

/-- What can happen to the accepting of peers. -/
inductive Action where
  | accept
  | acceptFails
  | resume
  | heed

def step (now : Time) (signal : Watch) (c : Channel) : Action → Channel
  | .accept => c.accept signal
  | .acceptFails => c.acceptFails now
  | .resume => c.resume now signal
  | .heed => c.heed signal

/-- The loop that accepts the peers of a cluster. -/
def loop (cluster : UInt64) (address : Address) : Loop Channel Action where
  start _ w := { cluster, address, watcher := w.subscribe }
  step := step
  outside action := action = .accept ∨ action = .acceptFails
  parked c := c.post = .waiting
  ended c := c.post = .finished
  not_parked c hended := by simp [hended]

variable {c : Channel} {w : Watch} {now : Time} {late : Bool} {cluster : UInt64} {address : Address}

/-- As long as it goes on the loop has seen the signal only if it came late. -/
def Watching (w : Watch) (late : Bool) (c : Channel) : Prop :=
  c.post ≠ .finished → Keen w late c.watcher

theorem watching_check (h : w.value = false → Keen w late c.watcher) : Watching w late (c.check w) := by
  intro hp
  refine h (Bool.eq_false_iff.2 fun hv => hp ?_)
  simp [check, hv]

theorem Watching.step (h : Watching w late c) (now : Time) (action : Action) : Watching w late (c.step now w action) := by
  cases hp : c.post with
  | waiting =>
    have hk : Keen w late c.watcher := h (by simp [hp])
    cases action with
    | accept =>
      simp only [Channel.step, accept, hp]
      exact watching_check fun _ => hk
    | acceptFails =>
      simp only [Channel.step, acceptFails, hp]
      exact fun _ => hk
    | resume => simpa only [Channel.step, resume, hp] using h
    | heed =>
      simp only [Channel.step, heed, hp]
      split
      · exact h
      · rename_i watcher hpoll
        refine watching_check fun hv => ?_
        simpa only [hpoll] using hk.poll hv
      · exact fun hno => absurd rfl hno
  | resting deadline =>
    have hk : Keen w late c.watcher := h (by simp [hp])
    cases action with
    | accept => simpa only [Channel.step, accept, hp] using h
    | acceptFails => simpa only [Channel.step, acceptFails, hp] using h
    | resume =>
      simp only [Channel.step, resume, hp]
      split
      · exact watching_check fun _ => hk
      · exact h
    | heed => simpa only [Channel.step, heed, hp] using h
  | finished => cases action <;> simpa only [Channel.step, accept, acceptFails, resume, heed, hp] using h

theorem post_check (hv : w.value = true) : (c.check w).post = .finished := by
  simp [check, hv]

theorem ends_of_watching (h : Watching w late c) (hv : w.value = true) (hno : ¬ (late = true ∧ c.post = .waiting)) :
    (loop cluster address).Ends w c := by
  cases hp : c.post with
  | waiting =>
    have hpoll := (h (by simp [hp])).poll_of_not_late (fun hl => hno ⟨hl, hp⟩) hv
    refine .of_actions id [.heed] (fun _ => Nat.le_refl _) (by simp [loop]) fun now => ?_
    show (c.heed w).post = .finished
    simp only [heed, hp, hpoll]
    exact post_check hv
  | resting deadline =>
    refine .of_actions deadline.past [.resume] deadline.le_past (by simp [loop]) fun now => ?_
    show (c.resume (deadline.past now) w).post = .finished
    simp only [resume, hp, deadline.le_tick_past now, if_true]
    exact post_check hv
  | finished => exact .of_ended hp

theorem deaf_of_watching (h : Watching w true c) (hc : w.closed = false) (hp : c.post = .waiting) :
    (loop cluster address).Deaf w c := by
  have hpoll := (h (by simp [hp])).poll_of_late hc
  refine .of_kept (Q := (· = c)) (by rintro _ rfl; exact hp) (fun now d action hd hown => ?_) rfl
  obtain rfl : d = c := hd
  simp only [loop, not_or] at hown
  show d.step now w action = d
  cases action with
  | accept => exact absurd rfl hown.1
  | acceptFails => exact absurd rfl hown.2
  | resume => simp only [Channel.step, resume, hp]
  | heed => simp only [Channel.step, heed, hp, hpoll]

theorem heedsUnlessLate_channel (cluster : UInt64) (address : Address) : (loop cluster address).HeedsUnlessLate := by
  have hstep (now w l s a) (_ : w.closed = false) (h : Watching w l s) :
      Watching w l ((loop cluster address).step now w s a) := h.step now a
  refine Loop.heedsUnlessLate_of_keeps ?_ hstep (fun w l s hv h => ends_of_watching h hv)
    fun w s hc _ h hp => deaf_of_watching h hc hp
  exact (loop cluster address).reached_keeps (fun now w _ _ => .subscribe w)
    (fun w l s hc h hp => (h hp).raise hc) hstep

end Channel

/-! ## Following another node -/

namespace Follower

/-- What can happen to a follower. -/
inductive Action where
  | dial (failure : Option ConnectError)
  | receive (bytes : List UInt8) (registry : Registry)
  | lose
  | heed
  | resume

def step (now : Time) (signal : Watch) (f : Follower) : Action → Follower
  | .dial failure => f.dial now signal failure
  | .receive bytes registry => (f.receive now bytes registry).1
  | .lose => f.lose now
  | .heed => f.heed signal
  | .resume => f.resume now

/-- The loop that follows another node. An attempt to connect comes to its end by a timer, if by nothing else. -/
def loop (cluster : UInt64) (target : String) : Loop Follower Action where
  start _ w := { cluster, target, watcher := w.subscribe }
  step := step
  outside action := action = .lose ∨ ∃ bytes registry, action = .receive bytes registry
  parked f := f.post ≠ .dialing ∧ f.post ≠ .finished
  ended f := f.post = .finished
  not_parked f hended := by simp [hended]

variable {f : Follower} {w : Watch} {now : Time} {cluster : UInt64} {target : String}

/-- A follower that is connected has not seen that the signal is raised: it looked before it connected. -/
structure Watching (w : Watch) (f : Follower) : Prop where
  seen_le : f.watcher.seen ≤ w.version
  unseen : f.connected = true → w.value = true → f.watcher.seen ≠ w.version

theorem Watching.raise (h : Watching w f) (hc : w.closed = false) : Watching w.raise f := by
  obtain hsame | ⟨-, hraise⟩ := Watch.raise_cases hc
  · rwa [hsame]
  · rw [hraise]
    exact ⟨Nat.le_succ_of_le h.seen_le, fun _ _ => Nat.ne_of_lt (Nat.lt_succ_of_le h.seen_le)⟩

/-- A follower that is not connected has nothing to keep but what it has seen. -/
theorem Watching.of_apart (hle : f.watcher.seen ≤ w.version) (hp : f.connected = false) : Watching w f :=
  ⟨hle, fun hno => absurd hno (by simp [hp])⟩

theorem Watching.of_calm (hle : f.watcher.seen ≤ w.version) (hv : w.value = false) : Watching w f :=
  ⟨hle, fun _ hno => absurd hno (by simp [hv])⟩

theorem Watching.receive (h : Watching w f) (now : Time) (bytes : List UInt8) (registry : Registry) :
    Watching w (f.receive now bytes registry).1 := by
  unfold Follower.receive
  split
  · rename_i held hp
    exact ⟨h.seen_le, fun _ => h.unseen (by simp [connected, hp])⟩
  · exact h

theorem Watching.dial (h : Watching w f) (now : Time) (failure : Option ConnectError) :
    Watching w (f.dial now w failure) := by
  unfold Follower.dial
  split
  · split
    · exact .of_apart h.seen_le rfl
    · rename_i hv
      have hv : w.value = false := by simpa using hv
      split <;> exact .of_calm h.seen_le hv
  · exact h

theorem Watching.heed (h : Watching w f) : Watching w (f.heed w) := by
  have hseen : (f.watcher.poll w).2.seen ≤ w.version := Nat.le_of_eq (Watcher.seen_poll w f.watcher)
  unfold Follower.heed
  split
  · rename_i watcher hp hpoll
    rw [hpoll] at hseen
    split
    · exact .of_apart h.seen_le rfl
    · rename_i hv
      exact .of_calm hseen (by simpa using hv)
  · exact .of_apart h.seen_le rfl
  · rename_i watcher hp hpoll
    rw [hpoll] at hseen
    exact .of_apart hseen rfl
  · exact .of_apart h.seen_le rfl
  · exact h

theorem Watching.step (h : Watching w f) (now : Time) : ∀ action, Watching w (f.step now w action)
  | .dial failure => h.dial now failure
  | .receive bytes registry => h.receive now bytes registry
  | .lose => by
    simp only [Follower.step, lose]
    split
    · exact .of_apart h.seen_le rfl
    · exact h
  | .heed => h.heed
  | .resume => by
    simp only [Follower.step, resume]
    split
    · split
      · exact .of_apart h.seen_le rfl
      · exact h
    · exact h

theorem post_dial (now : Time) (hp : f.post = .dialing) (hv : w.value = true) : (f.dial now w none).post = .finished := by
  simp [dial, hp, hv]

/-- Once the signal is raised a follower stops: it is woken if it is connected, and it looks before it connects. -/
theorem ends_of_watching (h : Watching w f) (hv : w.value = true) : (loop cluster target).Ends w f := by
  cases hp : f.post with
  | dialing =>
    exact .of_actions id [.dial none] (fun _ => Nat.le_refl _) (by simp [loop]) fun now => post_dial now hp hv
  | following held =>
    have hpoll : f.watcher.poll w = (.changed, ⟨w.version⟩) := by
      simp [Watcher.poll, h.unseen (by simp [connected, hp]) hv]
    refine .of_actions id [.heed] (fun _ => Nat.le_refl _) (by simp [loop]) fun now => ?_
    show (f.heed w).post = .finished
    simp [heed, hp, hpoll, hv]
  | pausing deadline =>
    refine .of_actions deadline.past [.resume, .dial none] deadline.le_past (by simp [loop]) fun now => ?_
    show ((f.resume (deadline.past now)).dial (deadline.past now) w none).post = .finished
    exact post_dial _ (by simp [resume, hp, deadline.le_tick_past now]) hv
  | finished => exact .of_ended hp

theorem heeds_follower (cluster : UInt64) (target : String) : (loop cluster target).Heeds := by
  intro h f hf hv
  have hwatching := (loop cluster target).reached_keeps (P := fun w _ f => Watching w f)
    (fun now w _ => .of_apart (Nat.le_refl _) rfl) (fun w l s hc hs => hs.raise hc)
    (fun now w l s a _ hs => hs.step now a) h f hf
  have hend : (loop cluster target).Ends (Loop.signal h) f := ends_of_watching hwatching hv
  exact ⟨hend, hend.not_deaf⟩

end Follower

/-! ## Looking addresses up -/

namespace Refresher

/-- The task that looks addresses up wakes up, if there is something to wake up for. -/
def wake (now : Time) (w : Watch) (r : Refresher) : Option Refresher :=
  match r.reason now w with
  | none => some r
  | some why => r.heed now w why

/-- The loop that looks addresses up. What its passes come to has no part in when it wakes up. -/
def loop (interval : Time) : Loop (Option Refresher) Unit where
  start now w := begin? interval now w
  step now w r _ := r.bind (wake now w)
  outside _ := False
  parked r := r.isSome
  ended r := r = none
  not_parked r hended := by simp [hended]

/-- When a pass is due there is something to wake up for. -/
theorem isSome_reason {r : Refresher} {now : Time} (w : Watch) (h : r.due ≤ now.tick) : (r.reason now w).isSome := by
  unfold reason
  split
  · rfl
  · rfl
  · rw [if_pos h]
    rfl

theorem wake_of_raised {r : Refresher} {now : Time} {w : Watch} (h : r.due ≤ now.tick) (hv : w.value = true) :
    r.wake now w = none := by
  obtain ⟨why, hwhy⟩ := Option.isSome_iff_exists.1 (isSome_reason w h)
  simp [wake, hwhy, heed, hv]

theorem heeds_refresher (interval : Time) : (loop interval).Heeds := by
  intro h r _ hv
  have hend : (loop interval).Ends (Loop.signal h) r := by
    cases r with
    | none => exact .of_ended rfl
    | some r =>
      exact .of_actions r.due.past [()] r.due.le_past (by simp [loop]) fun now =>
        wake_of_raised (r.due.le_tick_past now) hv
  exact ⟨hend, hend.not_deaf⟩

end Refresher

/-! ## All four -/

/-- Followers and the task that looks addresses up end once the signal is raised, however late they began. What accepts
clients or peers ends too, unless it began to watch after the signal was raised and waits: nothing but a client or a
peer wakes it then, and after that it ends. -/
theorem signal_reaches_loops (n : Nat) (cluster : UInt64) (address : Address) (target : String) (interval : Time) :
    (Acceptor.loop n).HeedsUnlessLate ∧ (Channel.loop cluster address).HeedsUnlessLate ∧
      (Follower.loop cluster target).Heeds ∧ (Refresher.loop interval).Heeds :=
  ⟨Acceptor.heedsUnlessLate_acceptor n, Channel.heedsUnlessLate_channel cluster address,
    Follower.heeds_follower cluster target, Refresher.heeds_refresher interval⟩

/-- A loop begins just after the signal was raised. -/
def lateStart (α : Type) : Loop.History α :=
  [.start 0, .raise]

/-- What accepts clients and what accepts peers are deaf to a signal that was raised just before they began: they go on
waiting until someone comes. -/
theorem late_loops_deaf :
    (∃ a, (Acceptor.loop 1).reached (lateStart _) = some a ∧ a.listening = true ∧
      (Loop.signal (lateStart Acceptor.Action)).value = true ∧
      (Acceptor.loop 1).Deaf (Loop.signal (lateStart Acceptor.Action)) a) ∧
    ∃ c, (Channel.loop 1 ⟨.ofOctets 127 0 0 1, 4000, 0⟩).reached (lateStart _) = some c ∧ c.listening = true ∧
      (Loop.signal (lateStart Channel.Action)).value = true ∧
      (Channel.loop 1 ⟨.ofOctets 127 0 0 1, 4000, 0⟩).Deaf (Loop.signal (lateStart Channel.Action)) c := by
  refine ⟨⟨_, rfl, by decide, rfl, ?_⟩, _, rfl, by decide, rfl, ?_⟩
  · exact ((Acceptor.heedsUnlessLate_acceptor 1 (lateStart _) _ rfl rfl).2 rfl ⟨_, rfl⟩).1
  · exact ((Channel.heedsUnlessLate_channel 1 _ (lateStart _) _ rfl rfl).2 rfl rfl).1

end AffinityRelay
