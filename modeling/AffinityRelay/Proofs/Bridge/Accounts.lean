import AffinityRelay.Proofs.Bridge.Ends

/-!
# The buffers of all bridges of a pool

Bridges are made and taken down over one pool, and whatever each of them has to do with the pool is a step of its own,
so that the steps of all bridges may follow each other in any order. A bridge is at a `Stage`: its first buffer is
there, it stands, its buffers go back one by one, or it is gone (`Stage.move`). A `Site` has the stages of all bridges
that were ever begun.

* `Pool.Counts`: the pool counts just the buffers that are held, and not more than its limit. One buffer taken or
  given back keeps this (`Pool.Counts.checkout`, `Pool.Counts.release`), a step of any bridge does
  (`Stage.Sound.move`), and so do all steps (`Site.Balanced.run`);
* what happens at once in `Bridge.create` and `Bridge.close` is some of these steps (`Site.runs_create`,
  `Stage.leads_close`), and so is all that a session has to do with the pool, however it ends (`Site.runs_welcome`,
  `Site.runs_advance`);
* `Site.buffers_accounted`: what that comes to, together with how sessions end (`Forward.outcome_welcome`,
  `Forward.advance_served`).
-/

namespace AffinityRelay

/-! ## The count of a pool -/

namespace Pool

/-- A pool of a given limit, up to which it can count, counts so many buffers that are in use, and not more than that.
-/
structure Counts (p : Pool) (limit n : Nat) : Prop where
  inUse : p.inUse.toNat = n
  limit_eq : p.limit = limit
  le : n ≤ limit
  fits : limit < UInt64.size

variable {p p' : Pool} {limit n : Nat} {buffer : Buffer}

theorem Counts.checkout (h : p.Counts limit n) (hb : p.checkout = (.ok buffer, p')) : p'.Counts limit (n + 1) := by
  obtain ⟨hn, rfl, -, hf⟩ := h
  unfold Pool.checkout at hb
  split at hb
  · rename_i hlt
    have hadd : (p.inUse + 1).toNat = n + 1 := by rw [toNat_inUse_succ hlt hf, hn]
    split at hb <;> cases hb <;> exact ⟨hadd, rfl, by rw [← hn]; exact hlt, hf⟩
  · cases hb

theorem size_checkout (p : Pool) : p.checkout.2.size = p.size := by
  unfold Pool.checkout
  split
  · split <;> rfl
  · rfl

theorem checkout_eq_error {e : PoolError} (hb : p.checkout = (.error e, p')) : p' = p := by
  unfold Pool.checkout at hb
  split at hb
  · split at hb <;> cases hb
  · cases hb
    rfl

theorem Counts.release (h : p.Counts limit (n + 1)) (buffer : Buffer) : (p.release buffer).Counts limit n := by
  have hn := h.inUse
  refine ⟨?_, h.limit_eq, Nat.le_of_succ_le h.le, h.fits⟩
  show (p.inUse - 1).toNat = n
  rw [toNat_inUse_pred (by omega), hn, Nat.add_sub_cancel]

end Pool

/-! ## What is done with a bridge -/

namespace Bridge

/-- What can be done with a bridge that stands, other than to close it. -/
inductive Operation where
  | attach (client : Address)
  | joined (header : Option (List UInt8))
  | call (c : Call) (keeps : c.closes = false)
  | wake (w : Wake)

def Operation.perform : Operation → Bridge → Bridge
  | attach client, b => b.attach client
  | joined header, b => (b.joined header).2
  | call c _, b => c.perform b
  | wake w, b => b.wake w

variable {b : Bridge}

theorem Provided.attach (h : b.Provided) (client : Address) : (b.attach client).Provided :=
  h.congr (fun side => by cases side <;> rfl) (fun side => by cases side <;> rfl)

theorem Provided.perform (h : b.Provided) (o : Operation) : (o.perform b).Provided := by
  cases o with
  | attach client => exact h.attach client
  | joined header => exact h.joined header
  | wake w => exact h.wake w
  | call c keeps =>
    obtain ⟨lanes, h⟩ := h
    cases c with
    | begin remote => exact ⟨_, h.begin remote⟩
    | connected header => exact ⟨_, h.connected header⟩
    | received side n => exact ⟨_, h.received side n⟩
    | sent pool side n => exact ⟨_, h.sent pool side n⟩
    | close pool => cases keeps

theorem Bare.held (h : b.Bare) : b.held = [] := by
  simp only [Bridge.held, Half.buffers,
    show b.client = b.half .client from rfl, show b.backend = b.half .backend from rfl,
    (h .client).1, (h .client).2, (h .backend).1, (h .backend).2]
  rfl

theorem Bare.congr {b' : Bridge} (h : b.Bare) (hi : ∀ side, (b'.half side).inbound = (b.half side).inbound)
    (ho : ∀ side, (b'.half side).outbound = (b.half side).outbound) : b'.Bare :=
  fun side => ⟨(hi side).trans (h side).1, (ho side).trans (h side).2⟩

/-- There is nothing to read into or to send from. -/
theorem Bare.operate (h : b.Bare) (o : Operation) : (o.perform b).Bare := by
  cases o with
  | attach client => exact h.congr (fun side => by cases side <;> rfl) (fun side => by cases side <;> rfl)
  | joined header =>
    have ho : (b.change .backend fun h => { h with isOpen := true }).Bare :=
      h.congr (fun side => by cases side <;> rfl) (fun side => by cases side <;> rfl)
    exact ho.perform (.connected header)
  | call c keeps => exact h.perform c
  | wake w =>
    cases w with
    | readable side bytes => simpa [Operation.perform, Bridge.wake, receive, canRead, (h side).1] using h
    | writable side n pool => simpa [Operation.perform, Bridge.wake, send, (h side).2] using h

end Bridge

/-! ## One bridge -/

/-- How far a bridge has come. -/
inductive Stage where
  /-- Its first buffer is there. -/
  | begun (number : Nat) (first : Buffer)
  | standing (b : Bridge)
  /-- Some buffers are still to go back. After that there is the closed bridge, or nothing. -/
  | closing (after : Option Bridge) (rest : List Buffer)
  | gone

namespace Stage

/-- What may happen to a bridge next: each has to do with the pool once at most. -/
inductive Step where
  /-- The second buffer is taken. -/
  | complete
  | operate (o : Bridge.Operation)
  /-- The bridge is closed and stays. -/
  | close
  | drop
  /-- The next buffer goes back. -/
  | giveBack

/-- The buffers that are held at a stage. -/
def buffers : Stage → List Buffer
  | begun _ first => [first]
  | standing b => b.held
  | closing after rest => rest ++ after.elim [] Bridge.held
  | gone => []

/-- The stage at which some buffers are still to go back. -/
def giving (after : Option Bridge) : List Buffer → Stage
  | [] => after.elim gone standing
  | x :: rest => closing after (x :: rest)

/-- The next step of a bridge, if it is possible. -/
def move : Step → Stage × Pool → Stage × Pool
  | .complete, (begun number first, pool) =>
    match pool.checkout with
    | (.ok second, pool) => (standing (Bridge.ofBuffers number first second), pool)
    | (.error _, pool) => (closing none [first], pool)
  | .operate o, (standing b, pool) => (standing (o.perform b), pool)
  | .close, (standing b, pool) => (giving (some (b.close pool).1) b.held, pool)
  | .drop, (standing b, pool) => (giving none b.held, pool)
  | .giveBack, (closing after (x :: rest), pool) => (giving after rest, pool.release x)
  | _, s => s

/-- A step has to do with the pool in no other way than to take a buffer or to give one back. -/
theorem reachable_move {x : Stage × Pool} (h : x.2.Reachable) (s : Step) :
    (move s x).2.Reachable ∧ (move s x).2.size = x.2.size := by
  unfold move
  split
  · rename_i number first pool
    have hc : pool.checkout.2.Reachable ∧ pool.checkout.2.size = pool.size := ⟨h.checkout, pool.size_checkout⟩
    split <;> rename_i heq <;> rwa [heq] at hc
  · exact ⟨h, rfl⟩
  · exact ⟨h, rfl⟩
  · exact ⟨h, rfl⟩
  · exact ⟨h.release _, rfl⟩
  · exact ⟨h, rfl⟩

/-- A bridge that stands has both buffers or none, and one that stays after it was closed has none. -/
def Sound : Stage → Prop
  | standing b => b.Provided ∨ b.Bare
  | closing (some b) _ => b.Bare
  | begun _ _ | closing none _ | gone => True

variable {after : Option Bridge} {rest : List Buffer} {pool : Pool}

theorem buffers_giving : (giving after rest).buffers = rest ++ after.elim [] Bridge.held := by
  cases rest with
  | nil => cases after <;> rfl
  | cons x rest => rfl

theorem sound_giving (h : ∀ b ∈ after, b.Bare) : (giving after rest).Sound := by
  cases after with
  | none => cases rest <;> trivial
  | some b =>
    cases rest with
    | nil => exact .inr (h b rfl)
    | cons x rest => exact h b rfl

theorem sound_standing {b : Bridge} (h : (standing b).Sound) (o : Bridge.Operation) :
    (standing (o.perform b)).Sound ∧ (o.perform b).held.length = b.held.length := by
  obtain h | h := h
  · exact ⟨.inl (h.perform o), (h.perform o).length_held.trans h.length_held.symm⟩
  · exact ⟨.inr (h.operate o), by rw [(h.operate o).held, h.held]⟩

/-- Whatever a bridge does next, the pool goes on counting its buffers and those of all others. -/
theorem Sound.move {st : Stage} (h : st.Sound) {limit n : Nat} (hp : pool.Counts limit (st.buffers.length + n))
    (s : Step) :
    (move s (st, pool)).1.Sound ∧ (move s (st, pool)).2.Counts limit ((move s (st, pool)).1.buffers.length + n) := by
  cases st with
  | begun number first =>
    cases s with
    | complete =>
      cases hc : pool.checkout with
      | mk r pool' =>
        cases r with
        | ok second =>
          have hcount := hp.checkout hc
          simp only [Stage.move, hc]
          refine ⟨.inl (Bridge.provided_ofBuffers number first second), ?_⟩
          rw [buffers, (Bridge.provided_ofBuffers number first second).length_held]
          rwa [buffers, List.length_singleton, Nat.add_right_comm] at hcount
        | error e =>
          obtain rfl := Pool.checkout_eq_error hc
          simp only [Stage.move, hc]
          exact ⟨trivial, hp⟩
    | operate | close | drop | giveBack => exact ⟨h, hp⟩
  | standing b =>
    cases s with
    | operate o =>
      obtain ⟨hs, hl⟩ := sound_standing h o
      exact ⟨hs, by simpa only [Stage.move, buffers, hl] using hp⟩
    | close =>
      refine ⟨sound_giving fun c hc => Option.some.inj hc ▸ Bridge.bare_close pool b, ?_⟩
      show pool.Counts limit ((giving (some (b.close pool).1) b.held).buffers.length + n)
      rwa [buffers_giving, Option.elim, (Bridge.bare_close pool b).held, List.append_nil]
    | drop =>
      refine ⟨sound_giving fun c hc => (Option.not_mem_none c hc).elim, ?_⟩
      show pool.Counts limit ((giving none b.held).buffers.length + n)
      rwa [buffers_giving, Option.elim, List.append_nil]
    | complete | giveBack => exact ⟨h, hp⟩
  | closing after rest =>
    cases s with
    | giveBack =>
      cases rest with
      | nil => exact ⟨h, hp⟩
      | cons x rest =>
        have hbare : ∀ b ∈ after, b.Bare := by
          rintro b rfl
          exact h
        have hlen : (closing after (x :: rest)).buffers.length + n = ((giving after rest).buffers.length + n) + 1 := by
          rw [buffers_giving, buffers, List.cons_append, List.length_cons, Nat.add_right_comm]
        rw [hlen] at hp
        exact ⟨sound_giving hbare, hp.release x⟩
    | complete | operate | close | drop => exact ⟨h, hp⟩
  | gone => cases s <;> exact ⟨h, hp⟩

/-- Some steps lead from one stage, with the pool as it is then, to another. -/
def Leads (s s' : Stage × Pool) : Prop :=
  ∃ steps : List Step, s' = steps.foldl (fun s step => move step s) s

theorem Leads.refl (s : Stage × Pool) : Leads s s := ⟨[], rfl⟩

theorem Leads.trans {s s' s'' : Stage × Pool} (h : Leads s s') (h' : Leads s' s'') : Leads s s'' := by
  obtain ⟨steps, rfl⟩ := h
  obtain ⟨steps', rfl⟩ := h'
  exact ⟨steps ++ steps', List.foldl_append.symm⟩

theorem leads_move (step : Step) (s : Stage × Pool) : Leads s (move step s) := ⟨[step], rfl⟩

/-- All buffers go back, one after another. -/
theorem leads_giving (after : Option Bridge) : ∀ (rest : List Buffer) (pool : Pool),
    Leads (giving after rest, pool) (after.elim gone standing, rest.foldl (fun p buffer => p.release buffer) pool)
  | [], _ => .refl _
  | x :: rest, pool => (leads_move .giveBack _).trans (leads_giving after rest (pool.release x))

theorem leads_close (b : Bridge) (pool : Pool) :
    Leads (standing b, pool) (standing (b.close pool).1, (b.close pool).2) :=
  (leads_move .close _).trans (leads_giving _ _ _)

/-- A bridge is closed and is gone then. To be gone gives nothing back after it was closed. -/
theorem leads_dismiss (b : Bridge) (pool : Pool) : Leads (standing b, pool) (gone, (b.close pool).2) :=
  (leads_close b pool).trans (leads_move .drop _)

theorem leads_operate (o : Bridge.Operation) (b : Bridge) (pool : Pool) :
    Leads (standing b, pool) (standing (o.perform b), pool) :=
  leads_move (.operate o) _

theorem leads_wakes {b b' : Bridge} (h : b.Leads b') (pool : Pool) : Leads (standing b, pool) (standing b', pool) := by
  obtain ⟨wakes, rfl⟩ := h
  induction wakes generalizing b with
  | nil => exact .refl _
  | cons w wakes ih => exact (leads_operate (.wake w) b pool).trans ih

/-- What is there of a bridge that was to be made. -/
def ofResult {ε : Type} : Except ε Bridge → Stage
  | .ok b => standing b
  | .error _ => gone

theorem leads_complete (number : Nat) (first : Buffer) (pool : Pool) : Leads (begun number first, pool)
    (ofResult (Bridge.complete number first pool).1, (Bridge.complete number first pool).2) := by
  have hmove := leads_move .complete (begun number first, pool)
  simp only [move] at hmove
  unfold Bridge.complete
  cases hc : pool.checkout with
  | mk r pool' =>
    rw [hc] at hmove
    cases r with
    | ok second => exact hmove
    | error e => exact hmove.trans (leads_move .giveBack _)

/-- A bridge is given a backend, or is gone if none was reached. -/
theorem leads_join (dialed : Dialed ConnectError) (client : Address) (here : Option Address) (b : Bridge)
    (f : Forward) : Leads (standing b, f.pool)
      (ofResult ((f.join dialed client here b).1.outcome.map Session.bridge), (f.join dialed client here b).2.pool) := by
  have hbegin (remote : Address) (b : Bridge) : Leads (standing b, f.pool) (standing (b.begin remote), f.pool) :=
    leads_operate (.call (.begin remote) rfl) b f.pool
  cases dialed with
  | noBackend => exact leads_dismiss b f.pool
  | exhausted last why => exact (hbegin last b).trans (leads_dismiss _ _)
  | connected backend =>
    have hjoined := (hbegin backend b).trans (leads_operate (.joined (f.header client here)) _ f.pool)
    simp only [Bridge.Operation.perform] at hjoined
    simp only [Forward.join]
    split
    · rename_i e b' hj
      rw [hj] at hjoined
      exact hjoined.trans (leads_dismiss _ _)
    · rename_i b' hj
      rw [hj] at hjoined
      exact hjoined

end Stage

/-! ## All bridges of a pool -/

/-- All bridges that were begun over a pool, each as far as it has come. -/
structure Site where
  pool : Pool
  stages : List Stage := []

namespace Site

/-- A bridge is begun, or the next step of one is made. -/
inductive Act where
  | launch (number : Nat)
  | turn (i : Nat) (s : Stage.Step)

/-- The site after an act. For a new bridge the first buffer is taken. -/
def act (y : Site) : Act → Site
  | .launch number =>
    match y.pool.checkout with
    | (.ok first, pool) => { pool, stages := y.stages ++ [.begun number first] }
    | (.error _, pool) => { pool, stages := y.stages ++ [.gone] }
  | .turn i s =>
    match y.stages[i]? with
    | some st => { pool := (Stage.move s (st, y.pool)).2, stages := y.stages.set i (Stage.move s (st, y.pool)).1 }
    | none => y

def run (acts : List Act) (y : Site) : Site :=
  acts.foldl act y

/-- The buffers that the bridges hold. -/
def buffers (y : Site) : List Buffer :=
  y.stages.flatMap Stage.buffers

/-- All bridges are sound, and the pool counts just their buffers. -/
structure Balanced (limit : Nat) (y : Site) : Prop where
  sound : ∀ st ∈ y.stages, st.Sound
  counts : y.pool.Counts limit y.buffers.length

variable {limit : Nat} {y y' : Site}

/-- What is asked of one bridge, of all others, and of the pool. -/
theorem balanced_iff {pool : Pool} {st : Stage} {before later : List Stage} :
    Balanced limit { pool, stages := before ++ st :: later } ↔ st.Sound ∧ (∀ other ∈ before ++ later, other.Sound) ∧
      pool.Counts limit (st.buffers.length + ((before ++ later).flatMap Stage.buffers).length) := by
  have hlen : buffers { pool, stages := before ++ st :: later } =
      before.flatMap Stage.buffers ++ (st.buffers ++ later.flatMap Stage.buffers) := by
    simp [buffers]
  have hcount : (buffers { pool, stages := before ++ st :: later }).length =
      st.buffers.length + ((before ++ later).flatMap Stage.buffers).length := by
    rw [hlen, List.flatMap_append]
    simp only [List.length_append]
    omega
  constructor
  · rintro ⟨hs, hc⟩
    simp only [List.forall_mem_append, List.forall_mem_cons] at hs
    exact ⟨hs.2.1, List.forall_mem_append.2 ⟨hs.1, hs.2.2⟩, hcount ▸ hc⟩
  · rintro ⟨hst, hs, hc⟩
    rw [List.forall_mem_append] at hs
    refine ⟨List.forall_mem_append.2 ⟨hs.1, List.forall_mem_cons.2 ⟨hst, hs.2⟩⟩, ?_⟩
    rwa [hcount]

theorem Balanced.act (h : y.Balanced limit) (a : Act) : (y.act a).Balanced limit := by
  obtain ⟨pool, stages⟩ := y
  cases a with
  | launch number =>
    obtain ⟨hs, hc⟩ := h
    cases hp : pool.checkout with
    | mk r pool' =>
      simp only [Site.act, hp]
      cases r with
      | ok first =>
        refine balanced_iff.2 ⟨trivial, by simpa using hs, ?_⟩
        simpa [buffers, Stage.buffers, Nat.add_comm] using hc.checkout hp
      | error e =>
        obtain rfl := Pool.checkout_eq_error hp
        refine balanced_iff.2 ⟨trivial, by simpa using hs, ?_⟩
        simpa [buffers, Stage.buffers] using hc
  | turn i s =>
    cases hi : stages[i]? with
    | none => simpa only [Site.act, hi] using h
    | some st =>
      obtain ⟨hlt, rfl⟩ := List.getElem?_eq_some_iff.1 hi
      obtain ⟨before, later, hsplit, -, hset⟩ :=
        @List.exists_of_set _ _ (Stage.move s (stages[i], pool)).1 _ hlt
      rw [hsplit] at h
      obtain ⟨hst, hs, hc⟩ := balanced_iff.1 h
      obtain ⟨hst', hc'⟩ := hst.move hc s
      simp only [Site.act, hi, hset]
      exact balanced_iff.2 ⟨hst', hs, hc'⟩

theorem Balanced.run : ∀ {acts : List Act} {y : Site}, y.Balanced limit → (y.run acts).Balanced limit
  | [], _, h => h
  | a :: _, _, h => (h.act a).run

/-- The pool of a site is one that buffers were taken from and given back to. -/
theorem reachable_act (h : y.pool.Reachable) (a : Act) :
    (y.act a).pool.Reachable ∧ (y.act a).pool.size = y.pool.size := by
  cases a with
  | launch number =>
    have hc : y.pool.checkout.2.Reachable ∧ y.pool.checkout.2.size = y.pool.size := ⟨h.checkout, y.pool.size_checkout⟩
    simp only [Site.act]
    split <;> rename_i heq <;> rwa [heq] at hc
  | turn i s =>
    simp only [Site.act]
    split
    · exact Stage.reachable_move h s
    · exact ⟨h, rfl⟩

theorem reachable_run : ∀ {acts : List Act} {y : Site}, y.pool.Reachable →
    (y.run acts).pool.Reachable ∧ (y.run acts).pool.size = y.pool.size
  | [], _, h => ⟨h, rfl⟩
  | a :: acts, y, h => by
    obtain ⟨hact, hsize⟩ := reachable_act h a
    obtain ⟨hrun, hsize'⟩ : ((y.act a).run acts).pool.Reachable ∧ _ := reachable_run hact
    exact ⟨hrun, hsize'.trans hsize⟩

/-! ## What happens at once -/

/-- Some acts lead from one site to another. -/
def Runs (y y' : Site) : Prop :=
  ∃ acts, y' = y.run acts

theorem Runs.trans {y'' : Site} (h : y.Runs y') (h' : y'.Runs y'') : y.Runs y'' := by
  obtain ⟨acts, rfl⟩ := h
  obtain ⟨acts', rfl⟩ := h'
  exact ⟨acts ++ acts', List.foldl_append.symm⟩

theorem Runs.balanced (h : y.Runs y') (hb : y.Balanced limit) : y'.Balanced limit := by
  obtain ⟨acts, rfl⟩ := h
  exact hb.run

/-- The steps of one bridge, one after another. -/
theorem runs_of_leads {pool pool' : Pool} {stages : List Stage} {i : Nat} {st st' : Stage} (hi : stages[i]? = some st)
    (h : Stage.Leads (st, pool) (st', pool')) :
    Runs { pool, stages } { pool := pool', stages := stages.set i st' } := by
  obtain ⟨steps, h⟩ := h
  refine ⟨steps.map (.turn i), ?_⟩
  induction steps generalizing pool stages st with
  | nil =>
    cases h
    obtain ⟨hlt, rfl⟩ := List.getElem?_eq_some_iff.1 hi
    simp [run]
  | cons s steps ih =>
    obtain ⟨hlt, -⟩ := List.getElem?_eq_some_iff.1 hi
    have hnext : { pool := pool', stages := (stages.set i (Stage.move s (st, pool)).1).set i st' } =
        run (steps.map (.turn i))
          { pool := (Stage.move s (st, pool)).2, stages := stages.set i (Stage.move s (st, pool)).1 } :=
      ih (List.getElem?_set_self hlt) h
    rw [List.set_set] at hnext
    rw [List.map_cons, run, List.foldl_cons, act, hi]
    exact hnext

theorem runs_of_leads_last {pool pool' : Pool} {stages : List Stage} {st st' : Stage}
    (h : Stage.Leads (st, pool) (st', pool')) :
    Runs { pool, stages := stages ++ [st] } { pool := pool', stages := stages ++ [st'] } := by
  have hi : (stages ++ [st])[stages.length]? = some st := by simp
  simpa using runs_of_leads hi h

/-- A bridge is made, or it is not and the buffer that was taken goes back. -/
theorem runs_create (number : Nat) (y : Site) : y.Runs
    { pool := (Bridge.create number y.pool).2, stages := y.stages ++ [.ofResult (Bridge.create number y.pool).1] } := by
  unfold Bridge.create
  split
  · rename_i first pool' hc
    have hlaunch : y.Runs { pool := pool', stages := y.stages ++ [.begun number first] } :=
      ⟨[.launch number], by simp [run, act, hc]⟩
    exact hlaunch.trans (runs_of_leads_last (Stage.leads_complete number first pool'))
  · rename_i e pool' hc
    exact ⟨[.launch number], by simp [run, act, hc, Stage.ofResult]⟩

/-- A client is accepted: its session has a bridge, or there is no session and nothing is held for it. -/
theorem runs_welcome (number : Nat) (network : Network) (now : Time) (client : Address) (here : Option Address)
    (f : Forward) (stages : List Stage) :
    Runs { pool := f.pool, stages }
      { pool := (f.welcome number network now client here).2.2.pool
        stages := stages ++
          [.ofResult ((f.welcome number network now client here).1.outcome.map Session.bridge)] } := by
  have hcreate := runs_create number { pool := f.pool, stages }
  unfold Forward.welcome
  split
  · rename_i e pool' hc
    simp only [hc] at hcreate
    exact hcreate
  · rename_i b pool' hc
    simp only [hc] at hcreate
    have hattach := Stage.leads_operate (.attach client) b pool'
    have hjoin := Stage.leads_join ({ f with pool := pool' }.reach network now client).1 client here (b.attach client)
      ({ f with pool := pool' }.reach network now client).2.2
    exact hcreate.trans (runs_of_leads_last (hattach.trans hjoin))

/-- A session goes on: its bridge stands, or the session has ended and the bridge is gone. -/
theorem runs_advance {stages : List Stage} {i : Nat} {s : Session} (hi : stages[i]? = some (.standing s.bridge))
    (f : Forward) :
    Runs { pool := f.pool, stages }
      { pool := (f.advance s).2.2.pool
        stages := stages.set i (if (f.advance s).1.isSome then .gone else .standing (f.advance s).2.1.bridge) } := by
  have hwork := Stage.leads_wakes (s.run_leads f.pool) f.pool
  unfold Forward.advance
  split
  · rename_i s' hr
    rw [hr] at hwork
    exact runs_of_leads hi hwork
  · rename_i e s' hr
    rw [hr] at hwork
    exact runs_of_leads hi (hwork.trans (Stage.leads_dismiss _ _))

theorem balanced_new (size : Nat) (limit : UInt64) (paranoid : Bool) :
    Balanced limit.toNat { pool := { size, limit := limit.toNat, paranoid } } where
  sound _ h := by cases h
  counts := ⟨rfl, rfl, Nat.zero_le _, limit.toNat_lt⟩

theorem Balanced.inUse_eq (h : y.Balanced limit) (h' : y'.Balanced limit)
    (hl : y'.buffers.length = y.buffers.length) : y'.pool.inUse = y.pool.inUse :=
  UInt64.toNat_inj.1 (by rw [h'.counts.inUse, h.counts.inUse, hl])

/-- One bridge comes to another stage, and all others hold what they held. -/
theorem length_buffers_set {pool : Pool} {i : Nat} {st : Stage} (hi : y.stages[i]? = some st) (st' : Stage) :
    (buffers { pool, stages := y.stages.set i st' }).length + st.buffers.length =
      y.buffers.length + st'.buffers.length := by
  obtain ⟨hlt, rfl⟩ := List.getElem?_eq_some_iff.1 hi
  obtain ⟨before, later, hsplit, -, hset⟩ := @List.exists_of_set _ _ st' _ hlt
  have hbefore : y.buffers = (before ++ y.stages[i] :: later).flatMap Stage.buffers :=
    congrArg (List.flatMap Stage.buffers) hsplit
  rw [hbefore, hset]
  simp only [buffers, List.flatMap_append, List.flatMap_cons, List.length_append]
  omega

/-- Whatever the bridges of a pool do, each of them one step after another and all of them in any order: the pool
counts just the buffers that they hold, never more than its limit, and none once all bridges are gone. That a bridge
is made, that a client is accepted, and that a session goes on, are such steps. If the bridge is not made, if there is
no session, or if the session ends, for whatever reason, then the bridge is gone, and all that was taken for it is
back. There is no session just if there are no buffers, if no backend is reached, or if the header does not fit; and a
session that goes on ends just if one of its streams is closed or has failed, with that error. -/
theorem buffers_accounted (size : Nat) (limit : UInt64) (paranoid : Bool) (acts : List Act) :
    let y := run acts { pool := { size, limit := limit.toNat, paranoid } }
    y.pool.inUse.toNat = y.buffers.length ∧ y.pool.inUse ≤ limit ∧
    ((∀ st ∈ y.stages, st = .gone) → y.pool.inUse = 0) ∧
    (∀ number, let r := Bridge.create number y.pool
      y.Runs { pool := r.2, stages := y.stages ++ [.ofResult r.1] } ∧
      ∀ e, r.1 = .error e → r.2.inUse = y.pool.inUse) ∧
    (∀ (f : Forward) number network now client here, f.pool = y.pool →
      let r := f.welcome number network now client here
      y.Runs { pool := r.2.2.pool, stages := y.stages ++ [.ofResult (r.1.outcome.map Session.bridge)] } ∧
      (∀ e, r.1.outcome = .error e → r.2.2.pool.inUse = y.pool.inUse) ∧
      (∀ e, r.1.outcome = .error e ↔ f.refusal? number network now client here = some e) ∧
      ∀ s, r.1.outcome = .ok s → s.Served size) ∧
    ∀ (f : Forward) i (s : Session), f.pool = y.pool → y.stages[i]? = some (.standing s.bridge) →
      let r := f.advance s
      y.Runs { pool := r.2.2.pool, stages := y.stages.set i (if r.1.isSome then .gone else .standing r.2.1.bridge) } ∧
      (∀ e, r.1 = some e → r.2.2.pool.inUse.toNat + s.bridge.held.length = y.pool.inUse.toNat) ∧
      (s.Served size → 0 < size →
        (r.1 = none ↔ ∀ side, (s.stream side).ending = none) ∧
        ∀ e, r.1 = some e → s.Fault e ∧ r.2.2.pool.inUse.toNat + 2 = y.pool.inUse.toNat) := by
  intro y
  have hy : y.Balanced limit.toNat := (balanced_new size limit paranoid).run
  have hback : ∀ pool, y.Runs { pool, stages := y.stages ++ [.gone] } → pool.inUse = y.pool.inUse := fun pool hr =>
    hy.inUse_eq (hr.balanced hy) (by simp [buffers, Stage.buffers])
  refine ⟨hy.counts.inUse, ?_, fun hgone => ?_, fun number => ⟨runs_create number y, fun e he => ?_⟩, ?_, ?_⟩
  · rw [UInt64.le_iff_toNat_le, hy.counts.inUse]
    exact hy.counts.le
  · have hnone : y.buffers = [] := List.flatMap_eq_nil_iff.2 fun st hst => by rw [hgone st hst]; rfl
    have hcount := hy.counts.inUse
    rw [hnone] at hcount
    exact UInt64.toNat_inj.1 hcount
  · refine hback _ ?_
    have hr := runs_create number y
    rwa [he] at hr
  · intro f number network now client here hpool r
    have hr : y.Runs { pool := r.2.2.pool, stages := y.stages ++ [.ofResult (r.1.outcome.map Session.bridge)] } := by
      simpa only [hpool] using runs_welcome number network now client here f y.stages
    obtain ⟨hreach, hsize⟩ : y.pool.Reachable ∧ y.pool.size = size := reachable_run (.new size limit.toNat paranoid)
    rw [← hpool] at hreach hsize
    refine ⟨hr, fun e he => hback _ ?_, (Forward.outcome_welcome hreach).1, fun s hs => .welcomed hreach hsize hs⟩
    rwa [he] at hr
  · intro f i s hpool hi r
    have hr : y.Runs { pool := r.2.2.pool
                       stages := y.stages.set i (if r.1.isSome then .gone else .standing r.2.1.bridge) } := by
      simpa only [hpool] using runs_advance hi f
    have hgiven : ∀ e, r.1 = some e → r.2.2.pool.inUse.toNat + s.bridge.held.length = y.pool.inUse.toNat := by
      intro e he
      rw [he] at hr
      rw [hy.counts.inUse, (hr.balanced hy).counts.inUse]
      exact length_buffers_set hi .gone
    refine ⟨hr, hgiven, fun hs hsize => ?_⟩
    obtain ⟨hends, hfault⟩ := Forward.advance_served hs hsize f
    refine ⟨hends, fun e he => ⟨hfault e he, ?_⟩⟩
    rw [← hgiven e he, hs.working.keeps.provided.length_held]

/-! The exits one by one. -/

def someone : Address :=
  { ip := .v4 #v[127, 0, 0, 5], port := 4000 }

def nearby : Address :=
  { ip := .v4 #v[127, 0, 1, 1], port := 8080 }

/-- A forwarded port which tells its backends who the client is. -/
def telling (size : Nat) (limit : UInt64) (addresses : List Address) : Forward where
  listen := nearby
  endpoint := { specs := [], balancer := { addresses, chance := .ofSeed 1 }, good := 0 }
  pool := { size, limit := limit.toNat }
  sendsHeader := true

/-- There are no buffers, no addresses, or no backend at the address, or the header has no room; and a backend hangs up,
or its connection fails. -/
theorem buffers_accounted_exits :
    let there : Network := { routed := true, bound := [nearby] }
    let welcome (f : Forward) (network : Network) := f.welcome 1 network 0 someone none
    let refused (f : Forward) (network : Network) (e : SessionError) :=
      (welcome f network).1.outcome = .error e ∧ (welcome f network).2.2.pool.inUse = 0
    refused (telling 15 1 [nearby]) there (.pool (.exhausted 1)) ∧
    refused (telling 15 2 []) there .noBackend ∧
    refused (telling 15 2 [nearby]) { there with bound := [] } (.exhausted nearby .refused) ∧
    refused (telling 4 2 [nearby]) there (.bridge (.headerTooLarge 15 4)) ∧
    ∃ s, (welcome (telling 15 2 [nearby]) there).1.outcome = .ok s ∧
      let ends (ending : Ending) (e : BridgeError) :=
        let r := (welcome (telling 15 2 [nearby]) there).2.2.advance (s.arrive .backend [] (some ending))
        r.1 = some e ∧ r.2.2.pool.inUse = 0
      ends .closed (.closedBy .backend) ∧ ends (.failed "reset") (.connection "reset") := by
  intro there welcome refused
  have hrefused {size : Nat} {limit : UInt64} {addresses : List Address} {network : Network} {e : SessionError}
      (h : (telling size limit addresses).refusal? 1 network 0 someone none = some e) :
      refused (telling size limit addresses) network e := by
    obtain ⟨-, -, -, -, hwelcome, -⟩ := buffers_accounted size limit false []
    obtain ⟨-, hback, hiff, -⟩ := hwelcome (telling size limit addresses) 1 network 0 someone none rfl
    exact ⟨(hiff e).2 h, hback e ((hiff e).2 h)⟩
  refine ⟨hrefused (by decide +kernel), hrefused (by decide +kernel), hrefused (by decide +kernel),
    hrefused (by decide +kernel), ?_⟩
  let header := ProxyHeader.bytes (some someone) none
  let s : Session := { bridge := ((((Bridge.ofBuffers 1 (.zeros 15) (.zeros 15)).attach someone).begin nearby).joined
    (some header)).2 }
  have hs : (welcome (telling 15 2 [nearby]) there).1.outcome = .ok s := by
    have hsome : (welcome (telling 15 2 [nearby]) there).1.outcome.toOption = some s := by decide +kernel
    revert hsome
    cases (welcome (telling 15 2 [nearby]) there).1.outcome <;> simp [Except.toOption]
  have htaken : (welcome (telling 15 2 [nearby]) there).2.2.pool.inUse = 2 := by decide +kernel
  have hends (ending : Ending) :
      let r := (welcome (telling 15 2 [nearby]) there).2.2.advance (s.arrive .backend [] (some ending))
      r.1 = some (ending.error .backend) ∧ r.2.2.pool.inUse = 0 := by
    intro r
    -- What the welcome comes to is reached by some steps, and the session goes on from there.
    obtain ⟨-, -, -, -, hwelcome, -⟩ := buffers_accounted 15 2 false []
    obtain ⟨⟨acts, hacts⟩, -, -, hserved⟩ := hwelcome (telling 15 2 [nearby]) 1 there 0 someone none rfl
    obtain ⟨-, -, -, -, -, hadvance⟩ := buffers_accounted 15 2 false acts
    have hstage : Stage.ofResult ((welcome (telling 15 2 [nearby]) there).1.outcome.map Session.bridge) =
        .standing s.bridge := by
      rw [hs]
      rfl
    have hthere : run acts { pool := { size := 15, limit := (2 : UInt64).toNat } } =
        { pool := (welcome (telling 15 2 [nearby]) there).2.2.pool, stages := [.standing s.bridge] } := by
      rw [← hstage]
      exact hacts.symm
    rw [hthere] at hadvance
    obtain ⟨-, -, hadvance⟩ := hadvance (welcome (telling 15 2 [nearby]) there).2.2 0
      (s.arrive .backend [] (some ending)) rfl rfl
    obtain ⟨hnot, hfault⟩ := hadvance ((hserved s hs).arrived .backend [] (some ending)) (by decide)
    obtain ⟨e, he⟩ : ∃ e, r.1 = some e := by
      refine Option.ne_none_iff_exists'.1 fun hnone => ?_
      cases hnot.1 hnone .backend
    obtain ⟨⟨side, ending', hending, rfl⟩, hback⟩ := hfault e he
    cases side with
    | client => cases hending
    | backend =>
      cases hending
      refine ⟨he, UInt64.toNat_inj.1 (Nat.add_right_cancel (hback.trans ?_))⟩
      exact congrArg UInt64.toNat htaken
  exact ⟨s, hs, hends .closed, hends (.failed "reset")⟩

/-- Two bridges are begun before either of them is complete, and there are buffers for one. -/
example :
    let y := run [.launch 1, .launch 2, .turn 0 .complete, .turn 1 .complete, .turn 1 .giveBack]
      { pool := { size := 4, limit := 3 } }
    y.pool.inUse = 2 ∧ y.buffers.length = 2 := by decide

end Site

end AffinityRelay
