import AffinityRelay.Proofs.Balancer.Returning

/-!
# What the attempts of a connection leave behind

While a client is being connected the cluster is told of every attempt, and the table is changed by every attempt. If
nobody else uses the table meanwhile, both say the same in the end.

* `Balancer.Outcome`, `Balancer.outcomeAmid`: the attempts of `dialAmid` with what is announced of them and the balancer
  they lead to (`toChain_outcomeAmid`); where nothing else happens these are those of `Balancer.dial` (`outcome_quiet`);
* `Store.settle_touch`, `Store.settle_withdraw`: of a table that was asked for a client, or has lost its entry, a
  decision about the client makes what it makes of the table before. So only the last decision counts;
* `Balancer.Leaves`: what is announced and what is in the table after attempts, the same with one more failed attempt
  before them (`Leaves.cons`) and so from the first of them on (`leaves_outcomeAmid`);
* `Balancer.connection_leaves`: what a new connection leaves behind.
-/

namespace AffinityRelay

/-! ## Decisions about one client -/

namespace Store

variable {s : Store} {client c : Ip} {e : Entry} {x : Address} {now : Time}

/-- A table keeps its entries of other networks when the entry of a client moves. -/
theorem others_moved (he : e.client = s.network client) :
    ({ s with held := s.others client ++ [e] } : Store).others client = s.others client := by
  have hkept : (s.others client).filter (fun e => e.client ≠ s.network client) = s.others client :=
    List.filter_eq_self.2 fun _ hm => (List.mem_filter.1 hm).2
  show (s.others client ++ [e]).filter (fun e => e.client ≠ s.network client) = s.others client
  rw [List.filter_append, hkept]
  simp [he]

@[simp] theorem others_withdraw (client : Ip) (s : Store) : (s.withdraw client).others client = s.others client :=
  List.filter_eq_self.2 fun _ hm => (List.mem_filter.1 hm).2

@[simp] theorem others_touch (client : Ip) (s : Store) : (s.touch client).others client = s.others client := by
  unfold touch
  split
  · rename_i e he
    exact others_moved (lookup?_some he).2
  · rfl

/-- A decision about a client depends on the entries of all other networks only. -/
theorem settle_congr {s s' : Store} (hc : s'.config = s.config) (ho : s'.others client = s.others client) (now : Time)
    (decision : Option Address) : s'.settle now client decision = s.settle now client decision := by
  cases decision <;> simp [settle, put, withdraw, fitting, network, hc, ho]

theorem settle_withdraw (now : Time) (client : Ip) (decision : Option Address) (s : Store) :
    (s.withdraw client).settle now client decision = s.settle now client decision :=
  settle_congr (config_withdraw client s) (others_withdraw client s) now decision

theorem settle_touch (now : Time) (client : Ip) (decision : Option Address) (s : Store) :
    (s.touch client).settle now client decision = s.settle now client decision :=
  settle_congr (config_touch client s) (others_touch client s) now decision

/-- No client of a network is answered once it was withdrawn. -/
theorem answer_withdraw (hc : s.network c = s.network client) : (s.withdraw client).answer now c = none := by
  have hn : (s.withdraw client).lookup? c = none := by
    simp only [lookup?, List.find?_eq_none, decide_eq_true_eq]
    rintro e he hec
    exact (mem_others.1 he).2 (hec.trans hc)
  simp [answer, hn]

/-- The entry that is written goes to the end, and then as many of the others stay as fit before it. -/
theorem held_put (hroom : 0 < s.config.capacity) :
    (s.put now client x).held = (s.others client).drop ((s.others client).length + 1 - s.config.capacity) ++
      [⟨s.network client, x, now⟩] := by
  simp only [put, fitting, List.length_append, List.length_singleton]
  rw [List.drop_append_of_le_length (by omega)]

theorem others_put (hroom : 0 < s.config.capacity) : (s.put now client x).others client =
    (s.others client).drop ((s.others client).length + 1 - s.config.capacity) := by
  show (s.put now client x).held.filter (fun e => e.client ≠ s.network client) = _
  have hkept := List.filter_eq_self.2 fun e
      (he : e ∈ (s.others client).drop ((s.others client).length + 1 - s.config.capacity)) =>
    (List.mem_filter.1 (List.mem_of_mem_drop he)).2
  rw [held_put hroom, List.filter_append, hkept]
  simp

/-- Every client of a network is answered at once what was written for one of them. -/
theorem answer_put (hroom : 0 < s.config.capacity) (hc : s.network c = s.network client) :
    (s.put now client x).answer now c = some x := by
  have hl : (s.put now client x).lookup? c = some ⟨s.network client, x, now⟩ := by
    have hno : ((s.others client).drop ((s.others client).length + 1 - s.config.capacity)).find?
        (fun e => decide (e.client = s.network client)) = none := by
      simp only [List.find?_eq_none, decide_eq_true_eq]
      exact fun e he => (mem_others.1 (List.mem_of_mem_drop he)).2
    rw [lookup?, held_put hroom, show (s.put now client x).network c = s.network client from hc, List.find?_append, hno]
    simp
  simp [answer, hl, fresh]

section Written

variable {config : StoreConfig} {h : History}

/-- Where the network had an entry or there was room for one more, no other entry goes. -/
theorem others_put_of_room (hroom : 0 < config.capacity)
    (hfree : (after config h).Held (client.mask config.bits.toNat) ∨ (after config h).size < config.capacity) :
    ((after config h).put now client x).others client = (after config h).others client := by
  have hb : (after config h).held.length ≤ config.capacity := (recorded_after h).bound
  have hlen : ((after config h).others client).length < config.capacity := by
    obtain ⟨e, he, hec⟩ | hsize := hfree
    · have hlt : ((after config h).others client).length < (after config h).held.length :=
        List.length_filter_lt_length_iff_exists.2 ⟨e, he, by simp [network_after, hec]⟩
      omega
    · exact Nat.lt_of_le_of_lt (List.length_filter_le ..) hsize
  rw [others_put (by rwa [config_after]), config_after, Nat.sub_eq_zero_of_le (by omega), List.drop_zero]

/-- A full table without the network loses one entry to it, the one touched longest ago. -/
theorem others_put_of_full (hroom : 0 < config.capacity)
    (hnew : ¬ (after config h).Held (client.mask config.bits.toNat)) (hfull : (after config h).size = config.capacity) :
    ∃ e, (after config h).held = e :: ((after config h).put now client x).others client ∧
      ∀ y ∈ ((after config h).put now client x).others client,
        lastTouch config e.client h < lastTouch config y.client h := by
  have hall : (after config h).others client = (after config h).held := by
    refine List.filter_eq_self.2 fun e he => ?_
    have hne : e.client ≠ client.mask config.bits.toNat := fun hec => hnew ⟨e, he, hec⟩
    simpa [network_after] using hne
  have hone : (after config h).held.length + 1 - config.capacity = 1 := by
    rw [size] at hfull
    omega
  rw [others_put (by rwa [config_after]), hall, config_after, hone]
  have hr : Recorded config h := recorded_after h
  have hordered := hr.ordered
  cases hheld : (after config h).held with
  | nil => simp [size, hheld] at hfull; omega
  | cons e rest =>
    rw [hheld] at hordered
    exact ⟨e, rfl, (List.pairwise_cons.1 hordered).1⟩

/-- To ask a table for a client at most moves an entry. -/
theorem touch_perm (client : Ip) : ((after config h).touch client).held.Perm (after config h).held := by
  have hr : Recorded config h := recorded_after h
  have hnodup {h : History} : (after config h).held.Nodup :=
    (nodup_of_pairwise (recorded_after h).ordered).of_map
  exact (List.perm_ext_iff_of_nodup (hnodup (h := .get client :: h)) hnodup).2 fun e => hr.mem_held_get client

end Written

end Store

/-- A choice is made for the client of the attempts. -/
theorem Attempts.client_pick (policy : Policy) (a : Attempts) (chance : Chance) :
    (a.pick policy chance).2.1.client = a.client := by
  unfold Attempts.pick
  split
  · rfl
  · split <;> rfl
  all_goals split <;> rfl

/-- The backend that attempts came to, if any. -/
def Dialed.backend? {ε : Type} : Dialed ε → Option Address
  | .connected backend => some backend
  | .noBackend | .exhausted _ _ => none

namespace Balancer

/-! ## Attempts and their effects -/

/-- The attempts of a connection, what was announced of them, and the balancer they lead to. -/
structure Outcome (ε : Type) extends Chain ε where
  told : List Announcement
  balancer : Balancer

section Amid

variable {ε : Type}

/-- What is announced of a failed attempt. -/
def Turn.withdrawal (t : Turn ε) (a : Attempts) (b : Balancer) : List Announcement :=
  (((t.choice a b).2.2.after t.during).fail t.done (t.choice a b).2.1).2.1

/-- What is announced of an attempt that reached its backend, and the balancer after it. -/
def Turn.succeeded (t : Turn ε) (a : Attempts) (b : Balancer) : List Announcement × Balancer :=
  ((t.choice a b).2.2.after t.during).succeed t.done (t.choice a b).2.1

/-- One attempt after another and what they leave, each amid the events of its turn, from a given turn on. -/
def outcomeAmid (turns : Nat → Turn ε) (i : Nat) (a : Attempts) (b : Balancer) : Outcome ε :=
  match _hx : ((turns i).choice a b).1 with
  | none => { picks := [], dialed := .noBackend, told := [], balancer := ((turns i).choice a b).2.2 }
  | some backend =>
    match (turns i).connect backend with
    | none =>
      { picks := [backend]
        dialed := .connected backend
        told := ((turns i).succeeded a b).1
        balancer := ((turns i).succeeded a b).2 }
    | some why =>
      if _hr : ((turns i).failed a b).2.mayRetry ((turns i).failed a b).1 then
        let r := outcomeAmid turns (i + 1) ((turns i).failed a b).1 ((turns i).failed a b).2
        { r with picks := backend :: r.picks, told := (turns i).withdrawal a b ++ r.told }
      else
        { picks := [backend]
          dialed := .exhausted backend why
          told := (turns i).withdrawal a b
          balancer := ((turns i).failed a b).2 }
termination_by a.left b.policy
decreasing_by exact left_failed_lt (by rw [_hx]; rfl) _hr

/-- All attempts of a new connection of a client and what they leave. -/
def outcomeNew (client : Ip) (turns : Nat → Turn ε) (b : Balancer) : Outcome ε :=
  outcomeAmid turns 0 (b.start client).1 (b.start client).2

variable {turns : Nat → Turn ε} {t : Turn ε} {a : Attempts} {b : Balancer} {client : Ip}

theorem outcomeAmid_none {i : Nat} (hx : ((turns i).choice a b).1 = none) :
    outcomeAmid turns i a b =
      { picks := [], dialed := .noBackend, told := [], balancer := ((turns i).choice a b).2.2 } := by
  rw [outcomeAmid]
  split
  · rfl
  · simp_all

/-- A backend that is chosen is tried first, and what that leaves comes first. -/
theorem outcomeAmid_some {i : Nat} {x : Address} (hx : ((turns i).choice a b).1 = some x) :
    outcomeAmid turns i a b =
      match (turns i).connect x with
      | none =>
        { picks := [x]
          dialed := .connected x
          told := ((turns i).succeeded a b).1
          balancer := ((turns i).succeeded a b).2 }
      | some why =>
        if ((turns i).failed a b).2.mayRetry ((turns i).failed a b).1 then
          { outcomeAmid turns (i + 1) ((turns i).failed a b).1 ((turns i).failed a b).2 with
            picks := x :: (outcomeAmid turns (i + 1) ((turns i).failed a b).1 ((turns i).failed a b).2).picks
            told := (turns i).withdrawal a b ++
              (outcomeAmid turns (i + 1) ((turns i).failed a b).1 ((turns i).failed a b).2).told }
        else
          { picks := [x]
            dialed := .exhausted x why
            told := (turns i).withdrawal a b
            balancer := ((turns i).failed a b).2 } := by
  rw [outcomeAmid]
  split
  · simp_all
  · rename_i y hy
    obtain rfl : x = y := Option.some.inj (hx.symm.trans hy)
    rfl

/-- The attempts are the same as without a record of what they leave. -/
theorem toChain_outcomeAmid (turns : Nat → Turn ε) (i : Nat) (a : Attempts) (b : Balancer) :
    (outcomeAmid turns i a b).toChain = dialAmid turns i a b := by
  fun_induction outcomeAmid turns i a b with
  | case1 i a b hx => rw [dialAmid_none hx]
  | case2 i a b x hx hc => simp only [dialAmid_some hx, hc]
  | case3 i a b x hx why hc hr r ih => simp only [dialAmid_some hx, hc, hr, if_true, ← ih, r]
  | case4 i a b x hx why hc hr => simp only [dialAmid_some hx, hc, hr, Bool.false_eq_true, if_false]

/-- If nothing else happens and no time passes, this is what `dial` leaves. -/
theorem outcome_quiet (connect : Nat → Address → Option ε) (now : Time) (a : Attempts) (b : Balancer) :
    (outcomeAmid (Turn.quiet connect now) a.count a b).told = (b.dial connect now a).2.2.1 ∧
    (outcomeAmid (Turn.quiet connect now) a.count a b).balancer = (b.dial connect now a).2.2.2 := by
  fun_induction Balancer.dial connect now a b with
  | case1 a b n hx =>
    rw [outcomeAmid_none (show ((Turn.quiet connect now a.count).choice a b).1 = none from hx)]
    exact ⟨rfl, rfl⟩
  | case2 a b n x hx hc s =>
    have hq : (Turn.quiet connect now a.count).connect x = none := by rwa [count_next] at hc
    rw [outcomeAmid_some (show ((Turn.quiet connect now a.count).choice a b).1 = some x from hx), hq]
    exact ⟨rfl, rfl⟩
  | case3 a b n x hx why hc f hr r ih =>
    have hq : (Turn.quiet connect now a.count).connect x = some why := by rwa [count_next] at hc
    have hm := (mayRetry_quiet connect now a.count a b).trans hr
    rw [outcomeAmid_some (show ((Turn.quiet connect now a.count).choice a b).1 = some x from hx), hq]
    simp only [hm, if_true]
    rw [show a.count + 1 = f.1.count from (count_next now a b).symm]
    exact ⟨congrArg (_ ++ ·) ih.1, ih.2⟩
  | case4 a b n x hx why hc f hr =>
    have hq : (Turn.quiet connect now a.count).connect x = some why := by rwa [count_next] at hc
    have hm := (mayRetry_quiet connect now a.count a b).trans (Bool.eq_false_iff.2 hr)
    rw [outcomeAmid_some (show ((Turn.quiet connect now a.count).choice a b).1 = some x from hx), hq]
    simp only [hm]
    exact ⟨rfl, rfl⟩

/-! ## A table that nobody else uses -/

/-- Whether an event reads or writes the table. -/
def Event.usesTable (policy : Policy) : Event → Bool
  | install _ | start _ => false
  | next _ a => a.count == 0 && policy ≠ .first
  | succeed _ a => a.remote.isSome
  | fail _ _ | settle _ _ _ => true

/-- Nothing else that happens during a turn reads or writes the table. -/
def Turn.Alone (policy : Policy) (t : Turn ε) : Prop :=
  ∀ e ∈ t.before ++ t.during ++ t.after, e.usesTable policy = false

@[simp] theorem announces_asked (a : Attempts) (b : Balancer) : (b.asked a).announces = b.announces := by
  unfold asked
  split <;> rfl

@[simp] theorem announces_next (now : Time) (a : Attempts) (b : Balancer) :
    (b.next now a).2.2.announces = b.announces := by
  unfold next
  split <;> simp [choose]

theorem announces_apply (e : Event) (b : Balancer) : (e.apply b).announces = b.announces := by
  cases e with
  | install list => rfl
  | start client =>
    simp only [Event.apply, start]
    split <;> rfl
  | next now a => exact announces_next now a b
  | succeed now a =>
    simp only [Event.apply, succeed]
    split <;> rfl
  | fail now a => rfl
  | settle now client backend => rfl

@[simp] theorem announces_after (events : List Event) (b : Balancer) : (b.after events).announces = b.announces := by
  induction events generalizing b with
  | nil => rfl
  | cons e events ih => exact (ih (e.apply b)).trans (announces_apply e b)

/-- To choose a backend leaves the table as it is or asks it for the client. -/
theorem store_next (now : Time) (a : Attempts) (b : Balancer) :
    (b.next now a).2.2.store = b.store ∨ (b.next now a).2.2.store = b.store.touch a.client := by
  have hasked : (b.next now a).2.2.store = (b.asked a).store := by
    unfold next
    split <;> rfl
  rw [hasked, asked]
  split
  · exact .inr rfl
  · exact .inl rfl

theorem store_apply_of_not_usesTable {e : Event} (h : e.usesTable b.policy = false) :
    (e.apply b).store = b.store := by
  cases e with
  | install list => rfl
  | start client =>
    simp only [Event.apply, start]
    split <;> rfl
  | next now a =>
    have hasks : b.asksStore a = false := h
    simp only [Event.apply, next, assigned, asked, hasks]
    rfl
  | succeed now a =>
    have hnone : a.remote = none := by simpa [Event.usesTable] using h
    simp only [Event.apply, succeed, hnone]
  | fail now a | settle now client backend => cases h

theorem store_after_of_alone {events : List Event} (h : ∀ e ∈ events, e.usesTable b.policy = false) :
    (b.after events).store = b.store := by
  induction events generalizing b with
  | nil => rfl
  | cons e events ih =>
    obtain ⟨he, hrest⟩ := List.forall_mem_cons.1 h
    have hpolicy : (e.apply b).policy = b.policy := (settled_apply e b).1
    exact (ih (b := e.apply b) (by rwa [hpolicy])).trans (store_apply_of_not_usesTable he)

/-! ## One attempt -/

theorem client_next (now : Time) (a : Attempts) (b : Balancer) : (b.next now a).2.1.client = a.client := by
  unfold next
  split
  · rfl
  · exact Attempts.client_pick _ _ _

theorem remote_next (now : Time) (a : Attempts) (b : Balancer) : (b.next now a).2.1.remote = (b.next now a).1 := by
  unfold next
  split <;> rfl

/-- When an attempt is decided the table is as it was before, or was asked for the client. -/
theorem store_chosen (ht : t.Alone b.policy) : ((t.choice a b).2.2.after t.during).store = b.store ∨
    ((t.choice a b).2.2.after t.during).store = b.store.touch a.client := by
  have hbefore : (b.after t.before).store = b.store := store_after_of_alone fun e he => ht e (by simp [he])
  have hduring : ((t.choice a b).2.2.after t.during).store = (t.choice a b).2.2.store := by
    refine store_after_of_alone fun e he => ?_
    rw [Turn.choice, policy_next, policy_after]
    exact ht e (by simp [he])
  rw [hduring, ← hbefore]
  exact store_next t.now a (b.after t.before)

/-- So a decision makes of it what it makes of the table before. -/
theorem settle_chosen (ht : t.Alone b.policy) (decision : Option Address) :
    (((t.choice a b).2.2.after t.during).settle t.done a.client decision).2.store =
      b.store.settle t.done a.client decision := by
  show ((t.choice a b).2.2.after t.during).store.settle t.done a.client decision = _
  obtain hs | hs := store_chosen ht
  · rw [hs]
  · rw [hs, Store.settle_touch]

/-- Whether and for which key a decision is announced does not change. -/
theorem announce_congr {b b' : Balancer} (ha : b'.announces = b.announces) (hc : b'.store.config = b.store.config)
    (client : Ip) (decision : Option Address) : b'.announce client decision = b.announce client decision := by
  rw [announce, announce, ha, hc]

theorem announce_chosen (ht : t.Alone b.policy) (client : Ip) (decision : Option Address) :
    ((t.choice a b).2.2.after t.during).announce client decision = b.announce client decision := by
  refine announce_congr (by simp [Turn.choice]) ?_ client decision
  obtain hs | hs := store_chosen (a := a) ht
  · rw [hs]
  · rw [hs, Store.config_touch]

/-- A failed attempt withdraws the client's backend. -/
theorem store_failed (ht : t.Alone b.policy) : (t.failed a b).2.store = b.store.withdraw a.client := by
  have hafter : (t.failed a b).2.store =
      (((t.choice a b).2.2.after t.during).settle t.done (t.choice a b).2.1.client none).2.store := by
    refine store_after_of_alone fun e he => ?_
    rw [show ((((t.choice a b).2.2.after t.during).fail t.done (t.choice a b).2.1).2.2).policy = b.policy by
      simp [fail, settle, Turn.choice]]
    exact ht e (by simp [he])
  rw [hafter, Turn.choice, client_next, ← Turn.choice, settle_chosen ht]
  rfl

theorem withdrawal_eq (ht : t.Alone b.policy) : t.withdrawal a b = b.announce a.client none := by
  show ((t.choice a b).2.2.after t.during).announce (t.choice a b).2.1.client none = _
  rw [announce_chosen ht, Turn.choice, client_next]

theorem client_failed (t : Turn ε) (a : Attempts) (b : Balancer) : (t.failed a b).1.client = a.client :=
  client_next t.now a (b.after t.before)

theorem announce_failed (ht : t.Alone b.policy) (client : Ip) (decision : Option Address) :
    (t.failed a b).2.announce client decision = b.announce client decision := by
  refine announce_congr (by simp [Turn.failed, Turn.choice, fail, settle]) ?_ client decision
  rw [store_failed ht, Store.config_withdraw]

/-- An attempt that reaches its backend assigns it to the client. -/
theorem succeeded_eq (ht : t.Alone b.policy) {x : Address} (hx : (t.choice a b).1 = some x) :
    (t.succeeded a b).1 = b.announce a.client (some x) ∧
      (t.succeeded a b).2.store = b.store.put t.done a.client x := by
  have hremote : (t.choice a b).2.1.remote = some x := (remote_next t.now a (b.after t.before)).trans hx
  have hclient : (t.choice a b).2.1.client = a.client := client_next t.now a (b.after t.before)
  simp only [Turn.succeeded, succeed, hremote, hclient]
  exact ⟨announce_chosen ht a.client (some x), settle_chosen ht (some x)⟩

/-! ## All attempts -/

/-- What the attempts of a client leave behind from a turn on, at a balancer that nobody else uses the table of: some
failed, and one reached its backend or none did. The cluster is told of each of them. The table is as if only the last
was decided. -/
structure Leaves (turns : Nat → Turn ε) (i : Nat) (client : Ip) (b : Balancer) (r : Outcome ε)
    (failed : List Address) : Prop where
  picks_eq : r.picks = failed ++ r.dialed.backend?.toList
  lost : ∀ j y, failed[j]? = some y → (turns (i + j)).connect y ≠ none
  reached : ∀ x, r.dialed = .connected x → (turns (i + failed.length)).connect x = none
  told_eq : r.told =
    (List.replicate failed.length none ++ r.dialed.backend?.toList.map some).flatMap (b.announce client)
  assigned : ∀ x, r.dialed = .connected x →
    r.balancer.store = b.store.put (turns (i + failed.length)).done client x
  withdrawn : ∀ x why, r.dialed = .exhausted x why → failed ≠ [] ∧ r.balancer.store = b.store.withdraw client

/-- One more failed attempt before others. -/
theorem Leaves.cons {i : Nat} {x : Address} {r : Outcome ε} {failed : List Address} (ht : (turns i).Alone b.policy)
    (hx : (turns i).connect x ≠ none)
    (h : Leaves turns (i + 1) a.client ((turns i).failed a b).2 r failed) :
    Leaves turns i a.client b { r with picks := x :: r.picks, told := (turns i).withdrawal a b ++ r.told }
      (x :: failed) where
  picks_eq := by simp [h.picks_eq]
  lost := by
    rintro (_ | j) y hy
    · obtain rfl : x = y := by simpa using hy
      exact hx
    · have := h.lost j y (by simpa using hy)
      rwa [Nat.add_right_comm] at this
  reached y hy := by
    have := h.reached y hy
    rwa [Nat.add_right_comm] at this
  told_eq := by
    have hannounce : ((turns i).failed a b).2.announce a.client = b.announce a.client :=
      funext (announce_failed ht a.client)
    show (turns i).withdrawal a b ++ r.told = _
    rw [h.told_eq, hannounce, withdrawal_eq ht]
    simp [List.replicate_succ]
  assigned y hy := by
    have := h.assigned y hy
    rw [store_failed ht, Nat.add_right_comm] at this
    exact this.trans (Store.settle_withdraw _ _ (some y) _)
  withdrawn y why hy := by
    have := (h.withdrawn y why hy).2
    rw [store_failed ht] at this
    exact ⟨List.cons_ne_nil _ _, this.trans (Store.settle_withdraw 0 _ none _)⟩

/-- What attempts leave behind, from a turn on. -/
theorem leaves_outcomeAmid (turns : Nat → Turn ε) (i : Nat) (a : Attempts) (b : Balancer)
    (ht : ∀ i, (turns i).Alone b.policy) :
    ∃ failed, Leaves turns i a.client b (outcomeAmid turns i a b) failed := by
  fun_induction outcomeAmid turns i a b with
  | case1 i a b hx =>
    exact ⟨[], rfl, by simp, nofun, rfl, nofun, nofun⟩
  | case2 i a b x hx hc =>
    obtain ⟨htold, hstore⟩ := succeeded_eq (ht i) hx
    refine ⟨[], rfl, by simp, fun y hy => ?_, by simp [Dialed.backend?, htold], fun y hy => ?_, nofun⟩
    · cases hy
      exact hc
    · cases hy
      exact hstore
  | case3 i a b x hx why hc hr r ih =>
    obtain ⟨failed, h⟩ := ih fun j => by rw [policy_failed]; exact ht j
    rw [client_failed] at h
    exact ⟨x :: failed, h.cons (ht i) (by simp [hc])⟩
  | case4 i a b x hx why hc hr =>
    refine ⟨[x], rfl, fun j y hy => ?_, nofun, ?_, nofun, fun y why hy => ⟨by simp, store_failed (ht i)⟩⟩
    · obtain ⟨rfl, rfl⟩ : j = 0 ∧ x = y := by
        cases j <;> simp_all
      simp [hc]
    · simp [Dialed.backend?, withdrawal_eq (ht i)]

theorem store_start (client : Ip) (b : Balancer) : (b.start client).2.store = b.store :=
  store_apply_of_not_usesTable (e := .start client) rfl

theorem leaves_outcomeNew (client : Ip) (ht : ∀ i, (turns i).Alone b.policy) :
    ∃ failed, Leaves turns 0 client b (b.outcomeNew client turns) failed := by
  obtain ⟨failed, h⟩ := leaves_outcomeAmid turns 0 (b.start client).1 (b.start client).2 fun i => by
    rw [policy_start]
    exact ht i
  have hannounce : (b.start client).2.announce client = b.announce client :=
    funext (announce_congr (announces_apply (.start client) b) (congrArg Store.config (store_start client b)) client)
  have htold := h.told_eq
  have hassigned := h.assigned
  have hwithdrawn := h.withdrawn
  rw [client_start, hannounce] at htold
  rw [client_start, store_start] at hassigned hwithdrawn
  exact ⟨failed, h.picks_eq, h.lost, h.reached, htold, hassigned, hwithdrawn⟩

/-- A connection without a choice at most asks the table. -/
theorem outcomeNew_nil (client : Ip) (ht : (turns 0).Alone b.policy) (hnil : b.addresses = []) :
    (b.outcomeNew client turns).picks = [] ∧ (b.outcomeNew client turns).told = [] ∧
      ((b.outcomeNew client turns).balancer.store = b.store ∨
        (b.outcomeNew client turns).balancer.store = b.store.touch client) := by
  have hx : ((turns 0).choice (b.start client).1 (b.start client).2).1 = none :=
    Turn.choice_nil ((start_at client b).list_eq.trans hnil)
  have hbefore : ((b.start client).2.after (turns 0).before).store = b.store := by
    rw [store_after_of_alone, store_start]
    intro e he
    rw [policy_start]
    exact ht e (by simp [he])
  have hstore := store_next (turns 0).now (b.start client).1 ((b.start client).2.after (turns 0).before)
  rw [hbefore, client_start] at hstore
  rw [outcomeNew, outcomeAmid_none hx]
  exact ⟨rfl, rfl, hstore⟩

/-- What is announced of some decisions about a client, of all of them or of none. -/
theorem flatMap_announce (client : Ip) (b : Balancer) (decisions : List (Option Address)) :
    decisions.flatMap (b.announce client) = if b.announces && b.store.config.replicated then
      decisions.map fun d => ⟨b.store.config.key, client, d⟩ else [] := by
  unfold announce
  split
  · rw [List.map_eq_flatMap]
  · simp

/-- What a new connection leaves behind, if nobody else uses the table meanwhile, whatever else happens to the balancer
and whenever an attempt is decided. Of each failed attempt the cluster is told that the client has no backend, and then
of the one that reached its backend that it has that, if the table is shared; nothing else is announced. After a
connection all clients of the network are answered its backend at once; after attempts that all failed none of them is
answered any more; without an address nothing is announced and no entry changes. All entries of other networks stay as
they are in any case, but one: a table that was full and did not have the network loses the entry that was touched
longest ago to a connection. -/
theorem connection_leaves {config : StoreConfig} (h : Store.History) (hstore : b.store = Store.after config h)
    (hroom : 0 < config.capacity) (halone : ∀ i, (turns i).Alone b.policy) (client : Ip) :
    let r := b.outcomeNew client turns
    let s := r.balancer.store
    let told (decisions : List (Option Address)) : List Announcement :=
      if b.announces && config.replicated then decisions.map fun d => ⟨config.key, client, d⟩ else []
    r.toChain = b.dialNew client turns ∧
    (∀ x, r.dialed = .connected x → ∃ failed,
      (r.picks = failed ++ [x] ∧ (∀ j y, failed[j]? = some y → (turns j).connect y ≠ none) ∧
        (turns failed.length).connect x = none) ∧
      r.told = told (List.replicate failed.length none ++ [some x]) ∧
      (∀ c : Ip, c.mask config.bits.toNat = client.mask config.bits.toNat →
        (s.get (turns failed.length).done c).1 = some x) ∧
      (b.store.Held (client.mask config.bits.toNat) ∨ b.store.size < config.capacity →
        s.others client = b.store.others client) ∧
      (¬ b.store.Held (client.mask config.bits.toNat) → b.store.size = config.capacity →
        ∃ e, b.store.held = e :: s.others client ∧
          ∀ y ∈ s.others client, Store.lastTouch config e.client h < Store.lastTouch config y.client h)) ∧
    (∀ x why, r.dialed = .exhausted x why →
      (r.picks ≠ [] ∧ ∀ j y, r.picks[j]? = some y → (turns j).connect y ≠ none) ∧
      r.told = told (List.replicate r.picks.length none) ∧
      (∀ (now : Time) (c : Ip), c.mask config.bits.toNat = client.mask config.bits.toNat →
        (s.get now c).1 = none) ∧
      s.others client = b.store.others client) ∧
    (r.dialed = .noBackend ↔ b.addresses = []) ∧
    (r.dialed = .noBackend → r.picks = [] ∧ r.told = [] ∧ s.held.Perm b.store.held ∧
      s.others client = b.store.others client) := by
  intro r s told
  have hconfig : b.store.config = config := by rw [hstore, Store.config_after]
  have hnetwork {c : Ip} (hc : c.mask config.bits.toNat = client.mask config.bits.toNat) :
      b.store.network c = b.store.network client := by
    rw [Store.network, Store.network, hconfig, hc]
  have hchain : r.toChain = b.dialNew client turns := toChain_outcomeAmid turns 0 _ _
  have hnone : r.dialed = .noBackend ↔ b.addresses = [] := by
    rw [show r.dialed = (b.dialNew client turns).dialed from congrArg Chain.dialed hchain]
    exact dialed_eq_noBackend_iff b client turns
  obtain ⟨failed, hl⟩ := leaves_outcomeNew client halone
  have htold : r.told = told (List.replicate failed.length none ++ r.dialed.backend?.toList.map some) := by
    rw [show r.told = _ from hl.told_eq, flatMap_announce, hconfig]
  refine ⟨hchain, fun x hx => ?_, fun x why hx => ?_, hnone, fun hx => ?_⟩
  · have hs : s = b.store.put (turns failed.length).done client x := by
      rw [show s = _ from hl.assigned x hx, Nat.zero_add]
    have hroom' : 0 < b.store.config.capacity := by rwa [hconfig]
    refine ⟨failed, ⟨?_, fun j y hy => ?_, ?_⟩, ?_, fun c hc => ?_, ?_, ?_⟩
    · rw [show r.picks = _ from hl.picks_eq, hx]
      rfl
    · exact Nat.zero_add j ▸ hl.lost j y hy
    · exact Nat.zero_add failed.length ▸ hl.reached x hx
    · rw [htold, hx]
      rfl
    · rw [hs]
      exact Store.answer_put hroom' (hnetwork hc)
    · rw [hs, hstore]
      exact Store.others_put_of_room hroom
    · rw [hs, hstore]
      exact Store.others_put_of_full hroom
  · obtain ⟨hfailed, hs⟩ := hl.withdrawn x why hx
    have hpicks : r.picks = failed := by
      rw [show r.picks = _ from hl.picks_eq, hx]
      exact List.append_nil failed
    refine ⟨⟨hpicks ▸ hfailed, fun j y hy => ?_⟩, ?_, fun now c hc => ?_, ?_⟩
    · rw [hpicks] at hy
      exact Nat.zero_add j ▸ hl.lost j y hy
    · rw [htold, hx, hpicks]
      exact congrArg told (List.append_nil _)
    · rw [show s = _ from hs]
      exact Store.answer_withdraw (hnetwork hc)
    · rw [show s = _ from hs]
      exact Store.others_withdraw client b.store
  · obtain ⟨hpicks, htold, hs | hs⟩ := outcomeNew_nil client (halone 0) (hnone.1 hx)
    · rw [show s = _ from hs]
      exact ⟨hpicks, htold, .refl _, rfl⟩
    · rw [show s = _ from hs, hstore]
      exact ⟨hpicks, htold, Store.touch_perm client, Store.others_touch client _⟩

end Amid

/-! A full table of the two neighbouring networks, when a client of a third one comes. Its first backend cannot be reached,
and before that is known a new list is installed. -/

def fullConfig : StoreConfig :=
  { kind := .memory, bits := 24, elements := 2, seconds := 60, key := ⟨7, 9⟩ }

def neighbours : Store.History :=
  [.put (.ofOctets 10 0 2 1) homeBackend, .wait second, .put (.ofOctets 10 0 1 1) otherBackend]

def sharedBalancer : Balancer where
  policy := .ring
  failover := true
  announces := true
  store := Store.after fullConfig neighbours
  addresses := [otherBackend, homeBackend]
  chance := .ofSeed 7

def secondReached (i : Nat) : Turn Unit where
  now := (2 + i) * second
  connect x := if x = otherBackend then some () else none
  during := if i = 0 then [.install [laterBackend]] else []
  done := (3 + i) * second

theorem alone_secondReached (policy : Policy) (i : Nat) : (secondReached i).Alone policy := by
  intro e he
  simp only [secondReached, List.append_nil, List.nil_append] at he
  split at he
  · obtain rfl := List.mem_singleton.1 he
    rfl
  · cases he

/-- The cluster is told of both attempts, a client of the same network is answered the second backend, and of the
neighbours the one touched longest ago is gone. -/
theorem connection_leaves_after_failure :
    let r := sharedBalancer.outcomeNew (.ofOctets 10 0 0 7) secondReached
    r.told = [⟨⟨7, 9⟩, .ofOctets 10 0 0 7, none⟩, ⟨⟨7, 9⟩, .ofOctets 10 0 0 7, some homeBackend⟩] ∧
    (r.balancer.store.get (4 * second) (.ofOctets 10 0 0 9)).1 = some homeBackend ∧
    r.balancer.store.others (.ofOctets 10 0 0 7) = [⟨.ofOctets 10 0 2 0, homeBackend, second⟩] := by
  intro r
  have hstore : sharedBalancer.store = Store.after fullConfig neighbours := rfl
  obtain ⟨-, hconnected, -⟩ := connection_leaves neighbours hstore (by decide)
    (alone_secondReached sharedBalancer.policy) (.ofOctets 10 0 0 7)
  obtain ⟨failed, ⟨hpicks, -⟩, htold, hget, -, hfull⟩ := hconnected homeBackend (by decide +kernel)
  obtain rfl : failed = [otherBackend] :=
    List.append_cancel_right (hpicks.symm.trans (by decide +kernel : r.picks = [otherBackend] ++ [homeBackend]))
  have hheld : sharedBalancer.store.held =
      [⟨.ofOctets 10 0 1 0, otherBackend, 0⟩, ⟨.ofOctets 10 0 2 0, homeBackend, second⟩] := by decide
  have hnew : ¬ sharedBalancer.store.Held (.ofOctets 10 0 0 0) := by
    simp [Store.Held, hheld, Ip.ofOctets]
  obtain ⟨e, he, -⟩ := hfull hnew (by decide)
  exact ⟨htold.trans (by decide), hget _ (by decide), (List.cons.inj (hheld.symm.trans he)).2.symm⟩

end Balancer

end AffinityRelay
