import AffinityRelay.Proofs.Endpoint.Upkeep

/-!
# Passes over the endpoints

* `Upkeep.asks`: what the task asks for at an act, as the history has it. It asks for the backends of an endpoint that
  is due at its turn, and for nothing else (`Upkeep.asked_reached`);
* `Upkeep.over_step`: what an act makes of the number of turns that are over;
* `Upkeep.Passed`: a pass up to some turn, with the moment of each turn and what was asked for. A task that makes a pass
  has come to where it is in that way (`Upkeep.passed_reached`);
* `Upkeep.runs_settle`: what `Refresher.settle` does at once is some of the acts;
* `Upkeep.refreshed_as_needed`: what all that comes to.
-/

namespace AffinityRelay

namespace Upkeep

variable {σ : Type} {look : Lookup σ}

/-- The task does not run yet, and no endpoint was used. -/
structure New (start : Upkeep σ) : Prop where
  task : start.task = none
  unused : ∀ e ∈ start.endpoints, e.used = false

/-- The backends of an endpoint. -/
def hosts (start : Upkeep σ) (i : Nat) : List HostPort :=
  start.endpoints[i]?.elim [] Endpoint.specs

/-- What is asked for at an act: the backends of an endpoint that is due at its turn. -/
def asks (look : Lookup σ) (start : Upkeep σ) (h : List (Act σ)) (a : Act σ) : List HostPort :=
  match a, (reached look start h).turn? with
  | .go, some i => if Due look start i h then hosts start i else []
  | _, _ => []

section Turns

variable {start x : Upkeep σ} {h : List (Act σ)} {i k : Nat}

theorem getElem?_reached (look : Lookup σ) (start : Upkeep σ) (i : Nat) : ∀ h : List (Act σ),
    ((reached look start h).endpoints[i]?).isSome = (start.endpoints[i]?).isSome
  | [] => rfl
  | a :: past => by rw [reached, getElem?_step, Option.isSome_map, getElem?_reached look start i past]

theorem specs_reached {e : Endpoint} (hnew : start.New) (he : (reached look start h).endpoints[i]? = some e) :
    e.specs = hosts start i := by
  obtain ⟨⟨e₀, he₀, hspecs⟩, -⟩ := marks_reached hnew.unused he
  rw [hspecs, hosts, he₀]
  rfl

theorem asks_of_turn? (hturn : (reached look start h).turn? = some i) :
    asks look start h .go = if Due look start i h then hosts start i else [] := by
  simp only [asks, hturn]

theorem asks_of_not_turn {a : Act σ} (hturn : a = .go → (reached look start h).turn? = none) :
    asks look start h a = [] := by
  cases a with
  | go => simp only [asks, hturn rfl]
  | _ => rfl

/-- What was asked for grows by what the history says that an act asks for. -/
theorem asked_reached (hnew : start.New) (h : List (Act σ)) (a : Act σ) :
    (reached look start (a :: h)).asked = (reached look start h).asked ++ asks look start h a := by
  by_cases hturn : a = .go → (reached look start h).turn? = none
  · rw [asks_of_not_turn hturn, List.append_nil]
    exact asked_step fun hgo i hi => absurd (hi.symm.trans (hturn hgo)) (Option.some_ne_none i)
  · obtain ⟨rfl, hsome⟩ := Classical.not_imp.1 hturn
    obtain ⟨i, hi⟩ := Option.ne_none_iff_exists'.1 hsome
    rw [asks_of_turn? hi, reached]
    cases he : (reached look start h).endpoints[i]? with
    | none =>
      have hnone : start.endpoints[i]? = none := by
        rw [← Option.not_isSome_iff_eq_none, ← getElem?_reached look start i h, he]
        simp
      have hquiet : ((reached look start h).step look .go).asked = (reached look start h).asked :=
        asked_step fun _ j hj => Option.some.inj (hi.symm.trans hj) ▸ he
      rw [hquiet, hosts, hnone, Option.elim_none, ite_self, List.append_nil]
    | some e =>
      rw [asked_turn hi he, specs_reached hnew he]
      simp only [needsRefresh_iff hnew.unused he]

/-- An act begins a pass, takes a turn of one, or leaves the pass as it is. After the last turn the pass ends. -/
theorem over_step (look : Lookup σ) (x : Upkeep σ) (a : Act σ) :
    ((x.step look a).over? = x.over? ∧ (a = .go → x.turn? = none)) ∨
    (∃ why, a = .wake why ∧ x.over? = none ∧ (x.step look a).over? = some 0) ∨
    (∃ i, a = .go ∧ x.turn? = some i ∧ x.over? = some i ∧
      (x.step look a).over? = x.endpoints[i]?.map fun _ => i + 1) := by
  cases a with
  | advance | rename | use | arrive | set | hangUp => exact .inl ⟨rfl, fun h => by cases h⟩
  | begin interval =>
    refine .inl ⟨?_, fun h => by cases h⟩
    simp only [step]
    split
    · rename_i htask
      cases hb : Refresher.begin? interval x.now x.signal <;> simp [over?, htask]
    · rfl
  | wake why =>
    simp only [step, wake]
    split
    · rename_i r htask
      split
      · cases hheed : r.heed x.now x.signal why with
        | none => exact .inl ⟨by simp [over?, htask], fun h => by cases h⟩
        | some r' => exact .inr (.inl ⟨why, rfl, by simp [over?, htask], by simp [over?]⟩)
      · exact .inl ⟨rfl, fun h => by cases h⟩
    · exact .inl ⟨rfl, fun h => by cases h⟩
  | go =>
    have hwent := went look x
    generalize x.step look .go = y at hwent ⊢
    cases hwent with
    | idle htask => exact .inl (by obtain htask | ⟨r, htask⟩ := htask <;> simp [turn?, htask])
    | installed htask => exact .inl (by simp [over?, turn?, htask])
    | @ended r i htask he | @passed r i _ htask he | @asked r i _ htask he =>
      exact .inr (.inr ⟨i, rfl, by simp [turn?, htask], by simp [over?, htask], by simp [over?, he]⟩)

/-- So many turns of a pass are over: it began, then each of these endpoints had its turn, one after another, and just
the backends of those that were due at that moment were asked for. -/
def Passed (look : Lookup σ) (start : Upkeep σ) (k : Nat) (h : List (Act σ)) : Prop :=
  ∃ (why : Refresher.Reason) (past : List (Act σ)) (moment : Nat → List (Act σ)),
    (.wake why :: past) <:+ h ∧ (reached look start past).over? = none ∧
    (∀ m, (.wake why :: past) <:+ m → m <:+ h → (reached look start m).over?.isSome) ∧
    (∀ i < k, (.wake why :: past) <:+ moment i ∧ (.go :: moment i) <:+ h ∧
      (reached look start (moment i)).turn? = some i) ∧
    (reached look start h).asked = (reached look start past).asked ++
      (List.range k).flatMap fun i => if Due look start i (moment i) then hosts start i else []

/-- The pass goes on: another turn was taken, or none. -/
theorem Passed.cons {a : Act σ} (hnew : start.New) (hpassed : Passed look start i h)
    (hover : (reached look start (a :: h)).over? = some k)
    (hturn : (k = i ∧ asks look start h a = []) ∨
      k = i + 1 ∧ a = .go ∧ (reached look start h).turn? = some i) :
    Passed look start k (a :: h) := by
  obtain ⟨why, past, moment, hbegan, hbefore, hduring, hmoments, hasked⟩ := hpassed
  have hlong : h <:+ a :: h := List.suffix_cons a h
  have hduring' (m) (hm : (.wake why :: past) <:+ m) (hma : m <:+ a :: h) : (reached look start m).over?.isSome := by
    obtain rfl | hmh := List.suffix_cons_iff.1 hma
    · rw [hover, Option.isSome_some]
    · exact hduring m hm hmh
  obtain ⟨rfl, hquiet⟩ | ⟨rfl, rfl, hi⟩ := hturn
  · refine ⟨why, past, moment, hbegan.trans hlong, hbefore, hduring', fun j hj => ?_, ?_⟩
    · obtain ⟨hafter, hmoment, hj⟩ := hmoments j hj
      exact ⟨hafter, hmoment.trans hlong, hj⟩
    · rw [asked_reached hnew, hquiet, List.append_nil, hasked]
  · refine ⟨why, past, Function.update moment i h, hbegan.trans hlong, hbefore, hduring', fun j hj => ?_, ?_⟩
    · obtain rfl | hne := eq_or_ne j i
      · rw [Function.update_self]
        exact ⟨hbegan, List.suffix_rfl, hi⟩
      · obtain ⟨hafter, hmoment, hj⟩ := hmoments j (by omega)
        rw [Function.update_of_ne hne]
        exact ⟨hafter, hmoment.trans hlong, hj⟩
    · rw [asked_reached hnew, asks_of_turn? hi, hasked, List.range_succ, List.flatMap_append, List.append_assoc]
      congr 2
      · refine List.flatMap_congr fun j hj => ?_
        rw [Function.update_of_ne (List.mem_range.1 hj).ne]
      · simp

/-- By induction on the history: an act begins a pass, or the pass that is under way goes on. -/
theorem passed_reached (hnew : start.New) : ∀ {k : Nat} (h : List (Act σ)),
    (reached look start h).over? = some k → Passed look start k h
  | k, [], hover => by simp [reached, over?, hnew.task] at hover
  | k, a :: past, hover => by
    obtain ⟨hsame, hturn⟩ | ⟨why, rfl, hbefore, hzero⟩ | ⟨i, rfl, hturn, hi, hnext⟩ :=
      over_step look (reached look start past) a
    · exact (passed_reached hnew past (hsame.symm.trans hover)).cons hnew hover
        (.inl ⟨rfl, asks_of_not_turn hturn⟩)
    · -- The pass begins here.
      obtain rfl : k = 0 := Option.some.inj (hover.symm.trans hzero)
      refine ⟨why, past, fun _ => [], List.suffix_rfl, hbefore, fun m hm hma => ?_, by simp, ?_⟩
      · obtain rfl := hm.eq_of_length_le hma.length_le
        rw [hover, Option.isSome_some]
      · rw [asked_reached hnew]
        simp [asks]
    · refine (passed_reached hnew past hi).cons hnew hover (.inr ⟨?_, rfl, hturn⟩)
      rw [show (reached look start (.go :: past)).over? = _ from hnext, Option.map_eq_some_iff] at hover
      obtain ⟨-, -, rfl⟩ := hover
      rfl

/-- A pass ends when every endpoint has had its turn. -/
theorem length_le_of_ended {a : Act σ} (hover : (reached look start h).over? = some k)
    (hended : (reached look start (a :: h)).over? = none) : start.endpoints.length ≤ k := by
  obtain ⟨hsame, -⟩ | ⟨why, rfl, hbefore, -⟩ | ⟨i, rfl, -, hi, hnext⟩ :=
    over_step look (reached look start h) a
  · rw [reached, hsame, hover] at hended
    cases hended
  · rw [hover] at hbefore
    cases hbefore
  · obtain rfl : i = k := Option.some.inj (hi.symm.trans hover)
    rw [reached, hnext, Option.map_eq_none_iff, ← Option.not_isSome_iff_eq_none, getElem?_reached,
      Option.not_isSome_iff_eq_none] at hended
    exact List.getElem?_eq_none_iff.1 hended

end Turns

/-! ## What the task does at once -/

section Runs

variable {x y z : Upkeep σ} {r : Refresher}

/-- The task does this on its own. -/
def Runs (look : Lookup σ) (x y : Upkeep σ) : Prop :=
  ∃ acts : List (Act σ), (∀ a ∈ acts, a = .go ∨ ∃ why, a = .wake why) ∧ reached look x acts = y

theorem reached_append (x : Upkeep σ) (h : List (Act σ)) : ∀ later : List (Act σ),
    reached look x (later ++ h) = reached look (reached look x h) later
  | [] => rfl
  | a :: later => by rw [List.cons_append, reached, reached_append x h later, reached]

theorem Runs.trans (hxy : Runs look x y) (hyz : Runs look y z) : Runs look x z := by
  obtain ⟨acts, hacts, rfl⟩ := hxy
  obtain ⟨more, hmore, rfl⟩ := hyz
  exact ⟨more ++ acts, fun a ha => (List.mem_append.1 ha).elim (hmore a) (hacts a), reached_append x acts more⟩

theorem Runs.go (look : Lookup σ) (x : Upkeep σ) : Runs look x (x.go look) :=
  ⟨[.go], by simp, rfl⟩

theorem Runs.wake (look : Lookup σ) (why : Refresher.Reason) (x : Upkeep σ) : Runs look x (x.wake why) :=
  ⟨[.wake why], by simp, rfl⟩

/-- From the turn of an endpoint on, the rest of a pass. -/
theorem runs_refreshAll (look : Lookup σ) (r : Refresher) :
    ∀ (rest : List Endpoint) {x : Upkeep σ} {before : List Endpoint},
    x.task = some (r, .turn before.length) → x.endpoints = before ++ rest →
    ∃ asked, Runs look x { x with
      endpoints := before ++ (refreshAll look x.now rest x.names).1
      names := (refreshAll look x.now rest x.names).2
      asked
      task := some (r, .waiting) }
  | [], x, before, htask, hends => by
    refine ⟨x.asked, ?_⟩
    have hgo : x.go look = { x with task := some (r, .waiting) } := by
      simp [Upkeep.go, htask, hends]
    have hruns := Runs.go look x
    rw [hgo] at hruns
    simpa [refreshAll, ← hends] using hruns
  | e :: es, x, before, htask, hends => by
    have he : x.endpoints[before.length]? = some e := by simp [hends]
    by_cases hneeds : e.needsRefresh x.now
    · -- It is looked up, and takes what was found.
      let p := gather look.recorded e.specs (x.names, x.asked)
      let found := (e.install x.now p.1).2
      let y : Upkeep σ := { x with
        endpoints := (before ++ [found]) ++ es
        names := p.2.1
        asked := p.2.2
        task := some (r, .turn (before ++ [found]).length) }
      have htwo : (x.go look).go look = y := by
        simp [Upkeep.go, htask, hneeds, change, hends, y, p, found, List.modify_eq_take_drop]
      have hfirst : Runs look x y := htwo ▸ (Runs.go look x).trans (.go look _)
      have hturn : y.task = some (r, .turn (before ++ [found]).length) := rfl
      obtain ⟨asked, hrest⟩ := runs_refreshAll look r es hturn rfl
      refine ⟨asked, ?_⟩
      simpa [refreshAll, hneeds, Endpoint.resolve, gather_recorded, y, p, found] using hfirst.trans hrest
    · let y : Upkeep σ := { x with task := some (r, .turn (before ++ [e]).length) }
      have hone : x.go look = y := by
        simp [Upkeep.go, htask, he, hneeds, y]
      have hfirst : Runs look x y := hone ▸ Runs.go look x
      have hturn : y.task = some (r, .turn (before ++ [e]).length) := rfl
      obtain ⟨asked, hrest⟩ := runs_refreshAll look r es hturn (by simp [y, hends])
      refine ⟨asked, ?_⟩
      simpa [refreshAll, hneeds, y] using hfirst.trans hrest

/-- All that the task does at a moment. -/
theorem runs_settle {now : Time} {w : Watch} {r : Refresher} {es : List Endpoint} {s : σ} : ∀ {x : Upkeep σ},
    x.now = now → x.signal = w → x.endpoints = es → x.names = s → x.task = some (r, .waiting) →
    ∃ asked, Runs look x { x with
      endpoints := (r.settle look now w es s).2.1
      names := (r.settle look now w es s).2.2
      asked
      task := (r.settle look now w es s).1.map (·, .waiting) } := by
  fun_induction Refresher.settle look now w r es s with
  | case1 r es s hr =>
    rintro x rfl rfl rfl rfl htask
    refine ⟨x.asked, [], by simp, ?_⟩
    simp [reached, ← htask]
  | case2 r es s why hr hh =>
    rintro x rfl rfl rfl rfl htask
    refine ⟨x.asked, ?_⟩
    have hwake : x.wake why = { x with task := none } := by
      simp [Upkeep.wake, htask, Refresher.mayWake_of_reason hr, hh]
    exact hwake ▸ Runs.wake look why x
  | case3 r es s why hr after hh pass =>
    rename_i ih
    rintro x rfl rfl rfl rfl htask
    have hwake : x.wake why = { x with task := some (after, .turn 0) } := by
      simp [Upkeep.wake, htask, Refresher.mayWake_of_reason hr, hh]
    have hfirst : Runs look x { x with task := some (after, .turn 0) } := hwake ▸ Runs.wake look why x
    have hturn : ({ x with task := some (after, .turn 0) } : Upkeep σ).task =
        some (after, .turn ([] : List Endpoint).length) := rfl
    obtain ⟨asked, hpass⟩ := runs_refreshAll look after x.endpoints hturn rfl
    obtain ⟨asked', hrest⟩ := @ih { x with endpoints := pass.1, names := pass.2, asked, task := some (after, .waiting) }
      rfl rfl rfl rfl rfl
    exact ⟨asked', (hfirst.trans hpass).trans hrest⟩

end Runs

/-! ## The task over a whole history -/

section Whole

variable {start x : Upkeep σ} {h : List (Act σ)} {r : Refresher} {why : Refresher.Reason}

/-- A task that ended stays so until one begins. -/
theorem task_eq_none_of_ended (htask : (reached look start h).task = none) : ∀ later : List (Act σ),
    (∀ interval, .begin interval ∉ later) → (reached look start (later ++ h)).task = none
  | [], _ => htask
  | a :: later, hnone => by
    have hbefore := task_eq_none_of_ended htask later fun interval hmem =>
      hnone interval (List.mem_cons_of_mem a hmem)
    cases a with
    | begin interval => exact absurd List.mem_cons_self (hnone interval)
    | advance | rename | use | arrive | set | hangUp => exact hbefore
    | wake why => simp [reached, step, wake, hbefore]
    | go => simp [reached, step, go, hbefore]

theorem asked_eq_of_ended (htask : (reached look start h).task = none) : ∀ later : List (Act σ),
    (∀ interval, .begin interval ∉ later) → (reached look start (later ++ h)).asked = (reached look start h).asked
  | [], _ => rfl
  | a :: later, hnone => by
    have hnone' (interval : Time) (hmem : .begin interval ∈ later) : False :=
      hnone interval (List.mem_cons_of_mem a hmem)
    have hbefore := task_eq_none_of_ended htask later hnone'
    refine (asked_step fun _ => ?_).trans (asked_eq_of_ended htask later hnone')
    simp [turn?, hbefore]

/-- A task that wakes up ends if it is to stop. -/
theorem wake_of_stop (htask : x.task = some (r, .waiting)) (hwhy : r.mayWake x.now x.signal why)
    (hstop : x.signal.value = true) : x.wake why = { x with task := none } := by
  simp [wake, htask, hwhy, Refresher.heed, hstop]

/-- Else it begins a pass, unless the signal can never be set any more. -/
theorem over?_wake (htask : x.task = some (r, .waiting)) (hwhy : r.mayWake x.now x.signal why)
    (hstop : x.signal.value = false) (hheld : why ≠ .hangup) : (x.wake why).over? = some 0 := by
  cases why with
  | hangup => exact absurd rfl hheld
  | signal | timer => simp [wake, htask, hwhy, Refresher.heed, hstop, over?]

end Whole

/-- At each turn of an endpoint the task asks for its backends just if it is due: if it was used since addresses were
last found for it, or these are no longer good. It asks for nothing else. A pass takes the turns of the endpoints one
after another, and does not end before all have had theirs. An endpoint for which addresses were found is not due, as
long as it is not used and they are good; one that is due stays so, with the addresses that it had, until some are
found, and until then it is asked for at every turn. A task that wakes up and is to stop makes no pass, and asks for
nothing any more. If it wakes up and is not to stop it makes one. And what the task does at a moment is a history of
this kind. -/
theorem refreshed_as_needed (look : Lookup σ) (start : Upkeep σ) (hnew : start.New) :
    (∀ h a, (reached look start (a :: h)).asked = (reached look start h).asked ++ asks look start h a) ∧
    (∀ h k, (reached look start h).over? = some k → Passed look start k h) ∧
    (∀ h a k, (reached look start h).over? = some k → (reached look start (a :: h)).over? = none →
      start.endpoints.length ≤ k) ∧
    (∀ h i a, (reached look start h).supplies i a = true → ∀ later, (∀ b ∈ later, b.uses i = false) →
      let y := reached look start (later ++ a :: h)
      y.now ≤ (reached look start h).now + 300 * second →
      ∀ e, y.endpoints[i]? = some e → e.needsRefresh y.now = false) ∧
    (∀ h i e, Due look start i h → (reached look start h).endpoints[i]? = some e →
      ∀ later, Unsupplied look start i h later →
      let y := reached look start (later ++ h)
      (y.turn? = some i → asks look start (later ++ h) .go = e.specs) ∧
      ∃ e', y.endpoints[i]? = some e' ∧ e'.needsRefresh y.now = true ∧
        e'.balancer.addresses = e.balancer.addresses) ∧
    (∀ h r why, (reached look start h).task = some (r, .waiting) →
      r.mayWake (reached look start h).now (reached look start h).signal why = true →
      ((reached look start h).signal.value = true → ∀ later, (∀ interval, .begin interval ∉ later) →
        let y := reached look start (later ++ .wake why :: h)
        y.task = none ∧ y.asked = (reached look start h).asked) ∧
      ((reached look start h).signal.value = false → why ≠ .hangup →
        (reached look start (.wake why :: h)).over? = some 0)) ∧
    (∀ h r, (reached look start h).task = some (r, .waiting) →
      let x := reached look start h
      let done := r.settle look x.now x.signal x.endpoints x.names
      ∃ asked, Runs look x
        { x with endpoints := done.2.1, names := done.2.2, asked, task := done.1.map (·, .waiting) }) := by
  refine ⟨asked_reached hnew, fun h k => passed_reached hnew h, fun h a k => length_le_of_ended, ?_, ?_, ?_, ?_⟩
  · intro h i a hgiven later hunused y hnow e he
    obtain ⟨hused, hgood⟩ := not_due_after hgiven later hunused
    have hdue : ¬ Due look start i (later ++ a :: h) := by
      rintro (h | h)
      · rw [hused] at h
        cases h
      · exact absurd (hnow.trans hgood) (Nat.not_le_of_lt h)
    exact Bool.eq_false_iff.2 ((needsRefresh_iff hnew.unused he).not.2 hdue)
  · intro h i e hdue he later hnone y
    obtain ⟨hstill, e', he', haddresses⟩ := due_after hdue he later hnone
    refine ⟨fun hturn => ?_, e', he', (needsRefresh_iff hnew.unused he').2 hstill, haddresses⟩
    rw [asks_of_turn? hturn, if_pos hstill, specs_reached hnew he]
  · intro h r why htask hwhy
    refine ⟨fun hstop later hnone => ?_, fun hstop hheld => over?_wake htask hwhy hstop hheld⟩
    have hended : reached look start (.wake why :: h) = { reached look start h with task := none } :=
      wake_of_stop htask hwhy hstop
    refine ⟨task_eq_none_of_ended (by rw [hended]) later hnone, ?_⟩
    exact (asked_eq_of_ended (by rw [hended]) later hnone).trans (by rw [hended])
  · exact fun h r htask => runs_settle rfl rfl rfl rfl htask

/-! One of two endpoints is found in the first pass, and the other is not. The signal is set, not to stop, which makes
another pass, and then to stop. -/

def twoEndpoints : Upkeep HostTable where
  endpoints := [.create [⟨"b", 80⟩] { chance := .ofSeed 1 } 0, .create [⟨"c", 81⟩] { chance := .ofSeed 2 } 0]
  names := Service.soleHost
  now := 0

/-- Up to where the first endpoint is given its address. -/
def firstTurn : List (Act HostTable) :=
  [.go, .wake .timer, .advance second, .begin (60 * second)]

/-- On to the turn of the second endpoint in the next pass. -/
def secondPass : List (Act HostTable) :=
  [.go, .wake .signal, .set false, .go, .go, .go]

/-- The task after two passes. -/
def betweenPasses : Refresher where
  interval := 60 * second
  due := 61 * second
  watcher := ⟨1⟩
  interval_pos := by decide

theorem refreshed_as_needed_partly :
    let look := HostTable.look
    let x := reached look twoEndpoints (secondPass ++ .go :: firstTurn)
    let y := reached look twoEndpoints (.go :: .go :: .go :: secondPass ++ .go :: firstTurn)
    twoEndpoints.New ∧ x.asked = [⟨"b", 80⟩, ⟨"c", 81⟩] ∧
      (∀ e, x.endpoints[0]? = some e → e.needsRefresh x.now = false) ∧
      (∃ e, x.endpoints[1]? = some e ∧ e.needsRefresh x.now = true ∧ e.balancer.addresses = []) ∧
      y.asked = [⟨"b", 80⟩, ⟨"c", 81⟩, ⟨"c", 81⟩] ∧
      ((y.step look (.set true)).step look (.wake .signal)).task.isNone := by
  intro look x y
  have hnew : twoEndpoints.New := ⟨rfl, by simp [twoEndpoints, Endpoint.create]⟩
  obtain ⟨-, -, -, hfound, hnotFound, hstop, -⟩ := refreshed_as_needed look twoEndpoints hnew
  refine ⟨hnew, by decide +kernel, hfound firstTurn 0 .go (by decide +kernel) secondPass ?_ (by decide +kernel), ?_,
    by decide +kernel, ?_⟩
  · simp [secondPass, Act.uses]
  · have hnone : Unsupplied look twoEndpoints 1 (.go :: firstTurn) secondPass := by
      intro m a hm
      simp only [secondPass, List.suffix_cons_iff, List.suffix_nil, List.cons.injEq, reduceCtorEq, or_false] at hm
      obtain ⟨rfl, rfl⟩ | ⟨rfl, rfl⟩ | ⟨rfl, rfl⟩ | ⟨rfl, rfl⟩ | ⟨rfl, rfl⟩ | ⟨rfl, rfl⟩ := hm <;> decide +kernel
    have hbefore : (reached look twoEndpoints (.go :: firstTurn)).endpoints[1]?.map (·.balancer.addresses) =
        some [] := by decide +kernel
    obtain ⟨e, he, hempty⟩ := Option.map_eq_some_iff.1 hbefore
    obtain ⟨-, e', he', hneeds, haddresses⟩ := hnotFound (.go :: firstTurn) 1 e (by decide +kernel) he secondPass hnone
    exact ⟨e', he', hneeds, haddresses.trans hempty⟩
  · let past : List (Act HostTable) := .set true :: .go :: .go :: .go :: secondPass ++ .go :: firstTurn
    have hwaits : (reached look twoEndpoints past).task = some (betweenPasses, .waiting) := by decide +kernel
    have hended := (hstop past betweenPasses .signal hwaits (by decide +kernel)).1 (by decide +kernel) []
      fun _ => List.not_mem_nil
    exact Option.isNone_iff_eq_none.2 hended.1

/-- From the turn of the second endpoint on, the rest of the first pass. To look that endpoint up takes 301 seconds. -/
def slowPass : List (Act HostTable) :=
  [.go, .go, .advance (301 * second), .go]

/-- On to the end of the first pass, after which 301 seconds go by. -/
def longWait : List (Act HostTable) :=
  [.advance (301 * second), .go, .go, .go]

/-- The first endpoint is given its address in a pass and is not used after that. Once the pass is over, it is to be
looked up again: the pass was so slow that the address is no longer good. So it is without a slow pass, after a while
in which no other pass begins. -/
theorem due_after_slow_pass :
    let look := HostTable.look
    let given := reached look twoEndpoints firstTurn
    twoEndpoints.New ∧ given.over? = some 1 ∧ given.supplies 0 .go = true ∧
      ∀ later ∈ [slowPass, longWait], (later.any fun a => a.uses 0) = false ∧
        let y := reached look twoEndpoints (later ++ .go :: firstTurn)
        y.task.map Prod.snd = some .waiting ∧ ∃ e, y.endpoints[0]? = some e ∧ e.needsRefresh y.now = true := by
  intro look given
  refine ⟨⟨rfl, by simp [twoEndpoints, Endpoint.create]⟩, by decide +kernel, by decide +kernel, ?_⟩
  simp only [List.forall_mem_cons, List.not_mem_nil, false_implies, implies_true, and_true]
  refine ⟨⟨by decide +kernel, by decide +kernel, ?_⟩, by decide +kernel, by decide +kernel, ?_⟩
  · exact (Option.any_eq_true _ _).1 (by decide +kernel)
  · exact (Option.any_eq_true _ _).1 (by decide +kernel)

end Upkeep

end AffinityRelay
