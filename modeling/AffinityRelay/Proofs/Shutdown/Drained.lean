import Mathlib.Data.List.Infix
import Mathlib.Data.List.Nodup
import AffinityRelay.Shutdown.Drain

/-!
# No wait for the last bridge misses its notice

Guards are taken and dropped, each of which counts one bridge; who drops the last one gives notice later; and waits look,
lie down, wake up and give up, all in any order.

* `Drain.Moved`: what one action can do to a wait (`moved_of_step`);
* `Drain.Attentive`: a wait that lies has been given notice since it took its ticket, or a bridge is there, or someone
  owes notice. Nothing that a wait does changes that (`Attentive.moved`), and nothing that is done to the count
  (`Attentive.stir`);
* `Drain.Guarded`: a drain with the guards that are held and those whose droppers owe notice. What every act keeps is
  `Guarded.Sound` (`Sound.step`), and so every history does (`sound_reached`);
* `Drain.waits_end_when_drained`: what that comes to.
-/

namespace AffinityRelay.Drain

/-! ## One wait -/

/-- What one action can do to a wait. -/
inductive Moved (now : Time) (d : Drain) : Wait → Wait → Prop where
  | nothing (w : Wait) : Moved now d w w
  | drained {deadline : Time} {ticket : Nat} (active : d.active = 0) :
    Moved now d ⟨deadline, .looking ticket⟩ ⟨deadline, .finished true⟩
  | lain {deadline : Time} {ticket : Nat} (active : d.active ≠ 0) :
    Moved now d ⟨deadline, .looking ticket⟩ ⟨deadline, .lying ticket⟩
  | woken {deadline : Time} {ticket : Nat} (told : ticket < d.notices) :
    Moved now d ⟨deadline, .lying ticket⟩ ⟨deadline, .looking d.notices⟩
  | late {deadline : Time} {ticket : Nat} (elapsed : deadline ≤ now.tick) :
    Moved now d ⟨deadline, .lying ticket⟩ ⟨deadline, .finished false⟩

variable {now : Time} {d d' : Drain} {w w' : Wait}

theorem moved_lookAt (now : Time) (d : Drain) : ∀ w, Moved now d w (lookAt d.active w)
  | ⟨_, .looking _⟩ => by
    simp only [lookAt]
    split
    · rename_i h
      exact .drained h
    · rename_i h
      exact .lain h
  | ⟨_, .lying _⟩ | ⟨_, .finished _⟩ => .nothing _

theorem moved_wakeUp (now : Time) (d : Drain) : ∀ w, Moved now d w (wakeUp d.notices w)
  | ⟨_, .lying _⟩ => by
    simp only [wakeUp]
    split
    · rename_i h
      exact .woken h
    · exact .nothing _
  | ⟨_, .looking _⟩ | ⟨_, .finished _⟩ => .nothing _

theorem moved_giveUp (now : Time) (d : Drain) : ∀ w, Moved now d w (giveUp now w)
  | ⟨_, .lying _⟩ => by
    simp only [giveUp]
    split
    · rename_i h
      exact .late h
    · exact .nothing _
  | ⟨_, .looking _⟩ | ⟨_, .finished _⟩ => .nothing _

theorem moved_of_modify {f : Wait → Wait} (hf : ∀ w, Moved now d w (f w)) {i j : Nat}
    (h : (d.waits.modify j f)[i]? = some w') : ∃ w, d.waits[i]? = some w ∧ Moved now d w w' := by
  rw [List.getElem?_modify] at h
  obtain ⟨w, hw, rfl⟩ := Option.map_eq_some_iff.1 h
  refine ⟨w, hw, ?_⟩
  split
  · exact hf w
  · exact .nothing w

/-- After one action a wait is what it can have come to, or it has just arrived. -/
theorem moved_of_step {action : Action} {i : Nat} (h : (d.step now action).waits[i]? = some w') :
    (∃ w, d.waits[i]? = some w ∧ Moved now d w w') ∨
      d.waits[i]? = none ∧ ∃ deadline, w' = ⟨deadline, .looking d.notices⟩ := by
  cases action with
  | enter | leave => exact .inl ⟨w', h, .nothing w'⟩
  | notify =>
    refine .inl ⟨w', ?_, .nothing w'⟩
    simp only [step] at h
    split at h <;> exact h
  | arrive deadline =>
    simp only [step] at h
    obtain hi | hi := Nat.lt_or_ge i d.waits.length
    · rw [List.getElem?_append_left hi] at h
      exact .inl ⟨w', h, .nothing w'⟩
    · rw [List.getElem?_append_right hi] at h
      refine .inr ⟨List.getElem?_eq_none hi, deadline, ?_⟩
      have hmem := List.mem_of_getElem? h
      simpa using hmem
  | look j => exact .inl (moved_of_modify (moved_lookAt now d) h)
  | wake j => exact .inl (moved_of_modify (moved_wakeUp now d) h)
  | expire j => exact .inl (moved_of_modify (moved_giveUp now d) h)

/-- A wait ends with no bridges only when there are none. -/
theorem Moved.result (h : Moved now d w w') (hr : result w' = some true) :
    result w = some true ∨ d.active = 0 ∧ result w = none := by
  cases h with
  | nothing => exact .inl hr
  | drained hactive => exact .inr ⟨hactive, rfl⟩
  | lain | woken => cases hr
  | late => simp [Drain.result] at hr

/-- What a wait has, and what it waits for. -/
structure Attentive (d : Drain) (w : Wait) : Prop where
  ticket_le : ∀ ticket, w.state = .looking ticket ∨ w.state = .lying ticket → ticket ≤ d.notices
  heard : ∀ ticket, w.state = .lying ticket → ticket < d.notices ∨ 0 < d.active ∨ 0 < d.owed

theorem attentive_arrived (d : Drain) (deadline : Time) : d.Attentive ⟨deadline, .looking d.notices⟩ where
  ticket_le ticket h := by simp_all
  heard ticket h := by simp at h

/-- Whoever lies down saw a bridge, and so had not missed a notice. -/
theorem Attentive.moved (h : d.Attentive w) (hm : Moved now d w w') : d.Attentive w' := by
  cases hm with
  | nothing => exact h
  | drained | late => exact ⟨by simp, by simp⟩
  | @lain deadline ticket hactive =>
    have hle := h.ticket_le ticket (.inl rfl)
    refine ⟨fun t ht => ?_, fun _ _ => .inr (.inl (Nat.pos_of_ne_zero hactive))⟩
    obtain rfl : ticket = t := by simpa using ht
    exact hle
  | woken => exact attentive_arrived d _

/-- The count can become zero only so that notice is owed, and notice that is owed is given to all. -/
theorem Attentive.stir (h : d.Attentive w) (hle : d.notices ≤ d'.notices)
    (hstir : d.notices < d'.notices ∨ 0 < d'.active ∨ 0 < d'.owed) : d'.Attentive w where
  ticket_le ticket ht := (h.ticket_le ticket ht).trans hle
  heard ticket ht := hstir.imp_left fun hlt => (h.ticket_le ticket (.inr ht)).trans_lt hlt

theorem Attentive.congr (h : d.Attentive w) (hn : d'.notices = d.notices) (ha : d'.active = d.active)
    (ho : d'.owed = d.owed) : d'.Attentive w where
  ticket_le := hn ▸ h.ticket_le
  heard := by
    rw [hn, ha, ho]
    exact h.heard

/-- What waits do changes nothing of the count. -/
theorem attentive_of_waits (h : ∀ w ∈ d.waits, d.Attentive w) {action : Action}
    (hn : (d.step now action).notices = d.notices) (ha : (d.step now action).active = d.active)
    (ho : (d.step now action).owed = d.owed) : ∀ w ∈ (d.step now action).waits, (d.step now action).Attentive w := by
  intro w' hw'
  obtain ⟨i, hi⟩ := List.mem_iff_getElem?.1 hw'
  refine Attentive.congr ?_ hn ha ho
  obtain ⟨w, hw, hm⟩ | ⟨-, deadline, rfl⟩ := moved_of_step hi
  · exact (h w (List.mem_of_getElem? hw)).moved hm
  · exact attentive_arrived d deadline

/-- A wait that has notice, or is about to look, ends in two steps of its own when no bridge is there. -/
theorem result_wake_look {i : Nat} (now : Time) (hw : d.waits[i]? = some w) (hr : result w = none)
    (ha : d.active = 0) (hheard : ∀ ticket, w.state = .lying ticket → ticket < d.notices) :
    ((d.run now [.wake i, .look i]).waits[i]?.bind result) = some true := by
  obtain ⟨deadline, state⟩ := w
  cases state with
  | looking ticket => simp [run, step, hw, wakeUp, lookAt, ha, result]
  | lying ticket =>
    have hlt : ticket < d.notices := hheard ticket rfl
    simp [run, step, hw, wakeUp, hlt, lookAt, ha, result]
  | finished drained => cases hr

/-! ## Guards -/

/-- A drain, and the guards by which its bridges are counted. -/
structure Guarded where
  drain : Drain := {}
  /-- The guards that are held, each by its number. -/
  guards : List Nat := []
  /-- The guards that took the last bridge off the count, and whose droppers have not given notice yet. -/
  debtors : List Nat := []
  /-- How many guards were taken, which is the number of the next one. -/
  taken : Nat := 0

/-- What can happen to a drain and its guards, each at one moment. -/
inductive Act where
  /-- A guard is taken. -/
  | take
  /-- A guard is dropped, and its bridge is taken off the count. -/
  | drop (guard : Nat)
  /-- Whoever dropped a guard gives the notice that is owed. -/
  | tell (guard : Nat)
  | arrive (deadline : Time)
  | look (wait : Nat)
  | wake (wait : Nat)
  | expire (wait : Nat)

namespace Guarded

/-- The drain changes, and the guards do not. -/
def wait (now : Time) (action : Action) (s : Guarded) : Guarded :=
  { s with drain := s.drain.step now action }

/-- One act. A guard that is not held cannot be dropped, and notice that is not owed is not given. -/
def step (now : Time) (s : Guarded) : Act → Guarded
  | .take =>
    { s with drain := s.drain.step now .enter, guards := s.guards ++ [s.taken], taken := s.taken + 1 }
  | .drop guard =>
    if guard ∈ s.guards then
      { s with
        drain := s.drain.step now .leave
        guards := s.guards.erase guard
        debtors := if s.drain.active = 1 then s.debtors ++ [guard] else s.debtors }
    else s
  | .tell guard =>
    if guard ∈ s.debtors then
      { s with drain := s.drain.step now .notify, debtors := s.debtors.erase guard }
    else s
  | .arrive deadline => s.wait now (.arrive deadline)
  | .look i => s.wait now (.look i)
  | .wake i => s.wait now (.wake i)
  | .expire i => s.wait now (.expire i)

/-- What is so between any two acts. -/
structure Sound (s : Guarded) : Prop where
  nodup : s.guards.Nodup
  lt_taken : ∀ guard ∈ s.guards, guard < s.taken
  active : s.drain.active = s.guards.length
  owed : s.drain.owed = s.debtors.length
  attentive : ∀ w ∈ s.drain.waits, s.drain.Attentive w

variable {s : Guarded}

theorem sound_new : Sound {} where
  nodup := .nil
  lt_taken := by simp
  active := rfl
  owed := rfl
  attentive := by simp

theorem Sound.take (h : s.Sound) (now : Time) : (s.step now .take).Sound where
  nodup := by
    refine List.nodup_append.2 ⟨h.nodup, List.nodup_singleton _, fun guard hg other ho => ?_⟩
    obtain rfl : other = s.taken := by simpa using ho
    exact Nat.ne_of_lt (h.lt_taken guard hg)
  lt_taken guard hg := by
    obtain hg | hg := List.mem_append.1 (show guard ∈ s.guards ++ [s.taken] from hg)
    · exact Nat.lt_succ_of_lt (h.lt_taken guard hg)
    · obtain rfl : guard = s.taken := by simpa using hg
      exact Nat.lt_succ_self _
  active := by simp [Guarded.step, Drain.step, h.active]
  owed := h.owed
  attentive w hw := (h.attentive w hw).stir (Nat.le_refl _) (.inr (.inl (Nat.succ_pos _)))

theorem Sound.drop (h : s.Sound) (now : Time) (guard : Nat) : (s.step now (.drop guard)).Sound := by
  simp only [Guarded.step]
  split
  · rename_i hg
    have hlength := List.length_erase_add_one hg
    refine ⟨h.nodup.erase guard, fun other ho => h.lt_taken other (List.mem_of_mem_erase ho), ?_, ?_, ?_⟩
    · show s.drain.active - 1 = (s.guards.erase guard).length
      rw [h.active]
      omega
    · simp only [Drain.step]
      split <;> simp [h.owed]
    · intro w hw
      refine (h.attentive w hw).stir (Nat.le_refl _) (.inr ?_)
      -- Either this was the last one, and notice is owed, or others are left.
      by_cases hlast : s.drain.active = 1
      · exact .inr (by simp [Drain.step, hlast])
      · refine .inl ?_
        show 0 < s.drain.active - 1
        have := h.active
        omega
  · exact h

theorem Sound.tell (h : s.Sound) (now : Time) (guard : Nat) : (s.step now (.tell guard)).Sound := by
  simp only [Guarded.step]
  split
  · rename_i hg
    have howed : s.drain.owed ≠ 0 := by
      rw [h.owed]
      exact Nat.ne_of_gt (List.length_pos_of_mem hg)
    have hstep : s.drain.step now .notify =
        { s.drain with owed := s.drain.owed - 1, notices := s.drain.notices + 1 } := by
      simp [Drain.step, howed]
    simp only [hstep]
    refine ⟨h.nodup, h.lt_taken, h.active, ?_, fun w hw => ?_⟩
    · rw [List.length_erase_of_mem hg, h.owed]
    · exact (h.attentive w hw).stir (Nat.le_succ _) (.inl (Nat.lt_succ_self _))
  · exact h

theorem Sound.wait (h : s.Sound) {now : Time} {action : Action}
    (hn : (s.drain.step now action).notices = s.drain.notices)
    (ha : (s.drain.step now action).active = s.drain.active)
    (ho : (s.drain.step now action).owed = s.drain.owed) : (s.wait now action).Sound where
  nodup := h.nodup
  lt_taken := h.lt_taken
  active := ha.trans h.active
  owed := ho.trans h.owed
  attentive := attentive_of_waits h.attentive hn ha ho

theorem Sound.step (h : s.Sound) (now : Time) : ∀ act, (s.step now act).Sound
  | .take => h.take now
  | .drop guard => h.drop now guard
  | .tell guard => h.tell now guard
  | .arrive _ | .look _ | .wake _ | .expire _ => h.wait rfl rfl rfl

/-- An act does to a wait what one action can do, or the wait has just arrived. -/
theorem moved_of_act {now : Time} {act : Act} {i : Nat} {w' : Wait} (h : (s.step now act).drain.waits[i]? = some w') :
    (∃ w, s.drain.waits[i]? = some w ∧ Moved now s.drain w w') ∨
      s.drain.waits[i]? = none ∧ ∃ deadline, w' = ⟨deadline, .looking s.drain.notices⟩ := by
  cases act with
  | take | arrive | look | wake | expire => exact moved_of_step h
  | drop guard | tell guard =>
    simp only [Guarded.step] at h
    split at h
    · exact moved_of_step h
    · exact .inl ⟨w', h, .nothing w'⟩

end Guarded

/-! ## Every history -/

/-- All that happened and when, the latest first. -/
abbrev History := List (Time × Act)

/-- A drain and its guards after a history. -/
def reached : History → Guarded
  | [] => {}
  | (now, act) :: h => (reached h).step now act

theorem sound_reached : ∀ h : History, (reached h).Sound
  | [] => Guarded.sound_new
  | (now, act) :: h => (sound_reached h).step now act

/-- Before a wait ended with no bridges there were none at some moment, at which it had begun and not ended. -/
theorem drained_during (h : History) {i : Nat} {w : Wait} (hw : (reached h).drain.waits[i]? = some w)
    (hr : result w = some true) : ∃ earlier, earlier <:+ h ∧ (reached earlier).drain.active = 0 ∧
      ∃ before, (reached earlier).drain.waits[i]? = some before ∧ result before = none := by
  induction h generalizing w with
  | nil => simp [reached] at hw
  | cons m h ih =>
    obtain ⟨before, hbefore, hm⟩ | ⟨-, deadline, rfl⟩ := Guarded.moved_of_act hw
    · obtain hdone | ⟨hactive, hnone⟩ := hm.result hr
      · obtain ⟨earlier, hsuffix, hearlier⟩ := ih hbefore hdone
        exact ⟨earlier, hsuffix.trans (List.suffix_cons m h), hearlier⟩
      · exact ⟨h, List.suffix_cons m h, hactive, before, hbefore, hnone⟩
    · cases hr

/-- As many bridges are counted as guards are held. When none is, and nobody stands between taking the last bridge off the
count and giving notice, then every wait that lies has been given notice since it took its ticket, and every wait that
has not ended wakes up and ends well if it is let go on. A wait ends well only if there was no bridge at some moment after
it began and before it ended. -/
theorem waits_end_when_drained (h : History) :
    let s := reached h
    (s.guards.Nodup ∧ s.drain.active = s.guards.length) ∧
    (s.drain.active = 0 → s.debtors = [] → ∀ (i : Nat) w, s.drain.waits[i]? = some w →
      (∀ ticket, w.state = .lying ticket → ticket < s.drain.notices) ∧
      (result w = none → ∀ now, (s.drain.run now [.wake i, .look i]).waits[i]?.bind result = some true)) ∧
    ∀ (i : Nat) w, s.drain.waits[i]? = some w → result w = some true →
      ∃ earlier, earlier <:+ h ∧ (reached earlier).drain.active = 0 ∧
        ∃ before, (reached earlier).drain.waits[i]? = some before ∧ result before = none := by
  intro s
  have hs : s.Sound := sound_reached h
  refine ⟨⟨hs.nodup, hs.active⟩, fun hactive hdebtors i w hw => ?_, fun i w hw hr => drained_during h hw hr⟩
  have hheard : ∀ ticket, w.state = .lying ticket → ticket < s.drain.notices := by
    intro ticket hl
    have howed : s.drain.owed = 0 := by rw [hs.owed, hdebtors, List.length_nil]
    obtain hlt | hpos | hpos := (hs.attentive w (List.mem_of_getElem? hw)).heard ticket hl
    · exact hlt
    · omega
    · omega
  exact ⟨hheard, fun hr now => result_wake_look now hw hr hactive hheard⟩

end AffinityRelay.Drain
