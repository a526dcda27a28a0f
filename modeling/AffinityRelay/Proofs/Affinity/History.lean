import Mathlib.Data.Finset.Card
import Mathlib.Data.List.Nodup
import Mathlib.Data.List.Pairwise
import AffinityRelay.Affinity.Store

/-!
# The history of a table

A table starts empty, and then things happen to it. A `History` lists them, the latest first, so that what is said of
it follows its list:

* `Store.after`: the table that a history leads to, and `Store.clock`: the time then;
* `Store.lastTouch`, `Store.touchedSince`: when a network was touched last, and which others were since then
  (`Store.mem_touchedSince`);
* `Store.lastWrite`: the last decision that was written for a network, and when.

A touch puts an entry at the end of the list and drops what does not fit (`Store.refresh`). `Store.Event.apply_cases`
says what an event does to the list, and all else is proved from that.
-/

namespace AffinityRelay.Store

/-- What can happen to a table, and that time passes. -/
inductive Event where
  | put (client : Ip) (backend : Address)
  | get (client : Ip)
  | withdraw (client : Ip)
  | entries
  | size
  | wait (span : Time)

/-- All that happened, the latest first. -/
abbrev History := List Event

/-- The time after a history. -/
def clock : History → Time
  | [] => 0
  | .wait span :: h => clock h + span
  | _ :: h => clock h

/-- The table after an event. -/
def Event.apply (now : Time) : Event → Store → Store
  | put client backend, s => s.put now client backend
  | get client, s => (s.get now client).2
  | withdraw client, s => s.withdraw client
  | entries, s | size, s | wait _, s => s

/-- The network that an event touches: one that is written, or one that is looked up and held. -/
def Event.touched (s : Store) : Event → Option Ip
  | put client _ => some (s.network client)
  | get client => if (s.lookup? client).isSome then some (s.network client) else none
  | withdraw _ | entries | size | wait _ => none

/-- Whether a table holds an entry of a network, however old. -/
def Held (s : Store) (n : Ip) : Prop :=
  ∃ e ∈ s.held, e.client = n

section Histories

variable (config : StoreConfig)

/-- The table after a history. -/
def after : History → Store
  | [] => { config }
  | e :: h => e.apply (clock h) (after h)

/-- How long the history was when a network was touched last, or 0. -/
def lastTouch (n : Ip) : History → Nat
  | [] => 0
  | e :: h => if e.touched (after config h) = some n then h.length + 1 else lastTouch n h

/-- The networks that were touched after the last touch of a network. -/
def touchedSince (n : Ip) : History → Finset Ip
  | [] => ∅
  | e :: h =>
    match e.touched (after config h) with
    | none => touchedSince n h
    | some m => if m = n then ∅ else insert m (touchedSince n h)

/-- The last decision that was written for a network: a backend and when it was assigned, or none any more. -/
def lastWrite (n : Ip) : History → Option (Option (Address × Time))
  | [] => none
  | .put client backend :: h =>
    if client.mask config.bits.toNat = n then some (some (backend, clock h)) else lastWrite n h
  | .withdraw client :: h => if client.mask config.bits.toNat = n then some none else lastWrite n h
  | _ :: h => lastWrite n h

end Histories

/-! ## One event -/

/-- The entries after a touch: all of other networks, and then this one, as far as they fit. -/
def refresh (e : Entry) (s : Store) : List Entry :=
  s.fitting (s.held.filter (fun x => x.client ≠ e.client) ++ [e])

variable {s : Store} {e x : Entry}

theorem eq_or_mem_of_mem_refresh (h : x ∈ s.refresh e) : x = e ∨ x ∈ s.held ∧ x.client ≠ e.client := by
  have h := List.mem_of_mem_drop h
  simp only [List.mem_append, List.mem_filter, decide_eq_true_eq, List.mem_singleton] at h
  exact h.symm

theorem length_refresh_le (e : Entry) (s : Store) : (s.refresh e).length ≤ s.config.capacity := by
  simp only [refresh, fitting, List.length_drop]
  omega

theorem mem_refresh_self (h : 0 < s.config.capacity) : e ∈ s.refresh e := by
  rw [refresh, fitting, List.drop_append_of_le_length (by simp only [List.length_append, List.length_singleton]; omega)]
  exact List.mem_append_right _ List.mem_cons_self

/-- While the entry that is touched is among them, no other has to go. -/
theorem refresh_of_mem (hb : s.held.length ≤ s.config.capacity) (he : e ∈ s.held) :
    s.refresh e = s.held.filter (fun x => x.client ≠ e.client) ++ [e] := by
  have hl : (s.held.filter fun x => x.client ≠ e.client).length < s.held.length :=
    List.length_filter_lt_length_iff_exists.mpr ⟨e, he, by simp⟩
  rw [refresh, fitting, List.length_append, List.length_singleton, Nat.sub_eq_zero_of_le (by omega), List.drop_zero]

theorem lookup?_some (h : s.lookup? client = some e) : e ∈ s.held ∧ e.client = s.network client :=
  ⟨List.mem_of_find?_eq_some h, by simpa using List.find?_some h⟩

theorem held_iff_isSome_lookup? {client : Ip} : s.Held (s.network client) ↔ (s.lookup? client).isSome := by
  simp [Held, lookup?]

/-- What an event does to the list of entries. -/
theorem Event.apply_cases (now : Time) (event : Event) (s : Store) (hb : s.held.length ≤ s.config.capacity) :
    (∃ e, event.touched s = some e.client ∧ event.apply now s = { s with held := s.refresh e } ∧
      (e ∈ s.held ∧ (∃ client, event = .get client) ∨
        ∃ client backend, event = .put client backend ∧ e = ⟨s.network client, backend, now⟩)) ∨
    (event.touched s = none ∧ ∃ client, event = .withdraw client ∧ event.apply now s = s.withdraw client) ∨
    (event.touched s = none ∧ event.apply now s = s ∧ (∀ client, event ≠ .withdraw client) ∧
      ∀ client backend, event ≠ .put client backend) := by
  cases event with
  | put client backend => exact Or.inl ⟨⟨s.network client, backend, now⟩, rfl, rfl, Or.inr ⟨client, backend, rfl, rfl⟩⟩
  | get client =>
    cases he : s.lookup? client with
    | none => exact Or.inr (Or.inr ⟨by simp [touched, he], by simp [apply, Store.get, touch, he], nofun, nofun⟩)
    | some e =>
      obtain ⟨hm, hc⟩ := lookup?_some he
      refine Or.inl ⟨e, by simp [touched, he, hc], ?_, Or.inl ⟨hm, client, rfl⟩⟩
      simp [apply, Store.get, touch, he, refresh_of_mem hb hm, others, hc]
  | withdraw client => exact Or.inr (Or.inl ⟨rfl, client, rfl, rfl⟩)
  | entries => exact Or.inr (Or.inr ⟨rfl, rfl, nofun, nofun⟩)
  | size => exact Or.inr (Or.inr ⟨rfl, rfl, nofun, nofun⟩)
  | wait span => exact Or.inr (Or.inr ⟨rfl, rfl, nofun, nofun⟩)

theorem mem_others {client : Ip} : e ∈ s.others client ↔ e ∈ s.held ∧ e.client ≠ s.network client := by
  simp [others]

/-! ## What a history says of a network -/

section Histories

variable {config : StoreConfig} {event : Event} {h : History} {n m : Ip}

@[simp] theorem config_apply (now : Time) (event : Event) (s : Store) : (event.apply now s).config = s.config := by
  cases event <;> simp [Event.apply, Store.get]

@[simp] theorem config_after : ∀ h : History, (after config h).config = config
  | [] => rfl
  | _ :: h => (config_apply _ _ _).trans (config_after h)

theorem lastTouch_le : ∀ h : History, lastTouch config n h ≤ h.length
  | [] => Nat.le_refl _
  | e :: h => by
    have := lastTouch_le h
    simp only [lastTouch, List.length_cons]
    split <;> omega

theorem lastTouch_of_touched (ht : event.touched (after config h) = some n) :
    lastTouch config n (event :: h) = h.length + 1 := by
  simp [lastTouch, ht]

theorem lastTouch_of_not_touched (ht : event.touched (after config h) ≠ some n) :
    lastTouch config n (event :: h) = lastTouch config n h := by
  simp [lastTouch, ht]

/-- What was touched since a network was touched last are the other networks that were touched later. -/
theorem mem_touchedSince : ∀ {h : History}, m ∈ touchedSince config n h ↔
    m ≠ n ∧ lastTouch config n h < lastTouch config m h
  | [] => by simp [touchedSince, lastTouch]
  | e :: h => by
    have hm : lastTouch config m (e :: h) ≤ h.length + 1 := lastTouch_le (e :: h)
    have hn : lastTouch config n h ≤ h.length := lastTouch_le h
    cases ht : e.touched (after config h) with
    | none => simp [touchedSince, lastTouch, ht, mem_touchedSince]
    | some k =>
      by_cases hkn : k = n
      · subst hkn
        simp only [touchedSince, ht, if_true, Finset.notMem_empty, false_iff, not_and, Nat.not_lt]
        intro _
        rw [lastTouch_of_touched ht]
        exact hm
      · rw [lastTouch_of_not_touched (n := n) (by simp [ht, hkn])]
        simp only [touchedSince, ht, hkn, if_false, Finset.mem_insert]
        by_cases hkm : m = k
        · subst hkm
          rw [lastTouch_of_touched ht]
          exact ⟨fun _ => ⟨hkn, by omega⟩, fun _ => Or.inl rfl⟩
        · rw [lastTouch_of_not_touched (n := m) (by simp [ht, Ne.symm hkm]), ← mem_touchedSince]
          exact ⟨fun h => h.resolve_left hkm, Or.inr⟩

theorem touchedSince_subset (ht : event.touched (after config h) ≠ some n) :
    touchedSince config n h ⊆ touchedSince config n (event :: h) := by
  intro m hm
  rw [mem_touchedSince] at hm ⊢
  refine ⟨hm.1, ?_⟩
  rw [lastTouch_of_not_touched ht]
  refine Nat.lt_of_lt_of_le hm.2 ?_
  simp only [lastTouch]
  split
  · exact Nat.le_succ_of_le (lastTouch_le h)
  · exact Nat.le_refl _

theorem network_after (client : Ip) (h : History) : (after config h).network client = client.mask config.bits.toNat := by
  rw [network, config_after]

theorem lastWrite_of_not_written (hp : ∀ client backend, event ≠ .put client backend)
    (hw : ∀ client, event ≠ .withdraw client) : lastWrite config n (event :: h) = lastWrite config n h := by
  cases event with
  | put client backend => exact absurd rfl (hp client backend)
  | withdraw client => exact absurd rfl (hw client)
  | get client => rfl
  | entries => rfl
  | size => rfl
  | wait span => rfl

/-- Only masked networks are ever written. -/
theorem exists_mask_of_lastWrite {w : Option (Address × Time)} (hw : lastWrite config n h = some w) :
    ∃ client : Ip, client.mask config.bits.toNat = n := by
  induction h with
  | nil => cases hw
  | cons e h ih =>
    cases e with
    | put client backend =>
      simp only [lastWrite] at hw
      split at hw
      · exact ⟨client, ‹_›⟩
      · exact ih hw
    | withdraw client =>
      simp only [lastWrite] at hw
      split at hw
      · exact ⟨client, ‹_›⟩
      · exact ih hw
    | get client => exact ih hw
    | entries => exact ih hw
    | size => exact ih hw
    | wait span => exact ih hw

end Histories

end AffinityRelay.Store
