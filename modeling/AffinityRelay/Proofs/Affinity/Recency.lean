import AffinityRelay.Proofs.Affinity.History

/-!
# What a table remembers

After any history a table holds its entries in the order of their last touch, none of them twice and not more than fit
(`Recorded`, kept by every event: `recorded_after`). From that:

* an assignment is held as long as fewer other networks were touched since its own last touch than entries fit, and if
  nothing was ever withdrawn, no longer (`Recorded.kept`, `Full`);
* an entry is answered as it was written last, as long as it is fresh (`Recorded.answer_eq_some_iff`).

Both directions of the first come down to which entries go when one is touched: those that were touched before all that
stay (`rel_of_mem_drop`).
-/

namespace AffinityRelay.Store

variable {config : StoreConfig} {event : Event} {h : History}

/-! ## The invariant -/

/-- The table of a history holds what was written last, in the order of the last touch, and keeps what must not go. -/
structure Recorded (config : StoreConfig) (h : History) : Prop where
  bound : (after config h).held.length ≤ config.capacity
  written : ∀ e ∈ (after config h).held, lastWrite config e.client h = some (some (e.backend, e.written))
  ordered : (after config h).held.Pairwise fun a b => lastTouch config a.client h < lastTouch config b.client h
  kept : ∀ {n backend t}, lastWrite config n h = some (some (backend, t)) →
    (touchedSince config n h).card < config.capacity → (after config h).Held n

/-- Whatever was touched after an entry that is held is held too. -/
def Full (config : StoreConfig) (h : History) : Prop :=
  ∀ e ∈ (after config h).held, ∀ n ∈ touchedSince config e.client h, (after config h).Held n

/-- What is dropped from the front of an ordered list comes before all that stays. -/
theorem rel_of_mem_drop {α : Type} {R : α → α → Prop} {l : List α} {k : Nat} {x y : α} (hp : l.Pairwise R) (hx : x ∈ l)
    (hd : x ∉ l.drop k) (hy : y ∈ l.drop k) : R x y := by
  rw [← List.take_append_drop k l] at hp hx
  exact (List.pairwise_append.mp hp).2.2 x ((List.mem_append.mp hx).resolve_right hd) y hy

/-- Entries with one touch after another are of different networks. -/
theorem nodup_of_pairwise {l : List Entry}
    (hp : l.Pairwise fun a b => lastTouch config a.client h < lastTouch config b.client h) :
    (l.map Entry.client).Nodup := by
  refine List.pairwise_map.mpr (hp.imp fun {a b} hab he => ?_)
  rw [he] at hab
  exact Nat.lt_irrefl _ hab

/-! ## One touch -/

section Touch

variable {e x : Entry}

/-- The entries of a table and the one that is touched, in the order of their last touch. -/
theorem Recorded.pairwise_touch (hr : Recorded config h) (ht : event.touched (after config h) = some e.client) :
    ((after config h).held.filter (fun x => x.client ≠ e.client) ++ [e]).Pairwise fun a b =>
      lastTouch config a.client (event :: h) < lastTouch config b.client (event :: h) := by
  have hkeep : ∀ a ∈ (after config h).held.filter (fun x => x.client ≠ e.client),
      lastTouch config a.client (event :: h) = lastTouch config a.client h := by
    intro a ha
    have hne : a.client ≠ e.client := by simpa using (List.mem_filter.mp ha).2
    exact lastTouch_of_not_touched (by simpa [ht] using hne.symm)
  rw [List.pairwise_append]
  refine ⟨?_, List.pairwise_singleton _ _, ?_⟩
  · refine (hr.ordered.filter _).imp_of_mem fun {a b} ha hb hab => ?_
    rwa [hkeep a ha, hkeep b hb]
  · intro a ha b hb
    rw [List.mem_singleton.mp hb, lastTouch_of_touched ht, hkeep a ha]
    exact Nat.lt_succ_of_le (lastTouch_le h)

theorem Recorded.pairwise_refresh (hr : Recorded config h) (ht : event.touched (after config h) = some e.client) :
    ((after config h).refresh e).Pairwise fun a b =>
      lastTouch config a.client (event :: h) < lastTouch config b.client (event :: h) :=
  (hr.pairwise_touch ht).sublist (List.drop_sublist _ _)

/-- An entry goes only when a full table of others was touched after it. -/
theorem Recorded.mem_refresh (hr : Recorded config h) (ht : event.touched (after config h) = some e.client)
    (hx : x ∈ (after config h).held) (hxe : x.client ≠ e.client)
    (hc : (touchedSince config x.client (event :: h)).card < config.capacity) : x ∈ (after config h).refresh e := by
  by_contra hd
  have hl : x ∈ (after config h).held.filter (fun x => x.client ≠ e.client) ++ [e] :=
    List.mem_append_left _ (List.mem_filter.mpr ⟨hx, by simpa using hxe⟩)
  have hlen : ((after config h).refresh e).length = config.capacity := by
    rw [refresh, fitting, config_after] at hd ⊢
    have hk : (((after config h).held.filter (fun x => x.client ≠ e.client) ++ [e]).length - config.capacity) ≠ 0 :=
      fun hk => hd (by rwa [hk, List.drop_zero])
    rw [List.length_drop]
    omega
  have hsub : (((after config h).refresh e).map Entry.client).toFinset ⊆ touchedSince config x.client (event :: h) := by
    intro n hn
    obtain ⟨y, hy, rfl⟩ := List.mem_map.mp (List.mem_toFinset.mp hn)
    have hlt := rel_of_mem_drop (hr.pairwise_touch ht) hl hd hy
    exact mem_touchedSince.mpr ⟨fun he => Nat.lt_irrefl _ (he ▸ hlt), hlt⟩
  have hle := Finset.card_le_card hsub
  rw [List.toFinset_card_of_nodup (nodup_of_pairwise (hr.pairwise_refresh ht)), List.length_map, hlen] at hle
  exact Nat.lt_irrefl _ (Nat.lt_of_le_of_lt hle hc)

/-- A touch keeps the invariant, if the entry is what was written last. -/
theorem Recorded.touch (hr : Recorded config h) (ht : event.touched (after config h) = some e.client)
    (ha : after config (event :: h) = { after config h with held := (after config h).refresh e })
    (hw : lastWrite config e.client (event :: h) = some (some (e.backend, e.written)))
    (hn : ∀ n, n ≠ e.client → lastWrite config n (event :: h) = lastWrite config n h) :
    Recorded config (event :: h) where
  bound := by
    rw [ha]
    simpa using length_refresh_le e (after config h)
  written := by
    intro x hx
    rw [ha] at hx
    rcases eq_or_mem_of_mem_refresh hx with rfl | ⟨hx, hne⟩
    · exact hw
    · rw [hn _ hne]
      exact hr.written x hx
  ordered := by
    rw [ha]
    exact hr.pairwise_refresh ht
  kept := by
    intro n backend t hwn hc
    rw [ha]
    by_cases hne : n = e.client
    · have hpos : 0 < (after config h).config.capacity := by
        rw [config_after]
        exact Nat.zero_lt_of_lt hc
      exact ⟨e, mem_refresh_self hpos, hne.symm⟩
    · rw [hn n hne] at hwn
      have htn : event.touched (after config h) ≠ some n := by
        rw [ht]
        exact fun he => hne (Option.some.inj he).symm
      have hsub := Finset.card_le_card (touchedSince_subset htn)
      obtain ⟨x, hx, rfl⟩ := hr.kept hwn (Nat.lt_of_le_of_lt hsub hc)
      exact ⟨x, hr.mem_refresh ht hx hne hc, rfl⟩

/-- A touch keeps all that was touched after an entry that stays. -/
theorem Full.touch (hf : Full config h) (hr : Recorded config h)
    (ht : event.touched (after config h) = some e.client)
    (ha : after config (event :: h) = { after config h with held := (after config h).refresh e }) :
    Full config (event :: h) := by
  intro y hy n hn
  rw [ha] at hy ⊢
  by_cases hne : n = e.client
  · have hlen := length_refresh_le e (after config h)
    exact ⟨e, mem_refresh_self (Nat.lt_of_lt_of_le (List.length_pos_of_mem hy) hlen), hne.symm⟩
  · have hlt := (mem_touchedSince.mp hn).2
    rcases eq_or_mem_of_mem_refresh hy with rfl | ⟨hyh, hye⟩
    · rw [lastTouch_of_touched ht] at hlt
      exact absurd hlt (Nat.not_lt.mpr (lastTouch_le (event :: h)))
    · have hn' : n ∈ touchedSince config y.client h := by
        rw [mem_touchedSince] at hn ⊢
        rwa [lastTouch_of_not_touched (by simpa [ht] using hye.symm),
          lastTouch_of_not_touched (by simpa [ht] using Ne.symm hne)] at hn
      obtain ⟨x, hx, rfl⟩ := hf y hyh n hn'
      refine ⟨x, ?_, rfl⟩
      by_contra hd
      have hl : x ∈ (after config h).held.filter (fun x => x.client ≠ e.client) ++ [e] :=
        List.mem_append_left _ (List.mem_filter.mpr ⟨hx, by simpa using hne⟩)
      have := rel_of_mem_drop (hr.pairwise_touch ht) hl hd hy
      omega

end Touch

/-! ## Every history -/

theorem lastTouch_of_none {n : Ip} (ht : event.touched (after config h) = none) :
    lastTouch config n (event :: h) = lastTouch config n h :=
  lastTouch_of_not_touched (by simp [ht])

theorem touchedSince_of_none {n : Ip} (ht : event.touched (after config h) = none) :
    touchedSince config n (event :: h) = touchedSince config n h := by
  simp [touchedSince, ht]

theorem Recorded.withdraw (hr : Recorded config h) (client : Ip) : Recorded config (.withdraw client :: h) := by
  have hsub : ((after config h).withdraw client).held.Sublist (after config h).held := List.filter_sublist
  refine ⟨hsub.length_le.trans hr.bound, ?_, ?_, ?_⟩
  · intro e he
    have hne : e.client ≠ client.mask config.bits.toNat := by
      simpa [network_after] using (List.mem_filter.mp he).2
    rw [lastWrite, if_neg hne.symm]
    exact hr.written e (hsub.subset he)
  · have ht : (Event.withdraw client).touched (after config h) = none := rfl
    simp only [lastTouch_of_none ht]
    exact hr.ordered.sublist hsub
  · intro n backend t hw hc
    rw [touchedSince_of_none rfl] at hc
    simp only [lastWrite] at hw
    split at hw
    · cases hw
    · rename_i hne
      obtain ⟨x, hx, rfl⟩ := hr.kept hw hc
      refine ⟨x, List.mem_filter.mpr ⟨hx, ?_⟩, rfl⟩
      simpa [network_after] using Ne.symm hne

theorem Recorded.same (hr : Recorded config h) (ht : event.touched (after config h) = none)
    (ha : after config (event :: h) = after config h)
    (hw : ∀ n, lastWrite config n (event :: h) = lastWrite config n h) : Recorded config (event :: h) := by
  constructor
  · rw [ha]
    exact hr.bound
  · intro e he
    rw [ha] at he
    rw [hw]
    exact hr.written e he
  · simp only [ha, lastTouch_of_none ht]
    exact hr.ordered
  · intro n backend t hwn hc
    rw [ha]
    rw [hw] at hwn
    rw [touchedSince_of_none ht] at hc
    exact hr.kept hwn hc

theorem recorded_after : ∀ h : History, Recorded config h
  | [] => {
      bound := Nat.zero_le _
      written := fun _ he => by cases he
      ordered := List.Pairwise.nil
      kept := fun hw => by cases hw }
  | event :: h => by
    have hr : Recorded config h := recorded_after h
    have hb : (after config h).held.length ≤ (after config h).config.capacity := by
      rw [config_after]
      exact hr.bound
    rcases event.apply_cases (clock h) (after config h) hb with
      ⟨e, ht, ha, ⟨he, client, rfl⟩ | ⟨client, backend, rfl, rfl⟩⟩ | ⟨-, client, rfl, -⟩ | ⟨ht, ha, hw, hp⟩
    · exact hr.touch ht ha (hr.written e he) fun _ _ => rfl
    · refine hr.touch ht ha ?_ fun n hn => ?_
      · simp [lastWrite, network_after]
      · rw [network_after] at hn
        simp [lastWrite, Ne.symm hn]
    · exact hr.withdraw client
    · exact hr.same ht ha fun n => lastWrite_of_not_written hp hw

theorem full_after : ∀ {h : History}, (∀ client, Event.withdraw client ∉ h) → Full config h
  | [], _ => fun e he => by cases he
  | event :: h, hn => by
    have hr : Recorded config h := recorded_after h
    have hf : Full config h := full_after fun client hc => hn client (List.mem_cons_of_mem _ hc)
    have hb : (after config h).held.length ≤ (after config h).config.capacity := by
      rw [config_after]
      exact hr.bound
    rcases event.apply_cases (clock h) (after config h) hb with ⟨e, ht, ha, -⟩ | ⟨-, client, rfl, -⟩ | ⟨ht, ha, -, -⟩
    · exact hf.touch hr ht ha
    · exact absurd List.mem_cons_self (hn client)
    · intro e he n hm
      rw [touchedSince_of_none ht] at hm
      rw [show after config (event :: h) = after config h from ha] at he ⊢
      exact hf e he n hm

/-! ## What is answered -/

section Answers

variable {client : Ip} {e : Entry}

theorem Recorded.lookup?_eq_some_iff (hr : Recorded config h) :
    (after config h).lookup? client = some e ↔
      e ∈ (after config h).held ∧ e.client = client.mask config.bits.toNat := by
  rw [← network_after client h]
  refine ⟨lookup?_some, fun ⟨he, hc⟩ => ?_⟩
  obtain ⟨x, hx⟩ := Option.isSome_iff_exists.mp (held_iff_isSome_lookup?.mp ⟨e, he, hc⟩)
  obtain ⟨hxh, hxc⟩ := lookup?_some hx
  rw [hx, List.inj_on_of_nodup_map (nodup_of_pairwise hr.ordered) hxh he (hxc.trans hc.symm)]

/-- An entry is answered as it was written last, as long as it is fresh. -/
theorem Recorded.answer_eq_some_iff (hr : Recorded config h) {now : Time} {backend : Address} :
    (after config h).answer now client = some backend ↔ (after config h).Held (client.mask config.bits.toNat) ∧
      ∃ t, lastWrite config (client.mask config.bits.toNat) h = some (some (backend, t)) ∧
        now - t ≤ config.lifetime := by
  constructor
  · intro ha
    obtain ⟨e, he, rfl⟩ := Option.map_eq_some_iff.mp ha
    obtain ⟨he, hf⟩ := Option.filter_eq_some_iff.mp he
    obtain ⟨hm, hc⟩ := hr.lookup?_eq_some_iff.mp he
    refine ⟨⟨e, hm, hc⟩, e.written, hc ▸ hr.written e hm, ?_⟩
    simpa [fresh] using hf
  · rintro ⟨⟨e, hm, hc⟩, t, hw, hf⟩
    have hwe := hr.written e hm
    rw [hc, hw] at hwe
    simp only [Option.some.injEq, Prod.mk.injEq] at hwe
    obtain ⟨rfl, rfl⟩ := hwe
    rw [answer, hr.lookup?_eq_some_iff.mpr ⟨hm, hc⟩]
    simp [Option.filter, fresh, hf]

/-- To look a client up changes no entry. -/
theorem Recorded.mem_held_get (hr : Recorded config h) (client : Ip) :
    e ∈ (after config (.get client :: h)).held ↔ e ∈ (after config h).held := by
  show e ∈ ((after config h).touch client).held ↔ _
  unfold Store.touch
  split
  · rename_i x hx
    obtain ⟨hm, hc⟩ := hr.lookup?_eq_some_iff.mp hx
    simp only [others, network_after, List.mem_append, List.mem_filter, decide_eq_true_eq, List.mem_singleton]
    constructor
    · rintro (he | rfl)
      · exact he.1
      · exact hm
    · intro he
      by_cases hec : e.client = client.mask config.bits.toNat
      · exact Or.inr (List.inj_on_of_nodup_map (nodup_of_pairwise hr.ordered) he hm (hec.trans hc.symm))
      · exact Or.inl ⟨he, hec⟩
  · rfl

/-- The networks that are held and were touched after an entry fit beside it. -/
theorem Full.card_lt (hf : Full config h) (hr : Recorded config h) {n : Ip} (hn : (after config h).Held n) :
    (touchedSince config n h).card < config.capacity := by
  obtain ⟨e, he, rfl⟩ := hn
  have hsub : insert e.client (touchedSince config e.client h) ⊆
      ((after config h).held.map Entry.client).toFinset := by
    intro m hm
    rw [List.mem_toFinset, List.mem_map]
    rcases Finset.mem_insert.mp hm with rfl | hm
    · exact ⟨e, he, rfl⟩
    · exact hf e he m hm
  have hle := Finset.card_le_card hsub
  rw [Finset.card_insert_of_notMem fun hm => (mem_touchedSince.mp hm).1 rfl,
    List.toFinset_card_of_nodup (nodup_of_pairwise hr.ordered), List.length_map] at hle
  exact Nat.lt_of_lt_of_le (Nat.lt_of_succ_le hle) hr.bound

end Answers

/-- What a table holds and answers after any history. It lists different networks, in the order of their last touch and
not more than fit. An assignment that was not withdrawn is held as long as fewer other networks than that were touched
after it, and in a history without withdrawals no longer. What is held is answered as it was written last, while it is
fresh, and looking it up changes neither; what was not written or was withdrawn is not answered. -/
theorem table_follows_history (config : StoreConfig) (h : History) :
    ((after config h).entries.length ≤ config.capacity ∧ (after config h).size = (after config h).entries.length ∧
      ((after config h).entries.map Prod.fst).Nodup ∧
      ((after config h).entries.Pairwise fun x y => lastTouch config x.1 h < lastTouch config y.1 h) ∧
      ∀ x ∈ (after config h).entries, x.1.mask config.bits.toNat = x.1 ∧
        ∃ t, lastWrite config x.1 h = some (some (x.2, t))) ∧
    (∀ n backend t, lastWrite config n h = some (some (backend, t)) →
      ((touchedSince config n h).card < config.capacity → (after config h).Held n) ∧
      ((∀ client, Event.withdraw client ∉ h) → (after config h).Held n →
        (touchedSince config n h).card < config.capacity)) ∧
    (∀ client backend, ((after config h).get (clock h) client).1 = some backend ↔
      (after config h).Held (client.mask config.bits.toNat) ∧
        ∃ t, lastWrite config (client.mask config.bits.toNat) h = some (some (backend, t)) ∧
          clock h - t ≤ config.lifetime) ∧
    (∀ client e, e ∈ (after config (.get client :: h)).held ↔ e ∈ (after config h).held) ∧
    (∀ client, lastWrite config (client.mask config.bits.toNat) h = none ∨
      lastWrite config (client.mask config.bits.toNat) h = some none →
        ((after config h).get (clock h) client).1 = none) ∧
    (config.capacity = 0 → (after config h).entries = [] ∧
      ∀ client, ((after config h).get (clock h) client).1 = none) := by
  have hr : Recorded config h := recorded_after h
  refine ⟨⟨by simpa [entries] using hr.bound, by simp [entries, size], ?_, ?_, ?_⟩, ?_, ?_, ?_, ?_, ?_⟩
  · have := nodup_of_pairwise hr.ordered
    simpa [entries, List.map_map, Function.comp_def] using this
  · exact List.pairwise_map.mpr hr.ordered
  · intro x hx
    obtain ⟨e, he, rfl⟩ := List.mem_map.mp hx
    have hw := hr.written e he
    obtain ⟨client, hc⟩ := exists_mask_of_lastWrite hw
    exact ⟨by rw [← hc, Ip.mask_mask, Nat.min_self], e.written, hw⟩
  · intro n backend t hw
    exact ⟨hr.kept hw, fun hn hh => (full_after hn).card_lt hr hh⟩
  · exact fun client backend => hr.answer_eq_some_iff
  · exact fun client e => hr.mem_held_get client
  · intro client hw
    refine Option.eq_none_iff_forall_ne_some.mpr fun backend ha => ?_
    obtain ⟨-, t, hw', -⟩ := hr.answer_eq_some_iff.mp ha
    rcases hw with hw | hw <;> rw [hw] at hw' <;> cases hw'
  · intro h0
    have hnil : (after config h).held = [] := List.eq_nil_of_length_eq_zero (Nat.le_zero.mp (h0 ▸ hr.bound))
    exact ⟨by simp [entries, hnil], fun client => by simp [get, answer, lookup?, hnil]⟩

end AffinityRelay.Store
