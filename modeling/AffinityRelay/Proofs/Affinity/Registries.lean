import AffinityRelay.Proofs.Affinity.Recency
import AffinityRelay.Proofs.Affinity.Tables

/-!
# What a registry can come to

Tables are made for keys, holders come and go, and whoever has a table writes to it and looks clients up in it, also
after its key is gone (`Registry.Reachable`). Whatever happened, no two keys share a table, and every table that was
ever made is what some history leads to (`Registry.Reachable.grown`). So a table lists different networks, each of
them as it is masked, and not more than there is room for (`Store.Listed`).
-/

namespace AffinityRelay

namespace Registry

/-- What a registry can come to by a time. -/
inductive Reachable : Time → Registry → Prop
  | new : Reachable 0 {}
  | wait {now : Time} {r : Registry} (span : Time) : Reachable now r → Reachable (now + span) r
  | acquire {now : Time} {r : Registry} (config : StoreConfig) : Reachable now r → Reachable now (r.acquire config).2
  | release {now : Time} {r : Registry} (key : Key) : Reachable now r → Reachable now (r.release key)
  | releaseAll {now : Time} {r : Registry} : Reachable now r → Reachable now r.releaseAll
  | dropReleased {now : Time} {r : Registry} : Reachable now r → Reachable now r.dropReleased.2
  /-- A decision is written to the table of a number. -/
  | settle {now : Time} {r : Registry} (table : Nat) (client : Ip) (backend : Option Address) :
      Reachable now r → Reachable now (r.modify table (Store.settle now client backend))
  /-- A client is looked up in the table of a number. -/
  | ask {now : Time} {r : Registry} (table : Nat) (client : Ip) :
      Reachable now r → Reachable now (r.modify table fun s => (s.get now client).2)

/-- Each key has a table of its own, and each table is what a history of all that time makes of an empty one. -/
structure Grown (now : Time) (r : Registry) : Prop where
  sound : r.Sound
  history : ∀ s ∈ r.tables, ∃ h, Store.clock h = now ∧ s = Store.after s.config h

variable {now : Time} {r : Registry}

/-- A table that was changed was there before. -/
theorem mem_tables_modify {i : Nat} {f : Store → Store} {s : Store} (hs : s ∈ (r.modify i f).tables) :
    s ∈ r.tables ∨ ∃ t ∈ r.tables, s = f t := by
  obtain ⟨j, hj⟩ := List.mem_iff_getElem?.1 hs
  rw [modify, List.getElem?_modify] at hj
  obtain ⟨t, ht, rfl⟩ := Option.map_eq_some_iff.1 hj
  split
  · exact .inr ⟨t, List.mem_of_getElem? ht, rfl⟩
  · exact .inl (List.mem_of_getElem? ht)

/-- Something happens to one table. -/
theorem Grown.modify (h : r.Grown now) (i : Nat) {e : Store.Event} (he : ∀ h, Store.clock (e :: h) = Store.clock h) :
    (r.modify i (e.apply now)).Grown now where
  sound := h.sound.modify fun s _ => Store.config_apply now e s
  history s hs := by
    obtain hs | ⟨t, ht, rfl⟩ := mem_tables_modify hs
    · exact h.history s hs
    · obtain ⟨past, hclock, ht⟩ := h.history t ht
      refine ⟨e :: past, (he past).trans hclock, ?_⟩
      rw [Store.config_apply, Store.after, ← ht, hclock]

/-- Registrations may go, and who holds the keys does not matter. -/
theorem Sound.registered (h : r.Sound) {gs : List Registration}
    (hs : (gs.map fun g => (g.key, g.table)).Sublist (r.registered.map fun g => (g.key, g.table))) :
    Sound { r with registered := gs } where
  keys := by
    have := hs.map Prod.fst
    simp only [List.map_map, Function.comp_def] at this
    exact h.keys.sublist this
  numbers := by
    have := hs.map Prod.snd
    simp only [List.map_map, Function.comp_def] at this
    exact h.numbers.sublist this
  made := by
    intro g hg
    obtain ⟨g₀, hg₀, heq⟩ := List.mem_map.1 (hs.subset (List.mem_map_of_mem hg))
    obtain ⟨hk, ht⟩ := Prod.mk.inj heq
    rw [← hk, ← ht]
    exact h.made g₀ hg₀

theorem Grown.registered (h : r.Grown now) {gs : List Registration}
    (hs : (gs.map fun g => (g.key, g.table)).Sublist (r.registered.map fun g => (g.key, g.table))) :
    Grown now { r with registered := gs } :=
  ⟨h.sound.registered hs, h.history⟩

theorem Sound.acquire (h : r.Sound) (config : StoreConfig) : (r.acquire config).2.Sound := by
  cases ha : r.acquire config with
  | mk number r' =>
    cases number with
    | some i => exact (acquire_spec h ha).1
    | none =>
      unfold Registry.acquire at ha
      split at ha
      · cases ha
      · split at ha <;> cases ha
        exact h

/-- A key may get a table, which is empty. -/
theorem Grown.acquire (h : r.Grown now) (config : StoreConfig) : (r.acquire config).2.Grown now := by
  have htables : (r.acquire config).2.tables ⊆ r.tables ++ [({ config } : Store)] := by
    unfold Registry.acquire
    split
    · exact List.subset_append_left _ _
    · split
      · exact List.subset_append_left _ _
      · rename_i store hc
        rw [(Store.create?_eq_some_iff.1 hc).2]
        exact List.Subset.refl _
  refine ⟨h.sound.acquire config, fun s hs => ?_⟩
  obtain hs | hs := List.mem_append.1 (htables hs)
  · exact h.history s hs
  · obtain rfl := List.mem_singleton.1 hs
    exact ⟨[.wait now], Nat.zero_add now, rfl⟩

theorem Reachable.grown (h : r.Reachable now) : r.Grown now := by
  induction h with
  | new => exact ⟨Sound.empty, nofun⟩
  | wait span _ ih =>
    refine ⟨ih.sound, fun s hs => ?_⟩
    obtain ⟨past, rfl, ht⟩ := ih.history s hs
    exact ⟨.wait span :: past, rfl, ht⟩
  | acquire config _ ih => exact ih.acquire config
  | release key _ ih =>
    refine ih.registered ?_
    rw [List.map_map, List.map_congr_left fun g _ => ?_]
    simp only [Function.comp_apply]
    split <;> rfl
  | releaseAll _ ih =>
    refine ih.registered ?_
    rw [List.map_map]
    exact .refl _
  | dropReleased _ ih => exact ih.registered (List.filter_sublist.map _)
  | settle table client backend _ ih =>
    cases backend with
    | some b => exact ih.modify table (e := .put client b) fun _ => rfl
    | none => exact ih.modify table (e := .withdraw client) fun _ => rfl
  | ask table client _ ih => exact ih.modify table (e := .get client) fun _ => rfl

end Registry

/-! ## What such a table lists -/

namespace Store

/-- A table lists different networks, each as it is masked, and not more than it has room for. -/
structure Listed (s : Store) : Prop where
  nodup : (s.entries.map Prod.fst).Nodup
  masked : ∀ x ∈ s.entries, s.network x.1 = x.1
  bound : s.entries.length ≤ s.config.capacity

theorem listed_after (config : StoreConfig) (h : History) : (after config h).Listed := by
  have hr : Recorded config h := recorded_after h
  refine ⟨?_, fun x hx => ?_, by simpa [entries] using hr.bound⟩
  · simpa [entries, Function.comp_def] using nodup_of_pairwise hr.ordered
  · obtain ⟨e, he, rfl⟩ := List.mem_map.1 hx
    obtain ⟨client, hc⟩ := exists_mask_of_lastWrite (hr.written e he)
    rw [network_after, ← hc, Ip.mask_mask, Nat.min_self]

end Store

theorem Registry.Reachable.listed {now : Time} {r : Registry} (h : r.Reachable now) {s : Store} (hs : s ∈ r.tables) :
    s.Listed := by
  obtain ⟨past, -, ht⟩ := h.grown.history s hs
  rw [ht]
  exact Store.listed_after s.config past

end AffinityRelay
