import AffinityRelay.Cluster.Dump
import AffinityRelay.Proofs.Affinity.Assigned

/-!
# The tables of a node, by key

* `Registry.tableOf?`: the table of a key, and `Registry.Sound`: no two keys share a table;
* `Registry.ofConfigs?_spec`: a new registry has an empty table for each key, of the first configuration with that key;
* `Registry.tableOf?_settle`: a decision changes the table of its key, and no other;
* `Registry.tableOf?_applyFrames`, `Registry.decisions_dump`: what frames do to one table, and what a dump tells of it.
-/

namespace AffinityRelay

namespace Registry

/-- The table of a key. -/
def tableOf? (key : Key) (r : Registry) : Option Store :=
  (r.lookup key).bind (r.tables[·]?)

/-- No key is registered twice, and each has a table of its own. -/
structure Sound (r : Registry) : Prop where
  keys : (r.registered.map Registration.key).Nodup
  numbers : (r.registered.map Registration.table).Nodup
  made : ∀ g ∈ r.registered, ∃ s, r.tables[g.table]? = some s ∧ s.config.key = g.key

variable {r : Registry} {key key' : Key} {s : Store} {i : Nat}

namespace Sound

theorem empty : Sound {} := ⟨List.nodup_nil, List.nodup_nil, nofun⟩

theorem lookup_eq_some_iff (h : r.Sound) :
    r.lookup key = some i ↔ ∃ g ∈ r.registered, g.key = key ∧ g.table = i := by
  simp only [lookup, find?, Option.map_eq_some_iff, find?_key_eq_some_iff h.keys, and_assoc]

theorem tableOf?_eq_some_iff (h : r.Sound) :
    r.tableOf? key = some s ↔ ∃ g ∈ r.registered, g.key = key ∧ r.tables[g.table]? = some s := by
  simp only [tableOf?, Option.bind_eq_some_iff, h.lookup_eq_some_iff]
  constructor
  · rintro ⟨_, ⟨g, hg, hk, rfl⟩, hs⟩
    exact ⟨g, hg, hk, hs⟩
  · rintro ⟨g, hg, hk, hs⟩
    exact ⟨g.table, ⟨g, hg, hk, rfl⟩, hs⟩

theorem key_of_tableOf? (h : r.Sound) (hs : r.tableOf? key = some s) : s.config.key = key := by
  obtain ⟨g, hg, rfl, ht⟩ := h.tableOf?_eq_some_iff.1 hs
  obtain ⟨s', ht', hk⟩ := h.made g hg
  rw [ht, Option.some_inj] at ht'
  rw [ht', hk]

/-- Two keys of one table are the same. -/
theorem key_eq (h : r.Sound) (hi : r.lookup key = some i) (hi' : r.lookup key' = some i) : key = key' := by
  obtain ⟨g, hg, rfl, rfl⟩ := h.lookup_eq_some_iff.1 hi
  obtain ⟨g', hg', rfl, ht⟩ := h.lookup_eq_some_iff.1 hi'
  rw [List.inj_on_of_nodup_map h.numbers hg hg' ht.symm]

theorem isSome_tableOf? (h : r.Sound) : (r.tableOf? key).isSome = (r.lookup key).isSome := by
  cases hl : r.lookup key with
  | none => simp [tableOf?, hl]
  | some i =>
    obtain ⟨g, hg, rfl, rfl⟩ := h.lookup_eq_some_iff.1 hl
    obtain ⟨s, hs, -⟩ := h.made g hg
    simp [tableOf?, hl, hs]

/-! ## Changes of one table -/

theorem modify (h : r.Sound) {f : Store → Store} (hf : ∀ s, r.tables[i]? = some s → (f s).config = s.config) :
    (r.modify i f).Sound where
  keys := h.keys
  numbers := h.numbers
  made g hg := by
    obtain ⟨s, hs, hk⟩ := h.made g hg
    simp only [Registry.modify, List.getElem?_modify, hs]
    split
    · rename_i hi
      exact ⟨f s, rfl, (congrArg StoreConfig.key (hf s (hi ▸ hs))).trans hk⟩
    · exact ⟨s, rfl, hk⟩

theorem tableOf?_modify (h : r.Sound) (hi : r.lookup key = some i) (f : Store → Store) (key' : Key) :
    (r.modify i f).tableOf? key' = if key' = key then (r.tableOf? key').map f else r.tableOf? key' := by
  have hl : (r.modify i f).lookup key' = r.lookup key' := rfl
  rw [tableOf?, hl, tableOf?]
  cases hi' : r.lookup key' with
  | none => simp
  | some j =>
    simp only [Option.bind_some, Registry.modify, List.getElem?_modify]
    by_cases hk : key' = key
    · subst hk
      rw [hi, Option.some_inj] at hi'
      simp [hi']
    · have hij : i ≠ j := fun hij => hk (h.key_eq (hij ▸ hi') hi)
      simp [hij, hk]

theorem settle (h : r.Sound) (now : Time) (key : Key) (client : Ip) (backend : Option Address) :
    (r.settle now key client backend).2.Sound := by
  unfold Registry.settle
  split
  · exact h.modify fun s _ => Store.config_settle now client backend s
  · exact h

end Sound

theorem tableOf?_settle (h : r.Sound) (now : Time) (key key' : Key) (client : Ip) (backend : Option Address) :
    (r.settle now key client backend).2.tableOf? key' =
      if key' = key then (r.tableOf? key').map (Store.settle now client backend) else r.tableOf? key' := by
  cases hi : r.lookup key with
  | some i =>
    simp only [settle, hi]
    rw [h.tableOf?_modify hi]
  | none =>
    simp only [settle, hi]
    by_cases hk : key' = key
    · simp [tableOf?, hk, hi]
    · rw [if_neg hk]

/-! ## A new registry -/

section Acquire

variable {f : Registration → Registration} (hk : ∀ g, (f g).key = g.key) (ht : ∀ g, (f g).table = g.table)
include hk ht

theorem lookup_change (key key' : Key) (r : Registry) : (r.change key f).lookup key' = r.lookup key' := by
  have hkey : (fun g : Registration => decide ((if g.key = key then f g else g).key = key')) =
      fun g => decide (g.key = key') := by
    funext g
    split
    · rw [hk]
    · rfl
  have htable : (fun g : Registration => (if g.key = key then f g else g).table) = Registration.table := by
    funext g
    split
    · exact ht g
    · rfl
  simp only [lookup, find?, change, List.find?_map, Option.map_map, Function.comp_def, hkey, htable]

/-- Who holds a key does not matter to the tables. -/
theorem change_spec (h : r.Sound) (key : Key) :
    (r.change key f).Sound ∧ ∀ key', (r.change key f).tableOf? key' = r.tableOf? key' := by
  have hmap : ∀ {α : Type} (p : Registration → α), (∀ g, p (f g) = p g) →
      (r.change key f).registered.map p = r.registered.map p := by
    intro α p hp
    rw [change, List.map_map]
    refine List.map_congr_left fun g _ => ?_
    rw [Function.comp_apply]
    split
    · exact hp g
    · rfl
  refine ⟨⟨(hmap _ hk).symm ▸ h.keys, (hmap _ ht).symm ▸ h.numbers, ?_⟩, fun key' => ?_⟩
  · intro g hg
    obtain ⟨g₀, hg₀, rfl⟩ := List.mem_map.1 hg
    obtain ⟨s, hs, hkey⟩ := h.made g₀ hg₀
    split
    · exact ⟨s, (ht g₀) ▸ hs, hkey.trans (hk g₀).symm⟩
    · exact ⟨s, hs, hkey⟩
  · rw [tableOf?, lookup_change hk ht]
    rfl

end Acquire

theorem acquire_spec (h : r.Sound) {config : StoreConfig} {r' : Registry} (ha : r.acquire config = (some i, r')) :
    r'.Sound ∧ ∀ key, r'.tableOf? key = (r.tableOf? key).or (if config.key = key then some { config } else none) := by
  unfold acquire at ha
  cases hf : r.find? config.key with
  | some g =>
    simp only [hf, Prod.mk.injEq] at ha
    obtain ⟨-, rfl⟩ := ha
    obtain ⟨hs, ht⟩ := change_spec (f := fun g => { g with holders := g.holders + 1 }) (fun _ => rfl) (fun _ => rfl) h
      config.key
    refine ⟨hs, fun key => (ht key).trans ?_⟩
    by_cases hk : config.key = key
    · have hsome : (r.tableOf? key).isSome := by rw [h.isSome_tableOf?, ← hk, lookup, hf]; rfl
      rw [Option.or_of_isSome hsome]
    · rw [if_neg hk, Option.or_none]
  | none =>
    simp only [hf] at ha
    cases hc : Store.create? config with
    | none => simp [hc] at ha
    | some store =>
      obtain ⟨-, rfl⟩ := Store.create?_eq_some_iff.1 hc
      simp only [hc, Prod.mk.injEq] at ha
      obtain ⟨-, rfl⟩ := ha
      have hnew : ∀ g ∈ r.registered, g.key ≠ config.key := by simpa [find?] using hf
      have hlt : ∀ g ∈ r.registered, g.table < r.tables.length := by
        intro g hg
        obtain ⟨s, hs, -⟩ := h.made g hg
        exact (List.getElem?_eq_some_iff.1 hs).1
      refine ⟨⟨?_, ?_, ?_⟩, fun key => ?_⟩
      · simp only [List.map_append, List.nodup_append, h.keys]
        simpa using hnew
      · simp only [List.map_append, List.nodup_append, h.numbers]
        simpa using fun g hg => (hlt g hg).ne
      · intro g hg
        rcases List.mem_append.1 hg with hg | hg
        · rw [List.getElem?_append_left (hlt g hg)]
          exact h.made g hg
        · rw [List.mem_singleton.1 hg, List.getElem?_concat_length]
          exact ⟨_, rfl, rfl⟩
      · rw [tableOf?, tableOf?, lookup, lookup, find?, find?, List.find?_append]
        cases hg : r.registered.find? (·.key = key) with
        | some g =>
          have hg' := hlt g (List.mem_of_find?_eq_some hg)
          have hk : config.key ≠ key := fun hk => by
            rw [find?, hk, hg] at hf
            cases hf
          simp [List.getElem?_append_left hg', hk]
        | none =>
          by_cases hk : config.key = key <;> simp [hk]

/-- What each step keeps, with the things that were gone through, is so in the end. -/
theorem foldlM_keeps {α β : Type} (kept : List α → β → Prop) {f : β → α → Option β}
    (hf : ∀ as a b b', kept as b → f b a = some b' → kept (as ++ [a]) b') (as as' : List α) {b b' : β}
    (hb : kept as b) (h : as'.foldlM f b = some b') : kept (as ++ as') b' := by
  induction as' generalizing as b with
  | nil =>
    obtain rfl : b = b' := by simpa using h
    rwa [List.append_nil]
  | cons a as' ih =>
    rw [List.foldlM_cons] at h
    obtain ⟨b₁, ha, h⟩ := Option.bind_eq_some_iff.1 h
    have := ih (as ++ [a]) (hf as a b b₁ hb ha) h
    rwa [List.append_assoc] at this

/-- A new registry has an empty table for each key that is configured. Of two configurations of one key the first
counts. -/
theorem ofConfigs?_spec {configs : List StoreConfig} (hr : ofConfigs? configs = some r) :
    r.Sound ∧ ∀ key, r.tableOf? key = (configs.find? (·.key = key)).map fun config => { config } := by
  refine foldlM_keeps (fun configs r => r.Sound ∧ ∀ key, r.tableOf? key =
    (configs.find? (·.key = key)).map fun config => { config }) ?_ [] configs ⟨Sound.empty, fun key => rfl⟩ hr
  rintro configs config r r' ⟨hs, ht⟩ ha
  split at ha
  · cases ha
  · rename_i i r₁ hacquire
    cases ha
    obtain ⟨hs', ht'⟩ := acquire_spec hs hacquire
    refine ⟨hs', fun key => ?_⟩
    rw [ht', ht, List.find?_append, List.find?_singleton]
    cases configs.find? (·.key = key) with
    | some config' => rfl
    | none => by_cases hk : config.key = key <;> simp [hk]

end Registry

/-! ## Frames and one table -/

/-- The decision that a frame tells of one table of its cluster, if it tells one. -/
def Frame.decision? (sticky : UInt64) : Frame → Option Decision
  | .nop => none
  | .update u => if u.sticky = sticky then some ⟨u.client, u.backend⟩ else none

/-- The decisions that frames tell of one table of their cluster. -/
def decisions (sticky : UInt64) (fs : List Frame) : List Decision :=
  fs.filterMap (Frame.decision? sticky)

theorem decisions_append (sticky : UInt64) (fs gs : List Frame) :
    decisions sticky (fs ++ gs) = decisions sticky fs ++ decisions sticky gs :=
  List.filterMap_append

theorem Store.decisions_dump (s : Store) (sticky : UInt64) :
    decisions sticky s.dump = if s.config.key.sticky = sticky then s.told else [] := by
  simp only [decisions, Store.dump, List.filterMap_map, Function.comp_def, Frame.decision?, Store.tell]
  split
  · simp [Store.told]
  · simp

namespace Registry

variable {r : Registry} {key : Key}

/-- Whoever receives frames makes the decisions that they tell. -/
theorem tableOf?_applyFrames (h : r.Sound) (now : Time) (key : Key) (fs : List Frame) :
    (applyFrames now key.cluster r fs).Sound ∧ (applyFrames now key.cluster r fs).tableOf? key =
      (r.tableOf? key).map (Store.settleAll now (decisions key.sticky fs)) := by
  induction fs generalizing r with
  | nil => exact ⟨h, (Option.map_id_apply).symm⟩
  | cons f fs ih =>
    cases f with
    | nop => exact ih h
    | update u =>
      obtain ⟨hs, ht⟩ := ih (h.settle now ⟨key.cluster, u.sticky⟩ u.client u.backend)
      refine ⟨hs, ht.trans ?_⟩
      rw [tableOf?_settle h]
      by_cases hk : u.sticky = key.sticky
      · have hkey : key = ⟨key.cluster, u.sticky⟩ := by rw [hk]
        have hd : decisions key.sticky (.update u :: fs) = ⟨u.client, u.backend⟩ :: decisions key.sticky fs :=
          List.filterMap_cons_some (if_pos hk)
        rw [if_pos hkey, Option.map_map, hd]
        rfl
      · have hkey : key ≠ ⟨key.cluster, u.sticky⟩ := fun hkey => hk (congrArg Key.sticky hkey).symm
        have hd : decisions key.sticky (.update u :: fs) = decisions key.sticky fs :=
          List.filterMap_cons_none (if_neg hk)
        rw [if_neg hkey, hd]

/-- A dump of a cluster tells all entries of the table of a key. -/
theorem decisions_dump (h : r.Sound) (key : Key) :
    decisions key.sticky (r.dump key.cluster) = (r.tableOf? key).elim [] Store.told := by
  have step : ∀ gs : List Registration, (gs.map Registration.key).Nodup →
      (∀ g ∈ gs, ∃ s, r.tables[g.table]? = some s ∧ s.config.key = g.key) →
      decisions key.sticky ((((gs.filter (·.key.cluster = key.cluster)).map Registration.table).filterMap
        (r.tables[·]?)).flatMap Store.dump) =
        (((gs.find? (·.key = key)).map Registration.table).bind (r.tables[·]?)).elim [] Store.told := by
    intro gs
    induction gs with
    | nil => exact fun _ _ => rfl
    | cons g gs ih =>
      intro hnd hmade
      obtain ⟨hnot, hnd⟩ := List.nodup_cons.1 hnd
      obtain ⟨s, hs, hk⟩ := hmade g List.mem_cons_self
      have ih := ih hnd fun g' hg' => hmade g' (List.mem_cons_of_mem _ hg')
      by_cases hc : g.key.cluster = key.cluster
      · rw [List.filter_cons_of_pos (by simpa using hc), List.map_cons, List.filterMap_cons_some hs,
          List.flatMap_cons, decisions_append, ih, Store.decisions_dump, hk]
        by_cases hkey : g.key = key
        · have hnone : gs.find? (·.key = key) = none :=
            List.find?_eq_none.2 fun g' hg' hk' => hnot (by
              rw [hkey, ← of_decide_eq_true hk']
              exact List.mem_map_of_mem hg')
          rw [List.find?_cons_of_pos (by simpa using hkey), hnone, if_pos (congrArg Key.sticky hkey)]
          simp [hs]
        · have hst : g.key.sticky ≠ key.sticky := fun hst => hkey (by
            rw [← show (⟨g.key.cluster, g.key.sticky⟩ : Key) = g.key from rfl, hc, hst])
          rw [if_neg hst, List.find?_cons_of_neg (by simpa using hkey), List.nil_append]
      · have hkey : g.key ≠ key := fun hkey => hc (congrArg Key.cluster hkey)
        rw [List.filter_cons_of_neg (by simpa using hc), List.find?_cons_of_neg (by simpa using hkey), ih]
  exact step r.registered h.keys h.made

end Registry

end AffinityRelay
