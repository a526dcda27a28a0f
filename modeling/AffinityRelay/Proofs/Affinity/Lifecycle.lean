import AffinityRelay.Proofs.Affinity.Registries

/-!
# The life of a table

Tables are made for keys, holders come and go, keys without holders are swept away, and whoever was given a table uses
it, also after its key is gone. A `Registry.History` lists all that, the latest first, and `Registry.after` is the
registry that it leads to.

* `Registry.holders`: how many hold a key, read off the history; a registration counts just them (`holders_eq`);
* `Registry.Retired`: a number that no key has any more. No key ever has it again (`Retired.after`);
* `Registry.Swept`: whether a key was swept away in a part of a history. A key keeps its table until then
  (`kept_or_swept`), and the table is what was done to it (`tables_after`);
* `Registry.tables_live_while_held`: all of that, and what a reload comes to.
-/

namespace AffinityRelay.Registry

/-! ## What happens to a registry -/

/-- What can happen to a registry and its tables. -/
inductive Act where
  | acquire (config : StoreConfig)
  | lookUp (key : Key)
  | release (key : Key)
  | releaseAll
  | dropReleased
  /-- Whoever was given the table of a number does something with it. -/
  | use (now : Time) (table : Nat) (e : Store.Event)

/-- All that happened, the latest first. -/
abbrev History := List Act

/-- The registry after an act. -/
def Act.apply (r : Registry) : Act → Registry
  | acquire config => (r.acquire config).2
  | lookUp _ => r
  | release key => r.release key
  | releaseAll => r.releaseAll
  | dropReleased => r.dropReleased.2
  | use now table e => r.modify table (e.apply now)

/-- The registry that a history leads to. -/
def after : History → Registry
  | [] => {}
  | a :: h => a.apply (after h)

/-- How many hold a key: one when its table is made, one more with each that is given it after that, one less with each
that goes as long as there is one, and none when all go. -/
def holders (key : Key) : History → Nat
  | [] => 0
  | .acquire config :: h =>
    if config.key = key then if (after h).lookup key = none then 1 else holders key h + 1 else holders key h
  | .release k :: h => if k = key then holders key h - 1 else holders key h
  | .releaseAll :: _ => 0
  | .dropReleased :: h | .lookUp _ :: h | .use _ _ _ :: h => holders key h

/-- The table of a number after what those who have it did with it. -/
def used (i : Nat) (s : Store) : History → Store
  | [] => s
  | .use now j e :: h => if j = i then e.apply now (used i s h) else used i s h
  | _ :: h => used i s h

/-- Whether a key is swept away in what happens after a history. -/
def Swept (key : Key) (h : History) : History → Prop
  | [] => False
  | a :: later => (a = .dropReleased ∧ (after (later ++ h)).lookup key ≠ none ∧
      (after (a :: later ++ h)).lookup key = none) ∨ Swept key h later

/-- A reload: all holders go, the keys of new configurations are taken, and what nobody holds then is swept away. -/
def reload (configs : List StoreConfig) : History :=
  .dropReleased :: (configs.map Act.acquire).reverse ++ [.releaseAll]

/-- A number that was given to a table, and that no key has any more. -/
structure Retired (i : Nat) (r : Registry) : Prop where
  made : i < r.tables.length
  unregistered : ∀ g ∈ r.registered, g.table ≠ i

/-! ## One act -/

variable {r : Registry} {key k : Key} {g : Registration} {config : StoreConfig} {h : History} {i : Nat}

theorem find?_change (f : Registration → Registration) (hf : ∀ g, (f g).key = g.key) (key k : Key) (r : Registry) :
    (r.change k f).find? key = (r.find? key).map fun g => if k = key then f g else g := by
  have hkey : ∀ g : Registration, (if g.key = k then f g else g).key = g.key := by
    intro g
    split
    · exact hf g
    · rfl
  simp only [find?, change, List.find?_map, Function.comp_def, hkey]
  cases hg : r.registered.find? (·.key = key) with
  | none => rfl
  | some g =>
    have hgk : g.key = key := by simpa using List.find?_some hg
    simp only [Option.map_some, hgk, eq_comm]

/-- A key is given its table, with one more holder, or gets one if there can be room for it. -/
theorem find?_acquire (config : StoreConfig) (key : Key) (r : Registry) :
    (r.acquire config).2.find? key =
      if config.key = key then
        match r.find? key with
        | some g => some { g with holders := g.holders + 1 }
        | none => if config.fits then some ⟨key, r.tables.length, 1⟩ else none
      else r.find? key := by
  unfold acquire
  cases hg : r.find? config.key with
  | some g =>
    simp only
    rw [find?_change (fun g => { g with holders := g.holders + 1 }) fun _ => rfl]
    split
    · rename_i hk
      rw [← hk, hg]
      rfl
    · exact Option.map_id_apply
  | none =>
    simp only [Store.create?]
    by_cases hk : config.key = key
    · subst hk
      rw [if_pos rfl, hg]
      by_cases hfit : config.fits
      · have hnone : r.registered.find? (·.key = config.key) = none := hg
        simp [hfit, find?, List.find?_append, hnone]
      · simpa [hfit] using hg
    · rw [if_neg hk]
      by_cases hfit : config.fits
      · simp [hfit, find?, List.find?_append, hk]
      · simp [hfit]

theorem find?_release (key k : Key) (r : Registry) : (r.release k).find? key =
    (r.find? key).map fun g => if k = key then { g with holders := g.holders - 1 } else g :=
  find?_change (fun g => { g with holders := g.holders - 1 }) (fun _ => rfl) key k r

theorem find?_releaseAll (key : Key) (r : Registry) :
    r.releaseAll.find? key = (r.find? key).map fun g => { g with holders := 0 } := by
  simp only [find?, releaseAll, List.find?_map, Function.comp_def]

/-- A sweep takes just the keys that nobody holds. -/
theorem find?_dropReleased (h : r.Sound) (key : Key) :
    r.dropReleased.2.find? key = (r.find? key).filter (0 < ·.holders) := by
  have hkept : ((r.registered.filter (0 < ·.holders)).map Registration.key).Nodup :=
    h.keys.sublist (List.filter_sublist.map _)
  refine Option.ext fun g => ?_
  simp only [find?, dropReleased, Option.filter_eq_some_iff, find?_key_eq_some_iff h.keys, find?_key_eq_some_iff hkept,
    List.mem_filter]
  tauto

theorem Sound.apply (h : r.Sound) (a : Act) : (a.apply r).Sound := by
  cases a with
  | acquire config => exact h.acquire config
  | lookUp key => exact h
  | release key =>
    exact (change_spec (f := fun g => { g with holders := g.holders - 1 }) (fun _ => rfl) (fun _ => rfl) h key).1
  | releaseAll => exact h.registered (by rw [List.map_map]; exact .refl _)
  | dropReleased => exact h.registered (List.filter_sublist.map _)
  | use now table e => exact h.modify fun s _ => Store.config_apply now e s

/-! ## Every history -/

theorem sound_after : ∀ h : History, (after h).Sound
  | [] => Sound.empty
  | a :: h => (sound_after h).apply a

/-- A registration counts those who hold its key. -/
theorem holders_eq : ∀ {h : History} {g : Registration}, (after h).find? key = some g → g.holders = holders key h
  | [], g, hg => by cases hg
  | a :: h, g, hg => by
    cases a with
    | acquire config =>
      rw [after, Act.apply, find?_acquire] at hg
      rw [holders]
      by_cases hk : config.key = key
      · rw [if_pos hk] at hg ⊢
        cases hf : (after h).find? key with
        | some g₀ =>
          rw [hf] at hg
          cases hg
          rw [if_neg (by simp [lookup, hf]), ← holders_eq hf]
        | none =>
          rw [if_pos (by simp [lookup, hf])]
          simp only [hf] at hg
          split at hg <;> cases hg
          rfl
      · rw [if_neg hk] at hg ⊢
        exact holders_eq hg
    | lookUp k => exact holders_eq (h := h) hg
    | release k =>
      rw [after, Act.apply, find?_release] at hg
      obtain ⟨g₀, hg₀, rfl⟩ := Option.map_eq_some_iff.1 hg
      rw [holders]
      split
      · exact congrArg (· - 1) (holders_eq hg₀)
      · exact holders_eq hg₀
    | releaseAll =>
      rw [after, Act.apply, find?_releaseAll] at hg
      obtain ⟨g₀, hg₀, rfl⟩ := Option.map_eq_some_iff.1 hg
      rfl
    | dropReleased =>
      rw [after, Act.apply, find?_dropReleased (sound_after h)] at hg
      exact holders_eq (h := h) (Option.filter_eq_some_iff.1 hg).1
    | use now table e => exact holders_eq (h := h) hg

theorem find?_of_mem (hs : r.Sound) (hg : g ∈ r.registered) : r.find? g.key = some g :=
  (find?_key_eq_some_iff hs.keys).2 ⟨hg, rfl⟩

/-- A sweep takes the keys that nobody holds, and no other. -/
theorem lookup_dropReleased (h : History) (key : Key) :
    (after (.dropReleased :: h)).lookup key = if holders key h = 0 then none else (after h).lookup key := by
  rw [after, Act.apply, lookup, find?_dropReleased (sound_after h), lookup]
  cases hg : (after h).find? key with
  | none => simp
  | some g =>
    rw [← holders_eq hg]
    by_cases h0 : g.holders = 0
    · simp [h0]
    · simp [h0, Nat.pos_of_ne_zero h0]

/-- A sweep says how many keys nobody holds. -/
theorem dropReleased_fst (h : History) : (after h).dropReleased.1 =
    (((after h).registered.map Registration.key).filter (holders · h = 0)).length := by
  have hcount : ((after h).registered.map Registration.key).filter (holders · h = 0) =
      ((after h).registered.filter (¬ 0 < ·.holders)).map Registration.key := by
    rw [List.filter_map]
    congr 1
    refine List.filter_congr fun g hg => ?_
    rw [Function.comp_apply, ← holders_eq (find?_of_mem (sound_after h) hg)]
    simp
  have hsplit := List.length_eq_length_filter_add (l := (after h).registered) (0 < ·.holders)
  rw [hcount, List.length_map, dropReleased]
  simp only [decide_not] at *
  omega

/-! ## Tables and their numbers -/

theorem length_tables_le (r : Registry) (a : Act) : r.tables.length ≤ (a.apply r).tables.length := by
  cases a with
  | acquire config =>
    simp only [Act.apply, acquire]
    split
    · exact Nat.le_refl _
    · split
      · exact Nat.le_refl _
      · simp
  | use now table e => simp [Act.apply, modify]
  | lookUp | release | releaseAll | dropReleased => exact Nat.le_refl _

theorem made_after (hi : i < (after h).tables.length) : ∀ later, i < (after (later ++ h)).tables.length
  | [] => hi
  | a :: later => (made_after hi later).trans_le (length_tables_le _ a)

/-- A table that was made is what was done to it since, whether or not a key has it. -/
theorem tables_after (hi : i < (after h).tables.length) :
    ∀ later, (after (later ++ h)).tables[i]? = ((after h).tables[i]?).map (used i · later)
  | [] => Option.map_id_apply.symm
  | a :: later => by
    have ih := tables_after hi later
    have hlt := made_after hi later
    cases a with
    | acquire config =>
      refine Eq.trans ?_ ih
      simp only [List.cons_append, after, Act.apply, acquire]
      split
      · rfl
      · split
        · rfl
        · exact List.getElem?_append_left hlt
    | use now j e =>
      simp only [List.cons_append, after, Act.apply, modify, List.getElem?_modify, ih]
      cases (after h).tables[i]? with
      | none => rfl
      | some s => rfl
    | lookUp | release | releaseAll | dropReleased => exact ih

theorem config_used (i : Nat) (s : Store) : ∀ later, (used i s later).config = s.config
  | [] => rfl
  | a :: later => by
    have ih := config_used i s later
    cases a with
    | use now j e =>
      rw [used]
      split
      · exact (Store.config_apply now e _).trans ih
      · exact ih
    | acquire | lookUp | release | releaseAll | dropReleased => exact ih

theorem used_of_forall (i : Nat) (s : Store) : ∀ {later : History}, (∀ a ∈ later, ∀ now j e, a ≠ .use now j e) →
    used i s later = s
  | [], _ => rfl
  | a :: later, hn => by
    have ih := used_of_forall i s (List.forall_mem_cons.1 hn).2
    cases a with
    | use now j e => exact absurd rfl ((List.forall_mem_cons.1 hn).1 now j e)
    | acquire | lookUp | release | releaseAll | dropReleased => exact ih

/-- No act gives a number that no key has any more to a key. -/
theorem Retired.apply (hr : r.Retired i) (a : Act) : (a.apply r).Retired i := by
  refine ⟨hr.made.trans_le (length_tables_le r a), ?_⟩
  have hmap : ∀ f : Registration → Registration, (∀ g, (f g).table = g.table) →
      ∀ g ∈ r.registered.map f, g.table ≠ i := by
    intro f hf g hg
    obtain ⟨g₀, hg₀, rfl⟩ := List.mem_map.1 hg
    rw [hf]
    exact hr.unregistered g₀ hg₀
  have hchange : ∀ (k : Key) (f : Registration → Registration), (∀ g, (f g).table = g.table) →
      ∀ g ∈ (r.change k f).registered, g.table ≠ i := by
    intro k f hf
    refine hmap _ fun g => ?_
    split
    · exact hf g
    · rfl
  cases a with
  | acquire config =>
    simp only [Act.apply, acquire]
    split
    · exact hchange _ _ fun _ => rfl
    · split
      · exact hr.unregistered
      · intro g hg
        obtain hg | hg := List.mem_append.1 hg
        · exact hr.unregistered g hg
        · rw [List.mem_singleton.1 hg]
          exact hr.made.ne'
  | release key => exact hchange key _ fun _ => rfl
  | releaseAll => exact hmap _ fun _ => rfl
  | dropReleased => exact fun g hg => hr.unregistered g (List.mem_of_mem_filter hg)
  | lookUp | use => exact hr.unregistered

theorem Retired.after (hr : (after h).Retired i) : ∀ later, (Registry.after (later ++ h)).Retired i
  | [] => hr
  | a :: later => (Retired.after hr later).apply a

/-- A number that no key has is nowhere answered. -/
theorem Retired.not_answered (hr : r.Retired i) : (∀ key, r.lookup key ≠ some i) ∧
    (∀ config, (r.acquire config).1 ≠ some i) ∧ ∀ cluster, i ∉ r.ofCluster cluster := by
  have hfind : ∀ key g, r.find? key = some g → g.table ≠ i := fun key g hg =>
    hr.unregistered g (List.mem_of_find?_eq_some hg)
  refine ⟨fun key hk => ?_, fun config hc => ?_, fun cluster hm => ?_⟩
  · obtain ⟨g, hg, ht⟩ := Option.map_eq_some_iff.1 hk
    exact hfind key g hg ht
  · unfold acquire at hc
    split at hc
    · rename_i g hg
      exact hfind _ g hg (Option.some.inj hc)
    · split at hc
      · cases hc
      · exact hr.made.ne' (Option.some.inj hc)
  · obtain ⟨g, hg, ht⟩ := List.mem_map.1 hm
    exact hr.unregistered g (List.mem_of_mem_filter hg) ht

/-! ## Keys and their tables -/

/-- Only a sweep takes the table of a key away. -/
theorem lookup_apply (hl : (after h).lookup key = some i) (a : Act) :
    (after (a :: h)).lookup key = some i ∨ a = .dropReleased ∧ (after (a :: h)).lookup key = none := by
  obtain ⟨g, hg, hgi⟩ := Option.map_eq_some_iff.1 hl
  cases a with
  | acquire config =>
    refine .inl ?_
    rw [after, Act.apply, lookup, find?_acquire]
    split
    · rw [hg]
      exact congrArg some hgi
    · exact hl
  | release k =>
    refine .inl ?_
    rw [after, Act.apply, lookup, find?_release, hg, Option.map_some, Option.map_some]
    split <;> exact congrArg some hgi
  | releaseAll =>
    refine .inl ?_
    rw [after, Act.apply, lookup, find?_releaseAll, hg]
    exact congrArg some hgi
  | dropReleased =>
    rw [lookup_dropReleased]
    split
    · exact .inr ⟨rfl, rfl⟩
    · exact .inl hl
  | lookUp | use => exact .inl hl

/-- A key that was swept away leaves a number that no key has. -/
theorem retired_of_lookup (hl : (after h).lookup key = some i)
    (hn : (after (.dropReleased :: h)).lookup key = none) : (after (.dropReleased :: h)).Retired i := by
  have hs : (after h).Sound := sound_after h
  obtain ⟨g, hg, rfl, rfl⟩ := hs.lookup_eq_some_iff.1 hl
  obtain ⟨s, hm, -⟩ := hs.made g hg
  refine ⟨(List.getElem?_eq_some_iff.1 hm).1, fun g' hg' ht => ?_⟩
  obtain rfl := List.inj_on_of_nodup_map hs.numbers (List.mem_of_mem_filter hg') hg ht
  rw [lookup, find?_of_mem (sound_after _) hg'] at hn
  cases hn

/-- A key keeps its table until it is swept away, and after that no key has the table's number. -/
theorem kept_or_swept (hl : (after h).lookup key = some i) : ∀ later,
    ¬ Swept key h later ∧ (after (later ++ h)).lookup key = some i ∨
      Swept key h later ∧ (after (later ++ h)).Retired i
  | [] => .inl ⟨id, hl⟩
  | a :: later => by
    obtain ⟨hn, hk⟩ | ⟨hs, hr⟩ := kept_or_swept hl later
    · obtain hk' | ⟨rfl, hnone⟩ := lookup_apply hk a
      · refine .inl ⟨?_, hk'⟩
        rintro (⟨-, -, hnone⟩ | hs)
        · rw [List.cons_append, hk'] at hnone
          cases hnone
        · exact hn hs
      · exact .inr ⟨.inl ⟨rfl, by simp [hk], hnone⟩, retired_of_lookup hk hnone⟩
    · exact .inr ⟨.inr hs, hr.apply a⟩

/-- A call for the table of a key registers the key, if it answers. -/
theorem lookup_of_acquire (ha : ((after h).acquire config).1 = some i) :
    (after (.acquire config :: h)).lookup config.key = some i ∧
      ((after h).lookup config.key = some i ∨ (after h).lookup config.key = none ∧
        (after (.acquire config :: h)).tables[i]? = some { config }) := by
  simp only [after, Act.apply]
  rw [lookup, find?_acquire, if_pos rfl, lookup]
  unfold acquire at ha ⊢
  cases hg : (after h).find? config.key with
  | some g =>
    simp only [hg, Option.some.injEq] at ha
    simp [ha]
  | none =>
    simp only [hg] at ha ⊢
    cases hc : Store.create? config with
    | none => simp [hc] at ha
    | some s =>
      obtain ⟨hfit, rfl⟩ := Store.create?_eq_some_iff.1 hc
      simp only [hc, Option.some.injEq] at ha
      simp [hfit, ← ha]

/-! ## Reloads -/

/-- After the keys of some configurations were taken, the holders of a key are those who took it. -/
theorem holders_taken (key : Key) (h : History) (configs : List StoreConfig) :
    0 < holders key ((configs.map Act.acquire).reverse ++ .releaseAll :: h) ↔ ∃ c ∈ configs, c.key = key := by
  induction configs using List.reverseRecOn with
  | nil => simp [holders]
  | append_singleton configs config ih =>
    rw [List.map_append, List.reverse_append]
    simp only [List.map_cons, List.map_nil, List.reverse_singleton, List.cons_append, List.nil_append, holders,
      List.mem_append, List.mem_singleton, or_and_right, exists_or, exists_eq_left, ← ih]
    by_cases hk : config.key = key
    · simp only [hk, if_true, or_true, iff_true]
      split <;> omega
    · simp [hk]

/-- The keys of some configurations are registered if there can be room for their tables, and none is lost. -/
theorem lookup_taken (key : Key) (h : History) (configs : List StoreConfig) :
    (after ((configs.map Act.acquire).reverse ++ .releaseAll :: h)).lookup key ≠ none ↔
      (after h).lookup key ≠ none ∨ ∃ c ∈ configs, c.key = key ∧ c.fits := by
  induction configs using List.reverseRecOn with
  | nil => simp [after, Act.apply, lookup, find?_releaseAll]
  | append_singleton configs config ih =>
    rw [List.map_append, List.reverse_append]
    simp only [List.map_cons, List.map_nil, List.reverse_singleton, List.cons_append, List.nil_append, after,
      Act.apply, List.mem_append, List.mem_singleton, or_and_right, exists_or, exists_eq_left, ← or_assoc, ← ih]
    simp only [lookup, find?_acquire, ne_eq, Option.map_eq_none_iff]
    by_cases hk : config.key = key
    · simp only [hk, if_true]
      split <;> rename_i hg
      · simp [hg]
      · split <;> rename_i hfit <;> simp [hg, hfit]
    · simp [hk]

theorem reload_append (configs : List StoreConfig) (h : History) :
    reload configs ++ h = .dropReleased :: ((configs.map Act.acquire).reverse ++ .releaseAll :: h) := by
  simp [reload]

/-- A reload leaves the keys of its configurations, and no other. -/
theorem lookup_reload (configs : List StoreConfig) (h : History) (key : Key) :
    (after (reload configs ++ h)).lookup key ≠ none ↔
      ∃ c ∈ configs, c.key = key ∧ (c.fits ∨ (after h).lookup key ≠ none) := by
  have hheld := holders_taken key h configs
  have hkept := lookup_taken key h configs
  rw [reload_append, lookup_dropReleased]
  constructor
  · intro hne
    split at hne
    · exact absurd rfl hne
    · rename_i h0
      obtain ⟨c, hc, hk⟩ := hheld.1 (Nat.pos_of_ne_zero h0)
      obtain hbefore | ⟨c', hc', hk', hfit⟩ := hkept.1 hne
      · exact ⟨c, hc, hk, .inr hbefore⟩
      · exact ⟨c', hc', hk', .inl hfit⟩
  · rintro ⟨c, hc, hk, hfit⟩
    rw [if_neg (hheld.2 ⟨c, hc, hk⟩).ne']
    exact hkept.2 (hfit.symm.imp_right fun hfit => ⟨c, hc, hk, hfit⟩)

/-- A key that a reload leaves has the table that it had. -/
theorem kept_reload (hl : (after h).lookup key = some i) {configs : List StoreConfig}
    (hk : (after (reload configs ++ h)).lookup key ≠ none) :
    (after (reload configs ++ h)).lookup key = some i ∧
      (after (reload configs ++ h)).tables[i]? = (after h).tables[i]? := by
  have hs : (after h).Sound := sound_after h
  obtain ⟨g, hg, rfl, rfl⟩ := hs.lookup_eq_some_iff.1 hl
  obtain ⟨s, hm, -⟩ := hs.made g hg
  constructor
  · rw [reload_append, lookup_dropReleased] at hk ⊢
    split at hk
    · exact absurd rfl hk
    · rename_i h0
      rw [if_neg h0]
      -- Before its sweep a reload takes no key from its table.
      have htaken : ∀ l : History, (∀ a ∈ l, a ≠ .dropReleased) → (after (l ++ h)).lookup g.key = some g.table := by
        intro l hn
        induction l with
        | nil => exact hl
        | cons a l ih =>
          obtain hk' | ⟨rfl, -⟩ := lookup_apply (ih (List.forall_mem_cons.1 hn).2) a
          · exact hk'
          · exact absurd rfl ((List.forall_mem_cons.1 hn).1)
      have := htaken ((configs.map Act.acquire).reverse ++ [.releaseAll]) (by simp [or_imp, forall_and])
      rwa [List.append_assoc] at this
  · rw [tables_after (List.getElem?_eq_some_iff.1 hm).1, hm, Option.map_some, used_of_forall g.table s]
    simp [reload, or_imp, forall_and]

/-! ## All of it -/

/-- What becomes of the tables of a registry, whatever happened to it. A registered key has as many holders as were given
its table since it was made or since all holders went, less those that went, and never less than none. A sweep takes
just the keys that nobody holds, and says how many. Two calls for one key give the same table if and only if no sweep
between them took the key; then it has its configuration, the first one if that call made it, and all that was done to
it. The table of a key that was swept away is not given again, for no key. A reload leaves the keys of its
configurations that have or can have a table, and those that were there before keep theirs as it is. -/
theorem tables_live_while_held (h : History) :
    (∀ key g, (after h).find? key = some g → g.holders = holders key h) ∧
    (((after h).registered.map Registration.key).Nodup ∧
      (after h).dropReleased.1 =
        (((after h).registered.map Registration.key).filter (holders · h = 0)).length ∧
      ∀ key, (after (.dropReleased :: h)).lookup key = if holders key h = 0 then none else (after h).lookup key) ∧
    (∀ (first : StoreConfig) later (second : StoreConfig) i j, second.key = first.key →
      ((after h).acquire first).1 = some i → ((after (later ++ .acquire first :: h)).acquire second).1 = some j →
      (j = i ↔ ¬ Swept first.key (.acquire first :: h) later) ∧
      (j = i → ∃ s, (after (.acquire first :: h)).tables[i]? = some s ∧
        (after (later ++ .acquire first :: h)).tables[i]? = some (used i s later) ∧
        (used i s later).config = s.config ∧ ((after h).lookup first.key = none → s = { config := first }))) ∧
    (∀ key i, (after h).lookup key = some i → (after (.dropReleased :: h)).lookup key = none → ∀ later,
      let r := after (later ++ .dropReleased :: h)
      (∀ key', r.lookup key' ≠ some i) ∧ (∀ config, (r.acquire config).1 ≠ some i) ∧
        ∀ cluster, i ∉ r.ofCluster cluster) ∧
    ∀ configs, let r := after (reload configs ++ h)
      (∀ key, r.lookup key ≠ none ↔ ∃ c ∈ configs, c.key = key ∧ (c.fits ∨ (after h).lookup key ≠ none)) ∧
      ∀ key i, (after h).lookup key = some i → (∃ c ∈ configs, c.key = key) →
        r.lookup key = some i ∧ r.tables[i]? = (after h).tables[i]? := by
  refine ⟨fun key g => holders_eq, ⟨(sound_after h).keys, dropReleased_fst h, lookup_dropReleased h⟩, ?_, ?_, ?_⟩
  · intro first later second i j hkey hi hj
    obtain ⟨hl, hmade⟩ := lookup_of_acquire hi
    obtain ⟨s, hs⟩ : ∃ s, (after (.acquire first :: h)).tables[i]? = some s := by
      obtain ⟨g, hg, -, rfl⟩ := (sound_after _).lookup_eq_some_iff.1 hl
      obtain ⟨s, hs, -⟩ := (sound_after _).made g hg
      exact ⟨s, hs⟩
    have hused := tables_after (List.getElem?_eq_some_iff.1 hs).1 later
    rw [hs, Option.map_some] at hused
    refine ⟨?_, fun _ => ⟨s, hs, hused, config_used i s later, fun hnone => ?_⟩⟩
    · obtain ⟨hn, hk⟩ | ⟨hswept, hr⟩ := kept_or_swept hl later
      · refine iff_of_true ?_ hn
        obtain hsame | ⟨hnone, -⟩ := (lookup_of_acquire hj).2
        · rw [hkey, hk] at hsame
          exact (Option.some.inj hsame).symm
        · rw [hkey, hk] at hnone
          cases hnone
      · refine iff_of_false ?_ (not_not.2 hswept)
        rintro rfl
        exact hr.not_answered.2.1 second hj
    · obtain hsome | ⟨-, hnew⟩ := hmade
      · rw [hnone] at hsome
        cases hsome
      · exact Option.some.inj (hs.symm.trans hnew)
  · intro key i hl hn later
    exact ((retired_of_lookup hl hn).after later).not_answered
  · intro configs
    refine ⟨lookup_reload configs h, fun key i hl ⟨c, hc, hk⟩ => kept_reload hl ?_⟩
    exact (lookup_reload configs h key).2 ⟨c, hc, hk, .inr (by simp [hl])⟩

end AffinityRelay.Registry
