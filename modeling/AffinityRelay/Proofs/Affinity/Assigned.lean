import Mathlib.Data.Finset.Card
import Mathlib.Data.List.Nodup
import Mathlib.Logic.Function.Basic
import AffinityRelay.Proofs.Affinity.History

/-!
# What a table assigns

A table that has room for all networks that are ever written is a map from networks to backends, and the order of its
entries and their age do not matter:

* `Store.assigned`: the map, and `Store.Roomy.mem_entries_iff`: the entries are those of the map;
* `Store.Roomy`: the table has that much room, and each of these networks at most one entry;
* `Store.Roomy.settle`, `Store.Roomy.touch`: a decision changes the map at one network, a lookup nowhere;
* `Store.Tidy`: besides, no backend has a scope;
* `replay`: a map after some decisions, which is what the table does with them (`Store.Roomy.settleAll`). The decisions
  that tell all entries of a table write its map over any other (`Store.Roomy.replay_told_map`), and decisions that a
  map comes from do not change it (`replay_settled`).
-/

namespace AffinityRelay

/-- A decision about a client: the backend that its network has now, or that it has none any more. -/
structure Decision where
  client : Ip
  backend : Option Address
  deriving DecidableEq, Repr

/-- Where no two things have one key, the thing of a key is the one that is found first. -/
theorem find?_key_eq_some_iff {α κ : Type} [DecidableEq κ] {key : α → κ} {l : List α} (hn : (l.map key).Nodup)
    {k : κ} {a : α} : l.find? (fun x => key x = k) = some a ↔ a ∈ l ∧ key a = k := by
  constructor
  · intro h
    exact ⟨List.mem_of_find?_eq_some h, by simpa using List.find?_some h⟩
  · rintro ⟨ha, rfl⟩
    obtain ⟨b, hb⟩ := Option.isSome_iff_exists.1
      (List.find?_isSome (p := fun x => key x = key a).2 ⟨a, ha, by simp⟩)
    have hk : key b = key a := by simpa using List.find?_some hb
    rw [hb, List.inj_on_of_nodup_map hn (List.mem_of_find?_eq_some hb) ha hk]

/-! ## Decisions and maps -/

section Replay

variable {bits : Nat} {m m' : Ip → Option Address} {n : Ip} {ds : List Decision} {d : Decision}

/-- A map from networks to backends after a decision. -/
def Decision.update (bits : Nat) (m : Ip → Option Address) (d : Decision) : Ip → Option Address :=
  Function.update m (d.client.mask bits) d.backend

/-- A map after some decisions, the first of them first. -/
def replay (bits : Nat) (ds : List Decision) (m : Ip → Option Address) : Ip → Option Address :=
  ds.foldl (Decision.update bits) m

@[simp] theorem replay_nil : replay bits [] m = m := rfl

theorem replay_cons : replay bits (d :: ds) m = replay bits ds (d.update bits m) := rfl

theorem replay_append (ds ds' : List Decision) : replay bits (ds ++ ds') m = replay bits ds' (replay bits ds m) :=
  List.foldl_append

theorem replay_concat : replay bits (ds ++ [d]) m = d.update bits (replay bits ds m) :=
  replay_append ds [d]

/-- What a network has after some decisions depends on what it had before, and on nothing else. -/
theorem replay_congr (h : m n = m' n) : replay bits ds m n = replay bits ds m' n := by
  induction ds generalizing m m' with
  | nil => exact h
  | cons d ds ih =>
    refine ih ?_
    by_cases hn : n = d.client.mask bits
    · rw [Decision.update, Decision.update, hn, Function.update_self, Function.update_self]
    · rw [Decision.update, Decision.update, Function.update_of_ne hn, Function.update_of_ne hn, h]

/-- Decisions that say of a network what it has leave it alone. -/
theorem replay_of_forall_eq (h : ∀ d ∈ ds, d.client.mask bits = n → d.backend = m n) : replay bits ds m n = m n := by
  induction ds generalizing m with
  | nil => rfl
  | cons d ds ih =>
    have hd : d.update bits m n = m n := by
      rw [Decision.update]
      by_cases hn : n = d.client.mask bits
      · rw [hn, Function.update_self, h d List.mem_cons_self hn.symm, hn]
      · exact Function.update_of_ne hn _ _
    rw [replay_cons, ih fun d' hd' hn => (h d' (List.mem_cons_of_mem _ hd') hn).trans hd.symm, hd]

/-- Decisions about other networks leave a network alone. -/
theorem replay_of_forall_ne (h : ∀ d ∈ ds, d.client.mask bits ≠ n) : replay bits ds m n = m n :=
  replay_of_forall_eq fun d hd hn => absurd hn (h d hd)

/-- Once there is a decision about a network, it does not matter what that had before. -/
theorem replay_of_mem (h : ∃ d ∈ ds, d.client.mask bits = n) : replay bits ds m n = replay bits ds m' n := by
  obtain ⟨d, hd, rfl⟩ := h
  obtain ⟨before, after, rfl⟩ := List.append_of_mem hd
  rw [replay_append, replay_append, replay_cons, replay_cons]
  refine replay_congr ?_
  rw [Decision.update, Decision.update, Function.update_self, Function.update_self]

/-- Where decisions that are replayed do not change a map, although it goes through older values, they and one decision
more do not change the map after that. -/
theorem replay_concat_settled (h : replay bits ds m = m) :
    replay bits (ds ++ [d]) (d.update bits m) = d.update bits m := by
  rw [replay_concat]
  funext n
  by_cases hn : n = d.client.mask bits
  · rw [Decision.update, Decision.update, hn, Function.update_self, Function.update_self]
  · have hd : d.update bits m n = m n := Function.update_of_ne hn _ _
    rw [hd, Decision.update, Function.update_of_ne hn, replay_congr hd, h]

theorem replay_settled (h : replay bits ds m = m) (ds' : List Decision) :
    replay bits (ds ++ ds') (replay bits ds' m) = replay bits ds' m := by
  induction ds' generalizing ds m with
  | nil => rwa [List.append_nil]
  | cons d ds' ih =>
    have := ih (replay_concat_settled (d := d) h)
    rwa [List.append_assoc] at this

/-- A decision that leaves no network with a backend that is not among some. -/
def Decision.Within (bits : Nat) (networks : Finset Ip) (d : Decision) : Prop :=
  ∀ b ∈ d.backend, d.client.mask bits ∈ networks

/-- To make the same decisions twice changes nothing. -/
theorem replay_replay : replay bits ds (replay bits ds m) = replay bits ds m :=
  @replay_settled bits m [] rfl ds

/-- The networks that some decisions assign a backend. -/
def assignedNetworks (bits : Nat) (ds : List Decision) : Finset Ip :=
  ((ds.filter (·.backend.isSome)).map (·.client.mask bits)).toFinset

theorem mem_assignedNetworks : n ∈ assignedNetworks bits ds ↔ ∃ d ∈ ds, d.backend ≠ none ∧ d.client.mask bits = n := by
  simp [assignedNetworks, Option.isSome_iff_ne_none, and_assoc]

theorem within_of_mem (h : d ∈ ds) : d.Within bits (assignedNetworks bits ds) :=
  fun b hb => mem_assignedNetworks.2 ⟨d, h, Option.ne_none_iff_exists'.2 ⟨b, hb⟩, rfl⟩

/-- A decision that leaves no network with a backend that is not among some, or has a scope. -/
def Decision.Proper (bits : Nat) (networks : Finset Ip) (d : Decision) : Prop :=
  ∀ b ∈ d.backend, d.client.mask bits ∈ networks ∧ b.scope = 0

theorem Decision.Proper.within {networks : Finset Ip} (h : d.Proper bits networks) : d.Within bits networks :=
  fun b hb => (h b hb).1

end Replay

namespace Store

/-! ## A table with room for all -/

/-- The backend assigned to a network, however old. -/
def assigned (s : Store) (n : Ip) : Option Address :=
  (s.held.find? (·.client = n)).map Entry.backend

/-- The decisions that tell all entries of a table. -/
def told (s : Store) : List Decision :=
  s.held.map fun e => ⟨e.client, some e.backend⟩

/-- A table after some decisions, all of them at one time. -/
def settleAll (now : Time) (ds : List Decision) (s : Store) : Store :=
  ds.foldl (fun s d => s.settle now d.client d.backend) s

@[simp] theorem config_settleAll (now : Time) (ds : List Decision) (s : Store) :
    (s.settleAll now ds).config = s.config := by
  induction ds generalizing s with
  | nil => rfl
  | cons d ds ih => exact (ih _).trans (config_settle now d.client d.backend s)

/-- A table with room for some networks, that has at most one entry for each of them and none for others. -/
structure Roomy (networks : Finset Ip) (s : Store) : Prop where
  room : networks.card ≤ s.config.capacity
  nodup : (s.held.map Entry.client).Nodup
  masked : ∀ e ∈ s.held, s.network e.client = e.client
  among : ∀ e ∈ s.held, e.client ∈ networks

/-- A table like that, where no backend has a scope. -/
structure Tidy (networks : Finset Ip) (s : Store) : Prop where
  room : networks.card ≤ s.config.capacity
  nodup : (s.held.map Entry.client).Nodup
  masked : ∀ e ∈ s.held, s.network e.client = e.client
  among : ∀ e ∈ s.held, e.client ∈ networks
  unscoped : ∀ e ∈ s.held, e.backend.scope = 0

variable {networks : Finset Ip} {s : Store} {now : Time} {client : Ip} {d : Decision}

/-- Nothing is answered for a network that is not assigned a backend. -/
theorem get_of_assigned (now : Time) (h : s.assigned (s.network client) = none) : (s.get now client).1 = none := by
  have hl : s.lookup? client = none := Option.map_eq_none_iff.1 h
  rw [get, answer, hl]
  rfl

theorem roomy_empty {config : StoreConfig} (h : networks.card ≤ config.capacity) : Roomy networks { config } where
  room := h
  nodup := List.nodup_nil
  masked := nofun
  among := nofun

theorem tidy_empty {config : StoreConfig} (h : networks.card ≤ config.capacity) : Tidy networks { config } where
  room := h
  nodup := List.nodup_nil
  masked := nofun
  among := nofun
  unscoped := nofun

theorem network_network (s : Store) (client : Ip) : s.network (s.network client) = s.network client := by
  rw [network, network, Ip.mask_mask, Nat.min_self]

namespace Roomy

/-- A table has no two entries of one network, so its entries are those of the map. -/
theorem mem_entries_iff (h : s.Roomy networks) (n : Ip) (b : Address) :
    (n, b) ∈ s.entries ↔ s.assigned n = some b := by
  simp only [entries, assigned, List.mem_map, Prod.mk.injEq, Option.map_eq_some_iff, find?_key_eq_some_iff h.nodup,
    and_assoc]

/-- Networks that there is no room for are assigned nothing. -/
theorem assigned_of_notMem (h : s.Roomy networks) {n : Ip} (hn : n ∉ networks) : s.assigned n = none := by
  have hnone : s.held.find? (·.client = n) = none :=
    List.find?_eq_none.2 fun e he hc => hn (of_decide_eq_true hc ▸ h.among e he)
  rw [assigned, hnone, Option.map_none]

/-- Beside the entries of other networks there is room for one of a network that is among those there is room for. -/
theorem length_others_lt (h : s.Roomy networks) (hn : s.network client ∈ networks) :
    (s.others client).length < s.config.capacity := by
  have hsub : (s.others client).map Entry.client ⊆ (networks.erase (s.network client)).toList := by
    intro n hm
    obtain ⟨e, he, rfl⟩ := List.mem_map.1 hm
    obtain ⟨he, hne⟩ := mem_others.1 he
    exact Finset.mem_toList.2 (Finset.mem_erase.2 ⟨hne, h.among e he⟩)
  have hnodup : ((s.others client).map Entry.client).Nodup :=
    h.nodup.sublist (List.filter_sublist.map Entry.client)
  have hle := (hnodup.subperm hsub).length_le
  rw [List.length_map, Finset.length_toList, Finset.card_erase_of_mem hn] at hle
  have hpos : 0 < networks.card := Finset.card_pos.2 ⟨_, hn⟩
  have hroom := h.room
  omega

/-- The entry of one network is replaced by another or removed. -/
theorem replace (h : s.Roomy networks) (client : Ip) (o : Option Entry)
    (ho : ∀ e ∈ o, e.client = s.network client ∧ s.network client ∈ networks) :
    ({ s with held := s.others client ++ o.toList } : Store).Roomy networks ∧
    assigned { s with held := s.others client ++ o.toList } =
      Function.update s.assigned (s.network client) (o.map Entry.backend) := by
  have hmem : ∀ e ∈ s.others client ++ o.toList, e ∈ s.held ∨ e ∈ o := by
    intro e he
    rcases List.mem_append.1 he with he | he
    · exact Or.inl (mem_others.1 he).1
    · exact Or.inr (Option.mem_toList.1 he)
  refine ⟨⟨h.room, ?_, ?_, ?_⟩, ?_⟩
  · rw [List.map_append, List.nodup_append]
    refine ⟨h.nodup.sublist (List.filter_sublist.map Entry.client), ?_, ?_⟩
    · cases o <;> simp
    · rintro a ha b hb rfl
      obtain ⟨e, he, rfl⟩ := List.mem_map.1 ha
      obtain ⟨e', he', hee⟩ := List.mem_map.1 hb
      exact (mem_others.1 he).2 (hee ▸ (ho e' (Option.mem_toList.1 he')).1)
  · intro e he
    rcases hmem e he with he | he
    · exact h.masked e he
    · change s.network e.client = e.client
      rw [(ho e he).1, network_network]
  · intro e he
    rcases hmem e he with he | he
    · exact h.among e he
    · exact (ho e he).1 ▸ (ho e he).2
  · funext n
    rw [assigned, List.find?_append]
    by_cases hn : n = s.network client
    · subst hn
      have hnone : (s.others client).find? (·.client = s.network client) = none :=
        List.find?_eq_none.2 fun e he => by simpa using (mem_others.1 he).2
      rw [hnone, Option.none_or, Function.update_self]
      cases o with
      | none => rfl
      | some e => rw [Option.toList_some, List.find?_cons_of_pos (by simpa using (ho e rfl).1), Option.map_some]
    · have hnone : o.toList.find? (·.client = n) = none := by
        refine List.find?_eq_none.2 fun e he hc => hn ?_
        rw [← (ho e (Option.mem_toList.1 he)).1, of_decide_eq_true hc]
      rw [hnone, Option.or_none, Function.update_of_ne hn, others, List.find?_filter, assigned]
      congr 2
      funext e
      by_cases hc : e.client = n <;> simp [hc, hn]

/-- A decision drops no entry of another network. -/
theorem settle_eq (h : s.Roomy networks) (hd : d.Within s.config.bits.toNat networks) :
    s.settle now d.client d.backend =
      { s with held := s.others d.client ++ (d.backend.map (⟨s.network d.client, ·, now⟩)).toList } := by
  obtain ⟨client, _ | b⟩ := d
  · simp [Store.settle, withdraw]
  · have hlt := h.length_others_lt (hd b rfl)
    simp only [Store.settle, put, fitting, List.length_append, List.length_singleton, Option.map_some,
      Option.toList_some, Nat.sub_eq_zero_of_le (show (s.others client).length + 1 ≤ s.config.capacity from hlt),
      List.drop_zero]

/-- A decision changes the map at the network of its client. -/
theorem settle (h : s.Roomy networks) (now : Time) (hd : d.Within s.config.bits.toNat networks) :
    (s.settle now d.client d.backend).Roomy networks ∧
    (s.settle now d.client d.backend).assigned = d.update s.config.bits.toNat s.assigned := by
  rw [h.settle_eq hd]
  have hr := h.replace d.client (d.backend.map (⟨s.network d.client, ·, now⟩)) (by
    intro e he
    obtain ⟨b, hb, rfl⟩ := Option.map_eq_some_iff.1 he
    exact ⟨rfl, hd b hb⟩)
  rw [Option.map_map, show (Entry.backend ∘ fun b => Entry.mk (s.network d.client) b now) = id from rfl,
    Option.map_id_apply] at hr
  exact hr

/-- One decision after another changes the map. -/
theorem settleAll (now : Time) {ds : List Decision} (h : s.Roomy networks)
    (hd : ∀ d ∈ ds, d.Within s.config.bits.toNat networks) :
    (s.settleAll now ds).Roomy networks ∧
    (s.settleAll now ds).assigned = replay s.config.bits.toNat ds s.assigned := by
  induction ds generalizing s with
  | nil => exact ⟨h, rfl⟩
  | cons d ds ih =>
    obtain ⟨ht, ha⟩ := h.settle now (hd d List.mem_cons_self)
    have hc := config_settle now d.client d.backend s
    have := ih ht (fun d' hd' => hc ▸ hd d' (List.mem_cons_of_mem _ hd'))
    rwa [hc, ha] at this

/-- A lookup does not change the map. -/
theorem touch (h : s.Roomy networks) (client : Ip) :
    (s.touch client).Roomy networks ∧ (s.touch client).assigned = s.assigned := by
  cases hl : s.lookup? client with
  | none => simp [Store.touch, hl, h]
  | some e =>
    obtain ⟨he, hc⟩ := lookup?_some hl
    have hr := h.replace client (some e) (by
      rintro _ ⟨⟩
      exact ⟨hc, hc ▸ h.among e he⟩)
    have hself : Function.update s.assigned (s.network client) (some e.backend) = s.assigned := by
      rw [Function.update_eq_self_iff, assigned, ← Option.map_some, ← hl]
      rfl
    rw [Option.map_some, hself] at hr
    simpa [Store.touch, hl] using hr

/-- A table is told entry after entry, and each backend is changed on the way: a network that the table assigns a
backend has that then, changed, and another what it had. -/
theorem replay_told_map (h : s.Roomy networks) (f : Address → Address) (m : Ip → Option Address) (n : Ip) :
    replay s.config.bits.toNat (s.told.map fun d => ⟨d.client, d.backend.map f⟩) m n =
      ((s.assigned n).map f).or (m n) := by
  -- On top of any map, so that the entries before one are part of the map that it is told to.
  have key : ∀ (es : List Entry) (m : Ip → Option Address), (es.map Entry.client).Nodup →
      (∀ e ∈ es, s.network e.client = e.client) → ∀ n,
      replay s.config.bits.toNat (es.map fun e => ⟨e.client, some (f e.backend)⟩) m n =
        ((es.find? (·.client = n)).map fun e => f e.backend).or (m n) := by
    intro es
    induction es with
    | nil => exact fun m _ _ n => rfl
    | cons e es ih =>
      intro m hnd hmask n
      obtain ⟨hnot, hnd⟩ := List.nodup_cons.1 hnd
      have hmask' : e.client.mask s.config.bits.toNat = e.client := hmask e List.mem_cons_self
      rw [List.map_cons, replay_cons, ih _ hnd (fun x hx => hmask x (List.mem_cons_of_mem _ hx)), Decision.update,
        hmask']
      by_cases hn : n = e.client
      · subst hn
        have hnone : es.find? (·.client = e.client) = none := by
          refine List.find?_eq_none.2 fun x hx hc => hnot ?_
          rw [← of_decide_eq_true hc]
          exact List.mem_map_of_mem hx
        rw [hnone, List.find?_cons_of_pos (by simp), Function.update_self]
        rfl
      · rw [Function.update_of_ne hn, List.find?_cons_of_neg (by simpa using Ne.symm hn)]
  rw [told, List.map_map, assigned, Option.map_map]
  exact key s.held m h.nodup h.masked n

end Roomy

/-! ## A table without scopes -/

namespace Tidy

theorem roomy (h : s.Tidy networks) : s.Roomy networks :=
  ⟨h.room, h.nodup, h.masked, h.among⟩

theorem mem_entries_iff (h : s.Tidy networks) (n : Ip) (b : Address) :
    (n, b) ∈ s.entries ↔ s.assigned n = some b :=
  h.roomy.mem_entries_iff n b

/-- A decision changes the map at the network of its client. -/
theorem settle (h : s.Tidy networks) (now : Time) (hd : d.Proper s.config.bits.toNat networks) :
    (s.settle now d.client d.backend).Tidy networks ∧
    (s.settle now d.client d.backend).assigned = d.update s.config.bits.toNat s.assigned := by
  obtain ⟨hr, ha⟩ := h.roomy.settle now hd.within
  refine ⟨⟨hr.room, hr.nodup, hr.masked, hr.among, ?_⟩, ha⟩
  rw [h.roomy.settle_eq hd.within]
  intro e he
  rcases List.mem_append.1 he with he | he
  · exact h.unscoped e (mem_others.1 he).1
  · obtain ⟨b, hb, rfl⟩ := Option.map_eq_some_iff.1 (Option.mem_toList.1 he)
    exact (hd b hb).2

/-- One decision after another changes the map. -/
theorem settleAll (now : Time) {ds : List Decision} (h : s.Tidy networks)
    (hd : ∀ d ∈ ds, d.Proper s.config.bits.toNat networks) :
    (s.settleAll now ds).Tidy networks ∧
    (s.settleAll now ds).assigned = replay s.config.bits.toNat ds s.assigned := by
  induction ds generalizing s with
  | nil => exact ⟨h, rfl⟩
  | cons d ds ih =>
    obtain ⟨ht, ha⟩ := h.settle now (hd d List.mem_cons_self)
    have hc := config_settle now d.client d.backend s
    have := ih ht (fun d' hd' => hc ▸ hd d' (List.mem_cons_of_mem _ hd'))
    rwa [hc, ha] at this

/-- A lookup does not change the map. -/
theorem touch (h : s.Tidy networks) (client : Ip) :
    (s.touch client).Tidy networks ∧ (s.touch client).assigned = s.assigned := by
  obtain ⟨hr, ha⟩ := h.roomy.touch client
  refine ⟨⟨hr.room, hr.nodup, hr.masked, hr.among, ?_⟩, ha⟩
  intro e he
  unfold Store.touch at he
  split at he
  · rename_i x hx
    rcases List.mem_append.1 he with he | he
    · exact h.unscoped e (mem_others.1 he).1
    · exact List.mem_singleton.1 he ▸ h.unscoped x (lookup?_some hx).1
  · exact h.unscoped e he

/-- Out of nothing the entries of a table make its map. -/
theorem replay_told (h : s.Tidy networks) :
    replay s.config.bits.toNat s.told (fun _ => none) = s.assigned := by
  funext n
  have htold := h.roomy.replay_told_map id (fun _ => none) n
  have hid : s.told.map (fun d => ⟨d.client, d.backend.map id⟩) = s.told := by simp [told, Function.comp_def]
  rwa [hid, Option.map_id, Option.or_none] at htold

end Tidy

end Store

end AffinityRelay
