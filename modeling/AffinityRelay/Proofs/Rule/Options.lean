import AffinityRelay.Proofs.Text.Numeral
import AffinityRelay.Proofs.Text.Parts
import AffinityRelay.Rule.Options

/-!
# The grammar of the options

* `Clause`: one option as it can be asked for. `Clause.Spelt` is the grammar of the options, `Clause.Taken` is what is
  read as one: besides the grammar, whatever begins with the word for no table. An option is read just if it is taken
  (`Setting.read_eq_ok_iff`);
* `OptionError.Names`: what is wrong with any other option (`Setting.names_iff`), and never with one that is taken
  (`Options.not_names_of_taken`);
* `Options.chosen`: the options that a list of changes leads to, the last of its kind in each place
  (`Options.foldl_apply`);
* `Options.Lists`: a list that asks for just these options, in whatever order;
* `Options.read_by_grammar`: the options of a list, or what is wrong with the first of its parts that is not taken.
-/

namespace AffinityRelay

open Text

/-- A table of assignments in memory, by the names of its cluster, if it has one, and of the table. -/
def StoreConfig.named (bits : UInt8) (elements seconds : UInt64) (name : String) (cluster : Option String) :
    StoreConfig :=
  { kind := .memory, bits, elements, seconds, key := Key.ofNames cluster name }

/-- One option as it can be asked for. -/
inductive Clause where
  | policy (p : Policy)
  | failover
  | sendsHeader
  | noTable
  | table (bits : UInt8) (elements seconds : UInt64) (name : String) (cluster : Option String)
  deriving DecidableEq, Repr

namespace Clause

/-- The change that is asked for. The names of a table and of its cluster count letter by letter. -/
def setting : Clause → Setting
  | policy p => .policy p
  | failover => .failover
  | sendsHeader => .sendsHeader
  | noTable => .sticky {}
  | table bits elements seconds name cluster => .sticky (.named bits elements seconds name cluster)

/-- The field for the cluster of a table. One without a cluster leaves the field out or empty: an empty name is taken
as none. -/
inductive LastField : Option String → List (List Char) → Prop
  | none : LastField none []
  | empty : LastField none [[]]
  | cluster {k : String} : k ≠ "" → LastField (some k) [k.toList]

/-- The fields in which a table is spelt. -/
inductive Fields : Clause → List (List Char) → Prop
  | noTable {word : List Char} : upper word = "NULL".toList → Fields .noTable [word]
  | table {bits : UInt8} {elements seconds : UInt64} {name : String} {cluster : Option String}
      {word b e s : List Char} {last : List (List Char)} :
      upper word = "MEM".toList → Denotes b bits.toNat → Denotes e elements.toNat → Denotes s seconds.toNat →
      name ≠ "" → LastField cluster last →
      Fields (.table bits elements seconds name cluster) ([word, b, e, s, name.toList] ++ last)

/-- How an option is spelt. The words count in letters of either case. -/
inductive Spelt : Clause → List Char → Prop
  | policy {p : Policy} {name word : List Char} :
      upper name = "LB".toList → upper word = p.word.toList → Spelt (.policy p) (name ++ '=' :: word)
  | failover {name : List Char} : upper name = "FAILOVER".toList → Spelt .failover name
  | sendsHeader {name word : List Char} :
      upper name = "PROXY".toList → upper word = "SEND".toList → Spelt .sendsHeader (name ++ '=' :: word)
  | sticky {c : Clause} {name : List Char} {fields : List (List Char)} :
      upper name = "STICKY".toList → c.Fields fields → (∀ f ∈ fields, ':' ∉ f) →
      Spelt c (name ++ '=' :: [':'].intercalate fields)

/-- What is taken for an option: what is spelt as one, and no table with any fields behind. -/
inductive Taken : Clause → List Char → Prop
  | spelt {c : Clause} {t : List Char} : c.Spelt t → Taken c t
  | noTable {name word more : List Char} :
      upper name = "STICKY".toList → upper word = "NULL".toList → Taken .noTable (name ++ '=' :: (word ++ ':' :: more))

/-- A name that can stand in a list. -/
def Listed (name : String) : Prop :=
  ',' ∉ name.toList ∧ Tight name.toList

instance : DecidablePred Listed := fun name =>
  inferInstanceAs (Decidable (',' ∉ name.toList ∧ Tight name.toList))

/-- An option whose names can stand in a list. -/
def Plain : Clause → Prop
  | table _ _ _ name cluster => Listed name ∧ ∀ k ∈ cluster, Listed k
  | _ => True

/-- An option in a list, with blanks around it. -/
def Part (c : Clause) (part : List Char) : Prop :=
  ∃ a t b, blank a ∧ blank b ∧ c.Spelt t ∧ part = a ++ (t ++ b)

end Clause

/-- What an error says is wrong with an option: the word for a policy, in capitals, or the fields of a table, as they
stand, or else the option. -/
inductive OptionError.Names : OptionError → List Char → Prop
  | policy {name word : List Char} :
      upper name = "LB".toList → Names (.unknownPolicy (String.ofList (upper word))) (name ++ '=' :: word)
  | sticky {name spec : List Char} :
      upper name = "STICKY".toList → Names (.invalidSticky (String.ofList spec)) (name ++ '=' :: spec)
  | option {t : List Char} :
      (∀ name value, t = name ++ '=' :: value → upper name ≠ "LB".toList ∧ upper name ≠ "STICKY".toList) →
      Names (.unknownOption (String.ofList t)) t

namespace Setting

def policy? : Setting → Option Policy
  | policy p => some p
  | _ => none

def sticky? : Setting → Option StoreConfig
  | sticky c => some c
  | _ => none

/-- Whether options have what a change sets. -/
def In (o : Options) : Setting → Prop
  | policy p => o.policy = p
  | failover => o.failover
  | sendsHeader => o.sendsHeader
  | sticky c => o.sticky = c

end Setting

namespace Options

/-- The options that a list of changes leads to. Of several policies, and of several tables, the last one counts. -/
def chosen (xs : List Setting) : Options where
  policy := (xs.filterMap Setting.policy?).getLast?.getD .first
  failover := .failover ∈ xs
  sendsHeader := .sendsHeader ∈ xs
  sticky := (xs.filterMap Setting.sticky?).getLast?.getD {}

/-- A list of changes, in whatever order, for just these options. What is so anyway may be left out. -/
structure Lists (o : Options) (xs : List Setting) : Prop where
  sound : ∀ x ∈ xs, x.In o
  policy : o.policy ≠ .first → .policy o.policy ∈ xs
  failover : o.failover → .failover ∈ xs
  sendsHeader : o.sendsHeader → .sendsHeader ∈ xs
  sticky : o.sticky ≠ {} → .sticky o.sticky ∈ xs

/-! ## The changes of a list -/

theorem foldl_apply (xs : List Setting) : xs.foldl Setting.apply {} = chosen xs := by
  induction xs using List.reverseRecOn with
  | nil => rfl
  | append_singleton xs x ih =>
    rw [List.foldl_concat, ih]
    cases x <;> simp [chosen, Setting.apply, Setting.policy?, Setting.sticky?]

theorem getD_getLast? {α : Type} {xs : List α} {a d : α} (hsound : ∀ x ∈ xs, a = x) (hcomplete : a ≠ d → a ∈ xs) :
    xs.getLast?.getD d = a := by
  cases hlast : xs.getLast? with
  | none =>
    rw [List.getLast?_eq_none_iff] at hlast
    by_contra hne
    simpa [hlast] using hcomplete fun h => hne (by simp [h])
  | some x => exact (hsound x (List.mem_of_getLast? hlast)).symm

theorem Lists.chosen_eq {o : Options} {xs : List Setting} (h : Lists o xs) : chosen xs = o := by
  have hpolicy : (xs.filterMap Setting.policy?).getLast?.getD .first = o.policy := by
    refine getD_getLast? (fun p hp => ?_) fun hne => List.mem_filterMap.2 ⟨_, h.policy hne, rfl⟩
    obtain ⟨x, hx, hxp⟩ := List.mem_filterMap.1 hp
    cases x <;> simp only [Setting.policy?, Option.some.injEq, reduceCtorEq] at hxp
    exact hxp ▸ h.sound _ hx
  have hsticky : (xs.filterMap Setting.sticky?).getLast?.getD {} = o.sticky := by
    refine getD_getLast? (fun c hc => ?_) fun hne => List.mem_filterMap.2 ⟨_, h.sticky hne, rfl⟩
    obtain ⟨x, hx, hxc⟩ := List.mem_filterMap.1 hc
    cases x <;> simp only [Setting.sticky?, Option.some.injEq, reduceCtorEq] at hxc
    exact hxc ▸ h.sound _ hx
  have hfailover : decide (Setting.failover ∈ xs) = o.failover :=
    Bool.eq_iff_iff.2 ⟨fun hx => h.sound _ (of_decide_eq_true hx), fun ho => decide_eq_true (h.failover ho)⟩
  have hsends : decide (Setting.sendsHeader ∈ xs) = o.sendsHeader :=
    Bool.eq_iff_iff.2 ⟨fun hx => h.sound _ (of_decide_eq_true hx), fun ho => decide_eq_true (h.sendsHeader ho)⟩
  rw [chosen, hpolicy, hsticky, hfailover, hsends]

end Options

/-! ## One option -/

theorem Policy.ofWord?_eq_some_iff {s : List Char} {p : Policy} : ofWord? s = some p ↔ upper s = p.word.toList := by
  constructor
  · intro h
    simpa [eq_comm] using List.find?_some h
  · intro h
    simp only [ofWord?, h]
    cases p <;> decide

namespace StoreConfig

theorem ofFields?_eq_some_iff {b e s name cluster : List Char} {k : StoreConfig} :
    ofFields? b e s name cluster = some k ↔ ∃ (bits : UInt8) (elements seconds : UInt64),
      Denotes b bits.toNat ∧ Denotes e elements.toNat ∧ Denotes s seconds.toNat ∧ name ≠ [] ∧
      k = .named bits elements seconds (String.ofList name)
        (if cluster.isEmpty then none else some (String.ofList cluster)) := by
  constructor
  · intro h
    simp only [ofFields?, Option.bind_eq_bind, Option.bind_eq_some_iff, unsigned?_eq_some_iff] at h
    obtain ⟨bits, ⟨hb, hb'⟩, elements, ⟨he, he'⟩, seconds, ⟨hs, hs'⟩, h⟩ := h
    split at h
    · cases h
    · rename_i hname
      cases h
      refine ⟨bits.toUInt8, elements.toUInt64, seconds.toUInt64, ?_, ?_, ?_, by simpa using hname, rfl⟩
      · rwa [Nat.toUInt8, UInt8.toNat_ofNat', Nat.mod_eq_of_lt (by omega)]
      · rwa [Nat.toUInt64, UInt64.toNat_ofNat', Nat.mod_eq_of_lt (by omega)]
      · rwa [Nat.toUInt64, UInt64.toNat_ofNat', Nat.mod_eq_of_lt (by omega)]
  · rintro ⟨bits, elements, seconds, hb, he, hs, hname, rfl⟩
    have hb' : unsigned? 0xff b = some bits.toNat := unsigned?_eq_some_iff.2 ⟨hb, Nat.le_of_lt_succ bits.toNat_lt⟩
    have he' : unsigned? 0xffffffffffffffff e = some elements.toNat :=
      unsigned?_eq_some_iff.2 ⟨he, Nat.le_of_lt_succ elements.toNat_lt⟩
    have hs' : unsigned? 0xffffffffffffffff s = some seconds.toNat :=
      unsigned?_eq_some_iff.2 ⟨hs, Nat.le_of_lt_succ seconds.toNat_lt⟩
    simp [ofFields?, named, hb', he', hs', hname]

/-- A table is read from the fields that it is spelt in. -/
theorem ofText?_of_fields {c : Clause} {s : List Char} {fields : List (List Char)} (hs : s.splitOn ':' = fields)
    (h : c.Fields fields) : ∃ k, ofText? s = some k ∧ c.setting = .sticky k := by
  unfold ofText?
  rw [hs]
  cases h with
  | noTable hword => exact ⟨{}, by simp [hword], rfl⟩
  | @table bits elements seconds name cluster word b e s last hword hb he hsec hname hlast =>
    have hread (k : List Char) : ofFields? b e s name.toList k =
        some (named bits elements seconds name (if k.isEmpty then none else some (String.ofList k))) :=
      ofFields?_eq_some_iff.2 ⟨bits, elements, seconds, hb, he, hsec, by simpa using hname, by simp⟩
    refine ⟨named bits elements seconds name cluster, ?_, rfl⟩
    cases hlast with
    | none => simp [hword, hread]
    | empty => simp [hword, hread]
    | cluster hk => simp [hword, hread, hk]

theorem lastField (k : List Char) :
    Clause.LastField (if k.isEmpty then none else some (String.ofList k)) [k] := by
  cases k with
  | nil => exact .empty
  | cons c k =>
    have h := Clause.LastField.cluster (k := String.ofList (c :: k)) (by simp)
    rwa [String.toList_ofList] at h

theorem fields_of_ofFields? {word b e s name cluster : List Char} {last : List (List Char)} {k : StoreConfig}
    (hword : upper word = "MEM".toList) (h : ofFields? b e s name cluster = some k)
    (hlast : Clause.LastField (if cluster.isEmpty then none else some (String.ofList cluster)) last) :
    ∃ c : Clause, c.setting = .sticky k ∧ c.Fields ([word, b, e, s, name] ++ last) := by
  obtain ⟨bits, elements, seconds, hb, he, hs, hname, rfl⟩ := ofFields?_eq_some_iff.1 h
  refine ⟨.table bits elements seconds (String.ofList name) _, rfl, ?_⟩
  have hname' : String.ofList name ≠ "" := by simpa using hname
  have hfields := Clause.Fields.table hword hb he hs hname' hlast
  rwa [String.toList_ofList] at hfields

/-- Other fields than these are read as a table only where the first of them says that there is none. -/
theorem fields_of_ofText? {s : List Char} {k : StoreConfig} (h : ofText? s = some k) :
    ∃ c : Clause, c.setting = .sticky k ∧ (c.Fields (s.splitOn ':') ∨
      c = .noTable ∧ ∃ word more, upper word = "NULL".toList ∧ s = word ++ ':' :: more) := by
  unfold ofText? at h
  split at h
  · cases h
  · rename_i word fields hs
    split at h
    · rename_i hword
      cases h
      refine ⟨.noTable, rfl, ?_⟩
      cases fields with
      | nil => exact .inl (hs ▸ .noTable hword)
      | cons f fields =>
        refine .inr ⟨rfl, word, [':'].intercalate (f :: fields), hword, ?_⟩
        have hjoin : [':'].intercalate (s.splitOn ':') = s := List.intercalate_splitOn ':'
        rw [hs, List.intercalate_cons_cons] at hjoin
        rw [← hjoin, List.append_assoc, List.singleton_append]
    · split at h
      · rename_i hword
        rw [hs]
        split at h
        · rename_i b e s' name
          obtain ⟨c, hc, hfields⟩ := fields_of_ofFields? hword h .none
          exact ⟨c, hc, .inl hfields⟩
        · rename_i b e s' name cluster
          obtain ⟨c, hc, hfields⟩ := fields_of_ofFields? hword h (lastField cluster)
          exact ⟨c, hc, .inl hfields⟩
        · cases h
      · cases h

/-- No table, whatever fields stand behind. -/
theorem ofText?_more {word : List Char} (h : upper word = "NULL".toList) (more : List Char) :
    ofText? (word ++ ':' :: more) = some {} := by
  have hcolon : ':' ∉ word := not_mem_of_solid rfl (solid_of_upper (h ▸ by decide))
  simp [ofText?, List.splitOn_append_cons_self_of_not_mem hcolon, h]

end StoreConfig

theorem Clause.Fields.ne_nil {c : Clause} {fields : List (List Char)} (h : c.Fields fields) : fields ≠ [] := by
  cases h <;> simp

namespace Setting

variable {name value t : List Char} {x : Setting}

/-- The name of an option ends at the first equals sign. -/
theorem equals_not_mem {word : String} (h : upper name = word.toList) (hletters : word.toList.all Char.isAlpha) :
    '=' ∉ name :=
  not_mem_of_solid rfl (solid_of_upper (h ▸ hletters))

theorem read_join (h : '=' ∉ name) (value : List Char) : Setting.read (name ++ '=' :: value) =
    if upper name = "LB".toList then (Policy.read value).map .policy
    else if upper name = "PROXY".toList ∧ upper value = "SEND".toList then .ok .sendsHeader
    else if upper name = "STICKY".toList then (StoreConfig.read value).map .sticky
    else .error (.unknownOption (String.ofList (name ++ '=' :: value))) := by
  simp only [Setting.read, cutFirst_join h]

theorem read_policy (hname : upper name = "LB".toList) :
    Setting.read (name ++ '=' :: value) = (Policy.read value).map .policy := by
  rw [read_join (equals_not_mem hname (by decide)), if_pos hname]

theorem read_sticky (hname : upper name = "STICKY".toList) :
    Setting.read (name ++ '=' :: value) = (StoreConfig.read value).map .sticky := by
  have hlb : upper name ≠ "LB".toList := hname ▸ by decide
  have hsend : ¬ (upper name = "PROXY".toList ∧ upper value = "SEND".toList) := fun h =>
    absurd (hname.symm.trans h.1) (by decide)
  rw [read_join (equals_not_mem hname (by decide)), if_neg hlb, if_neg hsend, if_pos hname]

theorem read_table {k : StoreConfig} (hname : upper name = "STICKY".toList) (h : StoreConfig.ofText? value = some k) :
    Setting.read (name ++ '=' :: value) = .ok (.sticky k) := by
  simp only [read_sticky hname, StoreConfig.read, h, Except.map]

theorem read_of_taken {c : Clause} (h : c.Taken t) : Setting.read t = .ok c.setting := by
  cases h with
  | noTable hname hword => exact read_table hname (StoreConfig.ofText?_more hword _)
  | spelt h =>
    cases h with
    | policy hname hword =>
      simp only [read_policy hname, Policy.read, Policy.ofWord?_eq_some_iff.2 hword, Except.map, Clause.setting]
    | failover hname =>
      simp [Setting.read, cutFirst_eq_none.2 (equals_not_mem hname (by decide)), hname, Clause.setting]
    | sendsHeader hname hword =>
      rw [read_join (equals_not_mem hname (by decide))]
      simp [hname, hword, Clause.setting]
    | sticky hname hfields hcolon =>
      have hsplit := List.splitOn_intercalate ':' hcolon hfields.ne_nil
      obtain ⟨k, hk, hc⟩ := StoreConfig.ofText?_of_fields hsplit hfields
      rw [read_table hname hk, hc]

theorem taken_of_policy {p : Policy} (hname : upper name = "LB".toList) (h : Policy.ofWord? value = some p) :
    Clause.Taken (.policy p) (name ++ '=' :: value) :=
  .spelt (.policy hname (Policy.ofWord?_eq_some_iff.1 h))

theorem exists_taken_of_table {k : StoreConfig} (hname : upper name = "STICKY".toList)
    (h : StoreConfig.ofText? value = some k) : ∃ c : Clause, c.Taken (name ++ '=' :: value) := by
  obtain ⟨c, -, hfields | ⟨-, word, more, hword, rfl⟩⟩ := StoreConfig.fields_of_ofText? h
  · have hspelt := Clause.Spelt.sticky hname hfields fun _ => not_mem_of_mem_splitOn
    rw [List.intercalate_splitOn] at hspelt
    exact ⟨c, .spelt hspelt⟩
  · exact ⟨.noTable, .noTable hname hword⟩

/-- What is not taken for an option is what the error says. -/
theorem read_of_names {e : OptionError} (hnot : ¬ ∃ c : Clause, c.Taken t) (h : e.Names t) :
    Setting.read t = .error e := by
  cases h with
  | @policy name word hname =>
    cases hword : Policy.ofWord? word with
    | none => simp only [read_policy hname, Policy.read, hword, Except.map]
    | some p => exact absurd ⟨_, taken_of_policy hname hword⟩ hnot
  | @sticky name spec hname =>
    cases hspec : StoreConfig.ofText? spec with
    | none => simp only [read_sticky hname, StoreConfig.read, hspec, Except.map]
    | some k => exact absurd (exists_taken_of_table hname hspec) hnot
  | option hneither =>
    cases hcut : cutFirst '=' t with
    | none =>
      have hfailover : upper t ≠ "FAILOVER".toList := fun h => hnot ⟨_, .spelt (.failover h)⟩
      simp only [Setting.read, hcut, if_neg hfailover]
    | some p =>
      obtain ⟨rfl, hname⟩ := cutFirst_eq_some hcut
      obtain ⟨hlb, hsticky⟩ := hneither _ _ rfl
      have hsend : ¬ (upper p.1 = "PROXY".toList ∧ upper p.2 = "SEND".toList) := fun h =>
        hnot ⟨_, .spelt (.sendsHeader h.1 h.2)⟩
      rw [read_join hname, if_neg hlb, if_neg hsend, if_neg hsticky]

theorem exists_names (t : List Char) : ∃ e : OptionError, e.Names t := by
  by_cases hlb : ∃ name value, t = name ++ '=' :: value ∧ upper name = "LB".toList
  · obtain ⟨name, value, rfl, hname⟩ := hlb
    exact ⟨_, .policy hname⟩
  · by_cases hsticky : ∃ name value, t = name ++ '=' :: value ∧ upper name = "STICKY".toList
    · obtain ⟨name, value, rfl, hname⟩ := hsticky
      exact ⟨_, .sticky hname⟩
    · exact ⟨_, .option fun name value ht => ⟨fun h => hlb ⟨name, value, ht, h⟩, fun h => hsticky ⟨name, value, ht, h⟩⟩⟩

/-- An option is read just if it is taken for one. -/
theorem read_eq_ok_iff : Setting.read t = .ok x ↔ ∃ c : Clause, c.setting = x ∧ c.Taken t := by
  constructor
  · intro h
    by_cases hc : ∃ c : Clause, c.Taken t
    · obtain ⟨c, hc⟩ := hc
      rw [read_of_taken hc] at h
      cases h
      exact ⟨c, rfl, hc⟩
    · obtain ⟨e, he⟩ := exists_names t
      rw [read_of_names hc he] at h
      cases h
  · rintro ⟨c, rfl, hc⟩
    exact read_of_taken hc

/-- Of anything else there is just one error. -/
theorem names_iff {e : OptionError} (hnot : ¬ ∃ c : Clause, c.Taken t) : e.Names t ↔ Setting.read t = .error e := by
  refine ⟨read_of_names hnot, fun h => ?_⟩
  obtain ⟨e', he'⟩ := exists_names t
  rw [read_of_names hnot he'] at h
  cases h
  exact he'

/-- What one error says of two options is true of both or of neither. -/
theorem taken_of_names {e : OptionError} {t' : List Char} (h : e.Names t) (h' : e.Names t')
    (ht : ∃ c : Clause, c.Taken t) : ∃ c : Clause, c.Taken t' := by
  obtain ⟨c, hc⟩ := ht
  have hread := read_of_taken hc
  cases h with
  | @policy name word hname =>
    generalize he : OptionError.unknownPolicy _ = e at h'
    cases h' with
    | @policy name' word' hname' =>
      have hword : upper word = upper word' := String.ofList_injective (OptionError.unknownPolicy.inj he)
      cases hp : Policy.ofWord? word with
      | none => simp [read_policy hname, Policy.read, hp, Except.map] at hread
      | some p =>
        rw [Policy.ofWord?_eq_some_iff, hword, ← Policy.ofWord?_eq_some_iff] at hp
        exact ⟨_, taken_of_policy hname' hp⟩
    | _ => cases he
  | @sticky name spec hname =>
    generalize he : OptionError.invalidSticky _ = e at h'
    cases h' with
    | @sticky name' spec' hname' =>
      obtain rfl := String.ofList_injective (OptionError.invalidSticky.inj he)
      cases hk : StoreConfig.ofText? spec with
      | none => simp [read_sticky hname, StoreConfig.read, hk, Except.map] at hread
      | some k => exact exists_taken_of_table hname' hk
    | _ => cases he
  | option _ =>
    generalize he : OptionError.unknownOption _ = e at h'
    cases h' with
    | option _ =>
      obtain rfl := String.ofList_injective (OptionError.unknownOption.inj he)
      exact ⟨c, hc⟩
    | _ => cases he

end Setting

/-! ## The options of a list -/

/-- A text that can end a part of a list: no comma is in it, and no blank at its end. -/
structure Text.Closing (t : List Char) : Prop where
  comma : ',' ∉ t
  last : ∀ c ∈ t.getLast?, isBlank c = false

namespace Text

variable {s t : List Char}

theorem closing_nil : Closing [] :=
  ⟨by simp, by simp⟩

theorem Closing.append (hs : Closing s) (ht : Closing t) : Closing (s ++ t) := by
  refine ⟨by simp [hs.comma, ht.comma], fun c hc => ?_⟩
  rw [List.getLast?_append] at hc
  cases hlast : t.getLast? with
  | none => exact hs.last c (by simpa [hlast] using hc)
  | some x => exact ht.last c (by simpa [hlast] using hc)

theorem closing_singleton {c : Char} (hc : c ≠ ',') (hblank : isBlank c = false) : Closing [c] :=
  ⟨by simpa using hc.symm, by simpa using hblank⟩

theorem closing_of_solid (h : t.all solid) : Closing t :=
  ⟨not_mem_of_solid rfl h, fun c hc => isBlank_of_solid (List.all_eq_true.1 h c (List.mem_of_mem_getLast? hc))⟩

theorem closing_intercalate :
    ∀ {fields : List (List Char)}, (∀ f ∈ fields, Closing f) → Closing ([':'].intercalate fields)
  | [], _ => closing_nil
  | [f], h => by simpa using h f
  | f :: g :: fields, h => by
    have hcolon : Closing [':'] := closing_singleton (by decide) rfl
    rw [List.intercalate_cons_cons]
    exact ((h f List.mem_cons_self).append hcolon).append
      (closing_intercalate fun x hx => h x (List.mem_cons_of_mem f hx))

end Text

namespace Clause

variable {c : Clause} {t name : List Char} {fields : List (List Char)}

theorem Listed.closing {name : String} (h : Listed name) : Closing name.toList :=
  ⟨h.1, h.2.last⟩

theorem closing_of_upper {word : String} (h : upper name = word.toList) (hletters : word.toList.all Char.isAlpha) :
    Closing name :=
  closing_of_solid (solid_of_upper (h ▸ hletters))

theorem LastField.closing {cluster : Option String} {last : List (List Char)} (h : LastField cluster last)
    (hc : ∀ k ∈ cluster, Listed k) : ∀ f ∈ last, Closing f := by
  cases h with
  | none => simp
  | empty => simpa using closing_nil
  | cluster _ => simpa using (hc _ rfl).closing

theorem Fields.closing (h : c.Fields fields) (hc : c.Plain) : ∀ f ∈ fields, Closing f := by
  cases h with
  | noTable hword => simpa using closing_of_upper hword (by decide)
  | table hword hb he hs _ hlast =>
    simp only [List.forall_mem_append, List.forall_mem_cons]
    exact ⟨⟨closing_of_upper hword (by decide), closing_of_solid hb.solid, closing_of_solid he.solid,
      closing_of_solid hs.solid, hc.1.closing, by simp⟩, hlast.closing hc.2⟩

theorem Spelt.closing (h : c.Spelt t) (hc : c.Plain) : Closing t := by
  have hjoin {name value : List Char} (hn : Closing name) (hv : Closing value) : Closing (name ++ '=' :: value) := by
    have hequals : Closing ['='] := closing_singleton (by decide) rfl
    simpa using hn.append (hequals.append hv)
  cases h with
  | @policy p name word hname hword =>
    have hletters : p.word.toList.all Char.isAlpha := by cases p <;> decide
    exact hjoin (closing_of_upper hname (by decide)) (closing_of_upper hword hletters)
  | failover hname => exact closing_of_upper hname (by decide)
  | sendsHeader hname hword => exact hjoin (closing_of_upper hname (by decide)) (closing_of_upper hword (by decide))
  | sticky hname hfields _ =>
    exact hjoin (closing_of_upper hname (by decide)) (closing_intercalate (hfields.closing hc))

/-- An option begins with a letter. -/
theorem Spelt.head (h : c.Spelt t) : ∀ x ∈ t.head?, isBlank x = false := by
  have hjoin {name : List Char} {word : String} (hname : upper name = word.toList) (hne : word.toList ≠ [])
      (hletters : word.toList.all Char.isAlpha) (rest : List Char) : ∀ x ∈ (name ++ rest).head?, isBlank x = false := by
    intro x hx
    have hname' : name ≠ [] := by
      rintro rfl
      exact hne hname.symm
    rw [List.head?_append_of_ne_nil _ hname'] at hx
    have hsolid := solid_of_upper (s := name) (hname ▸ hletters)
    exact isBlank_of_solid (List.all_eq_true.1 hsolid x (List.mem_of_mem_head? hx))
  cases h with
  | policy hname _ => exact hjoin hname (by decide) (by decide) _
  | failover hname => simpa using hjoin hname (by decide) (by decide) []
  | sendsHeader hname _ => exact hjoin hname (by decide) (by decide) _
  | sticky hname _ _ => exact hjoin hname (by decide) (by decide) _

theorem Spelt.tight (h : c.Spelt t) (hc : c.Plain) : Tight t :=
  ⟨h.head, (h.closing hc).last⟩

/-- A part without its blanks is the option that stands in it. -/
theorem Part.taken {part : List Char} (h : c.Part part) (hc : c.Plain) : c.Taken (trim part) := by
  obtain ⟨a, t, b, ha, hb, ht, rfl⟩ := h
  rw [trim_around ha hb (ht.tight hc)]
  exact .spelt ht

theorem Part.comma {part : List Char} (h : c.Part part) (hc : c.Plain) : ',' ∉ part := by
  obtain ⟨a, t, b, ha, hb, ht, rfl⟩ := h
  have hblank : isBlank ',' = false := rfl
  simp [not_mem_of_blank hblank ha, not_mem_of_blank hblank hb, (ht.closing hc).comma]

end Clause

namespace Options

theorem foldlM_eq_map (o : Options) (ts : List (List Char)) :
    ts.foldlM (fun o t => (Setting.read t).map (Setting.apply o)) o =
      (ts.mapM Setting.read).map (·.foldl Setting.apply o) := by
  induction ts generalizing o with
  | nil => rfl
  | cons t ts ih =>
    rw [List.foldlM_cons, List.mapM_cons]
    cases Setting.read t with
    | error e => rfl
    | ok x =>
      refine (ih (x.apply o)).trans ?_
      cases ts.mapM Setting.read <;> rfl

/-- The changes are read one by one, from the parts that are not blank. -/
theorem read_eq (s : List Char) : Options.read s =
    (((s.splitOn ',').filter (!blank ·)).mapM fun part => Setting.read (trim part)).map chosen := by
  rw [Options.read, tokens, filter_map_trim, foldlM_eq_map, List.mapM_map]
  simp only [foldl_apply, Function.comp_def]

theorem read_eq_error_iff {s : List Char} {e : OptionError} : Options.read s = .error e ↔
    FirstWrong (fun part => Setting.read (trim part)) ((s.splitOn ',').filter (!blank ·)) e := by
  rw [read_eq, ← mapM_eq_error_iff]
  cases ((s.splitOn ',').filter (!blank ·)).mapM fun part => Setting.read (trim part) <;> simp [Except.map]

/-- An option that is taken is never what is said to be wrong. -/
theorem not_names_of_taken {s t : List Char} (ht : ∃ c : Clause, c.Taken t) {e : OptionError}
    (h : Options.read s = .error e) : ¬ e.Names t := by
  obtain ⟨before, part, after, -, -, hread⟩ := read_eq_error_iff.1 h
  have hnot : ¬ ∃ c : Clause, c.Taken (trim part) := by
    rintro ⟨c, hc⟩
    cases hread.symm.trans (Setting.read_of_taken hc)
  exact fun hnames => hnot (Setting.taken_of_names hnames ((Setting.names_iff hnot).2 hread) ht)

theorem read_of_taken {s : List Char} {cs : List Clause}
    (h : List.Forall₂ (fun c part => c.Taken (trim part)) cs ((s.splitOn ',').filter (!blank ·))) :
    Options.read s = .ok (chosen (cs.map Clause.setting)) := by
  have hread : ((s.splitOn ',').filter (!blank ·)).mapM (fun part => Setting.read (trim part)) =
      .ok (cs.map Clause.setting) := by
    rw [mapM_eq_ok_iff, List.forall₂_map_right_iff]
    exact h.flip.imp fun part c hc => Setting.read_of_taken hc
  rw [read_eq, hread]
  rfl

theorem read_of_parts {o : Options} {cs : List Clause} {parts : List (List Char)} (hplain : ∀ c ∈ cs, c.Plain)
    (hparts : List.Forall₂ Clause.Part cs (parts.filter (!blank ·))) (ho : o.Lists (cs.map Clause.setting)) :
    Options.read ([','].intercalate parts) = .ok o := by
  have hboth := (List.forall₂_and_left _ _).2 ⟨hplain, hparts⟩
  have hcomma : ∀ part ∈ parts.filter (!blank ·), ',' ∉ part := by
    intro part hpart
    obtain ⟨c, -, hc, hspelt⟩ := exists_left_of_mem hboth part hpart
    exact hspelt.comma hc
  have htaken : List.Forall₂ (fun (c : Clause) part => c.Taken (trim part)) cs (parts.filter (!blank ·)) :=
    hboth.imp fun c part h => h.2.taken h.1
  rw [← splitOn_join rfl hcomma] at htaken
  rw [read_of_taken htaken, ho.chosen_eq]

/-- The options of a list.

Whatever the options are: a list that asks for just these, of clauses in whatever order, in letters of either case, with
any blanks around them and any blank parts between them, is read as these options. Of several policies, and of several
tables, the last one counts. If a part is neither blank nor taken for an option, then the list is wrong, and what is
wrong with the first such part is the one error for the list, whatever stands behind. A part that is taken is never told
to be wrong, not even if it is spelt as no option. -/
theorem read_by_grammar (s : List Char) :
    (∀ (o : Options) (cs : List Clause) (parts : List (List Char)), s = [','].intercalate parts →
      (∀ c ∈ cs, c.Plain) → List.Forall₂ Clause.Part cs (parts.filter (!blank ·)) → o.Lists (cs.map Clause.setting) →
      Options.read s = .ok o) ∧
    (∀ cs : List Clause, List.Forall₂ (fun c part => c.Taken (trim part)) cs ((s.splitOn ',').filter (!blank ·)) →
      Options.read s = .ok (chosen (cs.map Clause.setting))) ∧
    (∀ (before after : List (List Char)) (part : List Char),
      (s.splitOn ',').filter (!blank ·) = before ++ part :: after →
      (∀ p ∈ before, ∃ c : Clause, c.Taken (trim p)) → (¬ ∃ c : Clause, c.Taken (trim part)) →
      ∃ e, Options.read s = .error e ∧ ∀ e' : OptionError, e'.Names (trim part) ↔ e' = e) ∧
    ∀ t, (∃ c : Clause, c.Taken t) → ∀ e : OptionError, Options.read s = .error e → ¬ e.Names t := by
  refine ⟨?_, fun cs => read_of_taken, ?_, fun t ht e => not_names_of_taken ht⟩
  · rintro o cs parts rfl hplain hparts ho
    exact read_of_parts hplain hparts ho
  · intro before after part hs hbefore hpart
    obtain ⟨e, he⟩ := Setting.exists_names (trim part)
    have hread := Setting.read_of_names hpart he
    refine ⟨e, read_eq_error_iff.2 ⟨before, part, after, hs, fun p hp => ?_, hread⟩, fun e' => ?_⟩
    · obtain ⟨c, hc⟩ := hbefore p hp
      exact ⟨c.setting, Setting.read_of_taken hc⟩
    · rw [Setting.names_iff hpart, hread, Except.error.injEq, eq_comm]

/-! A table with the largest numbers, letters of either case, blanks and blank parts, and the policy behind the rest. -/

def fullOptions : Options where
  policy := .shuffledRing
  failover := true
  sendsHeader := true
  sticky := .named 255 18446744073709551615 7 "a=B c" (some "Prod")

def fullClauses : List Clause :=
  [.table 255 18446744073709551615 7 "a=B c" (some "Prod"), .failover, .sendsHeader, .policy .shuffledRing]

def fullParts : List (List Char) :=
  [" sTicky=mEm:+0255:18446744073709551615:007:a=B c:Prod\t".toList, [], "FailOver ".toList, " ".toList,
    "Proxy=sEND".toList, "lb=RandRR".toList]

theorem fullParts_spelt : List.Forall₂ Clause.Part fullClauses (fullParts.filter (!blank ·)) := by
  have hsome : fullParts.filter (!blank ·) = [" sTicky=mEm:+0255:18446744073709551615:007:a=B c:Prod\t".toList,
      "FailOver ".toList, "Proxy=sEND".toList, "lb=RandRR".toList] := by decide
  rw [hsome]
  refine .cons ?_ (.cons ?_ (.cons ?_ (.cons ?_ .nil)))
  · have hfields : Clause.Fields (.table 255 18446744073709551615 7 "a=B c" (some "Prod"))
        ["mEm".toList, "+0255".toList, "18446744073709551615".toList, "007".toList, "a=B c".toList, "Prod".toList] :=
      .table (by decide) ⟨1, .inr rfl⟩ ⟨0, .inl rfl⟩ ⟨2, .inl rfl⟩ (by decide) (.cluster (by decide))
    have hspelt := Clause.Spelt.sticky (show upper "sTicky".toList = _ from rfl) hfields (by decide)
    exact ⟨" ".toList, _, "\t".toList, rfl, rfl, hspelt, rfl⟩
  · exact ⟨[], "FailOver".toList, " ".toList, rfl, rfl, .failover rfl, rfl⟩
  · exact ⟨[], "Proxy".toList ++ '=' :: "sEND".toList, [], rfl, rfl, .sendsHeader rfl rfl, rfl⟩
  · exact ⟨[], "lb".toList ++ '=' :: "RandRR".toList, [], rfl, rfl, .policy rfl rfl, rfl⟩

theorem read_by_grammar_full :
    (∀ c ∈ fullClauses, c.Plain) ∧ List.Forall₂ Clause.Part fullClauses (fullParts.filter (!blank ·)) ∧
      fullOptions.Lists (fullClauses.map Clause.setting) ∧
      Options.read ([','].intercalate fullParts) = .ok fullOptions := by
  have hplain : ∀ c ∈ fullClauses, c.Plain := by
    have hlisted : Clause.Listed "a=B c" ∧ Clause.Listed "Prod" := by decide
    simp [fullClauses, Clause.Plain, hlisted]
  have hlists : fullOptions.Lists (fullClauses.map Clause.setting) := by
    constructor <;> simp [fullOptions, fullClauses, Clause.setting, Setting.In]
  exact ⟨hplain, fullParts_spelt, hlists,
    (read_by_grammar _).1 fullOptions fullClauses fullParts rfl hplain fullParts_spelt hlists⟩

/-! No table with fields behind: the grammar has no such option, and it is read as one. -/

theorem colon_not_mem_of_noTable {t : List Char} (h : Clause.noTable.Spelt t) : ':' ∉ t := by
  cases h with
  | sticky hname hfields hcolon =>
    cases hfields
    have hletters := solid_of_upper (hname.symm ▸ (by decide : "STICKY".toList.all Char.isAlpha))
    have hname' : ':' ∉ _ := not_mem_of_solid rfl hletters
    simpa [hname'] using hcolon

theorem eq_noTable_of_setting {c : Clause} (h : c.setting = .sticky {}) : c = .noTable := by
  cases c <;> simp [Clause.setting, StoreConfig.named] at h ⊢

theorem fields_behind_no_table :
    let s := "STICKY=NULL:1:2:3".toList
    (s.splitOn ',').filter (!blank ·) = [s] ∧ (¬ ∃ c : Clause, c.Spelt (trim s)) ∧
      (OptionError.invalidSticky "NULL:1:2:3").Names (trim s) ∧ Options.read s = .ok {} := by
  intro s
  refine ⟨by decide, ?_, ?_, by decide⟩
  · rintro ⟨c, hc⟩
    have hread : Setting.read (trim s) = .ok (.sticky {}) := by decide
    rw [Setting.read_of_taken (.spelt hc), Except.ok.injEq] at hread
    obtain rfl := eq_noTable_of_setting hread
    exact colon_not_mem_of_noTable hc (by decide)
  · exact .sticky (show upper "STICKY".toList = _ from rfl)

end Options

end AffinityRelay
