import AffinityRelay.Proofs.Text.Parts
import AffinityRelay.Settings

/-!
# Settings are read rule by rule

* `ClusterRule.read_of_written`: a rule is read back from its three words, whatever blanks stand between them;
* `Settings.parts`: what stands between the semicolons of a list and is not blank. The rules of a list are what each of
  its parts says on its own (`Settings.rules_eq`), and two lists with a semicolon between them are one
  (`Settings.parts_joined`);
* `Settings.read_cases`: all that can become of the settings. No number is wrong;
* `Settings.read_rule_by_rule`: so the settings are read, or what is wrong with the first rule that is wrong is told.
-/

namespace AffinityRelay

open Text

theorem ForwardRule.read_trim (s : List Char) : read (trim s) = read s := by
  simp only [read, trim_trim, words_trim]

/-! ## Rules for clusters -/

theorem Role.ofWord?_word (r : Role) : ofWord? r.word.toList = some r := by
  cases r <;> decide

namespace ClusterRule

theorem read_trim (s : List Char) : read (trim s) = read s := by
  simp only [read, trim_trim, words_trim]

/-- Text that stands as one word in a list of rules: no character of it ends a word or a rule. -/
structure Whole (w : String) : Prop where
  nonempty : w ≠ ""
  blank : ∀ c ∈ w.toList, isBlank c = false
  semicolon : ';' ∉ w.toList

instance (w : String) : Decidable (Whole w) :=
  decidable_of_iff (w ≠ "" ∧ w.toList.all (!isBlank ·) ∧ ';' ∉ w.toList) <| by
    simp only [List.all_eq_true, Bool.not_eq_true']
    exact ⟨fun h => ⟨h.1, h.2.1, h.2.2⟩, fun h => ⟨h.nonempty, h.blank, h.semicolon⟩⟩

/-- A rule whose name and address stand as one word each. -/
structure Proper (r : ClusterRule) : Prop where
  name : Whole r.name
  address : Whole r.address

instance (r : ClusterRule) : Decidable r.Proper :=
  decidable_of_iff (Whole r.name ∧ Whole r.address) ⟨fun h => ⟨h.1, h.2⟩, fun h => ⟨h.name, h.address⟩⟩

/-- The three words of a rule with blanks between them, and perhaps around them. -/
def Written (r : ClusterRule) (s : List Char) : Prop :=
  ∃ a b c d, blank a ∧ (blank b ∧ b ≠ []) ∧ (blank c ∧ c ≠ []) ∧ blank d ∧
    s = a ++ (r.role.word.toList ++ (b ++ (r.name.toList ++ (c ++ (r.address.toList ++ d)))))

theorem Whole.toList_ne_nil {w : String} (hw : Whole w) : w.toList ≠ [] :=
  fun h => hw.nonempty (String.toList_eq_nil_iff.1 h)

theorem whole_word (role : Role) : Whole role.word := by
  cases role <;> decide

theorem written_text (r : ClusterRule) : r.Written r.text :=
  ⟨[], [' '], [' '], [], rfl, ⟨rfl, by simp⟩, ⟨rfl, by simp⟩, rfl, by simp [text]⟩

variable {r : ClusterRule} {s : List Char}

theorem Written.words_eq (hr : r.Proper) (hs : r.Written s) :
    words s = [r.role.word.toList, r.name.toList, r.address.toList] := by
  obtain ⟨a, b, c, d, ha, ⟨hb, hbne⟩, ⟨hc, hcne⟩, hd, rfl⟩ := hs
  have hrole := whole_word r.role
  rw [words_blank_append ha, words_join hrole.toList_ne_nil hrole.blank hb hbne,
    words_join hr.name.toList_ne_nil hr.name.blank hc hcne, words_append_blank _ hd,
    words_single hr.address.toList_ne_nil hr.address.blank]

/-- A rule is read back from its words. -/
theorem read_of_written (hr : r.Proper) (hs : r.Written s) : read s = .ok r := by
  simp [read, hs.words_eq hr, Role.ofWord?_word]

theorem Written.semicolon_not_mem (hr : r.Proper) (hs : r.Written s) : ';' ∉ s := by
  obtain ⟨a, b, c, d, ha, ⟨hb, -⟩, ⟨hc, -⟩, hd, rfl⟩ := hs
  simp only [List.mem_append, not_or]
  exact ⟨not_mem_of_blank rfl ha, (whole_word r.role).semicolon, not_mem_of_blank rfl hb, hr.name.semicolon,
    not_mem_of_blank rfl hc, hr.address.semicolon, not_mem_of_blank rfl hd⟩

end ClusterRule

namespace Settings

/-! ## The parts of a list -/

/-- What stands between the semicolons of a list and is not blank. -/
def parts (value : Option String) : List (List Char) :=
  ((value.getD "").toList.splitOn ';').filter (!blank ·)

/-- Two lists with a semicolon between them. A list that is missing is empty. -/
def joined (first second : Option String) : Option String :=
  some (first.getD "" ++ ";" ++ second.getD "")

theorem segments_eq (value : Option String) : segments value = (parts value).map trim :=
  filter_map_trim _

theorem parts_joined (first second : Option String) : parts (joined first second) = parts first ++ parts second := by
  simp only [parts, joined, Option.getD_some, String.toList_append, List.append_assoc]
  rw [← List.filter_append]
  exact congrArg _ (List.splitOn_append_cons_self (first.getD "").toList (second.getD "").toList)

theorem parts_intercalate {ps : List (List Char)} (hps : ∀ p ∈ ps.filter (!blank ·), ';' ∉ p) :
    parts (some (String.ofList ([';'].intercalate ps))) = ps.filter (!blank ·) := by
  rw [parts, Option.getD_some, String.toList_ofList, splitOn_join rfl hps]

/-! ## The rules of a list

Blanks around a rule do not matter, so each part of a list is read on its own. -/

section Rules

variable {ε α : Type} {read : List Char → Except ε α} {value first second : Option String}

theorem rules_eq (hread : ∀ s, read (trim s) = read s) : rules read value = (parts value).mapM read := by
  rw [rules, segments_eq, List.mapM_map]
  exact congrArg (fun f => (parts value).mapM f) (funext hread)

theorem rules_eq_ok_iff (hread : ∀ s, read (trim s) = read s) {rs : List α} :
    rules read value = .ok rs ↔ List.Forall₂ (fun p r => read p = .ok r) (parts value) rs := by
  rw [rules_eq hread, mapM_eq_ok_iff]

theorem exists_rules_iff (hread : ∀ s, read (trim s) = read s) :
    (∃ rs, rules read value = .ok rs) ↔ ∀ p ∈ parts value, ∃ r, read p = .ok r := by
  rw [rules_eq hread, exists_mapM_iff]

theorem rules_eq_error_iff (hread : ∀ s, read (trim s) = read s) {e : ε} :
    rules read value = .error e ↔ FirstWrong read (parts value) e := by
  rw [rules_eq hread, mapM_eq_error_iff]

/-- The rules of two lists with a semicolon between them are the rules of the one and those of the other. -/
theorem rules_joined (hread : ∀ s, read (trim s) = read s) {as bs : List α} (ha : rules read first = .ok as)
    (hb : rules read second = .ok bs) : rules read (joined first second) = .ok (as ++ bs) := by
  rw [rules_eq hread] at ha hb ⊢
  rw [parts_joined, List.mapM_append, ha, hb]
  rfl

end Rules

/-! ## All that can become of the settings -/

section Read

variable {processors : Option Nat} {named : String → Option String}

/-- What is wrong with a rule for ports is told before what is wrong with one for clusters, and nothing else can be
wrong. -/
theorem read_cases (processors : Option Nat) (named : String → Option String) :
    (∃ e, rules ForwardRule.read (named "RELAY_FORWARDS") = .error e ∧ read processors named = .error (.forward e)) ∨
    (∃ fs e, rules ForwardRule.read (named "RELAY_FORWARDS") = .ok fs ∧
      rules ClusterRule.read (named "RELAY_CLUSTERS") = .error e ∧ read processors named = .error (.cluster e)) ∨
    ∃ s, rules ForwardRule.read (named "RELAY_FORWARDS") = .ok s.forwards ∧
      rules ClusterRule.read (named "RELAY_CLUSTERS") = .ok s.clusters ∧ read processors named = .ok s ∧
      1 ≤ s.workers ∧ ProxyHeader.longest ≤ s.bufferSize := by
  unfold read
  cases hforwards : rules ForwardRule.read (named "RELAY_FORWARDS") with
  | error e => exact .inl ⟨e, rfl, rfl⟩
  | ok fs =>
    cases hclusters : rules ClusterRule.read (named "RELAY_CLUSTERS") with
    | error e => exact .inr (.inl ⟨fs, e, rfl, rfl, rfl⟩)
    | ok cs => exact .inr (.inr ⟨_, rfl, rfl, rfl, Nat.le_max_left _ _, Nat.le_max_left _ _⟩)

theorem read_eq_ok {s : Settings} (h : read processors named = .ok s) :
    rules ForwardRule.read (named "RELAY_FORWARDS") = .ok s.forwards ∧
    rules ClusterRule.read (named "RELAY_CLUSTERS") = .ok s.clusters ∧
    1 ≤ s.workers ∧ ProxyHeader.longest ≤ s.bufferSize := by
  obtain ⟨e, -, hread⟩ | ⟨fs, e, -, -, hread⟩ | ⟨s', hforwards, hclusters, hread, hworkers, hsize⟩ :=
    read_cases processors named
  · cases hread.symm.trans h
  · cases hread.symm.trans h
  · cases hread.symm.trans h
    exact ⟨hforwards, hclusters, hworkers, hsize⟩

/-- A line that tells a backend who the client is fits a buffer. -/
theorem longest_le_bufferSize {s : Settings} (h : read processors named = .ok s) :
    ProxyHeader.longest ≤ s.bufferSize :=
  (read_eq_ok h).2.2.2

theorem read_of_rules {fs : List ForwardRule} {cs : List ClusterRule}
    (hforwards : rules ForwardRule.read (named "RELAY_FORWARDS") = .ok fs)
    (hclusters : rules ClusterRule.read (named "RELAY_CLUSTERS") = .ok cs) :
    ∃ s, read processors named = .ok s ∧ s.forwards = fs ∧ s.clusters = cs := by
  obtain ⟨e, hf, -⟩ | ⟨fs', e, -, hc, -⟩ | ⟨s, hf, hc, hread, -⟩ := read_cases processors named
  · cases hforwards.symm.trans hf
  · cases hclusters.symm.trans hc
  · cases hforwards.symm.trans hf
    cases hclusters.symm.trans hc
    exact ⟨s, hread, rfl, rfl⟩

theorem read_eq_forward_iff {e : ForwardError} :
    read processors named = .error (.forward e) ↔ rules ForwardRule.read (named "RELAY_FORWARDS") = .error e := by
  obtain ⟨e', hf, hread⟩ | ⟨fs, e', hf, -, hread⟩ | ⟨s, hf, -, hread, -⟩ := read_cases processors named <;>
    simp [hf, hread]

theorem read_eq_cluster_iff {e : ClusterError} :
    read processors named = .error (.cluster e) ↔ (∃ fs, rules ForwardRule.read (named "RELAY_FORWARDS") = .ok fs) ∧
      rules ClusterRule.read (named "RELAY_CLUSTERS") = .error e := by
  obtain ⟨e', hf, hread⟩ | ⟨fs, e', hf, hc, hread⟩ | ⟨s, hf, hc, hread, -⟩ := read_cases processors named
  · simp [hf, hread]
  · simp [hf, hc, hread]
  · simp [hf, hc, hread]

end Read

/-- Rules for clusters are read back from their texts between semicolons, whatever is blank between them. -/
theorem rules_of_written {rs : List ClusterRule} {ps : List (List Char)} (hrs : ∀ r ∈ rs, r.Proper)
    (hps : List.Forall₂ ClusterRule.Written rs (ps.filter (!blank ·))) :
    rules ClusterRule.read (some (String.ofList ([';'].intercalate ps))) = .ok rs := by
  have hsemicolon : ∀ p ∈ ps.filter (!blank ·), ';' ∉ p := by
    intro p hp
    obtain ⟨r, hr, hwritten⟩ := exists_left_of_mem hps p hp
    exact hwritten.semicolon_not_mem (hrs r hr)
  rw [rules_eq_ok_iff ClusterRule.read_trim, parts_intercalate hsemicolon]
  have hboth := (List.forall₂_and_left rs _).2 ⟨hrs, hps⟩
  exact .flip (hboth.imp fun r p ⟨hr, hp⟩ => ClusterRule.read_of_written hr hp)

/-- The settings are read just if each part of the list of ports that is not blank is a rule on its own, and so is each
of the list of clusters. Then these are the rules, in order; there is at least one worker, and a buffer has at least 107
bytes, whatever the other texts are. If not, it is told what is wrong with the first rule for ports that is wrong or, if
none is, with the first rule for clusters that is. Two lists with a semicolon between them are one. Rules for clusters
are read back from their words, with any blanks between the words and any blank parts between the rules, and the number
of each cluster is that of its name. -/
theorem read_rule_by_rule (processors : Option Nat) :
    (∀ named, (∃ s, read processors named = .ok s) ↔
      (∀ p ∈ parts (named "RELAY_FORWARDS"), ∃ r, ForwardRule.read p = .ok r) ∧
      ∀ p ∈ parts (named "RELAY_CLUSTERS"), ∃ r, ClusterRule.read p = .ok r) ∧
    (∀ named s, read processors named = .ok s →
      List.Forall₂ (fun p r => ForwardRule.read p = .ok r) (parts (named "RELAY_FORWARDS")) s.forwards ∧
      List.Forall₂ (fun p r => ClusterRule.read p = .ok r) (parts (named "RELAY_CLUSTERS")) s.clusters ∧
      1 ≤ s.workers ∧ 107 ≤ s.bufferSize) ∧
    (∀ named e, read processors named = .error (.forward e) ↔
      FirstWrong ForwardRule.read (parts (named "RELAY_FORWARDS")) e) ∧
    (∀ named e, read processors named = .error (.cluster e) ↔
      (∀ p ∈ parts (named "RELAY_FORWARDS"), ∃ r, ForwardRule.read p = .ok r) ∧
      FirstWrong ClusterRule.read (parts (named "RELAY_CLUSTERS")) e) ∧
    (∀ first second both s t,
      both "RELAY_FORWARDS" = joined (first "RELAY_FORWARDS") (second "RELAY_FORWARDS") →
      both "RELAY_CLUSTERS" = joined (first "RELAY_CLUSTERS") (second "RELAY_CLUSTERS") →
      read processors first = .ok s → read processors second = .ok t →
      ∃ u, read processors both = .ok u ∧ u.forwards = s.forwards ++ t.forwards ∧
        u.clusters = s.clusters ++ t.clusters) ∧
    (∀ r : ClusterRule, r.Written r.text) ∧
    (∀ named (rs : List ClusterRule) ps, (∀ r ∈ rs, r.Proper) →
      List.Forall₂ ClusterRule.Written rs (ps.filter (!blank ·)) →
      named "RELAY_CLUSTERS" = some (String.ofList ([';'].intercalate ps)) →
      (∀ p ∈ parts (named "RELAY_FORWARDS"), ∃ r, ForwardRule.read p = .ok r) →
      ∃ s, read processors named = .ok s ∧ s.clusters = rs ∧
        s.clusters.map (·.cluster) = rs.map fun r => identifier r.name) := by
  refine ⟨fun named => ?_, fun named s h => ?_, fun named e => ?_, fun named e => ?_, ?_, ClusterRule.written_text, ?_⟩
  · rw [← exists_rules_iff ForwardRule.read_trim, ← exists_rules_iff ClusterRule.read_trim]
    constructor
    · rintro ⟨s, h⟩
      exact ⟨⟨_, (read_eq_ok h).1⟩, _, (read_eq_ok h).2.1⟩
    · rintro ⟨⟨fs, hfs⟩, cs, hcs⟩
      obtain ⟨s, hs, -⟩ := read_of_rules hfs hcs
      exact ⟨s, hs⟩
  · obtain ⟨hfs, hcs, hworkers, hsize⟩ := read_eq_ok h
    exact ⟨(rules_eq_ok_iff ForwardRule.read_trim).1 hfs, (rules_eq_ok_iff ClusterRule.read_trim).1 hcs, hworkers,
      hsize⟩
  · rw [read_eq_forward_iff, rules_eq_error_iff ForwardRule.read_trim]
  · rw [read_eq_cluster_iff, exists_rules_iff ForwardRule.read_trim, rules_eq_error_iff ClusterRule.read_trim]
  · intro first second both s t hboth hboth' hs ht
    obtain ⟨hsf, hsc, -⟩ := read_eq_ok hs
    obtain ⟨htf, htc, -⟩ := read_eq_ok ht
    refine read_of_rules ?_ ?_
    · rw [hboth]
      exact rules_joined ForwardRule.read_trim hsf htf
    · rw [hboth']
      exact rules_joined ClusterRule.read_trim hsc htc
  · intro named rs ps hrs hps hnamed hparts
    obtain ⟨fs, hfs⟩ := (exists_rules_iff ForwardRule.read_trim).2 hparts
    obtain ⟨s, hs, -, hsrs⟩ := read_of_rules hfs (hnamed ▸ rules_of_written hrs hps)
    exact ⟨s, hs, hsrs, by rw [hsrs]; rfl⟩

/-! Lists with blank parts and with blanks of all kinds, and numbers that are none or too small. -/

def untidy : String → Option String
  | "RELAY_FORWARDS" => some " ;\t[::1]:80  a:1,b:2\tLB=rr ; ;"
  | "RELAY_CLUSTERS" => some ";; in\t web  0.0.0.0:7000 ;\n;out web b:7000"
  | "RELAY_WORKERS" => some "0"
  | "RELAY_BUFFER_SIZE" => some "-1"
  | _ => none

/-- The same text twice, with a semicolon between. -/
def twice (named : String → Option String) (name : String) : Option String :=
  joined (named name) (named name)

theorem read_rule_by_rule_untidy :
    let ps := [[], [], " in\t web  0.0.0.0:7000 ".toList, ['\n'], "out web b:7000".toList]
    let rs : List ClusterRule := [⟨.server, "web", "0.0.0.0:7000"⟩, ⟨.client, "web", "b:7000"⟩]
    let forward : ForwardRule := ⟨"[::1]:80", [⟨"a", 1⟩, ⟨"b", 2⟩], { policy := .ring }⟩
    (∀ r ∈ rs, r.Proper) ∧ List.Forall₂ ClusterRule.Written rs (ps.filter (!blank ·)) ∧
      untidy "RELAY_CLUSTERS" = some (String.ofList ([';'].intercalate ps)) ∧
      ForwardRule.read "\t[::1]:80  a:1,b:2\tLB=rr ".toList = .ok forward ∧
      (∃ s, read (some 4) untidy = .ok s ∧ s.clusters = rs) ∧
      read (some 4) untidy = .ok { forwards := [forward], clusters := rs } ∧
      ∃ s, read (some 4) (twice untidy) = .ok s ∧ s.forwards = [forward, forward] ∧ s.clusters = rs ++ rs := by
  intro ps rs forward
  have hproper : ∀ r ∈ rs, r.Proper := by decide
  have hrest : ps.filter (!blank ·) = [" in\t web  0.0.0.0:7000 ".toList, "out web b:7000".toList] := by decide
  have hwritten : List.Forall₂ ClusterRule.Written rs (ps.filter (!blank ·)) := by
    rw [hrest]
    refine .cons ?_ (.cons (ClusterRule.written_text _) .nil)
    exact ⟨[' '], ['\t', ' '], [' ', ' '], [' '], by decide⟩
  have hvalue : untidy "RELAY_CLUSTERS" = some (String.ofList ([';'].intercalate ps)) := by decide
  have hforward : ForwardRule.read "\t[::1]:80  a:1,b:2\tLB=rr ".toList = .ok forward := by decide
  have hparts : parts (untidy "RELAY_FORWARDS") = ["\t[::1]:80  a:1,b:2\tLB=rr ".toList] := by decide
  have hread : read (some 4) untidy = .ok { forwards := [forward], clusters := rs } := by decide
  have hreadable : ∀ p ∈ parts (untidy "RELAY_FORWARDS"), ∃ r, ForwardRule.read p = .ok r := by
    rw [hparts]
    exact List.forall_mem_singleton.2 ⟨forward, hforward⟩
  obtain ⟨-, -, -, -, hjoin, -, hback⟩ := read_rule_by_rule (some 4)
  obtain ⟨s, hs, hrs, -⟩ := hback untidy rs ps hproper hwritten hvalue hreadable
  refine ⟨hproper, hwritten, hvalue, hforward, ⟨s, hs, hrs⟩, hread, ?_⟩
  exact hjoin untidy untidy (twice untidy) _ _ rfl rfl hread hread

end Settings

end AffinityRelay
