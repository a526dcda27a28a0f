import Mathlib.Data.List.Basic
import Mathlib.Data.List.TakeWhile
import AffinityRelay.Address.Read
import AffinityRelay.Address.Text

/-!
# The text of an address is read as that address

* `Ip.Stops`: what stands after a number does not go on with it. A number and what stops it are read as that number
  (`Ip.number_toDigits`), and so are a decimal byte (`Ip.decimalByte_numeral`) and four of them between points
  (`Ip.quad_dotted`);
* `Ip.groups_colons`: groups between colons are read up to the end, or up to two colons;
* `Ip.longestZeros_spec`: what is written as two colons is a run of zeros;
* `Ip.text_cases`: an address is written in one of three ways, and is read back from each (`Ip.read?_text`);
* `Ip.length_text_le`, `Ip.mem_letters_of_mem_text`: how long the text of an address is at most, and its characters.
-/

namespace AffinityRelay.Ip

open Text (numeral)

/-! ## Numbers -/

theorem digit?_digitChar {base d : Nat} (hd : d < base) (hbase : base ≤ 16) : digit? base d.digitChar = some d := by
  have hvalue : ∀ d < 16, digit? 16 d.digitChar = some d := by decide
  have h := hvalue d (by omega)
  simp only [digit?, Option.filter_eq_some_iff] at h ⊢
  exact ⟨h.1, by simpa using hd⟩

/-- A number is written with the digits that are below its base. -/
theorem exists_digit_of_mem_toDigits {base : Nat} (hbase : 1 < base) (n : Nat) :
    ∀ c ∈ Nat.toDigits base n, ∃ d < base, c = d.digitChar := by
  induction n using Nat.strongRecOn with
  | _ n ih =>
    intro c hc
    rw [Nat.toDigits_eq_if hbase] at hc
    split at hc
    · rename_i hn
      exact ⟨n, hn, by simpa using hc⟩
    · rename_i hn
      obtain hc | hc := List.mem_append.1 hc
      · exact ih (n / base) (Nat.div_lt_self (by omega) hbase) c hc
      · exact ⟨n % base, Nat.mod_lt n (by omega), by simpa using hc⟩

/-- The number that is written with these digits. -/
def valueOf (base : Nat) (s : List Char) : Nat :=
  (s.filterMap (digit? base)).foldl (fun n d => base * n + d) 0

theorem valueOf_toDigits {base : Nat} (hbase : 1 < base) (hsixteen : base ≤ 16) (n : Nat) :
    valueOf base (Nat.toDigits base n) = n := by
  induction n using Nat.strongRecOn with
  | _ n ih =>
    rw [Nat.toDigits_eq_if hbase]
    split
    · rename_i hn
      simp [valueOf, digit?_digitChar hn hsixteen]
    · rename_i hn
      have hlast := digit?_digitChar (Nat.mod_lt n (show base > 0 by omega)) hsixteen
      have hfirst := ih (n / base) (Nat.div_lt_self (by omega) hbase)
      simp only [valueOf] at hfirst ⊢
      simp only [List.filterMap_append, List.filterMap_cons, hlast, List.filterMap_nil, List.foldl_append,
        List.foldl_cons, List.foldl_nil, hfirst]
      exact Nat.div_add_mod n base

/-- A text that does not begin with a digit: it is at its end, or at a point or a colon. -/
def Stops (s : List Char) : Prop :=
  ∀ c ∈ s.head?, c = '.' ∨ c = ':'

theorem stops_nil : Stops [] := nofun

theorem stops_point (s : List Char) : Stops ('.' :: s) := by simp [Stops]

theorem stops_colon (s : List Char) : Stops (':' :: s) := by simp [Stops]

theorem Stops.takeWhile {s : List Char} (h : Stops s) (base : Nat) :
    s.takeWhile (fun c => (digit? base c).isSome) = [] := by
  cases s with
  | nil => rfl
  | cons c r =>
    obtain rfl | rfl := h c rfl
    · exact List.takeWhile_cons_of_neg (by simp [digit?])
    · exact List.takeWhile_cons_of_neg (by simp [digit?])

theorem Stops.number {s : List Char} (h : Stops s) (base width largest : Nat) :
    number base width largest s = none := by
  simp [Ip.number, h.takeWhile]

/-- A number that is neither too long nor too large is read up to what stops it. -/
theorem number_toDigits {base width largest n : Nat} (hbase : 1 < base) (hsixteen : base ≤ 16)
    (hwidth : (Nat.toDigits base n).length ≤ width) (hlargest : n ≤ largest) {rest : List Char} (hrest : Stops rest) :
    number base width largest (Nat.toDigits base n ++ rest) = some (n, rest) := by
  have hdigits : ∀ c ∈ Nat.toDigits base n, (digit? base c).isSome := by
    intro c hc
    obtain ⟨d, hd, rfl⟩ := exists_digit_of_mem_toDigits hbase n c hc
    rw [digit?_digitChar hd hsixteen, Option.isSome_some]
  have htake : (Nat.toDigits base n ++ rest).takeWhile (fun c => (digit? base c).isSome) = Nat.toDigits base n := by
    rw [List.takeWhile_append_of_pos hdigits, hrest.takeWhile, List.append_nil]
  have hvalue := valueOf_toDigits hbase hsixteen n
  simp only [valueOf] at hvalue
  simp [number, htake, hvalue, hwidth, hlargest]

/-- Only 0 is written with a zero in front. -/
theorem head?_toDigits {base : Nat} (hbase : 1 < base) (n : Nat) :
    (Nat.toDigits base n).head? = some '0' → n = 0 := by
  induction n using Nat.strongRecOn with
  | _ n ih =>
    rw [Nat.toDigits_eq_if hbase]
    split
    · simp
    · rename_i hn
      intro hhead
      have hdiv : n / base = 0 := by
        refine ih (n / base) (Nat.div_lt_self (by omega) hbase) ?_
        rwa [List.head?_append_of_ne_nil _ Nat.toDigits_ne_nil] at hhead
      have := (Nat.div_eq_zero_iff_lt (by omega)).1 hdiv
      omega

theorem length_numeral_le (b : UInt8) : (numeral b.toNat).length ≤ 3 := by
  have hb := b.toNat_lt
  exact (Nat.length_toDigits_le_iff (by decide) (by decide)).2 (by omega)

theorem decimalByte_numeral (b : UInt8) {rest : List Char} (hrest : Stops rest) :
    decimalByte (numeral b.toNat ++ rest) = some (b, rest) := by
  have hnumber : number 10 3 255 (numeral b.toNat ++ rest) = some (b.toNat, rest) := by
    have hb := b.toNat_lt
    exact number_toDigits (by decide) (by decide) (length_numeral_le b) (by omega) hrest
  unfold decimalByte
  split
  · -- A zero in front is all there is.
    rename_i d r hs
    have hzero : b.toNat = 0 := by
      have hhead : (numeral b.toNat ++ rest).head? = some '0' := by rw [hs, List.head?_cons]
      rw [numeral, List.head?_append_of_ne_nil _ Nat.toDigits_ne_nil] at hhead
      exact head?_toDigits (by decide) b.toNat hhead
    rw [hzero, show numeral 0 = ['0'] from rfl, List.singleton_append, List.cons.injEq] at hs
    have hd : d.isDigit = false := by
      obtain rfl | rfl := hrest d (by simp [hs.2]) <;> rfl
    rw [if_neg (by simp [hd]), hnumber]
    simp
  · rw [hnumber]
    simp

theorem quad_dotted (a b c d : UInt8) {rest : List Char} (hrest : Stops rest) :
    quad (dotted [a, b, c, d] ++ rest) = some ([a, b, c, d], rest) := by
  have htext : dotted [a, b, c, d] ++ rest = numeral a.toNat ++ '.' :: (numeral b.toNat ++
      '.' :: (numeral c.toNat ++ '.' :: (numeral d.toNat ++ rest))) := by
    simp [dotted, List.intercalate_cons_cons]
  simp only [htext, quad, decimalByte_numeral _ (stops_point _), decimalByte_numeral d hrest, given, if_true,
    Option.bind_eq_bind, Option.bind_some, Option.pure_def]

/-! ## Groups -/

theorem number_eq_some {base width largest n : Nat} {s r : List Char}
    (h : number base width largest s = some (n, r)) : r <:+ s := by
  simp only [number, Option.ite_none_right_eq_some, Option.some.injEq, Prod.mk.injEq] at h
  obtain ⟨-, -, rfl⟩ := h
  exact List.drop_suffix _ _

theorem decimalByte_eq_some {b : UInt8} {s r : List Char} (h : decimalByte s = some (b, r)) : r <:+ s := by
  unfold decimalByte at h
  split at h
  · split at h
    · cases h
    · obtain ⟨p, hp, hr⟩ := Option.map_eq_some_iff.1 h
      cases hr
      exact number_eq_some hp
  · obtain ⟨p, hp, hr⟩ := Option.map_eq_some_iff.1 h
    cases hr
    exact number_eq_some hp

/-- Where there is no point there are no four bytes. -/
theorem quad_eq_none {s : List Char} (h : '.' ∉ s) : quad s = none := by
  have hgiven {r : List Char} (hr : r <:+ s) : given '.' r = none := by
    cases r with
    | nil => rfl
    | cons c r =>
      have hc : c ≠ '.' := by
        rintro rfl
        exact h (hr.subset List.mem_cons_self)
      simp [given, hc]
  cases hb : decimalByte s with
  | none => simp [quad, hb]
  | some p => simp [quad, hb, hgiven (decimalByte_eq_some hb)]

/-- A group as it is written. -/
def hex (g : UInt16) : List Char :=
  Nat.toDigits 16 g.toNat

/-- Groups, each after a colon. -/
def led (gs : List UInt16) : List Char :=
  gs.flatMap fun g => ':' :: hex g

theorem colons_cons (g : UInt16) (gs : List UInt16) : colons (g :: gs) = hex g ++ led gs := by
  induction gs generalizing g with
  | nil => simp [colons, led, hex]
  | cons g' gs ih =>
    have h := ih g'
    simp only [colons, List.map_cons] at h ⊢
    rw [List.intercalate_cons_cons, h]
    simp [led, hex]

/-- The characters of groups between colons. -/
def letters : List Char :=
  "0123456789abcdef:".toList

theorem mem_letters_of_mem_toDigits {base n : Nat} (hbase : 1 < base) (hsixteen : base ≤ 16) {c : Char}
    (hc : c ∈ Nat.toDigits base n) : c ∈ letters := by
  have hdigits : ∀ d < 16, d.digitChar ∈ letters := by decide
  obtain ⟨d, hd, rfl⟩ := exists_digit_of_mem_toDigits hbase n c hc
  exact hdigits d (by omega)

theorem mem_letters_of_mem_led {gs : List UInt16} {c : Char} (hc : c ∈ led gs) : c ∈ letters := by
  obtain ⟨g, -, hc⟩ := List.mem_flatMap.1 hc
  obtain rfl | hc := List.mem_cons.1 hc
  · decide
  · exact mem_letters_of_mem_toDigits (by decide) (by decide) hc

theorem mem_letters_of_mem_colons {gs : List UInt16} {c : Char} (hc : c ∈ colons gs) : c ∈ letters := by
  cases gs with
  | nil => simp [colons] at hc
  | cons g gs =>
    rw [colons_cons] at hc
    obtain hc | hc := List.mem_append.1 hc
    · exact mem_letters_of_mem_toDigits (by decide) (by decide) hc
    · exact mem_letters_of_mem_led hc

theorem length_hex_le (g : UInt16) : (hex g).length ≤ 4 := by
  have hg := g.toNat_lt
  exact (Nat.length_toDigits_le_iff (by decide) (by decide)).2 (by omega)

theorem number_hex (g : UInt16) {rest : List Char} (hrest : Stops rest) :
    number 16 4 0xffff (hex g ++ rest) = some (g.toNat, rest) := by
  have hg := g.toNat_lt
  exact number_toDigits (by decide) (by decide) (length_hex_le g) (by omega) hrest

/-- A text in which groups end: it is at its end, or there are two colons. No address of the fourth version stands in
it. -/
structure Closes (s : List Char) : Prop where
  point : '.' ∉ s
  ends : s = [] ∨ ∃ r, s = ':' :: ':' :: r

theorem Closes.stops {s : List Char} (h : Closes s) : Stops s := by
  obtain rfl | ⟨r, rfl⟩ := h.ends
  · exact stops_nil
  · exact stops_colon _

/-- No address of the fourth version stands among groups that end. -/
theorem Closes.quad_hex {s : List Char} (h : Closes s) (g : UInt16) (gs : List UInt16) :
    quad (hex g ++ (led gs ++ s)) = none := by
  have hpoint : '.' ∉ letters := by decide
  refine quad_eq_none fun hmem => ?_
  simp only [List.mem_append] at hmem
  obtain hmem | hmem | hmem := hmem
  · exact hpoint (mem_letters_of_mem_toDigits (by decide) (by decide) hmem)
  · exact hpoint (mem_letters_of_mem_led hmem)
  · exact h.point hmem

theorem Closes.stops_led {s : List Char} (h : Closes s) (gs : List UInt16) : Stops (led gs ++ s) := by
  cases gs with
  | nil => exact h.stops
  | cons g gs => exact stops_colon _

/-- Where there is no number there are no four bytes either. -/
theorem quad_of_number {s : List Char} (h : number 10 3 255 s = none) : quad s = none := by
  have hbyte : decimalByte s = none := by
    unfold decimalByte
    split
    · split
      · rfl
      · rw [h, Option.map_none]
    · rw [h, Option.map_none]
  simp [quad, hbyte]

theorem Stops.quad {s : List Char} (h : Stops s) : quad s = none :=
  quad_of_number (h.number ..)

section Steps

variable {room : Nat} {first : Bool} {s r rest : List Char}

/-- A group is read, and then those after it. -/
theorem groups_of_number {g : UInt16} (hr : (if first then some s else given ':' s) = some r) (hquad : quad r = none)
    (hnumber : number 16 4 0xffff r = some (g.toNat, rest)) :
    groups (room + 1) first s = (g :: (groups room false rest).1, (groups room false rest).2) := by
  simp [groups, hr, hquad, hnumber]

/-- No group is read where none begins. -/
theorem groups_of_none (hquad : (if first then some s else given ':' s).bind quad = none)
    (hnumber : (if first then some s else given ':' s).bind (number 16 4 0xffff) = none) :
    groups room first s = ([], false, s) := by
  cases room with
  | zero => rfl
  | succ room =>
    simp only [groups, hquad, ite_self, hnumber]

/-- Four bytes are read where there is room for two groups. -/
theorem groups_of_quad {bs : List UInt8} (hroom : room ≠ 0) (hr : (if first then some s else given ':' s) = some r)
    (hquad : quad r = some (bs, rest)) : groups (room + 1) first s = (groupsOf bs, true, rest) := by
  simp [groups, hroom, hr, hquad]

end Steps

theorem groups_led {rest : List Char} (hrest : Closes rest) : ∀ (gs : List UInt16) {room : Nat}, gs.length ≤ room →
    groups room false (led gs ++ rest) = (gs, false, rest)
  | [], room, _ => by
    obtain rfl | ⟨r, rfl⟩ := hrest.ends
    · exact groups_of_none rfl rfl
    · have hr : given ':' (':' :: ':' :: r) = some (':' :: r) := by simp [given]
      exact groups_of_none (by simp [led, hr, (stops_colon r).quad]) (by simp [led, hr, (stops_colon r).number])
  | g :: gs, 0, hroom => absurd hroom (by simp)
  | g :: gs, room + 1, hroom => by
    have htext : led (g :: gs) ++ rest = ':' :: (hex g ++ (led gs ++ rest)) := by simp [led]
    rw [htext, groups_of_number (by simp [given]) (hrest.quad_hex g gs) (number_hex g (hrest.stops_led gs)),
      groups_led hrest gs (Nat.le_of_succ_le_succ hroom)]

/-- Groups are read up to where they end. -/
theorem groups_colons {rest : List Char} (hrest : Closes rest) {gs : List UInt16} {room : Nat}
    (hroom : gs.length ≤ room) : groups room true (colons gs ++ rest) = (gs, false, rest) := by
  cases gs with
  | nil => exact groups_of_none (by simp [colons, hrest.stops.quad]) (by simp [colons, hrest.stops.number])
  | cons g gs =>
    cases room with
    | zero => simp at hroom
    | succ room =>
      rw [colons_cons, List.append_assoc,
        groups_of_number rfl (hrest.quad_hex g gs) (number_hex g (hrest.stops_led gs)),
        groups_led hrest gs (Nat.le_of_succ_le_succ hroom)]

/-! ## The run of zeros -/

theorem takeWhile_zeros (gs : List UInt16) :
    gs.takeWhile (· == 0) = List.replicate (gs.takeWhile (· == 0)).length 0 := by
  refine List.eq_replicate_of_mem fun g hg => ?_
  simpa using List.mem_takeWhile_imp hg

/-- What is found is a run of zeros. -/
theorem longestZeros_spec (gs : List UInt16) : gs = gs.take (longestZeros gs).1 ++
    (List.replicate (longestZeros gs).2 0 ++ gs.drop ((longestZeros gs).1 + (longestZeros gs).2)) := by
  induction gs with
  | nil => rfl
  | cons g gs ih =>
    simp only [longestZeros]
    split
    · have htake : (g :: gs).takeWhile (· == 0) = (g :: gs).take ((g :: gs).takeWhile (· == 0)).length :=
        List.prefix_iff_eq_take.1 (List.takeWhile_prefix _)
      have hwhole := List.take_append_drop ((g :: gs).takeWhile (· == 0)).length (g :: gs)
      rw [← htake] at hwhole
      rw [← takeWhile_zeros, List.take_zero, List.nil_append, Nat.zero_add]
      exact hwhole.symm
    · rw [Nat.add_right_comm, List.take_succ_cons, List.drop_succ_cons, List.cons_append, ← ih]

/-- Groups are written one after another, or some before two colons and some after them, with a run of zeros between. -/
theorem compressed_cases (gs : List UInt16) : compressed gs = colons gs ∨ ∃ front n back, 2 ≤ n ∧
    gs = front ++ (List.replicate n 0 ++ back) ∧ compressed gs = colons front ++ [':', ':'] ++ colons back := by
  simp only [compressed]
  split
  · rename_i hzeros
    exact .inr ⟨_, _, _, hzeros, longestZeros_spec gs, rfl⟩
  · exact .inl rfl

theorem mem_letters_of_mem_compressed {gs : List UInt16} {c : Char} (hc : c ∈ compressed gs) : c ∈ letters := by
  obtain htext | ⟨front, n, back, -, -, htext⟩ := compressed_cases gs
  · exact mem_letters_of_mem_colons (htext ▸ hc)
  · simp only [htext, List.mem_append, List.mem_cons, List.not_mem_nil, or_false, or_self] at hc
    obtain (hc | rfl) | hc := hc
    · exact mem_letters_of_mem_colons hc
    · decide
    · exact mem_letters_of_mem_colons hc

/-! ## Addresses -/

theorem toNat_pair (a b : UInt8) : (a.toUInt16 <<< 8 ||| b.toUInt16).toNat = 256 * a.toNat + b.toNat := by
  have ha := a.toNat_lt
  have hb := b.toNat_lt
  have hor := Nat.shiftLeft_add_eq_or_of_lt (i := 8) hb a.toNat
  simp only [UInt16.toNat_or, UInt16.toNat_shiftLeft, UInt8.toNat_toUInt16]
  rw [show (8 : UInt16).toNat % 16 = 8 from rfl, Nat.shiftLeft_eq, Nat.mod_eq_of_lt (by omega), ← Nat.shiftLeft_eq,
    ← hor, Nat.shiftLeft_eq]
  omega

/-- A group has the two bytes that it was made of. -/
theorem bytes_pair (a b : UInt8) : ((a.toUInt16 <<< 8 ||| b.toUInt16) >>> 8).toUInt8 = a ∧
    (a.toUInt16 <<< 8 ||| b.toUInt16).toUInt8 = b := by
  have ha := a.toNat_lt
  have hb := b.toNat_lt
  refine ⟨UInt8.toNat_inj.1 ?_, UInt8.toNat_inj.1 ?_⟩
  · rw [UInt16.toNat_toUInt8, UInt16.toNat_shiftRight, toNat_pair, show (8 : UInt16).toNat % 16 = 8 from rfl,
      Nat.shiftRight_eq_div_pow]
    omega
  · rw [UInt16.toNat_toUInt8, toNat_pair]
    omega

theorem ofGroups_groupsOf : ∀ (bs : List UInt8), bs.length % 2 = 0 → ofGroups (groupsOf bs) = bs
  | [], _ => rfl
  | [_], h => by simp at h
  | a :: b :: bs, h => by
    have hrest := ofGroups_groupsOf bs (by simp only [List.length_cons] at h; omega)
    simp only [ofGroups] at hrest
    simp only [groupsOf, ofGroups, List.flatMap_cons, hrest, bytes_pair, List.cons_append, List.nil_append]

theorem length_groupsOf : ∀ bs : List UInt8, (groupsOf bs).length = bs.length / 2
  | [] => rfl
  | [_] => by simp [groupsOf]
  | _ :: _ :: bs => by
    simp only [groupsOf, List.length_cons, length_groupsOf bs]
    omega

theorem closes_nil : Closes [] := ⟨List.not_mem_nil, .inl rfl⟩

section Six

variable {ip : Ip}

/-- Groups on both sides of two colons are read with zeros for those that are missing. -/
theorem v6?_around {front back : List UInt16} {n : Nat} (hn : 2 ≤ n) (hlength : front.length + n + back.length = 8)
    (hip : ofBytes? (ofGroups (front ++ (List.replicate n 0 ++ back))) = some ip) :
    v6? (colons front ++ [':', ':'] ++ colons back) = some (ip, []) := by
  have hpoint : '.' ∉ colons back := fun h => absurd (mem_letters_of_mem_colons h) (by decide)
  have hcloses : Closes (':' :: ':' :: colons back) := ⟨by simp [hpoint], .inr ⟨_, rfl⟩⟩
  have hfront := groups_colons hcloses (show front.length ≤ 8 by omega)
  have hback := groups_colons closes_nil (show back.length ≤ 7 - front.length by omega)
  have hshort : ¬ front.length = 8 := by omega
  have hzeros : 8 - front.length - back.length = n := by omega
  rw [List.append_nil] at hback
  simp [v6?, hfront, hshort, given, hback, hzeros, hip]

theorem v6?_compressed {gs : List UInt16} (hgs : gs.length = 8) (hip : ofBytes? (ofGroups gs) = some ip) :
    v6? (compressed gs) = some (ip, []) := by
  obtain htext | ⟨front, n, back, hn, hsplit, htext⟩ := compressed_cases gs
  · have hread := groups_colons closes_nil hgs.le
    rw [List.append_nil] at hread
    simp [htext, v6?, hread, hgs, hip]
  · rw [htext]
    refine v6?_around hn ?_ (hsplit ▸ hip)
    simpa [hgs, Nat.add_assoc] using (congrArg List.length hsplit).symm

/-- Four bytes are read as an address of the fourth version after what says that they stand for one. -/
theorem v6?_mapped {a b c d : UInt8} (hip : ofBytes? (mappedHead ++ [a, b, c, d]) = some ip) :
    v6? ("::ffff:".toList ++ dotted [a, b, c, d]) = some (ip, []) := by
  have hfront (r : List Char) : groups 8 true (':' :: r) = ([], false, ':' :: r) :=
    groups_of_none (by simp [(stops_colon r).quad]) (by simp [(stops_colon r).number])
  have hquad := quad_dotted a b c d stops_nil
  rw [List.append_nil] at hquad
  have hletters (r : List Char) : quad (hex 0xffff ++ r) = none := by
    have hletter : digit? 10 'f' = none := by decide
    refine quad_of_number (show number 10 3 255 ('f' :: _) = none from ?_)
    simp [number, hletter]
  have hback : groups 7 true (hex 0xffff ++ ':' :: dotted [a, b, c, d]) =
      (0xffff :: groupsOf [a, b, c, d], true, []) := by
    rw [groups_of_number rfl (hletters _) (number_hex _ (stops_colon _)),
      groups_of_quad (by decide) (by simp [given]) hquad]
  have hbytes : ofGroups (0 :: 0 :: 0 :: 0 :: 0 :: 0xffff :: groupsOf [a, b, c, d]) = mappedHead ++ [a, b, c, d] :=
    congrArg (mappedHead ++ ·) (ofGroups_groupsOf [a, b, c, d] (by simp))
  rw [← hbytes] at hip
  show v6? (':' :: ':' :: (hex 0xffff ++ ':' :: dotted [a, b, c, d])) = _
  simp [v6?, hfront, given, hback, length_groupsOf, hip]

end Six

theorem exists_bytes (bs : List UInt8) (h : bs.length = 4) : ∃ a b c d, bs = [a, b, c, d] := by
  match bs, h with
  | [a, b, c, d], _ => exact ⟨a, b, c, d, rfl⟩

/-- An address is written in one of three ways. -/
theorem text_cases (ip : Ip) : (∃ a b c d, ip.bytes = [a, b, c, d] ∧ ip.text = dotted [a, b, c, d]) ∨
    (∃ a b c d, ip.bytes = mappedHead ++ [a, b, c, d] ∧ ip.text = "::ffff:".toList ++ dotted [a, b, c, d]) ∨
    ip.bytes.length = 16 ∧ ip.text = compressed (groupsOf ip.bytes) := by
  cases ip with
  | v4 bytes =>
    obtain ⟨a, b, c, d, hbytes⟩ := exists_bytes bytes.toList (by simp)
    exact .inl ⟨a, b, c, d, hbytes, congrArg dotted hbytes⟩
  | v6 bytes =>
    refine .inr ?_
    simp only [text, Ip.bytes]
    split
    · rename_i hhead
      obtain ⟨a, b, c, d, htail⟩ := exists_bytes (bytes.toList.drop 12) (by simp)
      refine .inl ⟨a, b, c, d, ?_, by rw [htail]⟩
      rw [← hhead, ← htail, List.take_append_drop]
    · exact .inr ⟨by simp, rfl⟩

theorem read?_of_v6? {ip : Ip} {s : List Char} (hquad : quad s = none) (hs : v6? s = some (ip, [])) :
    read? s = some ip := by
  simp [read?, v4?, hquad, hs, whole]

/-- Every address is read back from its text. -/
theorem read?_text (ip : Ip) : read? ip.text = some ip := by
  have hip := ofBytes?_bytes ip
  obtain ⟨a, b, c, d, hbytes, htext⟩ | ⟨a, b, c, d, hbytes, htext⟩ | ⟨hlength, htext⟩ := ip.text_cases
  · have hquad := quad_dotted a b c d stops_nil
    rw [List.append_nil] at hquad
    rw [hbytes] at hip
    simp [htext, read?, v4?, hquad, hip, whole]
  · rw [htext]
    exact read?_of_v6? (stops_colon _).quad (v6?_mapped (hbytes ▸ hip))
  · have hgroups : (groupsOf ip.bytes).length = 8 := by rw [length_groupsOf, hlength]
    have hpoint : '.' ∉ compressed (groupsOf ip.bytes) := fun h => absurd (mem_letters_of_mem_compressed h) (by decide)
    rw [htext]
    refine read?_of_v6? (quad_eq_none hpoint) (v6?_compressed hgroups ?_)
    rw [ofGroups_groupsOf _ (by rw [hlength]), hip]

/-! ## Length and characters -/

theorem length_dotted_le (a b c d : UInt8) : (dotted [a, b, c, d]).length ≤ 15 := by
  have ha := length_numeral_le a
  have hb := length_numeral_le b
  have hc := length_numeral_le c
  have hd := length_numeral_le d
  simp [dotted, List.intercalate_cons_cons]
  omega

theorem length_led_le (gs : List UInt16) : (led gs).length ≤ 5 * gs.length := by
  induction gs with
  | nil => simp [led]
  | cons g gs ih =>
    have hg := length_hex_le g
    simp only [led, List.flatMap_cons, List.length_append, List.length_cons] at ih ⊢
    omega

theorem length_colons_le (gs : List UInt16) : (colons gs).length ≤ 5 * gs.length - 1 := by
  cases gs with
  | nil => simp [colons]
  | cons g gs =>
    have hg := length_hex_le g
    have hgs := length_led_le gs
    rw [colons_cons, List.length_append, List.length_cons]
    omega

/-- The text of eight groups is longest where none of them is left out. -/
theorem length_compressed_le {gs : List UInt16} (hgs : gs.length = 8) : (compressed gs).length ≤ 39 := by
  obtain htext | ⟨front, n, back, hn, hsplit, htext⟩ := compressed_cases gs
  · have hall := length_colons_le gs
    rw [htext]
    omega
  · have hfront := length_colons_le front
    have hback := length_colons_le back
    have hlength := congrArg List.length hsplit
    simp only [List.length_append, List.length_replicate] at hlength
    simp only [htext, List.length_append, List.length_cons, List.length_nil]
    omega

theorem length_text_le (ip : Ip) : ip.text.length ≤ 39 := by
  obtain ⟨a, b, c, d, -, htext⟩ | ⟨a, b, c, d, -, htext⟩ | ⟨hlength, htext⟩ := ip.text_cases
  · exact htext ▸ (length_dotted_le a b c d).trans (by decide)
  · have hfront : "::ffff:".toList.length = 7 := rfl
    have hquad := length_dotted_le a b c d
    rw [htext, List.length_append, hfront]
    omega
  · exact htext ▸ length_compressed_le (by rw [length_groupsOf, hlength])

theorem mem_letters_of_mem_dotted {a b c d : UInt8} {x : Char} (hx : x ∈ dotted [a, b, c, d]) :
    x = '.' ∨ x ∈ letters := by
  have hdigit {y : UInt8} (hy : x ∈ numeral y.toNat) : x ∈ letters :=
    mem_letters_of_mem_toDigits (by decide) (by decide) hy
  simp only [dotted, List.map_cons, List.map_nil, List.intercalate_cons_cons, List.intercalate_singleton,
    List.mem_append, List.mem_singleton] at hx
  grind

/-- The characters of addresses. -/
theorem mem_letters_of_mem_text {ip : Ip} {x : Char} (hx : x ∈ ip.text) : x = '.' ∨ x ∈ letters := by
  have hfront : "::ffff:".toList.all (· ∈ letters) := by decide
  obtain ⟨a, b, c, d, -, htext⟩ | ⟨a, b, c, d, -, htext⟩ | ⟨-, htext⟩ := ip.text_cases
  · exact mem_letters_of_mem_dotted (htext ▸ hx)
  · rw [htext, List.mem_append] at hx
    exact hx.elim (fun hx => .inr (by simpa using List.all_eq_true.1 hfront x hx)) mem_letters_of_mem_dotted
  · exact .inr (mem_letters_of_mem_compressed (htext ▸ hx))

end AffinityRelay.Ip
