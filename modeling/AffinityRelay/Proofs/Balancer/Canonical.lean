import Mathlib.Order.Compare
import AffinityRelay.Balancer.Basic

/-!
# One list for every order of the answers

A balancer that sorts its addresses has the same list in whatever order they came.

* `Address.compareBytes_eq`: bytes are compared as lists are, so `Address.compare` is by bytes and then by port
  (`Address.compare_eq`), and only an address of the same family with the same bytes and port is neither before nor
  after another (`Address.compare_eq_iff`);
* `Address.Precedes`: the order in words (`Address.le_iff_precedes`);
* `Address.sort_eq_of_perm`: without scopes, nothing but the addresses decides what is sorted;
* `Balancer.install_canonical`: what that comes to.
-/

namespace AffinityRelay

namespace Address

variable {a b : Address} {xs ys : List Address}

/-! ## The order -/

theorem compareBytes_cons (x y : UInt8) (xs ys : List UInt8) :
    compareBytes (x :: xs) (y :: ys) = (Ord.compare x y).then (compareBytes xs ys) := by
  have hlength : Ord.compare (xs.length + 1) (ys.length + 1) = Ord.compare xs.length ys.length := by
    simp [Ord.compare, compareOfLessAndEq]
  simp only [compareBytes, List.zip_cons_cons, List.map_cons, List.find?_cons, List.length_cons, hlength]
  cases h : Ord.compare x y with
  | lt | eq | gt => rfl

/-- The first difference decides, as it does for lists, and where there is none the end of the shorter. -/
theorem compareBytes_eq (xs ys : List UInt8) : compareBytes xs ys = Ord.compare xs ys := by
  induction xs generalizing ys with
  | nil =>
    cases ys with
    | nil => rfl
    | cons y ys => simp [compareBytes, Nat.compare_eq_lt]
  | cons x xs ih =>
    cases ys with
    | nil => simp [compareBytes, Nat.compare_eq_gt]
    | cons y ys => rw [compareBytes_cons, ih, List.compare_cons_cons]

theorem compare_eq : compare = compareLex (compareOn fun a => a.ip.bytes) (compareOn Address.port) := by
  funext a b
  simp only [compare, compareBytes_eq, compareLex, compareOn]

instance : Std.TransCmp compare := by
  rw [compare_eq]
  infer_instance

/-- Addresses that compare equal differ in their scopes at most. -/
theorem compare_eq_iff :
    compare a b = .eq ↔ a.ip.family = b.ip.family ∧ a.ip.bytes = b.ip.bytes ∧ a.port = b.port := by
  rw [compare, compareBytes_eq, Ordering.then_eq_eq, Std.compare_eq_iff_eq, Std.compare_eq_iff_eq]
  constructor
  · rintro ⟨hbytes, hport⟩
    exact ⟨congrArg Ip.family (Ip.bytes_injective hbytes), hbytes, hport⟩
  · exact fun h => h.2

/-- By the bytes of the address, the shorter of two that agree as far as they go first, and at one address by port. -/
def Precedes (a b : Address) : Prop :=
  a.ip.bytes < b.ip.bytes ∨ a.ip.bytes = b.ip.bytes ∧ a.port ≤ b.port

theorem compareBytes_eq_lt_iff {xs ys : List UInt8} : compareBytes xs ys = .lt ↔ xs < ys := by
  induction xs generalizing ys with
  | nil => cases ys <;> simp [compareBytes_eq]
  | cons x xs ih =>
    cases ys with
    | nil => simp [compareBytes_eq]
    | cons y ys =>
      rw [compareBytes_cons, Ordering.then_eq_lt, Std.compare_eq_lt, Std.compare_eq_iff_eq, ih, List.cons_lt_cons_iff]

theorem le_iff_precedes : le a b = true ↔ a.Precedes b := by
  rw [le, compare, Ordering.isLE_then_iff_or, compareBytes_eq_lt_iff, compareBytes_eq, Std.compare_eq_iff_eq,
    Std.isLE_compare, Precedes]

theorem le_trans {c : Address} (hab : le a b) (hbc : le b c) : le a c :=
  Std.TransCmp.isLE_trans hab hbc

theorem le_total (a b : Address) : le a b ∨ le b a := by
  have hswap : compare b a = (compare a b).swap := Std.OrientedCmp.eq_swap
  rw [le, le, hswap]
  cases compare a b <;> simp

/-- Two addresses without scopes are the same address if each may stand before the other. -/
theorem eq_of_le_of_le (hscope : a.scope = b.scope) (hab : le a b) (hba : le b a) : a = b := by
  have heq : compare a b = .eq := Std.OrientedCmp.isLE_antisymm hab hba
  obtain ⟨-, hbytes, hport⟩ := compare_eq_iff.1 heq
  obtain ⟨ip, port, scope⟩ := a
  obtain ⟨ip', port', scope'⟩ := b
  obtain rfl : ip = ip' := Ip.bytes_injective hbytes
  obtain rfl : port = port' := hport
  obtain rfl : scope = scope' := hscope
  rfl

/-! ## Sorted lists -/

theorem pairwise_sort (xs : List Address) : (sort xs).Pairwise fun a b => le a b := by
  refine @List.pairwise_mergeSort _ le (fun _ _ _ => le_trans) (fun a b => ?_) xs
  simpa using le_total a b

/-- Lists of the same addresses without scopes are sorted into one. -/
theorem sort_eq_of_perm (h : xs.Perm ys) (hscope : ∀ x ∈ xs, x.scope = 0) : sort xs = sort ys := by
  have hperm : (sort xs).Perm (sort ys) := (sort_perm xs).trans (h.trans (sort_perm ys).symm)
  -- Addresses that tie keep the order in which they came, but without scopes they are the same.
  refine hperm.eq_of_pairwise (fun a b ha hb => eq_of_le_of_le ?_) (pairwise_sort xs) (pairwise_sort ys)
  have hx := hscope a ((sort_perm xs).mem_iff.1 ha)
  have hy := hscope b (h.mem_iff.2 ((sort_perm ys).mem_iff.1 hb))
  rw [hx, hy]

end Address

namespace Balancer

/-- The order of addresses holds between any two, one way or the other, and is passed on; both ways it holds only between
those of the same family with the same bytes and port. So balancers that sort their addresses, whatever else they are,
have one list for addresses that come without scopes, in whatever order these come: all of them, as often as they came,
each after those with lesser bytes and those with the same bytes and a lesser port. -/
theorem install_canonical :
    (∀ a, Address.compare a a = .eq) ∧
    (∀ a b, Address.compare b a = (Address.compare a b).swap) ∧
    (∀ a b, Address.le a b ∨ Address.le b a) ∧
    (∀ a b c, Address.le a b → Address.le b c → Address.le a c) ∧
    (∀ a b, Address.compare a b = .eq ↔ a.ip.family = b.ip.family ∧ a.ip.bytes = b.ip.bytes ∧ a.port = b.port) ∧
    ∀ (b b' : Balancer) (xs ys : List Address), b.policy = .sortedRing → b'.policy = .sortedRing → xs.Perm ys →
      (∀ x ∈ xs, x.scope = 0) →
      (b.install xs).addresses = (b'.install ys).addresses ∧ (b.install xs).addresses.Perm xs ∧
      (b.install xs).addresses.Pairwise Address.Precedes := by
  refine ⟨fun a => Std.ReflCmp.compare_self, fun a b => Std.OrientedCmp.eq_swap, Address.le_total,
    fun a b c => Address.le_trans, fun a b => Address.compare_eq_iff, fun b b' xs ys hb hb' hperm hscope => ?_⟩
  have hsorted {b : Balancer} (hb : b.policy = .sortedRing) (zs : List Address) :
      (b.install zs).addresses = Address.sort zs := by
    simp only [install, arrange, hb]
  refine ⟨?_, install_perm xs b, ?_⟩
  · rw [hsorted hb, hsorted hb', Address.sort_eq_of_perm hperm hscope]
  · rw [hsorted hb]
    exact (Address.pairwise_sort xs).imp Address.le_iff_precedes.1

/-! Two nodes get the same answers in different orders, one of them twice. The bytes of the sixth version go on from
those of the fourth. -/

def shortAnswer : Address := { ip := .ofOctets 10 0 0 1, port := 81 }

def longAnswer : Address := { ip := .v6 #v[10, 0, 0, 1, 0, 0, 0, 0, 0, 0, 0, 0, 0, 0, 0, 0], port := 80 }

def highAnswer : Address := { ip := .ofOctets 200 0 0 1, port := 80 }

def sortingBalancer (seed : Nat) : Balancer where
  policy := .sortedRing
  addresses := [highAnswer]
  chance := .ofSeed seed

theorem install_canonical_families :
    ((sortingBalancer 1).install [highAnswer, longAnswer, shortAnswer, highAnswer]).addresses =
      ((sortingBalancer 2).install [shortAnswer, highAnswer, highAnswer, longAnswer]).addresses ∧
    ((sortingBalancer 1).install [highAnswer, longAnswer, shortAnswer, highAnswer]).addresses.Perm
      [shortAnswer, longAnswer, highAnswer, highAnswer] := by
  obtain ⟨-, -, -, -, -, hinstall⟩ := install_canonical
  obtain ⟨heq, hperm, -⟩ := hinstall (sortingBalancer 1) (sortingBalancer 2)
    [highAnswer, longAnswer, shortAnswer, highAnswer] [shortAnswer, highAnswer, highAnswer, longAnswer] rfl rfl
    (by decide) (by decide)
  exact ⟨heq, hperm.trans (by decide)⟩

end Balancer

end AffinityRelay
