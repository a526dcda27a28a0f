import Mathlib.Order.Bounds.Basic
import AffinityRelay.Proofs.Pool.Clean

/-!
# Buffers on loan

A pool lends its buffers. Those who hold them read and write as they like, and give them back; buffers from elsewhere
may be given to the pool as well. All that happens one after another, in any order.

* `Pool.Given`: all that asking a pool for a buffer can come to (`Pool.given_checkout?`);
* `Loans`: a pool with the buffers that are held, and `Loans.reached`: what a history leads to;
* `Pool.Ready`: the buffers that wait are as good as new. What happens keeps that (`Loans.ready_reached`), and so a
  buffer that is lent is as good as new (`Pool.Ready.lent`);
* `Loans.Accounted`: as long as nothing comes from elsewhere, the buffers that are held and those that wait are together
  as many as were ever held at once (`Loans.accounted_reached`);
* `Loans.lent_clean_and_kept`: what that comes to.
-/

namespace AffinityRelay

/-! ## What a pool gives -/

namespace Pool

/-- What asking a pool for a buffer can come to: one that waited, a new one, or none. A new one that there is no room
for is counted all the same. -/
inductive Given (p : Pool) : Option (Except PoolError Buffer) × Pool → Prop where
  | uncountable : Given p (none, p)
  | exhausted : Given p (some (.error (.exhausted p.inUse)), p)
  | noRoom : p.inUse.toNat < p.limit → p.idle = [] → Given p (none, { p with inUse := p.inUse + 1 })
  | reused {b : Buffer} {rest : List Buffer} : p.inUse.toNat < p.limit → p.idle = b :: rest →
      Given p (some (.ok b), { p with idle := rest, inUse := p.inUse + 1 })
  | made : p.inUse.toNat < p.limit → p.idle = [] →
      Given p (some (.ok (Buffer.zeros p.size)), { p with inUse := p.inUse + 1 })

theorem given_checkout (p : Pool) : p.Given (some p.checkout.1, p.checkout.2) := by
  unfold Pool.checkout
  split
  · rename_i hlt
    split
    · rename_i b rest hidle
      exact .reused hlt hidle
    · rename_i hidle
      exact .made hlt hidle
  · exact .exhausted

theorem given_checkout? (p : Pool) : p.Given p.checkout? := by
  unfold Pool.checkout?
  split
  · exact .uncountable
  · split
    · rename_i h
      simp only [Bool.and_eq_true, decide_eq_true_eq, List.isEmpty_iff] at h
      exact .noRoom h.1.1 h.1.2
    · exact p.given_checkout

/-- The buffers that wait are as good as new: they are blank and have the size of all, in a pool that wipes they are
zero, and there are not too many of them. -/
structure Ready (size limit : Nat) (paranoid : Bool) (p : Pool) : Prop where
  size_eq : p.size = size
  limit_eq : p.limit = limit
  paranoid_eq : p.paranoid = paranoid
  clean : p.Clean
  zeros : paranoid = true → ∀ b ∈ p.idle, b = Buffer.zeros size
  length_le : p.idle.length ≤ limit

section Ready

variable {size limit : Nat} {paranoid : Bool} {p p' : Pool} {b : Buffer} {r : Option (Except PoolError Buffer)}

theorem Ready.given (h : p.Ready size limit paranoid) (hp : p.Given (r, p')) : p'.Ready size limit paranoid := by
  cases hp with
  | uncountable | exhausted => exact h
  | noRoom _ hidle | made _ hidle => exact ⟨h.size_eq, h.limit_eq, h.paranoid_eq, h.clean, h.zeros, h.length_le⟩
  | @reused b rest _ hidle =>
    have hmem : ∀ c ∈ rest, c ∈ p.idle := fun c hc => hidle ▸ List.mem_cons_of_mem b hc
    have hlength := h.length_le
    rw [hidle, List.length_cons] at hlength
    exact ⟨h.size_eq, h.limit_eq, h.paranoid_eq, fun c hc => h.clean c (hmem c hc),
      fun hz c hc => h.zeros hz c (hmem c hc), Nat.le_of_succ_le hlength⟩

theorem Ready.release (h : p.Ready size limit paranoid) (b : Buffer) : (p.release b).Ready size limit paranoid where
  size_eq := h.size_eq
  limit_eq := h.limit_eq
  paranoid_eq := h.paranoid_eq
  clean := h.clean.release b
  zeros hz c hc := by
    simp only [Pool.release, h.size_eq] at hc
    split at hc
    · rename_i hfit
      rcases List.mem_cons.1 hc with rfl | hc
      · have hp : p.paranoid = true := h.paranoid_eq.trans hz
        simp only [capacity_recycle] at hfit
        simp [recycle, hp, Buffer.wipe, hfit.2]
      · exact h.zeros hz c hc
    · exact h.zeros hz c hc
  length_le := by
    have hlimit := h.limit_eq
    have hle := h.length_le
    simp only [Pool.release]
    split
    · rename_i hfit
      rw [List.length_cons]
      omega
    · exact hle

/-- A buffer that is lent is as good as new. -/
theorem Ready.lent (h : p.Ready size limit paranoid) (hp : p.Given (some (.ok b), p')) :
    b.capacity = size ∧ b.Blank ∧ (paranoid = true → b = Buffer.zeros size) := by
  cases hp with
  | @reused b rest _ hidle =>
    have hmem : b ∈ p.idle := by simp [hidle]
    exact ⟨(h.clean b hmem).2.trans h.size_eq, (h.clean b hmem).1, fun hz => h.zeros hz b hmem⟩
  | made => exact ⟨h.size_eq, Buffer.blank_zeros _, fun _ => by rw [h.size_eq]⟩

end Ready

end Pool

/-! ## What is held -/

/-- A pool, and the buffers it lent that were not given back. -/
structure Loans where
  pool : Pool
  held : List Buffer := []

namespace Loans

/-- What can happen: a buffer is asked for, one that is held is given back, made ready or used, or one from elsewhere is
given to the pool. -/
inductive Act where
  | checkout
  | release (i : Nat)
  | recycle (i : Nat)
  | use (i : Nat) (u : Buffer.Use)
  | donate (b : Buffer)

def step (l : Loans) : Act → Loans
  | .checkout =>
    match l.pool.checkout? with
    | (some (.ok b), pool) => { pool, held := b :: l.held }
    | (_, pool) => { l with pool }
  | .release i =>
    match l.held[i]? with
    | some b => { pool := l.pool.release b, held := l.held.eraseIdx i }
    | none => l
  | .recycle i => { l with held := l.held.modify i l.pool.recycle }
  | .use i u => { l with held := l.held.modify i u.apply }
  | .donate b => { l with pool := l.pool.release b }

/-- What a history leads to, the latest act first. -/
def reached (start : Loans) : List Act → Loans
  | [] => start
  | a :: past => (reached start past).step a

/-- A pool that lent nothing yet. -/
def new (size limit : Nat) (paranoid : Bool) : Loans where
  pool := { size, limit, paranoid }

/-- The numbers of buffers that were held at some moment of a history. -/
def heldCounts (start : Loans) (acts : List Act) : Set Nat :=
  { n | ∃ past, past <:+ acts ∧ (reached start past).held.length = n }

variable {size limit : Nat} {paranoid : Bool} {l : Loans}

theorem ready_step (h : l.pool.Ready size limit paranoid) (a : Act) : (l.step a).pool.Ready size limit paranoid := by
  cases a with
  | checkout =>
    have hgiven := l.pool.given_checkout?
    simp only [step]
    split <;> rename_i heq <;> exact h.given (heq ▸ hgiven)
  | release i =>
    simp only [step]
    split
    · exact h.release _
    · exact h
  | recycle i | use i u => exact h
  | donate b => exact h.release b

theorem ready_reached (size limit : Nat) (paranoid : Bool) :
    ∀ acts, (reached (new size limit paranoid) acts).pool.Ready size limit paranoid
  | [] => ⟨rfl, rfl, rfl, fun _ => List.not_mem_nil.elim, fun _ _ => List.not_mem_nil.elim, Nat.zero_le _⟩
  | a :: past => ready_step (ready_reached size limit paranoid past) a

/-! ## How many there are -/

/-- The buffers that are held are counted and have the size of all. With those that wait there are `n` of them. -/
structure Accounted (n : Nat) (l : Loans) : Prop where
  sizes : ∀ b ∈ l.held, b.capacity = l.pool.size
  held_le : l.held.length ≤ l.pool.inUse.toNat
  inUse_le : l.pool.inUse.toNat ≤ l.pool.limit
  fits : l.pool.limit < UInt64.size
  total : l.held.length + l.pool.idle.length = n
  total_le : n ≤ l.pool.limit

variable {n : Nat} {b : Buffer}

theorem Accounted.checkout (h : l.Accounted n) (hclean : l.pool.Clean) :
    (l.step .checkout).Accounted (max n (l.step .checkout).held.length) := by
  have hheld := h.held_le
  have htotal := h.total
  have hle := h.total_le
  have hfits := h.fits
  have hsame : max n l.held.length = n := Nat.max_eq_left (by omega)
  have hgiven := l.pool.given_checkout?
  revert hgiven
  simp only [step]
  generalize l.pool.checkout? = r
  intro hgiven
  cases hgiven with
  | uncountable | exhausted => exact hsame.symm ▸ h
  | noRoom hlt hidle =>
    have hcount := Pool.toNat_inUse_succ hlt hfits
    refine hsame.symm ▸ ⟨h.sizes, ?_, ?_, hfits, htotal, hle⟩
    · simp only [hcount]
      omega
    · simp only [hcount]
      omega
  | @reused b rest hlt hidle =>
    -- It waited before, so there are as many as there were.
    have hcount := Pool.toNat_inUse_succ hlt hfits
    have hsize : b.capacity = l.pool.size := (hclean b (by simp [hidle])).2
    rw [hidle, List.length_cons] at htotal
    have hmax : max n (b :: l.held).length = n := Nat.max_eq_left (by rw [List.length_cons]; omega)
    refine hmax.symm ▸ ⟨?_, ?_, ?_, hfits, ?_, hle⟩
    · exact List.forall_mem_cons.2 ⟨hsize, h.sizes⟩
    all_goals simp only [hcount, List.length_cons]; omega
  | made hlt hidle =>
    -- None waited, so it is one more than were ever held.
    have hcount := Pool.toNat_inUse_succ hlt hfits
    rw [hidle, List.length_nil] at htotal
    have hmax : max n (Buffer.zeros l.pool.size :: l.held).length = n + 1 := by
      rw [List.length_cons]
      omega
    rw [hmax]
    refine ⟨?_, ?_, ?_, hfits, ?_, ?_⟩
    · exact List.forall_mem_cons.2 ⟨rfl, h.sizes⟩
    all_goals simp only [hcount, hidle, List.length_cons, List.length_nil]; omega

/-- Of a pool that lent all buffers that are given to it, none is dropped. -/
theorem Accounted.idle_release (h : l.Accounted n) (hb : b ∈ l.held) :
    (l.pool.release b).idle = l.pool.recycle b :: l.pool.idle := by
  have hpos := List.length_pos_of_mem hb
  have htotal := h.total
  have hle := h.total_le
  have hroom : l.pool.idle.length < l.pool.limit := by omega
  simp [Pool.release, hroom, h.sizes b hb]

theorem Accounted.release (h : l.Accounted n) (i : Nat) : (l.step (.release i)).Accounted n := by
  simp only [step]
  split
  · rename_i b hb
    have hmem := List.mem_of_getElem? hb
    have hi := (List.getElem?_eq_some_iff.1 hb).1
    have hheld := h.held_le
    have hinUse := h.inUse_le
    have htotal := h.total
    have hlength : (l.held.eraseIdx i).length = l.held.length - 1 := List.length_eraseIdx_of_lt hi
    have hcount : (l.pool.release b).inUse.toNat = l.pool.inUse.toNat - 1 := Pool.toNat_inUse_pred (by omega)
    refine ⟨fun c hc => h.sizes c (List.mem_of_mem_eraseIdx hc), ?_, ?_, h.fits, ?_, h.total_le⟩
    · simp only [hcount, hlength]
      omega
    · rw [hcount]
      exact Nat.le_trans (Nat.sub_le _ _) hinUse
    · rw [h.idle_release hmem]
      simp only [hlength, List.length_cons]
      omega
  · exact h

/-- A change to a buffer that is held is of no account. -/
theorem Accounted.modify (h : l.Accounted n) (i : Nat) {f : Buffer → Buffer} (hf : ∀ b, (f b).capacity = b.capacity) :
    ({ l with held := l.held.modify i f } : Loans).Accounted n where
  sizes b hb := by
    obtain ⟨j, hj⟩ := List.mem_iff_getElem?.1 hb
    rw [List.getElem?_modify] at hj
    obtain ⟨c, hc, rfl⟩ := Option.map_eq_some_iff.1 hj
    have hsize := h.sizes c (List.mem_of_getElem? hc)
    split
    · rw [hf, hsize]
    · exact hsize
  held_le := by simpa using h.held_le
  inUse_le := h.inUse_le
  fits := h.fits
  total := by simpa using h.total
  total_le := h.total_le

/-- Whether a buffer is given to the pool that came from elsewhere. -/
def Act.donates : Act → Bool
  | .donate _ => true
  | _ => false

theorem Accounted.step (h : l.Accounted n) (hclean : l.pool.Clean) {a : Act} (ha : a.donates = false) :
    (l.step a).Accounted (max n (l.step a).held.length) := by
  -- Only where a buffer is lent there can be more of them than ever.
  have hsame {m : Nat} {l' : Loans} (hm : l'.Accounted n) (hle : l'.held.length = m) : l'.Accounted (max n m) := by
    have htotal := hm.total
    rwa [Nat.max_eq_left (by omega)]
  cases a with
  | checkout => exact h.checkout hclean
  | release i => exact hsame (h.release i) rfl
  | recycle i => exact hsame (h.modify i l.pool.capacity_recycle) rfl
  | use i u => exact hsame (h.modify i (Buffer.capacity_use u)) rfl
  | donate b => cases ha

theorem heldCounts_cons (start : Loans) (a : Act) (past : List Act) :
    heldCounts start (a :: past) = insert (reached start (a :: past)).held.length (heldCounts start past) := by
  ext m
  simp only [heldCounts, List.suffix_cons_iff, Set.mem_ofPred_eq, Set.mem_insert_iff]
  constructor
  · rintro ⟨before, rfl | hb, rfl⟩
    · exact .inl rfl
    · exact .inr ⟨before, hb, rfl⟩
  · rintro (rfl | ⟨before, hb, rfl⟩)
    · exact ⟨_, .inl rfl, rfl⟩
    · exact ⟨before, .inr hb, rfl⟩

/-- With those that wait there are as many buffers as were ever held at once. -/
theorem accounted_reached (size : Nat) (paranoid : Bool) (hlimit : limit < UInt64.size) {acts : List Act}
    (hown : ∀ a ∈ acts, a.donates = false) :
    ∃ n, (reached (new size limit paranoid) acts).Accounted n ∧
      IsGreatest (heldCounts (new size limit paranoid) acts) n := by
  induction acts with
  | nil =>
    refine ⟨0, ⟨?_, Nat.le_refl 0, Nat.zero_le _, hlimit, rfl, Nat.zero_le _⟩, ⟨[], List.nil_suffix, rfl⟩, ?_⟩
    · exact fun _ => List.not_mem_nil.elim
    · rintro _ ⟨past, hpast, rfl⟩
      obtain rfl := List.suffix_nil.1 hpast
      exact Nat.le_refl 0
  | cons a past ih =>
    obtain ⟨n, haccounted, hgreatest⟩ := ih fun x hx => hown x (List.mem_cons_of_mem _ hx)
    refine ⟨_, haccounted.step (ready_reached size limit paranoid past).clean (hown a List.mem_cons_self), ?_⟩
    rw [heldCounts_cons, Nat.max_comm]
    exact hgreatest.insert _

/-- Whatever happened before, a buffer that is lent has the size of all, nothing of it is filled or drained, and so
nothing is pending; in a pool that wipes, all its bytes are zero. Never more buffers wait than the limit allows. If none
came from elsewhere, those that are held and those that wait are together as many as were ever held at once, which is
not more than the limit, and each one that is given back waits to be used again. -/
theorem lent_clean_and_kept (size limit : Nat) (paranoid : Bool) (acts : List Act) :
    let l := reached (new size limit paranoid) acts
    (∀ b pool, l.pool.checkout? = (some (.ok b), pool) →
      b.capacity = size ∧ b.filled = 0 ∧ b.drained = 0 ∧ b.pending = [] ∧
      (paranoid = true → b.cells = List.replicate size 0)) ∧
    l.pool.idle.length ≤ limit ∧
    (limit < UInt64.size → (∀ a ∈ acts, a.donates = false) →
      IsGreatest (heldCounts (new size limit paranoid) acts) (l.held.length + l.pool.idle.length) ∧
      l.held.length + l.pool.idle.length ≤ limit ∧
      ∀ b ∈ l.held, (l.pool.release b).idle = l.pool.recycle b :: l.pool.idle) := by
  intro l
  have hready : l.pool.Ready size limit paranoid := ready_reached size limit paranoid acts
  refine ⟨fun b pool hb => ?_, hready.length_le, fun hlimit hown => ?_⟩
  · obtain ⟨hsize, hblank, hzeros⟩ := hready.lent (hb ▸ l.pool.given_checkout?)
    refine ⟨hsize, hblank.1, hblank.2, hblank.pending_eq_nil, fun hz => ?_⟩
    rw [hzeros hz, Buffer.cells_zeros]
  · obtain ⟨n, haccounted, hgreatest⟩ := accounted_reached size paranoid hlimit hown
    refine ⟨?_, ?_, fun b hb => haccounted.idle_release hb⟩
    · rwa [haccounted.total]
    · rw [haccounted.total]
      exact hready.limit_eq ▸ haccounted.total_le

/-- Two buffers are lent and written to, one is made ready and given back, and one is lent again. -/
def borrowing : List Act :=
  [.checkout, .release 1, .recycle 1, .use 0 (.put [7, 7]), .use 1 (.put [1, 2, 3]), .checkout, .checkout]

theorem lent_clean_and_kept_borrowing :
    ∃ pool, (reached (new 4 2 true) (.release 0 :: borrowing)).pool.checkout? = (some (.ok (Buffer.zeros 4)), pool) ∧
      (Buffer.zeros 4).pending = [] ∧ (2 : Nat) < UInt64.size ∧ (∀ a ∈ borrowing, a.donates = false) ∧
      IsGreatest (heldCounts (new 4 2 true) borrowing) 2 := by
  have hown : ∀ a ∈ borrowing, a.donates = false := by decide
  have hlent := (lent_clean_and_kept 4 2 true (.release 0 :: borrowing)).1 (Buffer.zeros 4) _ rfl
  exact ⟨_, rfl, hlent.2.2.2.1, by decide, hown, ((lent_clean_and_kept 4 2 true borrowing).2.2 (by decide) hown).1⟩

end Loans

end AffinityRelay
