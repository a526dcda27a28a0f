import AffinityRelay.Pool
import AffinityRelay.Proofs.Buffer.Uses

/-!
# Clean buffers

* `Buffer.Blank`: nothing is filled and nothing is drained. The bytes that are left from an earlier use do not matter:
  a blank buffer that is overwritten and advanced has just the new bytes pending (`Buffer.Blank.pending_advance`).
* `Pool.Reachable`: what a pool can come to by buffers taken and given back, of which the latter may come from anywhere.
  Every buffer that waits in such a pool, and every one taken from it, is blank and has the pool's size
  (`Pool.Reachable.clean`, `Pool.Clean.checkout`).
* `Pool.toNat_inUse_succ`, `Pool.toNat_inUse_pred`: the count of a pool goes up and down by one.
-/

namespace AffinityRelay

namespace Buffer

/-- Nothing is filled and nothing is drained. -/
def Blank (b : Buffer) : Prop :=
  b.filled = 0 ∧ b.drained = 0

theorem blank_zeros (capacity : Nat) : (zeros capacity).Blank := ⟨rfl, rfl⟩

theorem blank_clear (b : Buffer) : b.clear.Blank := ⟨rfl, rfl⟩

theorem Blank.overwrite {b : Buffer} (h : b.Blank) (bytes : List UInt8) : (b.overwrite bytes).Blank := h

/-- All of a blank buffer can be filled. -/
theorem Blank.room {b : Buffer} (h : b.Blank) : b.room = b.capacity := by
  simp [Buffer.room, h.1]

theorem Blank.bounded {b : Buffer} (h : b.Blank) : b.Bounded where
  drained_le := Nat.le_of_eq (h.2.trans h.1.symm)
  filled_le := by
    rw [h.1]
    exact Nat.zero_le _

theorem pending_eq_nil {b : Buffer} (h : b.hasPending = false) : b.pending = [] := by
  simp only [hasPending, decide_eq_false_iff_not, Nat.not_lt] at h
  apply List.drop_of_length_le
  rw [length_front]
  omega

theorem Blank.pending_eq_nil {b : Buffer} (h : b.Blank) : b.pending = [] :=
  Buffer.pending_eq_nil (by simp [hasPending, h.1])

/-- Of a blank buffer that is overwritten and advanced, the new bytes are pending and nothing else. -/
theorem Blank.pending_advance {b : Buffer} (h : b.Blank) {bytes : List UInt8} {n : Nat} (hn : n ≤ bytes.length)
    (hc : n ≤ b.capacity) : ((b.overwrite bytes).advance n).pending = bytes.take n := by
  rw [h.bounded.pending_advance_overwrite hn (h.room ▸ hc), h.pending_eq_nil, List.nil_append]

/-- What was put into a blank buffer is pending, as far as there was room. -/
theorem Blank.pending_put {b : Buffer} (h : b.Blank) (bytes : List UInt8) :
    (b.put bytes).2.pending = bytes.take (b.put bytes).1 := by
  rw [h.bounded.pending_put, h.pending_eq_nil, List.nil_append]

end Buffer

namespace Pool

theorem blank_recycle (p : Pool) (b : Buffer) : (p.recycle b).Blank := by
  unfold recycle
  split
  · exact Buffer.blank_zeros b.capacity
  · exact Buffer.blank_clear b

/-- Every buffer that waits is blank and has the pool's size. -/
def Clean (p : Pool) : Prop :=
  ∀ b ∈ p.idle, b.Blank ∧ b.capacity = p.size

/-- What a new pool can come to: buffers are taken from it, and any buffers are given to it. -/
inductive Reachable : Pool → Prop
  | new (size limit : Nat) (paranoid : Bool) : Reachable { size, limit, paranoid }
  | checkout {p : Pool} : Reachable p → Reachable p.checkout.2
  | release {p : Pool} (b : Buffer) : Reachable p → Reachable (p.release b)

/-- A buffer from a clean pool is blank and has the pool's size, and the pool stays clean. -/
theorem Clean.checkout {p p' : Pool} {b : Buffer} (h : p.Clean) (hb : p.checkout = (.ok b, p')) :
    b.Blank ∧ b.capacity = p.size ∧ p'.Clean ∧ p'.size = p.size := by
  unfold Pool.checkout at hb
  split at hb
  · split at hb <;> rename_i hi <;> cases hb
    · obtain ⟨hblank, hcap⟩ := h b (by rw [hi]; exact List.mem_cons_self)
      exact ⟨hblank, hcap, fun c hc => h c (by rw [hi]; exact List.mem_cons_of_mem _ hc), rfl⟩
    · exact ⟨Buffer.blank_zeros p.size, rfl, fun c hc => h c hc, rfl⟩
  · cases hb

theorem Clean.release {p : Pool} (h : p.Clean) (b : Buffer) : (p.release b).Clean := by
  intro c hc
  simp only [Pool.release] at hc ⊢
  split at hc
  · rename_i hfit
    rcases List.mem_cons.mp hc with rfl | hc
    · exact ⟨p.blank_recycle b, hfit.2⟩
    · exact h c hc
  · exact h c hc

theorem Reachable.clean {p : Pool} (h : p.Reachable) : p.Clean := by
  induction h with
  | new size limit paranoid => exact fun b hb => by cases hb
  | @checkout p _ ih =>
    cases hp : p.checkout with
    | mk r p' =>
      cases r with
      | ok b => exact (ih.checkout hp).2.2.1
      | error e =>
        unfold Pool.checkout at hp
        split at hp
        · split at hp <;> cases hp
        · cases hp
          exact ih
  | release b _ ih => exact ih.release b

/-! ## The count of the buffers in use -/

/-- The count of a pool that may lend goes up by one. -/
theorem toNat_inUse_succ {p : Pool} (hlt : p.inUse.toNat < p.limit) (hfits : p.limit < UInt64.size) :
    (p.inUse + 1).toNat = p.inUse.toNat + 1 := by
  rw [UInt64.toNat_add, UInt64.toNat_one, Nat.mod_eq_of_lt]
  simp only [UInt64.size] at hfits
  omega

/-- The count of a pool of which a buffer is held goes down by one. -/
theorem toNat_inUse_pred {p : Pool} (hpos : 0 < p.inUse.toNat) : (p.inUse - 1).toNat = p.inUse.toNat - 1 := by
  rw [UInt64.toNat_sub_of_le _ _ (UInt64.le_iff_toNat_le.2 (by rwa [UInt64.toNat_one])), UInt64.toNat_one]

end Pool

end AffinityRelay
