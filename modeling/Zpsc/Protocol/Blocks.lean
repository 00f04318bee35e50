import Mathlib.Algebra.Group.Nat.Defs
import Mathlib.Data.List.Basic
import Mathlib.Tactic.Common

/-!
# Data in numbered blocks

A sequence is sent in blocks of `B` elements, the last of which is shorter than `B` and may be
empty. Blocks are counted from 0, and a message carries the number of its block in `w` bits only: it
is `Timely` for the block that the receiver waits for when the two are less than `2 ^ w` blocks
apart, and then the number tells whether it is that block (`Timely.eq_of_ofNat`).
-/

namespace Protocol.Blocks

variable {α : Type*} (B : ℕ) (data : List α) (k : ℕ)

/-- Block number `k`. -/
def block : List α := (data.drop (B * k)).take B

/-- The number of blocks. -/
def count : ℕ := data.length / B + 1

/-- The data before block `k`. -/
def before : List α := data.take (B * k)

theorem length_block : (block B data k).length = min B (data.length - B * k) := by
  simp [block]

theorem before_zero : before B data 0 = [] := by
  simp [before]

/-- A block follows the data before it. -/
theorem before_append_block : before B data k ++ block B data k = before B data (k + 1) := by
  rw [before, before, block, Nat.mul_succ, List.take_add]

theorem before_prefix_data : before B data k <+: data := List.take_prefix ..

variable {B data k}

theorem length_before (h : k < count B data) : (before B data k).length = B * k := by
  rw [before, List.length_take, Nat.min_eq_left]
  calc B * k ≤ B * (data.length / B) := Nat.mul_le_mul_left B (Nat.lt_succ_iff.mp h)
    _ ≤ data.length := Nat.mul_div_le data.length B

/-- After the last block nothing is left. -/
theorem before_eq_data (hB : 0 < B) (h : count B data ≤ k) : before B data k = data := by
  apply List.take_of_length_le
  calc data.length ≤ B * (data.length / B + 1) :=
      Nat.le_of_lt (Nat.lt_mul_div_succ data.length hB)
    _ ≤ B * k := Nat.mul_le_mul_left B h

/-- Exactly the last block is short. -/
theorem length_block_lt_iff (hB : 0 < B) (h : k < count B data) :
    (block B data k).length < B ↔ k + 1 = count B data := by
  have hmod := Nat.div_add_mod data.length B
  have hlt := Nat.mod_lt data.length hB
  rw [length_block, count] at *
  rcases Nat.lt_succ_iff_lt_or_eq.mp h with hk | rfl
  · have hle : B * (k + 1) ≤ B * (data.length / B) := Nat.mul_le_mul_left B hk
    rw [Nat.mul_succ] at hle
    omega
  · omega

/-! ## Numbers of `w` bits -/

/-- Block `k` and block `n` are less than `M` blocks apart. -/
def Timely (M n k : ℕ) : Prop := n < k + M ∧ k < n + M

/-- Of the timely blocks only one has the number that is waited for. -/
theorem Timely.eq_of_mod_eq {M n k : ℕ} (h : Timely M n k) (hmod : k % M = n % M) : k = n := by
  obtain ⟨hold, hnew⟩ := h
  rcases Nat.le_total k n with hle | hle
  · have hdvd := Nat.dvd_of_mod_eq_zero (Nat.sub_mod_eq_zero_of_mod_eq hmod.symm)
    have := Nat.eq_zero_of_dvd_of_lt hdvd (by omega)
    omega
  · have hdvd := Nat.dvd_of_mod_eq_zero (Nat.sub_mod_eq_zero_of_mod_eq hmod)
    have := Nat.eq_zero_of_dvd_of_lt hdvd (by omega)
    omega

theorem Timely.eq_of_ofNat {w n k : ℕ} (h : Timely (2 ^ w) n k)
    (heq : BitVec.ofNat w k = BitVec.ofNat w n) : k = n := by
  apply h.eq_of_mod_eq
  have := congrArg BitVec.toNat heq
  rwa [BitVec.toNat_ofNat, BitVec.toNat_ofNat] at this

end Protocol.Blocks
