import Zpsc.Bits.NumericStd
import Zpsc.Nco

/-!
# Triggers of a changing rate

When the step size changes from clock to clock but stays below a bound, the phase still needs half a
turn of the largest steps from one pulse to the next, and so does a resync.
-/

namespace Zpsc.Nco

open Bits Clocked

/-- The inputs of one clock. -/
structure In where
  reset : Bool
  step_size : BitVec 32
  resync_pulse : Bool

/-- One rising edge of `clk`. -/
def clk (s : Nco) (i : In) : Nco := s.step i.reset i.step_size i.resync_pulse

/-- A reset at clock 0 and none later, and steps of at most `S`. -/
structure Steps (inp : ℕ → In) (S : ℕ) : Prop where
  reset : (inp 0).reset = true
  no_reset : ∀ t, 0 < t → (inp t).reset = false
  le : ∀ t, (inp t).step_size.toNat ≤ S

variable {inp : ℕ → In} {S t u : ℕ}

/-- The top bit of the phase before clock `t`. -/
def topBit (inp : ℕ → In) (t : ℕ) : Bool := (trace clk configured inp t).acc.getLsbD 31

theorem acc_step (h : Steps inp S) (ht : 0 < t) :
    (trace clk configured inp (t + 1)).acc =
      if (inp t).resync_pulse then 0
      else (trace clk configured inp t).acc + (inp t).step_size := by
  rw [trace_succ, clk, step, h.no_reset t ht]
  rfl

/-- A pulse comes three clocks after the last clock at which the top bit is 0. -/
theorem pulse_add_three (h : Steps inp S) (t : ℕ) :
    (trace clk configured inp (t + 3)).pulse_out = (topBit inp (t + 1) && !topBit inp t) := by
  have h1 := h.no_reset (t + 1) (by omega)
  have h2 := h.no_reset (t + 2) (by omega)
  rcases Nat.eq_zero_or_pos t with rfl | ht
  · simp [trace, clk, step, h.reset, h1, h2, topBit, pulse_out, configured]
  · simp [trace, clk, step, h.no_reset t ht, h1, h2, topBit, pulse_out]

theorem no_pulse_early (h : Steps inp S) (ht : t < 3) :
    (trace clk configured inp t).pulse_out = false := by
  have h1 := h.no_reset 1 Nat.one_pos
  obtain rfl | rfl | rfl : t = 0 ∨ t = 1 ∨ t = 2 := by omega
  · rfl
  · simp [trace, clk, step, h.reset, pulse_out]
  · simp [trace, clk, step, h.reset, h1, pulse_out]

/-- Where there is a pulse, the top bit has risen. -/
theorem rise_of_pulse_out (h : Steps inp S) (ht : (trace clk configured inp t).pulse_out = true) :
    ∃ v, t = v + 3 ∧ topBit inp v = false ∧ topBit inp (v + 1) = true := by
  rcases Nat.lt_or_ge t 3 with hlt | hge
  · rw [no_pulse_early h hlt] at ht
    cases ht
  · obtain ⟨v, rfl⟩ := Nat.exists_eq_add_of_le' hge
    rw [pulse_add_three h, Bool.and_eq_true, Bool.not_eq_true'] at ht
    exact ⟨v, rfl, ht.2, ht.1⟩

/-- After a clock at which the top bit is 1, either it has been 1 since, or the phase has got no
further than the largest steps since then. -/
theorem acc_le (h : Steps inp S) (ht : 0 < t) (htop : topBit inp t = true) (htu : t ≤ u) :
    topBit inp u = true ∨ (trace clk configured inp u).acc.toNat ≤ (u - t) * S := by
  induction u, htu using Nat.le_induction with
  | base => exact .inl htop
  | succ u htu ih =>
    have hsteps : (u + 1 - t) * S = (u - t) * S + S := by
      rw [show u + 1 - t = u - t + 1 by omega, Nat.succ_mul]
    have hlt := (inp u).step_size.isLt
    have hle := h.le u
    rw [topBit, getLsbD_31, acc_step h (by omega), hsteps]
    split
    · -- the phase is set back
      exact .inr (Nat.zero_le _)
    · rw [BitVec.toNat_add, decide_eq_true_eq]
      rcases ih with hhigh | hlow
      · -- the top bit stays, or the phase wraps to less than a step
        rw [topBit, getLsbD_31, decide_eq_true_eq] at hhigh
        omega
      · right
        exact le_trans (Nat.mod_le _ _) (by omega)

theorem ticksApart (h : Steps inp S) {n : ℕ} (hn : (n - 1) * S < 2 ^ 31) :
    TicksApart n fun t => (trace clk configured inp t).pulse_out := by
  intro t t' htt' ht ht'
  obtain ⟨v, rfl, -, hv⟩ := rise_of_pulse_out h ht
  obtain ⟨w, rfl, hw, hw'⟩ := rise_of_pulse_out h ht'
  have hlow : (trace clk configured inp w).acc.toNat ≤ (w - (v + 1)) * S := by
    rcases acc_le h v.succ_pos hv (show v + 1 ≤ w by omega) with hhigh | hlow
    · rw [hw] at hhigh
      cases hhigh
    · exact hlow
  rw [topBit, getLsbD_31, decide_eq_true_eq, acc_step h (show 0 < w by omega)] at hw'
  -- one more step and the top bit is 1
  have hreach : 2 ^ 31 ≤ (trace clk configured inp w).acc.toNat + S := by
    split at hw'
    · exact absurd hw' (by decide)
    · rw [BitVec.toNat_add] at hw'
      have hmod := Nat.mod_le ((trace clk configured inp w).acc.toNat + (inp w).step_size.toNat)
        (2 ^ 32)
      have hle := h.le w
      omega
  have hsteps : (w - v) * S = (w - (v + 1)) * S + S := by
    rw [show w - v = w - (v + 1) + 1 by omega, Nat.succ_mul]
  by_contra hfar
  have hmono : (w - v) * S ≤ (n - 1) * S := Nat.mul_le_mul_right S (by omega)
  omega

end Zpsc.Nco
