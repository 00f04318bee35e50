import Zpsc.Bits.NumericStd
import Zpsc.Timing.NcoRate

/-!
# Proofs: the rate of the 10 kHz clock

A pulse is the rise of the top bit of the phase two clocks before. Without a resync the phase after
`n` clocks is `n` steps, and its top bit rises once per turn. With resyncs, the phase needs half a
turn to get back to the top bit after it has lost it.
-/

namespace Zpsc.Nco

open Bits Clocked

variable {step_size : BitVec 32} {resync : ℕ → Bool} {t u : ℕ}

/-! ## Pulses -/

/-- The top bit of the phase before clock `t`. -/
def high (step_size : BitVec 32) (resync : ℕ → Bool) (t : ℕ) : Bool :=
  (regs step_size resync t).acc.getLsbD 31

theorem acc_succ (t : ℕ) :
    (regs step_size resync (t + 1)).acc =
      if resync t then 0 else (regs step_size resync t).acc + step_size := rfl

/-- A pulse comes three clocks after the last clock at which the top bit is 0. -/
theorem pulse_out_add_three (t : ℕ) :
    (regs step_size resync (t + 3)).pulse_out =
      (high step_size resync (t + 1) && !high step_size resync t) := rfl

theorem pulse_out_early (h : t < 3) : (regs step_size resync t).pulse_out = false := by
  rcases t with - | - | - | t
  · rfl
  · rfl
  · show (high step_size resync 0 && !false) = false
    simp [high, regs, configured]
  · omega

/-- Where there is a pulse, the top bit has risen. -/
theorem rise_of_pulse (h : (regs step_size resync t).pulse_out = true) :
    ∃ v, t = v + 3 ∧ high step_size resync v = false ∧ high step_size resync (v + 1) = true := by
  rcases Nat.lt_or_ge t 3 with hlt | hge
  · rw [pulse_out_early hlt] at h
    cases h
  · obtain ⟨v, rfl⟩ := Nat.exists_eq_add_of_le' hge
    rw [pulse_out_add_three] at h
    exact ⟨v, rfl, by simpa using (Bool.and_eq_true_iff.mp h).2, (Bool.and_eq_true_iff.mp h).1⟩

/-! ## The count -/

/-- Without a resync the phase is the number of steps. -/
theorem acc_free (n : ℕ) :
    (regs step_size (fun _ => false) n).acc.toNat = n * step_size.toNat % 2 ^ 32 := by
  induction n with
  | zero =>
    rw [Nat.zero_mul]
    rfl
  | succ n ih =>
    rw [acc_succ, if_neg Bool.false_ne_true, BitVec.toNat_add, ih, Nat.mod_add_mod, Nat.succ_mul]

/-- With steps of at most half a turn, the top bit rises once per turn. -/
theorem turns_succ {x s : ℕ} (hs : s ≤ 2 ^ 31) :
    (x + s + 2 ^ 31) / 2 ^ 32 = (x + 2 ^ 31) / 2 ^ 32 +
      if 2 ^ 31 ≤ (x + s) % 2 ^ 32 ∧ ¬ 2 ^ 31 ≤ x % 2 ^ 32 then 1 else 0 := by
  split_ifs <;> omega

theorem count (hs : step_size.toNat ≤ 2 ^ 31) (n : ℕ) :
    pulses pulse_out (clock step_size) configured (List.replicate (n + 2) false) =
      (n * step_size.toNat + 2 ^ 31) / 2 ^ 32 := by
  induction n with
  | zero =>
    have h1 : (regs step_size (fun _ => false) 1).pulse_out = false := pulse_out_early (by omega)
    have h2 : (regs step_size (fun _ => false) 2).pulse_out = false := pulse_out_early (by omega)
    rw [Nat.zero_mul, show List.replicate (0 + 2) false = [false, false] from rfl, pulses_cons,
      pulses_cons, pulses_nil]
    change (0 + if (regs step_size (fun _ => false) 2).pulse_out = true then 1 else 0) +
      (if (regs step_size (fun _ => false) 1).pulse_out = true then 1 else 0) = _
    rw [h1, h2]
    rfl
  | succ n ih =>
    have hpulse : (clock step_size (regs step_size (fun _ => false) (n + 2)) false).pulse_out =
        (high step_size (fun _ => false) (n + 1) && !high step_size (fun _ => false) n) :=
      pulse_out_add_three n
    rw [show n + 1 + 2 = n + 2 + 1 by omega, List.replicate_succ', pulses_append, ih,
      run_replicate, pulses_cons, pulses_nil, ← regs, hpulse, high, high, getLsbD_31, getLsbD_31,
      acc_free, acc_free, Nat.succ_mul, turns_succ hs]
    simp

/-! ## The gaps -/

/-- After a clock at which the top bit is 1, either it has been 1 since, or the phase has got no
further than the steps since then. -/
theorem acc_after (hs : 0 < step_size.toNat) (ht : high step_size resync t = true) (htu : t ≤ u) :
    high step_size resync u = true ∨
      (regs step_size resync u).acc.toNat < (u - t) * step_size.toNat := by
  induction u, htu using Nat.le_induction with
  | base => exact .inl ht
  | succ u htu ih =>
    have hsteps : (u + 1 - t) * step_size.toNat = (u - t) * step_size.toNat + step_size.toNat := by
      rw [show u + 1 - t = u - t + 1 by omega, Nat.succ_mul]
    have hlt := step_size.isLt
    rw [high, getLsbD_31, acc_succ, hsteps]
    split
    · -- the phase is set back
      right
      exact lt_of_lt_of_le hs (Nat.le_add_left _ _)
    · rw [BitVec.toNat_add, decide_eq_true_eq]
      rcases ih with hhigh | hlow
      · -- the top bit stays, or the phase wraps to less than a step
        rw [high, getLsbD_31, decide_eq_true_eq] at hhigh
        omega
      · right
        exact lt_of_le_of_lt (Nat.mod_le _ _) (by omega)

theorem apart (hs : 0 < step_size.toNat) {t t' : ℕ} (htt' : t < t')
    (ht : (regs step_size resync t).pulse_out = true)
    (ht' : (regs step_size resync t').pulse_out = true) :
    t + 2 ^ 31 ⌈/⌉ step_size.toNat ≤ t' := by
  obtain ⟨v, rfl, -, hv⟩ := rise_of_pulse ht
  obtain ⟨w, rfl, hw, hw'⟩ := rise_of_pulse ht'
  have hlow := (acc_after hs hv (show v + 1 ≤ w by omega)).resolve_left (by rw [hw]; exact nofun)
  have hreach : 2 ^ 31 ≤ (regs step_size resync (w + 1)).acc.toNat := by
    rwa [high, getLsbD_31, decide_eq_true_eq] at hw'
  -- one more step and the top bit is 1
  have hstep : (regs step_size resync (w + 1)).acc.toNat ≤
      (regs step_size resync w).acc.toNat + step_size.toNat := by
    rw [acc_succ]
    split
    · exact Nat.zero_le _
    · rw [BitVec.toNat_add]
      exact Nat.mod_le _ _
  have hsteps : (w - v) * step_size.toNat = (w - (v + 1)) * step_size.toNat + step_size.toNat := by
    rw [show w - v = w - (v + 1) + 1 by omega, Nat.succ_mul]
  have hceil : 2 ^ 31 ⌈/⌉ step_size.toNat ≤ w - v := by
    rw [ceilDiv_le_iff_le_mul hs, Nat.mul_comm]
    omega
  omega

/-! ## The rate -/

theorem single (h : (regs step_size resync t).pulse_out = true) :
    (regs step_size resync (t + 1)).pulse_out = false := by
  obtain ⟨v, rfl, -, hv⟩ := rise_of_pulse h
  rw [show v + 3 + 1 = v + 1 + 3 by omega, pulse_out_add_three, hv, Bool.not_true, Bool.and_false]

theorem nco_rate (h0 : 1 ≤ step_size.toNat) (h1 : step_size.toNat ≤ 2 ^ 31) : Rate step_size where
  count := count h1
  single := fun _ _ h => single h
  apart := fun _ _ _ htt' ht ht' => apart h0 htt' ht ht'

/-- The step size of 10 kHz. -/
theorem nco_rate_10khz : Rate 427853 := nco_rate (by decide) (by decide)

end Zpsc.Nco
