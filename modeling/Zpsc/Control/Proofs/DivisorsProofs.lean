import Zpsc.Control.Divisors

/-!
# When the smooth ramp calculations divide by zero

A ramp of less than one sample has `num_samples = 0`, and one of less than one sample in a curved
section has `curved_pts = 0`. The first is every command that repeats the setpoint outside main
dipole mode.
-/

namespace Zpsc.Control

open CConv

namespace SmoothEnv

variable {e : SmoothEnv} {cur_setpt new_setpt : ℤ}

/-! ## The lists -/

theorem zero_eq_toNat (w : BitVec 32) : (0 : ℚ) = w.toNat ↔ w = 0 := by
  rw [← BitVec.toNat_inj]
  norm_cast
  exact eq_comm

theorem fdiv_toNat (x : ℚ) (w : BitVec 32) :
    fdiv x w.toNat = if w = 0 then none else some (x / w.toNat) :=
  if_congr (eq_comm.trans (zero_eq_toNat w)) rfl rfl

theorem zero_notMem_cosineDivisors :
    0 ∉ e.cosineDivisors cur_setpt new_setpt ↔
      e.scalefactors.dac_dccts ≠ 0 ∧ e.rampRate ≠ 0 ∧ e.num_samples cur_setpt new_setpt ≠ 0 := by
  simp only [cosineDivisors, List.mem_cons, List.not_mem_nil, zero_eq_toNat, or_false, not_or]
  tauto

theorem zero_notMem_linearDivisors :
    0 ∉ e.linearDivisors cur_setpt new_setpt ↔
      e.scalefactors.dac_dccts ≠ 0 ∧ e.rampRate ≠ 0 ∧
        e.curved_pts cur_setpt new_setpt + e.linear_pts cur_setpt new_setpt ≠ 0 ∧
          e.curved_pts cur_setpt new_setpt ≠ 0 := by
  have h100 : (0 : ℚ) ≠ 100 := by norm_num
  simp only [linearDivisors, List.mem_cons, List.not_mem_nil, zero_eq_toNat, or_false, not_or, h100,
    not_false_eq_true, true_and]
  tauto

/-! ## The calculations that have a value -/

theorem ramp_duration_eq (e : SmoothEnv) (cur_setpt new_setpt : ℤ) :
    e.ramp_duration cur_setpt new_setpt =
      if e.scalefactors.dac_dccts ≠ 0 ∧ e.rampRate ≠ 0 then
        some (e.rampDuration cur_setpt new_setpt)
      else none := by
  unfold ramp_duration ramp_rate fdiv rampDuration rampRate
  by_cases hd : e.scalefactors.dac_dccts = 0
  · simp [hd]
  · by_cases hr : e.scalefactors.ampspersec / e.scalefactors.dac_dccts * e.CONVVOLTSTODACBITS = 0
    · simp [hd, hr]
    · simp [hd, hr]

/-- `Calc_WriteRaisedCosineSmooth` is undefined only for a divisor that is zero or a number of
samples out of range. -/
theorem isSome_cosine_iff :
    (Calc_WriteRaisedCosineSmooth e cur_setpt new_setpt).isSome ↔
      0 ∉ e.cosineDivisors cur_setpt new_setpt ∧
        (toU32 (e.rampDuration cur_setpt new_setpt * SAMPLERATE)).isSome := by
  rw [zero_notMem_cosineDivisors]
  unfold Calc_WriteRaisedCosineSmooth num_samples
  rw [ramp_duration_eq]
  split
  · next hz =>
    cases hn : toU32 (e.rampDuration cur_setpt new_setpt * SAMPLERATE) with
    | none => simp [hn]
    | some n =>
      rw [satU32_of_toU32 hn]
      by_cases hn0 : n = 0 <;> simp [hn, hn0, hz.1, hz.2]
  · next hz => exact iff_of_false (by simp) fun h => hz ⟨h.1.1, h.1.2.1⟩

/-- The calculation of `Calc_WriteLinearSmooth` likewise. -/
theorem isSome_linear_iff :
    (linearSmooth e cur_setpt new_setpt).isSome ↔
      0 ∉ e.linearDivisors cur_setpt new_setpt ∧
        (toU32 ((1 - 2 * e.percent_curved) * e.rampDuration cur_setpt new_setpt *
            SAMPLERATE)).isSome ∧
          (toU32 (e.percent_curved * e.rampDuration cur_setpt new_setpt * SAMPLERATE)).isSome := by
  rw [zero_notMem_linearDivisors]
  unfold linearSmooth linear_pts curved_pts
  rw [ramp_duration_eq, ← percent_curved]
  split
  · next hz =>
    cases hl : toU32 ((1 - 2 * e.percent_curved) * e.rampDuration cur_setpt new_setpt *
        SAMPLERATE) with
    | none => simp [hl]
    | some l =>
      cases hc : toU32 (e.percent_curved * e.rampDuration cur_setpt new_setpt * SAMPLERATE) with
      | none => simp [hl, hc]
      | some c =>
        rw [satU32_of_toU32 hl, satU32_of_toU32 hc]
        simp only [hl, hc, Option.bind_eq_bind, Option.bind_some, fdiv_toNat]
        by_cases hs : c + l = 0
        · rw [if_pos hs]
          exact iff_of_false (by simp) fun h => h.1.2.2.1 hs
        rw [if_neg hs, Option.bind_some]
        by_cases hc0 : c = 0
        · rw [if_pos hc0]
          exact iff_of_false (by simp) fun h => h.1.2.2.2 hc0
        · rw [if_neg hc0]
          exact iff_of_true rfl ⟨⟨hz.1, hz.2, hs, hc0⟩, rfl, rfl⟩
  · next hz => exact iff_of_false (by simp) fun h => hz ⟨h.1.1, h.1.2.1⟩

/-! ## The divisors -/

theorem rampDuration_mul (hr : 0 < e.scalefactors.ampspersec) (hb : 0 < e.CONVVOLTSTODACBITS) :
    e.rampDuration cur_setpt new_setpt * SAMPLERATE = e.samples (new_setpt - cur_setpt) := by
  set D : ℚ := ((|new_setpt - cur_setpt| : ℤ) : ℚ) with hD
  have hlength : D * e.scalefactors.dac_dccts * SAMPLERATE /
      (e.scalefactors.ampspersec * e.CONVVOLTSTODACBITS) = D / e.rampRate * SAMPLERATE := by
    unfold rampRate
    rcases eq_or_ne e.scalefactors.dac_dccts 0 with hd | hd
    · simp [hd]
    · field_simp
  have hlt : D / e.rampRate * SAMPLERATE < 2 * SAMPLERATE ↔ D / e.rampRate < 2 :=
    mul_lt_mul_iff_left₀ (by norm_num [SAMPLERATE])
  unfold rampDuration samples
  simp only [← hD, hlength, hlt]
  split <;> rfl

theorem rampRate_ne_zero (hd : e.scalefactors.dac_dccts ≠ 0) (hr : 0 < e.scalefactors.ampspersec)
    (hb : 0 < e.CONVVOLTSTODACBITS) : e.rampRate ≠ 0 :=
  mul_ne_zero (div_ne_zero hr.ne' hd) hb.ne'

/-- The sum of the two sections in 32 bits. -/
theorem pts_add_eq_zero_iff {p n : ℚ} (hp : p ≤ 1 / 2) (h : 1 ≤ p * n) (hn : 0 ≤ n) :
    satU32 (p * n) + satU32 ((1 - 2 * p) * n) = 0 ↔
      points p n + points (1 - 2 * p) n = 2 ^ 32 := by
  have hl : 0 ≤ (1 - 2 * p) * n := mul_nonneg (by linarith) hn
  have hcurved := toNat_satU32_of_nonneg (show 0 ≤ p * n by linarith)
  have hlinear := toNat_satU32_of_nonneg hl
  have h1 : 1 ≤ ⌊p * n⌋ := Int.le_floor.mpr (by exact_mod_cast h)
  have h2 := Int.floor_nonneg.mpr hl
  rw [← BitVec.toNat_inj, BitVec.toNat_add, points, points, ← hcurved, ← hlinear]
  have := (satU32 (p * n)).isLt
  have := (satU32 ((1 - 2 * p) * n)).isLt
  simp
  omega

section

variable (hd : e.scalefactors.dac_dccts ≠ 0) (hr : 0 < e.scalefactors.ampspersec)
  (hb : 0 < e.CONVVOLTSTODACBITS)
include hd hr hb

/-- The raised-cosine calculation divides by no zero exactly if the ramp has a sample. -/
theorem cosineDivisors_iff :
    0 ∉ e.cosineDivisors cur_setpt new_setpt ↔ 1 ≤ e.samples (new_setpt - cur_setpt) := by
  have hrate := rampRate_ne_zero hd hr hb
  rw [zero_notMem_cosineDivisors, num_samples, rampDuration_mul hr hb, ne_eq (satU32 _),
    satU32_eq_zero_iff, not_lt]
  exact ⟨fun h => h.2.2, fun h => ⟨hd, hrate, h⟩⟩

/-- The linear one exactly if it has one in each section. -/
theorem linearDivisors_iff (hlow : 5 ≤ e.smoothramp_percentcurved.toNat)
    (hhigh : e.smoothramp_percentcurved.toNat ≤ 50) :
    0 ∉ e.linearDivisors cur_setpt new_setpt ↔ e.Sections (new_setpt - cur_setpt) := by
  have hrate := rampRate_ne_zero hd hr hb
  have hp5 : 0 < e.percent_curved := by
    have : (5 : ℚ) ≤ e.smoothramp_percentcurved.toNat := by exact_mod_cast hlow
    rw [percent_curved]
    linarith
  have hp50 : e.percent_curved ≤ 1 / 2 := by
    have : (e.smoothramp_percentcurved.toNat : ℚ) ≤ 50 := by exact_mod_cast hhigh
    rw [percent_curved]
    linarith
  have hcurved : e.curved_pts cur_setpt new_setpt =
      satU32 (e.percent_curved * e.samples (new_setpt - cur_setpt)) := by
    rw [curved_pts, mul_assoc, rampDuration_mul hr hb]
  have hlinear : e.linear_pts cur_setpt new_setpt =
      satU32 ((1 - 2 * e.percent_curved) * e.samples (new_setpt - cur_setpt)) := by
    rw [linear_pts, mul_assoc, rampDuration_mul hr hb]
  rw [zero_notMem_linearDivisors, hcurved, hlinear, Sections, ne_eq (satU32 _) 0,
    satU32_eq_zero_iff, not_lt]
  constructor
  · rintro ⟨-, -, hsum, h⟩
    have hn := (pos_iff_pos_of_mul_pos (lt_of_lt_of_le one_pos h)).mp hp5
    exact ⟨h, mt (pts_add_eq_zero_iff hp50 h hn.le).mpr hsum⟩
  · rintro ⟨h, hsum⟩
    have hn := (pos_iff_pos_of_mul_pos (lt_of_lt_of_le one_pos h)).mp hp5
    exact ⟨hd, hrate, mt (pts_add_eq_zero_iff hp50 h hn.le).mp hsum, h⟩

end

/-- Neither calculation divides by zero exactly if the ramp has a sample, and one in each section.
-/
theorem noZeroDivisor_iff (e : SmoothEnv) (hd : e.scalefactors.dac_dccts ≠ 0)
    (hr : 0 < e.scalefactors.ampspersec) (hb : 0 < e.CONVVOLTSTODACBITS)
    (hlow : 5 ≤ e.smoothramp_percentcurved.toNat) (hhigh : e.smoothramp_percentcurved.toNat ≤ 50)
    (cur_setpt new_setpt : ℤ) :
    e.NoZeroDivisor cur_setpt new_setpt ↔
      1 ≤ e.samples (new_setpt - cur_setpt) ∧ e.Sections (new_setpt - cur_setpt) :=
  and_congr (cosineDivisors_iff hd hr hb) (linearDivisors_iff hd hr hb hlow hhigh)

/-- All scale factors 1 and a curved part of 10 percent. -/
def unity (maindipole_mode : BitVec 32) : SmoothEnv where
  scalefactors := ⟨1, 1, 1, 1, 1⟩
  CONVVOLTSTODACBITS := CONVVOLTSTO20BITS
  smoothramp_percentcurved := 10
  maindipole_mode := maindipole_mode

/-- A repeated setpoint in main dipole mode: a ramp of 2 seconds. -/
theorem repeated_dipole : (unity 1).NoZeroDivisor 1000 1000 :=
  (noZeroDivisor_iff (unity 1) (by decide) (by decide) (by norm_num [unity, CONVVOLTSTO20BITS])
    (by decide) (by decide) 1000 1000).mpr (by decide +kernel)

/-- A repeated setpoint outside main dipole mode: `phase_inc` is divided by 0. -/
theorem repeated_zero_divisor : ¬ (unity 0).NoZeroDivisor 1000 1000 := by
  intro h
  exact h.1 (by decide +kernel)

end SmoothEnv

end Zpsc.Control
