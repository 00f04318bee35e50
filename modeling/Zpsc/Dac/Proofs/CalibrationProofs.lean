import Zpsc.Bits.FixedPoint
import Zpsc.Dac.Calibration
import Zpsc.Dac.Proofs.BumplessProofs

/-!
# When a pass puts out the limited quotient

A pass leaves `calibrate` (`pass_dac_setpt`), which limits the low 20 bits of the quotient of the
wrapped difference (`toInt_scaled`). A difference that wraps changes the quotient by the gain, and
then the two agree only where both are limited the same way.
-/

namespace Zpsc.GainOffset

open Bits Clocked

/-! ## The clocks of a pass -/

/-- The delay at the end of a pass counts `multdlycnt` up to 6 and changes nothing else. -/
theorem run_mult_dly (n : Bool) (c : DacCntrl) (raw : BitVec 20) {g : Stage} {ticks : List Bool}
    (hg : g.state = .MULT_DLY) (hlen : g.multdlycnt.toNat + ticks.length = 7)
    (hle : g.multdlycnt.toNat ≤ 6) :
    let g' := run (fun g tick => step g false tick n raw c) g ticks
    g'.state = .IDLE ∧ g'.done = true ∧ g'.dac_setpt = g.dac_setpt := by
  induction ticks generalizing g with
  | nil => exact absurd hlen (by simp; omega)
  | cons tick ticks ih =>
    simp only [run_cons]
    rw [List.length_cons] at hlen
    by_cases h6 : g.multdlycnt = 6#4
    · have hnil : ticks = [] := by
        rw [h6] at hlen
        exact List.eq_nil_of_length_eq_zero (by simp at hlen; omega)
      subst hnil
      simp [step, hg, h6]
    · have hne : g.multdlycnt.toNat ≠ 6 := fun h => h6 (BitVec.eq_of_toNat_eq h)
      have hstep : step g false tick n raw c = { g with multdlycnt := g.multdlycnt + 1 } := by
        simp [step, hg, h6]
      have hcnt : (g.multdlycnt + 1).toNat = g.multdlycnt.toNat + 1 := by
        rw [BitVec.toNat_add]
        simp
        omega
      rw [hstep]
      exact ih hg (by simp only [hcnt]; omega) (by simp only [hcnt]; omega)

theorem saturate_multdlycnt (n : Bool) (g : Stage) :
    (saturate n g).multdlycnt = g.multdlycnt := by
  simp only [saturate]
  split_ifs <;> rfl

/-- A pass ends in `IDLE` with `done` and the calibrated setpoint. -/
theorem pass_dac_setpt {g : Stage} (hg : g.state = .IDLE) (n : Bool) (c : DacCntrl)
    (raw : BitVec 20) {ticks : List Bool} (hlen : ticks.length = 11) :
    (pass n c raw g ticks).state = .IDLE ∧ (pass n c raw g ticks).done = true ∧
      (pass n c raw g ticks).dac_setpt = calibrate n c raw := by
  obtain ⟨t1, t2, t3, t4, rest, rfl⟩ :
      ∃ t1 t2 t3 t4 rest, ticks = t1 :: t2 :: t3 :: t4 :: rest := by
    match ticks, hlen with
    | t1 :: t2 :: t3 :: t4 :: rest, _ => exact ⟨t1, t2, t3, t4, rest, rfl⟩
  have hrest : rest.length = 7 := by simpa using hlen
  rw [← pass_calibrate hg n c raw raw t1 t2 t3 t4]
  simp only [pass, run_cons]
  refine run_mult_dly n c raw ?_ ?_ ?_
  · simp [step, hg]
  · simp [step, hg, saturate_multdlycnt, hrest]
  · simp [step, hg, saturate_multdlycnt]

/-! ## The arithmetic of a pass -/

/-- Bits 39 downto 20 of a product: a division by `2^20`, of which 20 bits are kept. -/
theorem toInt_extract_scale (x : BitVec 44) :
    (x.extractLsb' 20 20).toInt = (x.toInt / 2 ^ 20).bmod (2 ^ 20) :=
  toInt_slice x (by decide)

/-- The product of a 20-bit and a 24-bit number fits 44 bits. -/
theorem toInt_product (x : BitVec 20) (k : BitVec 24) :
    (sresize 44 x * sresize 44 k).toInt = x.toInt * k.toInt :=
  toInt_mul_sresize (w := 19) (v := 23) x k

theorem difference_bounds (c : DacCntrl) (raw : BitVec 20) :
    -2 ^ 20 < difference c raw ∧ difference c raw < 2 ^ 20 := by
  have hr0 := BitVec.le_toInt raw
  have hr1 := BitVec.toInt_lt (x := raw)
  have ho0 := BitVec.le_toInt c.offset
  have ho1 := BitVec.toInt_lt (x := c.offset)
  norm_num at hr0 hr1 ho0 ho1
  rw [difference]
  omega

theorem toInt_difference (c : DacCntrl) (raw : BitVec 20) :
    (raw - c.offset).toInt = difference c raw - carry (difference c raw) * 2 ^ 20 := by
  obtain ⟨hlo, hhi⟩ := difference_bounds c raw
  rw [BitVec.toInt_sub, ← difference, Int.bmod_def, carry]
  split_ifs <;> omega

/-- The scaled setpoint: a carry of the difference takes a multiple of the gain from the
quotient. -/
theorem toInt_scaled (c : DacCntrl) (raw : BitVec 20) :
    ((sresize 44 (raw - c.offset) * sresize 44 c.gain).extractLsb' 20 20).toInt =
      (quotient c raw - carry (difference c raw) * c.gain.toInt).bmod (2 ^ 20) := by
  rw [toInt_extract_scale, toInt_product, toInt_difference, quotient]
  congr 1
  have hsplit : (difference c raw - carry (difference c raw) * 2 ^ 20) * c.gain.toInt =
      difference c raw * c.gain.toInt + -(carry (difference c raw) * c.gain.toInt) * 2 ^ 20 := by
    ring
  rw [hsplit, Int.add_mul_ediv_right _ _ (by norm_num)]
  ring

/-- What `CHECKFORSAT` makes of a setpoint `r` for a difference `d`. -/
def limited (numbits_sel : Bool) (d r : ℤ) : ℤ :=
  if numbits_sel then
    if r < 0 ∧ 0 ≤ d then 2 ^ 19 - 1 else if 0 ≤ r ∧ d < 0 then -2 ^ 19 else r
  else clampTo false r

theorem toInt_saturate (n : Bool) (g : Stage) :
    (saturate n g).dac_setpt.toInt = limited n g.dac_setpt_oc.toInt g.dac_setpt.toInt := by
  simp only [saturate, limited, clampTo, BitVec.msb_eq_toInt]
  cases n with
  | true =>
    simp only [if_true, Bool.and_eq_true, Bool.not_eq_true', decide_eq_true_eq,
      decide_eq_false_iff_not, not_lt]
    split_ifs <;> rfl
  | false =>
    simp only [Bool.false_eq_true, if_false]
    split_ifs <;> simp <;> omega

theorem toInt_calibrate (n : Bool) (c : DacCntrl) (raw : BitVec 20) :
    (calibrate n c raw).toInt =
      limited n (difference c raw - carry (difference c raw) * 2 ^ 20)
        ((quotient c raw - carry (difference c raw) * c.gain.toInt).bmod (2 ^ 20)) := by
  rw [calibrate, toInt_saturate, toInt_difference, toInt_scaled]

/-! ## Where the pass is exact -/

/-- A difference that leaves 20 bits and a gain of at least 1 bring the quotient out of 20 bits
too. -/
theorem quotient_of_carry {d k : ℤ} (hd : carry d ≠ 0) :
    (k = 0 ∧ d * k / 2 ^ 20 = 0) ∨ d * k / 2 ^ 20 ≤ -2 ^ 19 ∨ 2 ^ 19 ≤ d * k / 2 ^ 20 ∨
      ¬ 2 ^ 20 ∣ k := by
  by_cases hk : (2 : ℤ) ^ 20 ∣ k
  · obtain ⟨j, rfl⟩ := hk
    rw [mul_left_comm, Int.mul_ediv_cancel_left _ (by norm_num)]
    have hout : 2 ^ 19 ≤ d ∨ d < -2 ^ 19 := by
      by_contra h
      rw [not_or] at h
      exact hd (by rw [carry, if_neg h.1, if_neg h.2])
    rcases lt_trichotomy j 0 with hj | rfl | hj
    · rcases hout with h | h
      · have hmul : d * j ≤ d * -1 := mul_le_mul_of_nonneg_left (by omega) (by omega)
        exact Or.inr (Or.inl (by omega))
      · have hmul : d * -1 ≤ d * j := mul_le_mul_of_nonpos_left (by omega) (by omega)
        exact Or.inr (Or.inr (Or.inl (by omega)))
    · exact Or.inl ⟨mul_zero _, mul_zero _⟩
    · rcases hout with h | h
      · have hmul : d * 1 ≤ d * j := mul_le_mul_of_nonneg_left (by omega) (by omega)
        exact Or.inr (Or.inr (Or.inl (by omega)))
      · have hmul : d * j ≤ d * 1 := mul_le_mul_of_nonpos_left (by omega) (by omega)
        exact Or.inr (Or.inl (by omega))
  · exact Or.inr (Or.inr (Or.inr hk))

theorem carry_cases (d : ℤ) :
    (carry d = 1 ∧ 2 ^ 19 ≤ d) ∨ (carry d = -1 ∧ d < -2 ^ 19) ∨
      (carry d = 0 ∧ -2 ^ 19 ≤ d ∧ d < 2 ^ 19) := by
  rw [carry]
  split_ifs <;> omega

/-- The residue of a number and the 20-bit number that is left of it. -/
theorem bmod_cases (z : ℤ) :
    ∃ m j, m + 2 ^ 20 * j = z ∧ 0 ≤ m ∧ m < 2 ^ 20 ∧
      (m < 2 ^ 19 ∧ z.bmod (2 ^ 20) = m ∨ 2 ^ 19 ≤ m ∧ z.bmod (2 ^ 20) = m - 2 ^ 20) := by
  refine ⟨z % 2 ^ 20, z / 2 ^ 20, Int.emod_add_mul_ediv z (2 ^ 20), by omega, by omega, ?_⟩
  rw [Int.bmod_def]
  split <;> omega

section Limits

variable {d k q : ℤ}

theorem limited_eq_iff20 (hq : q = d * k / 2 ^ 20) (hlo : -2 ^ 20 < d) (hhi : d < 2 ^ 20) :
    limited true (d - carry d * 2 ^ 20) ((q - carry d * k).bmod (2 ^ 20)) = clampTo true q ↔
      Fits20 d k q := by
  have hwrap := quotient_of_carry (d := d) (k := k)
  obtain ⟨m, j, hsplit, hm0, hm1, hr⟩ := bmod_cases (q - carry d * k)
  rw [← hq] at hwrap
  clear hq
  simp only [limited, clampTo, Fits20, if_true]
  generalize (q - carry d * k).bmod (2 ^ 20) = r at *
  obtain ⟨hc, hd⟩ | ⟨hc, hd⟩ | ⟨hc, hd⟩ := carry_cases d
  · have hout := hwrap (by rw [hc]; decide)
    have hsign : ¬ 0 ≤ d - 1 * 2 ^ 20 := by omega
    simp only [hc, hsign, one_ne_zero, and_false, or_false, if_false] at hsplit ⊢
    split <;> omega
  · have hout := hwrap (by rw [hc]; decide)
    have hsign : 0 ≤ d - -1 * 2 ^ 20 := by omega
    simp only [hc, hsign, neg_eq_zero, one_ne_zero, false_or, if_true, and_true,
      not_lt.mpr hsign, and_false, if_false] at hsplit ⊢
    split <;> omega
  · simp only [hc, true_or, and_true, zero_mul, sub_zero] at hsplit ⊢
    by_cases hsign : 0 ≤ d
    · simp only [hsign, and_true, not_lt.mpr hsign, and_false, if_true, if_false]
      split <;> omega
    · simp only [hsign, not_le.mp hsign, and_false, and_true, if_false]
      split <;> omega

theorem limited_eq_iff18 (hq : q = d * k / 2 ^ 20) :
    limited false (d - carry d * 2 ^ 20) ((q - carry d * k).bmod (2 ^ 20)) = clampTo false q ↔
      Fits18 d k q := by
  have hwrap := quotient_of_carry (d := d) (k := k)
  obtain ⟨m, j, hsplit, hm0, hm1, hr⟩ := bmod_cases (q - carry d * k)
  rw [← hq] at hwrap
  clear hq
  simp only [limited, clampTo, Fits18, Bool.false_eq_true, if_false]
  generalize (q - carry d * k).bmod (2 ^ 20) = r at *
  obtain ⟨hc, hd⟩ | ⟨hc, hd⟩ | ⟨hc, hd⟩ := carry_cases d
  · have hout := hwrap (by rw [hc]; decide)
    simp only [hc, one_ne_zero, false_or] at hsplit ⊢
    split_ifs <;> omega
  · have hout := hwrap (by rw [hc]; decide)
    simp only [hc, neg_eq_zero, one_ne_zero, false_or] at hsplit ⊢
    split_ifs <;> omega
  · simp only [hc, true_or, zero_mul, sub_zero] at hsplit ⊢
    split_ifs
    · omega
    · omega
    · exact iff_true_intro (by omega)

end Limits

theorem calibrate_eq_iff (n : Bool) (c : DacCntrl) (raw : BitVec 20) :
    (calibrate n c raw).toInt = clampTo n (quotient c raw) ↔ Fits n c raw := by
  obtain ⟨hlo, hhi⟩ := difference_bounds c raw
  have hq : quotient c raw = difference c raw * c.gain.toInt / 2 ^ 20 := rfl
  rw [toInt_calibrate, Fits]
  cases n with
  | true =>
    rw [if_pos rfl]
    exact limited_eq_iff20 hq hlo hhi
  | false =>
    rw [if_neg Bool.false_ne_true]
    exact limited_eq_iff18 hq

/-- A pass puts out the limited quotient exactly when the inputs fit. -/
theorem pass_eq_iff {g : Stage} (hg : g.state = .IDLE) (n : Bool) (c : DacCntrl) (raw : BitVec 20)
    {ticks : List Bool} (hlen : ticks.length = 11) :
    (pass n c raw g ticks).done = true ∧
      ((pass n c raw g ticks).dac_setpt.toInt = clampTo n (quotient c raw) ↔ Fits n c raw) := by
  obtain ⟨-, hdone, hset⟩ := pass_dac_setpt hg n c raw hlen
  rw [hset]
  exact ⟨hdone, calibrate_eq_iff n c raw⟩

def idle : Stage := ⟨.IDLE, 0, 0, 0, false, 0, false⟩

/-- A channel with the gain `k` and the offset `o`. -/
def withGain (k : BitVec 24) (o : BitVec 20) : DacCntrl where
  setpoint := 0
  setpoint_last := 0
  setpoint_changed := false
  ramprun := false
  ramplen := 0
  gain := k
  offset := o
  smooth_phaseinc := 0
  linear_len := 0
  curved_len := 0
  dy_hi := 0
  dy_lo := 0
  dy_q16_48 := 0
  dy_per_pt_hi := 0
  dy_per_pt_lo := 0
  dy_per_pt_q16_48 := 0
  cntrl := 0
  dpram_addr := 0
  dpram_data := 0
  dpram_we := false
  reset := false
  mode := 0

/-- A gain of 1.5 and a setpoint of 500000, as in the test bench: limited to full scale. -/
theorem pass_limits :
    (pass true (withGain 0x180000 0) 500000 idle (List.replicate 11 false)).dac_setpt.toInt =
      clampTo true (quotient (withGain 0x180000 0) 500000) :=
  (pass_eq_iff (g := idle) rfl true (withGain 0x180000 0) 500000 (by decide)).2.mpr
    (by decide +kernel)

/-- A gain of -1 turns a setpoint of 100 into full scale. -/
theorem pass_negates :
    (pass true (withGain 0xF00000 0) 100 idle (List.replicate 11 false)).done = true ∧
      (pass true (withGain 0xF00000 0) 100 idle (List.replicate 11 false)).dac_setpt.toInt ≠
        clampTo true (quotient (withGain 0xF00000 0) 100) := by
  decide +kernel

end Zpsc.GainOffset
