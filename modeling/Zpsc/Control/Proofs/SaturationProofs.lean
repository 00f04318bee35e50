import Zpsc.Control.Proofs.PolarityProofs
import Zpsc.Control.Saturation

/-!
# When `Set_dac` saturates as it should

With a positive scale factor the limits in amps are those in volts. With a negative one they have
changed places: every request is taken for too high or too low, and goes to the upper or the lower
end of the range (`limitedAmps_div_neg`).
-/

namespace Zpsc.Control

open CConv

variable {e : Env} {c : Chan} {amps : ℚ}

/-! ## The limits in volts -/

theorem limitedAmps_div_pos (hd : 0 < (e.scalefactors c).dac_dccts) :
    limitedAmps e c amps / (e.scalefactors c).dac_dccts =
      clampVolts (amps / (e.scalefactors c).dac_dccts) := by
  set d := (e.scalefactors c).dac_dccts with hdef
  have hhigh : 99999 / 10000 * d < amps ↔ 99999 / 10000 < amps / d := (lt_div_iff₀ hd).symm
  have hlow : amps < -10 * d ↔ amps / d < -10 := (div_lt_iff₀ hd).symm
  simp only [limitedAmps, clampVolts, ← hdef, hhigh, hlow]
  split
  · next h =>
    rw [mul_div_cancel_right₀ _ hd.ne', min_eq_right h.le, max_eq_right (by norm_num)]
  · next h =>
    rw [min_eq_left (not_lt.mp h)]
    split
    · next h' => rw [mul_div_cancel_right₀ _ hd.ne', max_eq_left h'.le]
    · next h' => rw [max_eq_right (not_lt.mp h')]

theorem limitedAmps_div_neg (hd : (e.scalefactors c).dac_dccts < 0) :
    limitedAmps e c amps / (e.scalefactors c).dac_dccts =
      if amps / (e.scalefactors c).dac_dccts < 99999 / 10000 then 99999 / 10000 else -10 := by
  set d := (e.scalefactors c).dac_dccts with hdef
  have hhigh : 99999 / 10000 * d < amps ↔ amps / d < 99999 / 10000 := (div_lt_iff_of_neg hd).symm
  simp only [limitedAmps, ← hdef, hhigh]
  split
  · exact mul_div_cancel_right₀ _ hd.ne
  · next h =>
    have hle : amps ≤ 99999 / 10000 * d := not_lt.mp (mt hhigh.mp h)
    rw [if_pos (by linarith), mul_div_cancel_right₀ _ hd.ne]

theorem request_eq (e : Env) (c : Chan) (amps : ℚ) :
    request e c amps =
      trunc (limitedAmps e c amps / (e.scalefactors c).dac_dccts * e.CONVVOLTSTODACBITS) := by
  rw [request, mul_div_right_comm]

/-! ## The limited request -/

theorem dacBits_pos (hbits : DacBits e) : 1 < e.CONVVOLTSTODACBITS := by
  rcases hbits with hb | hb <;> rw [hb] <;> norm_num [CONVVOLTSTO18BITS, CONVVOLTSTO20BITS]

/-- A limit of the DAC in bits. -/
theorem mul_dacBits_le (hbits : DacBits e) :
    10 * e.CONVVOLTSTODACBITS = dacHalf e ∧
      99999 / 10000 * e.CONVVOLTSTODACBITS < dacHalf e := by
  rcases hbits with hb | hb <;> simp only [dacHalf, hb] <;>
    norm_num [CONVVOLTSTO18BITS, CONVVOLTSTO20BITS]

theorem clampVolts_range (q : ℚ) : -10 ≤ clampVolts q ∧ clampVolts q ≤ 99999 / 10000 :=
  ⟨le_max_left _ _, max_le (by norm_num) (min_le_right _ _)⟩

theorem dacHalf_pos (e : Env) : 0 < dacHalf e := by
  unfold dacHalf
  split <;> norm_num

/-- The limited request is a code, with the sign of the request. -/
theorem saturatedCode_clampedCode (hbits : DacBits e) :
    SaturatedCode e c amps (clampedCode e c amps) := by
  have hpos := dacBits_pos hbits
  obtain ⟨hlow, hhigh⟩ := mul_dacBits_le hbits
  set q := amps / (e.scalefactors c).dac_dccts with hq
  obtain ⟨h1, h2⟩ := clampVolts_range q
  refine ⟨rfl, ?_, ?_, ?_⟩
  · refine trunc_range (dacHalf_pos e) ?_ ?_
    · have := mul_le_mul_of_nonneg_right h1 (show 0 ≤ e.CONVVOLTSTODACBITS by linarith)
      linarith
    · have := mul_le_mul_of_nonneg_right h2 (show 0 ≤ e.CONVVOLTSTODACBITS by linarith)
      linarith
  · intro h
    have hclamp : 0 ≤ clampVolts q := le_max_of_le_right (le_min h.le (by norm_num))
    exact trunc_nonneg (mul_nonneg hclamp (by linarith))
  · intro h
    have hclamp : clampVolts q ≤ 0 :=
      max_le (by norm_num) ((min_le_left _ _).trans h.le)
    have hle := mul_nonpos_of_nonpos_of_nonneg hclamp
      (show 0 ≤ e.CONVVOLTSTODACBITS by linarith)
    exact trunc_nonpos hle

/-! ## The request -/

/-- With a negative scale factor the request is right only where it is right by chance: within the
code of the upper limit. -/
theorem request_eq_iff_of_neg (hbits : DacBits e) (hd : (e.scalefactors c).dac_dccts < 0) :
    request e c amps = clampedCode e c amps ↔
      amps / (e.scalefactors c).dac_dccts < 99999 / 10000 ∧
        trunc (99999 / 10000 * e.CONVVOLTSTODACBITS) ≤
          amps / (e.scalefactors c).dac_dccts * e.CONVVOLTSTODACBITS := by
  have hpos := dacBits_pos hbits
  rw [request_eq, limitedAmps_div_neg hd, clampedCode]
  set q := amps / (e.scalefactors c).dac_dccts with hq
  set k := e.CONVVOLTSTODACBITS with hk
  have htop : trunc (99999 / 10000 * k) = ⌊99999 / 10000 * k⌋ := trunc_of_nonneg (by linarith)
  have htop_pos : 0 < ⌊99999 / 10000 * k⌋ := Int.floor_pos.mpr (by linarith)
  by_cases h : q < 99999 / 10000
  · rw [if_pos h, htop, clampVolts, min_eq_left h.le]
    constructor
    · intro heq
      have hnonneg : 0 ≤ max (-10) q * k := by
        by_contra hneg
        have hlt : max (-10) q * k < 0 := not_le.mp hneg
        have hle : trunc (max (-10) q * k) ≤ 0 := trunc_nonpos hlt.le
        omega
      rw [trunc_of_nonneg hnonneg] at heq
      have hmax : max (-10) q = q := by
        rcases max_choice (-10) q with hm | hm
        · rw [hm] at hnonneg
          linarith
        · exact hm
      rw [hmax] at heq
      exact ⟨h, by rw [heq]; exact Int.floor_le _⟩
    · rintro ⟨-, hle⟩
      have hqk : 0 < q * k := lt_of_lt_of_le (by exact_mod_cast htop_pos) hle
      have hqpos : 0 < q := by
        by_contra hno
        have := mul_nonpos_of_nonpos_of_nonneg (not_lt.mp hno) (show 0 ≤ k by linarith)
        linarith
      rw [max_eq_right (by linarith), trunc_of_nonneg hqk.le]
      have hlt : q * k < 99999 / 10000 * k := mul_lt_mul_of_pos_right h (by linarith)
      exact le_antisymm (Int.le_floor.mpr hle) (Int.floor_le_floor hlt.le)
  · refine iff_of_false ?_ fun h' => h h'.1
    have hclamp : clampVolts q = 99999 / 10000 := by
      rw [clampVolts, min_eq_right (not_lt.mp h), max_eq_right (by norm_num)]
    rw [if_neg h, hclamp, htop]
    have hneg : trunc (-10 * k) ≤ 0 := trunc_nonpos (by linarith)
    omega

theorem request_eq_clampedCode_iff (hbits : DacBits e) (hd : (e.scalefactors c).dac_dccts ≠ 0) :
    request e c amps = clampedCode e c amps ↔
      0 < (e.scalefactors c).dac_dccts ∨
        (amps / (e.scalefactors c).dac_dccts < 99999 / 10000 ∧
          trunc (99999 / 10000 * e.CONVVOLTSTODACBITS) ≤
            amps / (e.scalefactors c).dac_dccts * e.CONVVOLTSTODACBITS) := by
  rcases lt_or_gt_of_ne hd with hneg | hpos
  · rw [request_eq_iff_of_neg hbits hneg, or_iff_right hneg.not_gt]
  · refine iff_of_true ?_ (.inl hpos)
    rw [request_eq, limitedAmps_div_pos hpos, clampedCode]

/-- A bipolar channel gets the limited request exactly when the scale factor is positive, or the
request is within the code of the upper limit. -/
theorem saturates_iff (e : Env) (hbits : DacBits e) (c : Chan)
    (hd : (e.scalefactors c).dac_dccts ≠ 0) (p : BitVec 8) (hp : p.getLsbD c.num = false)
    (amps : ℚ) :
    Saturates e p c amps ↔
      0 < (e.scalefactors c).dac_dccts ∨
        (amps / (e.scalefactors c).dac_dccts < 99999 / 10000 ∧
          trunc (99999 / 10000 * e.CONVVOLTSTODACBITS) ≤
            amps / (e.scalefactors c).dac_dccts * e.CONVVOLTSTODACBITS) := by
  have hrange := request_range hbits hd amps
  have hsoft : (p.setWidth 32).getLsbD c.num = false := by
    rw [← hp]
    cases c <;> simp [Chan.num]
  have hnew := newSetpt_eq hbits hd (p.setWidth 32) amps
  rw [hsoft, if_neg (by simp)] at hnew
  have hint : (BitVec.ofInt 32 (request e c amps)).toInt = request e c amps := by
    rw [BitVec.toInt_ofInt, Int.bmod_eq_of_le (by omega) (by omega)]
  rw [← request_eq_clampedCode_iff hbits hd]
  constructor
  · intro h
    -- jump mode writes the request
    set rf : RegFile :=
      { glob := fun g => if hg : g = .polarity then hg ▸ p else 0
        chan := fun _ r => if hr : r = .dac_opmode then hr ▸ 3#2 else 0 } with hrf
    have hcode := (h rf rfl _ (writesSetpt_jump rf rfl hnew)).code
    rwa [hint] at hcode
  · intro h rf hglob v hv
    obtain ⟨new, hnew', rfl⟩ := newSetpt_of_writesSetpt hv
    have hp32 : (rf.glob .polarity).setWidth 32 = p.setWidth 32 :=
      congrArg (BitVec.setWidth 32) hglob
    rw [hp32, hnew, Option.some.injEq] at hnew'
    rw [← hnew', hint, h]
    exact saturatedCode_clampedCode hbits

/-- With all scale factors `d`. -/
def scaledEnv (d : ℚ) : Env :=
  { unityEnv with scalefactors := fun _ => ⟨1, d, 1, 1, 1⟩ }

/-- A request of 100 A with a positive scale factor. -/
theorem saturates_high : Saturates (scaledEnv 1) 0 .ps1 100 :=
  (saturates_iff (scaledEnv 1) (.inr rfl) .ps1 (by decide) 0 rfl 100).mpr (.inl (by decide))

/-- With a negative scale factor a request of 0 A drives full scale. -/
theorem zero_not_saturates : ¬ Saturates (scaledEnv (-1)) 0 .ps1 0 := by
  intro h
  have hnew : newSetpt (scaledEnv (-1)) .ps1 0 0 = some 524282 := by decide +kernel
  set rf : RegFile :=
    { glob := fun _ => 0
      chan := fun _ r => if hr : r = .dac_opmode then hr ▸ 3#2 else 0 } with hrf
  have hcode := (h rf rfl _ (writesSetpt_jump rf rfl hnew)).code
  have hzero : clampedCode (scaledEnv (-1)) .ps1 0 = 0 := by decide +kernel
  rw [hzero] at hcode
  exact absurd hcode (by decide)

end Zpsc.Control
