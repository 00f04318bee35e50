import Zpsc.Control.Polarity

/-!
# The setpoint of `Set_dac`

`newSetpt` is the request, inside the range of the DAC, or 0 if the software takes the channel for
unipolar and the request is negative.
-/

namespace Zpsc.Control

open CConv

variable {e : Env} {c : Chan} {amps : ℚ}

/-- `CONVVOLTSTODACBITS` as the software sets it for one of the two resolutions. -/
def DacBits (e : Env) : Prop :=
  e.CONVVOLTSTODACBITS = CONVVOLTSTO18BITS ∨ e.CONVVOLTSTODACBITS = CONVVOLTSTO20BITS

/-- The limits hold for either sign of the scale factor. -/
theorem limitedAmps_div_range (hd : (e.scalefactors c).dac_dccts ≠ 0) (amps : ℚ) :
    -10 ≤ limitedAmps e c amps / (e.scalefactors c).dac_dccts ∧
      limitedAmps e c amps / (e.scalefactors c).dac_dccts ≤ 99999 / 10000 := by
  simp only [limitedAmps]
  rcases lt_or_gt_of_ne hd with hneg | hpos
  · rw [le_div_iff_of_neg hneg, div_le_iff_of_neg hneg]
    split_ifs <;> constructor <;> linarith
  · rw [le_div_iff₀ hpos, div_le_iff₀ hpos]
    split_ifs <;> constructor <;> linarith

theorem trunc_range {q : ℚ} {n : ℤ} (hn : 0 < n) (h : -n ≤ q) (h' : q < n) :
    -n ≤ trunc q ∧ trunc q < n := by
  rw [trunc]
  split
  · next hpos =>
    have := Int.floor_nonneg.mpr hpos
    exact ⟨by omega, Int.floor_lt.mpr h'⟩
  · next hneg =>
    have hle : ⌈q⌉ ≤ 0 := Int.ceil_le.mpr (by push_cast; linarith)
    have hge : ((-n : ℤ) : ℚ) ≤ ⌈q⌉ := by
      push_cast
      exact h.trans (Int.le_ceil q)
    exact ⟨Int.cast_le.mp hge, by omega⟩

theorem request_range (hbits : DacBits e) (hd : (e.scalefactors c).dac_dccts ≠ 0) (amps : ℚ) :
    -2 ^ 19 ≤ request e c amps ∧ request e c amps < 2 ^ 19 := by
  obtain ⟨h1, h2⟩ := limitedAmps_div_range hd amps
  rw [request, mul_div_right_comm]
  refine trunc_range (by norm_num) ?_ ?_
  · rcases hbits with hb | hb <;> rw [hb] <;>
      norm_num [CONVVOLTSTO18BITS, CONVVOLTSTO20BITS] <;> linarith
  · rcases hbits with hb | hb <;> rw [hb] <;>
      norm_num [CONVVOLTSTO18BITS, CONVVOLTSTO20BITS] <;> linarith

theorem softPolarity_iff (p : BitVec 32) (n : ℕ) : (p >>> n) &&& 1 = 1 ↔ p.getLsbD n = true := by
  constructor
  · intro h
    have := congrArg (fun x => x.getLsbD 0) h
    simpa using this
  · intro h
    refine BitVec.eq_of_getLsbD_eq ?_
    intro j hj
    by_cases h0 : j = 0
    · subst h0
      simpa using h
    · simp [h0, BitVec.getLsbD_one]

/-- The setpoint is always defined, with a scale factor. -/
theorem newSetpt_eq (hbits : DacBits e) (hd : (e.scalefactors c).dac_dccts ≠ 0) (p : BitVec 32)
    (amps : ℚ) :
    newSetpt e c p amps =
      some (if p.getLsbD c.num = true ∧ request e c amps < 0 then 0 else request e c amps) := by
  obtain ⟨h1, h2⟩ := request_range hbits hd amps
  have hfit : -2 ^ 31 ≤ request e c amps ∧ request e c amps < 2 ^ 31 := ⟨by omega, by omega⟩
  have hs32 : toS32 (limitedAmps e c amps * e.CONVVOLTSTODACBITS / (e.scalefactors c).dac_dccts) =
      some (request e c amps) := if_pos hfit
  have hdiv : fdiv (limitedAmps e c amps * e.CONVVOLTSTODACBITS) (e.scalefactors c).dac_dccts =
      some (limitedAmps e c amps * e.CONVVOLTSTODACBITS / (e.scalefactors c).dac_dccts) := if_neg hd
  change (fdiv (limitedAmps e c amps * e.CONVVOLTSTODACBITS) _).bind _ = _
  rw [hdiv, Option.bind_some]
  change (toS32 _).bind _ = _
  rw [hs32, Option.bind_some]
  simp only [softPolarity_iff]
  rfl

/-- The setpoints of `Set_dac` are in the range of the DAC. -/
theorem newSetpt_range {p : BitVec 32} {new : ℤ} (hbits : DacBits e)
    (h : newSetpt e c p amps = some new) : -2 ^ 19 ≤ new ∧ new < 2 ^ 19 := by
  have hd : (e.scalefactors c).dac_dccts ≠ 0 := by
    intro h0
    simp [newSetpt, fdiv, h0] at h
  rw [newSetpt_eq hbits hd, Option.some.injEq] at h
  obtain ⟨h1, h2⟩ := request_range hbits hd amps
  rw [← h]
  split <;> omega

/-- A ramp rate of 1 A/s, 50 percent curved, all scale factors 1. -/
def unityEnv : Env where
  scalefactors := fun _ => ⟨1, 1, 1, 1, 1⟩
  CONVVOLTSTODACBITS := CONVVOLTSTO20BITS
  smoothramp_type := 0
  smoothramp_percentcurved := 50
  fofb_scalefactor := fun _ => 0

end Zpsc.Control
