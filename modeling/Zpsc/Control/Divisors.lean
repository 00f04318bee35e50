import Zpsc.Control.SetDac

/-!
# The divisors of the smooth ramp calculations

Neither `Calc_WriteRaisedCosineSmooth` nor `Calc_WriteLinearSmooth` looks at a divisor before it
divides. The values that a calculation divides by are followed here also past a conversion that C
leaves undefined, which the processor makes into the nearest value of the type.
-/

namespace Zpsc.Control

open CConv

namespace SmoothEnv

variable (e : SmoothEnv) (cur_setpt new_setpt : ℤ)

def percent_curved : ℚ := e.smoothramp_percentcurved.toNat / 100

def rampRate : ℚ := e.scalefactors.ampspersec / e.scalefactors.dac_dccts * e.CONVVOLTSTODACBITS

def rampDuration : ℚ :=
  let ramp_duration := |(new_setpt - cur_setpt : ℤ)| / e.rampRate
  if ramp_duration < 2 ∧ e.maindipole_mode = 1 then 2 else ramp_duration

def num_samples : BitVec 32 := satU32 (e.rampDuration cur_setpt new_setpt * SAMPLERATE)

def linear_pts : BitVec 32 :=
  satU32 ((1 - 2 * e.percent_curved) * e.rampDuration cur_setpt new_setpt * SAMPLERATE)

def curved_pts : BitVec 32 :=
  satU32 (e.percent_curved * e.rampDuration cur_setpt new_setpt * SAMPLERATE)

/-- The divisors in `Calc_WriteRaisedCosineSmooth`: of `ramp_rate`, `ramp_duration`, `smooth_len`
and `phase_inc`. -/
def cosineDivisors : List ℚ :=
  [e.scalefactors.dac_dccts, e.rampRate, e.rampRate, (e.num_samples cur_setpt new_setpt).toNat]

/-- The divisors in `Calc_WriteLinearSmooth`: of `percent_curved`, `ramp_rate`, `ramp_duration`,
`dy` and `dy_per_curve_pt`. -/
def linearDivisors : List ℚ :=
  [100, e.scalefactors.dac_dccts, e.rampRate,
    (e.curved_pts cur_setpt new_setpt + e.linear_pts cur_setpt new_setpt).toNat,
    (e.curved_pts cur_setpt new_setpt).toNat]

/-- Neither calculation divides by zero. -/
def NoZeroDivisor : Prop :=
  0 ∉ e.cosineDivisors cur_setpt new_setpt ∧ 0 ∉ e.linearDivisors cur_setpt new_setpt

/-! ## When a ramp has a sample in each section -/

/-- The number of samples that a ramp over `D` codes takes at the ramp rate, in main dipole mode at
least those of 2 seconds. It need not be an integer, and has the sign of the scale factor. -/
def samples (D : ℤ) : ℚ :=
  let n := |D| * e.scalefactors.dac_dccts * SAMPLERATE /
    (e.scalefactors.ampspersec * e.CONVVOLTSTODACBITS)
  if n < 2 * SAMPLERATE ∧ e.maindipole_mode = 1 then 2 * SAMPLERATE else n

/-- The number of points of a section that takes the part `r` of `n` samples, as far as 32 bits can
count. -/
def points (r n : ℚ) : ℤ := min (2 ^ 32 - 1) ⌊r * n⌋

/-- A ramp over `D` codes has a point in its curved sections, and the sum of the points of one of
them and of the linear section is not the `2^32` that is 0 in 32 bits. -/
def Sections (D : ℤ) : Prop :=
  1 ≤ e.percent_curved * e.samples D ∧
    points e.percent_curved (e.samples D) + points (1 - 2 * e.percent_curved) (e.samples D) ≠ 2 ^ 32

instance (D : ℤ) : Decidable (e.Sections D) := inferInstanceAs (Decidable (_ ∧ _))

end SmoothEnv

end Zpsc.Control
