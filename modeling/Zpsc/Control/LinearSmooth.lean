import Zpsc.Bits.CConv
import Zpsc.Control.Local
import Zpsc.Dac.SmoothRun
import Zpsc.Regs

/-!
# The linear smooth ramp in software (`Calc_WriteLinearSmooth` in `control.c`)

The software computes the lengths of the three sections of a ramp and its two step sizes from the
current and the new setpoint, and writes them to the registers of the channel, the new setpoint
last.
-/

namespace Zpsc.Control

open CConv SmoothLinear

/-- What `Calc_WriteLinearSmooth` reads besides the setpoints: the scale factors of the channel, two
globals and the register `MAIN_DIPOLE_MODE_REG`. -/
structure SmoothEnv where
  scalefactors : ScaleFactorType
  /-- Codes of the DAC per volt. -/
  CONVVOLTSTODACBITS : ℚ
  /-- The part of a ramp that is curved, in percent. -/
  smoothramp_percentcurved : BitVec 8
  maindipole_mode : BitVec 32

/-- `ramp_rate`, in bits per second. -/
def SmoothEnv.ramp_rate (e : SmoothEnv) : Option ℚ := do
  let q ← fdiv e.scalefactors.ampspersec e.scalefactors.dac_dccts
  return q * e.CONVVOLTSTODACBITS

/-- `ramp_duration`, in seconds. In main dipole mode it is at least 2. -/
def SmoothEnv.ramp_duration (e : SmoothEnv) (cur_setpt new_setpt : ℤ) : Option ℚ := do
  let ramp_rate ← e.ramp_rate
  let ramp_duration ← fdiv |(new_setpt - cur_setpt : ℤ)| ramp_rate
  return if ramp_duration < 2 ∧ e.maindipole_mode = 1 then 2 else ramp_duration

/-- The lengths and the step sizes, before the guards. -/
structure LinearSmooth where
  /-- The points of the linear section. -/
  linear_pts : BitVec 32
  /-- The points of each of the curved sections. -/
  curved_pts : BitVec 32
  /-- The step of the linear section, in codes. -/
  dy : ℚ
  /-- What the step changes by at each point of a curved section. -/
  dy_per_curve_pt : ℚ
  deriving DecidableEq

/-- The calculation. The sum of the lengths is made in 32 bits. -/
def linearSmooth (e : SmoothEnv) (cur_setpt new_setpt : ℤ) : Option LinearSmooth := do
  let percent_curved : ℚ := e.smoothramp_percentcurved.toNat / 100
  let ramp_duration ← e.ramp_duration cur_setpt new_setpt
  let linear_pts ← toU32 ((1 - 2 * percent_curved) * ramp_duration * SAMPLERATE)
  let curved_pts ← toU32 (percent_curved * ramp_duration * SAMPLERATE)
  let dy ← fdiv (new_setpt - cur_setpt : ℤ) (curved_pts + linear_pts).toNat
  let dy_per_curve_pt ← fdiv dy curved_pts.toNat
  return ⟨linear_pts, curved_pts, dy, dy_per_curve_pt⟩

/-- `if (abs(x) > 511) x = 0;` where `abs` takes an `int`. -/
def guarded (x : ℚ) : Option ℚ := do
  let n ← toS32 x
  return if 511 < |n| then 0 else x

/-- A step size in units of `2^-48`. -/
def q16_48 (x : ℚ) : BitVec 64 := BitVec.ofInt 64 (llround (x * 2 ^ 48))

/-- The writes to the registers of a channel, in order; the step sizes are written as two words. -/
def smoothWrites (linear_pts curved_pts : BitVec 32) (dy_q16_48 dy_per_pt_q16_48 : BitVec 64)
    (new_setpt : BitVec 32) : List (ChanReg × BitVec 32) :=
  [(.dac_smooth_linear_len, linear_pts),
    (.dac_smooth_curved_len, curved_pts),
    (.dac_smooth_dy_lo, dy_q16_48.extractLsb' 0 32),
    (.dac_smooth_dy_hi, dy_q16_48.extractLsb' 32 32),
    (.dac_smooth_dy_per_pt_lo, dy_per_pt_q16_48.extractLsb' 0 32),
    (.dac_smooth_dy_per_pt_hi, dy_per_pt_q16_48.extractLsb' 32 32),
    (.dac_setpt, new_setpt)]

/-- `Calc_WriteLinearSmooth`: the writes it makes. -/
def Calc_WriteLinearSmooth (e : SmoothEnv) (cur_setpt new_setpt : ℤ) :
    Option (List (ChanReg × BitVec 32)) := do
  let r ← linearSmooth e cur_setpt new_setpt
  let dy ← guarded r.dy
  let dy_per_curve_pt ← guarded r.dy_per_curve_pt
  return smoothWrites r.linear_pts r.curved_pts (q16_48 dy) (q16_48 dy_per_curve_pt)
    (BitVec.ofInt 32 new_setpt)

def writeRegs (rf : RegFile) (c : Chan) (ws : List (ChanReg × BitVec 32)) : RegFile :=
  ws.foldl (fun rf w => rf.out32 (chanAddr c w.1) w.2) rf

/-- The parameters of a ramp in the registers of a channel. -/
def rampParams (rf : RegFile) (c : Chan) : Params where
  linear_len := rf.chan c .dac_smooth_linear_len
  curved_len := rf.chan c .dac_smooth_curved_len
  dy := (rf.chan c .dac_smooth_dy_hi : BitVec 32) ++ (rf.chan c .dac_smooth_dy_lo : BitVec 32)
  dy_per_pt :=
    (rf.chan c .dac_smooth_dy_per_pt_hi : BitVec 32) ++
      (rf.chan c .dac_smooth_dy_per_pt_lo : BitVec 32)

/-! ## Where a ramp lands -/

/-- Every undisturbed run from `cur` ends at `new`. -/
def LandsOn (p : Params) (cur new : BitVec 20) : Prop :=
  ∀ s inp, Ready new s → Undisturbed p cur new inp → RunEnds s inp new

/-- `dy` of a ramp over `D` codes in `N` points, rounded, in units of `2^-48`. -/
def linearStep (D : ℤ) (N : ℕ) : ℤ := llround (D / N * 2 ^ 48)

def curvedStep (D : ℤ) (N C : ℕ) : ℤ := llround (D / N / C * 2 ^ 48)

/-- The rounding errors of all steps of a ramp together. -/
def drift (D : ℤ) (C L : ℕ) : ℤ :=
  C ^ 2 * curvedStep D (C + L) C + L * linearStep D (C + L) - D * 2 ^ 48

/-- A ramp of fewer than `2^31` points lands on its target: no step size that is used is cut to 0,
and the rounding errors are together less than one code and not below zero. -/
structure ShortLands (D : ℤ) (C L : ℕ) : Prop where
  curved : |D| < 512 * (C + L) * C
  linear : L = 0 ∨ |D| < 512 * (C + L)
  drift_nonneg : 0 ≤ drift D C L
  drift_lt : drift D C L < 2 ^ 48

/-- A length as the ramp counts it: a 32-bit `signed`. -/
def signed32 (n : ℕ) : ℤ := (BitVec.ofNat 32 n).toInt

/-- The sum of the steps of a ramp whose sections have any lengths: `n1` steps of the first, `n2` of
the linear and `n3` of the last section are left after the wrap to 32 bits. -/
def travel (D : ℤ) (C L : ℕ) : ℤ :=
  let N : ℕ := (C + L) % 2 ^ 32
  let P := if 512 * (N * C) ≤ |D| then 0 else curvedStep D N C
  let Q := if 512 * N ≤ |D| then 0 else linearStep D N
  let n1 := max 0 (signed32 C)
  let n2 := max 0 (signed32 (C + L) - n1)
  let n3 := max 0 (signed32 (2 * C + L) - (n1 + n2))
  P * (n1 * (n1 - 1) / 2) + Q * n2 + P * (n3 * (n3 + 1) / 2)

/-- The condition for a ramp from `cur` to `new` with `C` and `L` points to land on `new`. -/
def Lands (cur new : BitVec 20) (C L : ℕ) : Prop :=
  let D := new.toInt - cur.toInt
  (2 * C + L < 2 ^ 31 ∧ ShortLands D C L) ∨
    (2 ^ 31 ≤ 2 * C + L ∧ codeOf (startLevel cur + travel D C L) = new)

end Zpsc.Control
