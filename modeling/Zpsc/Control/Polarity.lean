import Zpsc.Control.SetDac

/-!
# Polarity in `Set_dac` and in the FPGA

`Set_dac` keeps the setpoint of a unipolar channel from going negative, and so does the FPGA. Each
takes the polarity of a channel from its own bit of the polarity register.
-/

namespace Zpsc.Control

open CConv Clocked

/-- The requested current, limited to the range of the DAC. -/
def limitedAmps (e : Env) (c : Chan) (amps : ℚ) : ℚ :=
  let d := (e.scalefactors c).dac_dccts
  if 99999 / 10000 * d < amps then 99999 / 10000 * d
  else if amps < -10 * d then -10 * d
  else amps

/-- The requested setpoint in bits, whatever the polarity. -/
def request (e : Env) (c : Chan) (amps : ℚ) : ℤ :=
  trunc (limitedAmps e c amps * e.CONVVOLTSTODACBITS / (e.scalefactors c).dac_dccts)

/-- The software and the registers after `n` accesses of a call of `Set_dac`; `cur k` is what the
readback registers show at access `k`. -/
def setDacCall (e : Env) (rf : RegFile) (c : Chan) (amps : ℚ) (cur : ℕ → Chan → BitVec 20) (n : ℕ) :
    Stage × RegFile :=
  trace (fun s cur => access e s.2 cur s.1) (.mode c amps, rf) cur n

/-- `Set_dac` writes `v` to the setpoint register of channel `c`. -/
def WritesSetpt (e : Env) (rf : RegFile) (c : Chan) (amps : ℚ) (v : BitVec 32) : Prop :=
  ∃ cur n ws, (setDacCall e rf c amps cur n).1 = .writes c ((.dac_setpt, v) :: ws)

/-- With `p` in the polarity register and in every operating mode, the setpoint register of a
channel that the FPGA takes for unipolar gets no negative value, and that of a bipolar one gets the
request. -/
def PolarityAgrees (e : Env) (p : BitVec 8) (c : Chan) (amps : ℚ) : Prop :=
  ∀ rf : RegFile, rf.glob .polarity = p → ∀ v, WritesSetpt e rf c amps v →
    ((PsIo.digCntrl rf c).polarity = true → 0 ≤ (v.setWidth 20).toInt) ∧
      ((PsIo.digCntrl rf c).polarity = false → (v.setWidth 20).toInt = request e c amps)

/-- The request is negative by a bit or more. With a negative scale factor the two limits of
`Set_dac` have changed places, and every current goes to one of them. -/
def NegativeRequest (e : Env) (c : Chan) (amps : ℚ) : Prop :=
  if 0 < (e.scalefactors c).dac_dccts then
    amps * e.CONVVOLTSTODACBITS ≤ -(e.scalefactors c).dac_dccts
  else amps ≤ 99999 / 10000 * (e.scalefactors c).dac_dccts

end Zpsc.Control
