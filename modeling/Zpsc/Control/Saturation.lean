import Zpsc.Control.Polarity

/-!
# The saturation of `Set_dac`

`Set_dac` limits the requested current to what the DAC can reach. It does so in amps, between the
two limits in volts times the scale factor.
-/

namespace Zpsc.Control

open CConv

/-- The range of the DAC in volts, as `Set_dac` has it. -/
def clampVolts (q : ℚ) : ℚ := max (-10) (min q (99999 / 10000))

/-- The code of a request that is limited in volts. -/
def clampedCode (e : Env) (c : Chan) (amps : ℚ) : ℤ :=
  trunc (clampVolts (amps / (e.scalefactors c).dac_dccts) * e.CONVVOLTSTODACBITS)

/-- Half the number of codes of the DAC. -/
def dacHalf (e : Env) : ℤ := if e.CONVVOLTSTODACBITS = CONVVOLTSTO18BITS then 2 ^ 17 else 2 ^ 19

/-- `v` is the limited request: a code of the DAC, with the sign of the request. -/
structure SaturatedCode (e : Env) (c : Chan) (amps : ℚ) (v : ℤ) : Prop where
  code : v = clampedCode e c amps
  /-- The codes of the DAC. -/
  range : -dacHalf e ≤ v ∧ v < dacHalf e
  nonneg : 0 < amps / (e.scalefactors c).dac_dccts → 0 ≤ v
  nonpos : amps / (e.scalefactors c).dac_dccts < 0 → v ≤ 0

/-- With `p` in the polarity register and in every operating mode, what `Set_dac` writes to the
setpoint register is the limited request. -/
def Saturates (e : Env) (p : BitVec 8) (c : Chan) (amps : ℚ) : Prop :=
  ∀ rf : RegFile, rf.glob .polarity = p → ∀ v, WritesSetpt e rf c amps v →
    SaturatedCode e c amps v.toInt

end Zpsc.Control
