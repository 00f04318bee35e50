import Mathlib.Algebra.Order.Floor.Ring
import Zpsc.Commands.ChanSettings
import Zpsc.Dac.Bumpless

/-!
# What a gain message sets

A gain message carries a number. The software multiplies it with `GAIN20BITFRACT` and writes the
product, converted to `u32`, to the register of the gain; `ps_io` takes the low 24 bits of the
register as a signed number in units of `2^-20`. Here the arithmetic is exact and a conversion out
of range has no result.
-/

namespace Zpsc.Commands

open CConv

/-- `chan_settings` on a gain message, in exact arithmetic. -/
def gain_settings (rf : RegFile) (c : Chan) (m : GainMsg) (g : ℚ) : Option RegFile := do
  let w ← toU32 (g * GAIN20BITFRACT)
  return rf.out32 (chanAddr c m.reg) w

/-- The gain that `ps_io` hands on: `signed(reg_o.psN_X_gain.val.data(23 downto 0))`, for the DAC,
the two DCCTs and the six monitors alike. -/
def appliedGain (rf : RegFile) (c : Chan) (m : GainMsg) : BitVec 24 :=
  (rf.chan c m.reg).extractLsb' 0 24

/-- The message succeeds, and the gain that is applied is `g` in units of `2^-20`, truncated. -/
def GainMeans (rf : RegFile) (c : Chan) (m : GainMsg) (g : ℚ) : Prop :=
  ∃ rf', gain_settings rf c m g = some rf' ∧ (appliedGain rf' c m).toInt = trunc (g * 2 ^ 20)

/-- The gains that survive: the fraction that truncation drops makes up for the unit that
`GAIN20BITFRACT` lacks, and no negative gain of one unit or more. -/
def GainFits (g : ℚ) : Prop :=
  if 0 ≤ g then g ≤ Int.fract (g * 2 ^ 20) else -1 < g * 2 ^ 20

/-- The codes of the converter: 20 or 18 bits. -/
def InConverterRange (numbits_sel : Bool) (raw : BitVec 20) : Prop :=
  numbits_sel = false → -2 ^ 17 ≤ raw.toInt ∧ raw.toInt < 2 ^ 17

end Zpsc.Commands
