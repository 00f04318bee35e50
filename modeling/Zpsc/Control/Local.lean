import Mathlib.Data.Rat.Defs
import Mathlib.Tactic.Common

/-!
# Constants and types of the software (`local.h`)

`float` and `double` are rationals here and in the modules of `Control`.
-/

namespace Zpsc.Control

def SAMPLERATE : ℚ := 10000

def CONVVOLTSTO16BITS : ℚ := 32768 / 10

def CONVVOLTSTO18BITS : ℚ := 131072 / 10

def CONVVOLTSTO20BITS : ℚ := 524288 / 10

/-- `ScaleFactorType`, less the fields that only readbacks use. -/
structure ScaleFactorType where
  /-- The rate of the smooth ramps. -/
  ampspersec : ℚ
  /-- Amperes per volt, for the setpoint and the DCCTs. -/
  dac_dccts : ℚ
  vout : ℚ
  ignd : ℚ
  error : ℚ

end Zpsc.Control
