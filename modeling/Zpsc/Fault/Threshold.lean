import Zpsc.Fault.FaultBlock

/-!
# The analog checks of `fault_block`

Bits 0 to 5 compare the absolute value of a reading with the absolute value of a threshold. The
checks differ in the reading, the threshold and their width, and in the gate of the loop error
checks.
-/

namespace Zpsc.FaultBlock

open Bits

/-- The analog checks. -/
inductive AnalogBit where
  | ovc1 | ovc2 | ovv | err1 | err2 | ignd
  deriving DecidableEq, Repr

namespace AnalogBit

def bit : AnalogBit → FaultBit
  | ovc1 => .ovc1
  | ovc2 => .ovc2
  | ovv => .ovv
  | err1 => .err1
  | err2 => .err2
  | ignd => .ignd

/-- The width of the reading and of its threshold. -/
def width : AnalogBit → ℕ
  | ovc1 | ovc2 => 20
  | ovv | err1 | err2 | ignd => 16

def reading (i : In) : (a : AnalogBit) → BitVec a.width
  | ovc1 => i.dcct_adcs.dcct0
  | ovc2 => i.dcct_adcs.dcct1
  | ovv => i.mon_adcs.voltage
  | err1 => i.mon_adcs.ps_error
  | err2 => i.mon_adcs.ps_error
  | ignd => i.mon_adcs.ignd

def thresh (i : In) : (a : AnalogBit) → BitVec a.width
  | ovc1 => i.fault_params.ovc1_thresh
  | ovc2 => i.fault_params.ovc2_thresh
  | ovv => i.fault_params.ovv_thresh
  | err1 => i.fault_params.err1_thresh
  | err2 => i.fault_params.err2_thresh
  | ignd => i.fault_params.ignd_thresh

/-- The check is made at all. -/
def made (s : Block) (i : In) : AnalogBit → Bool
  | err1 | err2 => errChecked s i
  | _ => true

/-- The test of the check is the comparison of the absolute values over the integers. -/
def Exact (s : Block) (i : In) (a : AnalogBit) : Prop :=
  cond s i a.bit = (a.made s i && decide (|(a.thresh i).toInt| ≤ |(a.reading i).toInt|))

end AnalogBit

end Zpsc.FaultBlock
