import Zpsc.Fault.Digio
import Zpsc.Fault.FaultBlock

/-!
# The interlocks of the four channels (`fault_module.vhd`, `top.vhd`)

`Interlock` is the four fault blocks together with the digital outputs they gate, each block with
inputs of its own. `blockIn` is how `fault_module` picks the inputs of a channel's block from the
records and the shared vectors `rcom` and `rsts`, and `Top.step` closes the loop as `top.vhd` does,
with `rcom` from the digital outputs.
-/

namespace Zpsc

open FaultBlock

/-- Fault blocks and digital outputs. -/
structure Interlock where
  blocks : Chan → Block
  digio : Digio

namespace Interlock

/-- The inputs of the fault blocks and of the digital outputs. -/
structure In where
  /-- What each fault block gets. -/
  blk : Chan → FaultBlock.In
  reset : Bool
  ch34_dualmode : Bool
  dig_cntrl : Chan → DigCntrl

def faultStat (s : Interlock) (i : In) (c : Chan) : FaultStat :=
  stat (s.blocks c) (i.blk c).dig_cntrl.main_dipole

def digioIn (s : Interlock) (i : In) : Digio.In where
  reset := i.reset
  ch34_dualmode := i.ch34_dualmode
  fault := s.faultStat i
  dig_cntrl := i.dig_cntrl

/-- The commands to the supplies. -/
def rcom (s : Interlock) (i : In) : BitVec 20 := s.digio.rcom (s.digioIn i)

def step (s : Interlock) (i : In) : Interlock where
  blocks := fun c => FaultBlock.step (s.blocks c) (i.blk c)
  digio := s.digio.step (s.digioIn i)

end Interlock

namespace FaultModule

/-- The inputs of `fault_module`; of `dac_stat` only `dac_setpt` is read. -/
structure In where
  reset : Bool
  tenkhz_trig : Bool
  dig_cntrl : Chan → DigCntrl
  fault_params : Chan → FaultParams
  dcct_adcs : Chan → DcctAdcs
  mon_adcs : Chan → MonAdcs
  dac_setpt : Chan → BitVec 20
  rsts : BitVec 20

/-- The least bit of `rsts` that belongs to a channel's block. -/
def rstsLow : Chan → ℕ
  | .ps1 => 0
  | .ps2 => 4
  | .ps3 => 8
  | .ps4 => 12

/-- The bit of `rsts` connected to `dcct_fault`. -/
def dcctBit : Chan → ℕ
  | .ps1 => 16
  | .ps2 => 17
  | .ps3 => 18
  | .ps4 => 19

/-- The bit of `rcom` connected to `park`. -/
def parkBit : Chan → ℕ
  | .ps1 => 16
  | .ps2 => 16
  | .ps3 => 18
  | .ps4 => 19

def blockIn (i : In) (rcom : BitVec 20) (c : Chan) : FaultBlock.In where
  reset := i.reset
  tenkhz_trig := i.tenkhz_trig
  dig_cntrl := i.dig_cntrl c
  fault_params := i.fault_params c
  dcct_adcs := i.dcct_adcs c
  mon_adcs := i.mon_adcs c
  rsts := i.rsts.extractLsb' (rstsLow c) 4
  dcct_fault := i.rsts.getLsbD (dcctBit c)
  ac_on_out := (i.dig_cntrl c).on1
  park := rcom.getLsbD (parkBit c)
  dac_setpoint := i.dac_setpt c
  evr_flt_in := false

end FaultModule

namespace Top

/-- The inputs of the interlock in `top.vhd`. -/
structure In where
  /-- What `fault_module` gets. -/
  mod : FaultModule.In
  ch34_dualmode : Bool

/-- `rcom`, which the fault blocks read in turn: its park bits do not depend on them. -/
def rcom (s : Interlock) (i : In) : BitVec 20 :=
  s.digio.rcom
    { reset := i.mod.reset
      ch34_dualmode := i.ch34_dualmode
      fault := fun c => stat (s.blocks c) (i.mod.dig_cntrl c).main_dipole
      dig_cntrl := i.mod.dig_cntrl }

/-- The port maps of `fault_module` and `digio_logic`. -/
def interlockIn (s : Interlock) (i : In) : Interlock.In where
  blk := FaultModule.blockIn i.mod (rcom s i)
  reset := i.mod.reset
  ch34_dualmode := i.ch34_dualmode
  dig_cntrl := i.mod.dig_cntrl

def step (s : Interlock) (i : In) : Interlock := s.step (interlockIn s i)

def faultStat (s : Interlock) (i : In) (c : Chan) : FaultStat := s.faultStat (interlockIn s i) c

end Top

end Zpsc
