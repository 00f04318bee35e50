import Zpsc.PsIo

/-!
# The DAC channels behind the registers (`dac_ctrlr.vhd`, `top.vhd`)

The four DAC channels with the register wiring of `ps_io` in front of them, and what it means that a
channel depends on its own registers only.
-/

namespace Zpsc.DacCtrlr

open Clocked

/-- The DAC channels and the setpoint registers of `ps_io`. -/
structure System (ram : Dpram) (cordic : Cordic) where
  psIo : PsIo.SetpointRegs
  chan : Chan → DacChan ram cordic

structure In where
  reset : Bool
  tenkhz_trig : Bool
  psIo : PsIo.In
  fofb_setpt : Chan → BitVec 20

variable {ram : Dpram} {cordic : Cordic}

def dacCntrl (s : System ram cordic) (i : In) (c : Chan) : DacCntrl := PsIo.dacCntrl s.psIo i.psIo c

def chanIn (s : System ram cordic) (i : In) (c : Chan) : DacChan.In where
  reset := i.reset
  tenkhz_trig := i.tenkhz_trig
  dig_cntrl := PsIo.digCntrl i.psIo.regs c
  fofb_dac_setpt := i.fofb_setpt c
  dac_numbits_sel := (i.psIo.regs.glob .resolution).getLsbD 0
  smoothramp_type := (i.psIo.regs.glob .smoothramp_type).getLsbD 0
  dac_cntrl := dacCntrl s i c

def step (s : System ram cordic) (i : In) : System ram cordic where
  psIo := PsIo.step s.psIo i.psIo
  chan := fun c => DacChan.step (s.chan c) (chanIn s i c)

/-- Two inputs agree on the global registers and on what belongs to channel `c`. -/
structure SameChannel (c : Chan) (i i' : In) : Prop where
  reset : i.reset = i'.reset
  tenkhz_trig : i.tenkhz_trig = i'.tenkhz_trig
  glob : i.psIo.regs.glob = i'.psIo.regs.glob
  chan : i.psIo.regs.chan c = i'.psIo.regs.chan c
  rampdata_swacc : i.psIo.rampdata_swacc c = i'.psIo.rampdata_swacc c
  runramp_swacc : i.psIo.runramp_swacc c = i'.psIo.runramp_swacc c
  inj_trig : i.psIo.inj_trig = i'.psIo.inj_trig
  fofb_setpt : i.fofb_setpt c = i'.fofb_setpt c

/-- Two systems in which channel `c` is in the same state. -/
structure SameState (c : Chan) (s s' : System ram cordic) : Prop where
  setpoint_last : s.psIo.setpoint_last c = s'.psIo.setpoint_last c
  setpoint_changed : s.psIo.setpoint_changed c = s'.psIo.setpoint_changed c
  chan : s.chan c = s'.chan c

/-- The two runs cannot be told apart at channel `c`: the record `dac_cntrl` and the whole state of
the channel, with its ramp generators and its DAC codes, are the same at every clock. -/
def SameTrajectory (c : Chan) (s s' : System ram cordic) (inp inp' : ℕ → In) : Prop :=
  ∀ t, dacCntrl (trace step s inp t) (inp t) c = dacCntrl (trace step s' inp' t) (inp' t) c ∧
    (trace step s inp t).chan c = (trace step s' inp' t).chan c

end Zpsc.DacCtrlr
