import Zpsc.Control.SetDac

/-!
# Mode changes

A mode command writes the mode register, and from the next tick on `dac_setpt_raw` comes from the
generator of the new mode. Each generator holds its own last output and nothing carries over the
value of the mode before.
-/

namespace Zpsc.Control

open Clocked

variable {ram : Dpram} {cordic : Cordic}

/-- The channels after some run from the configuration of the FPGA. -/
def Reachable (s : DacCtrlr.System ram cordic) : Prop :=
  ∃ (table : Chan → ram.σ) (core : Chan → cordic.σ) (is : List DacCtrlr.In),
    s = run DacCtrlr.step
      ⟨⟨fun _ => 0, fun _ => false⟩, fun c => DacChan.configured (table c) (core c)⟩ is

/-- No ramp of the channel is active. -/
structure Inactive (s : DacChan ram cordic) : Prop where
  table : s.table.ramp_active = false
  cosine : s.cosine.smooth_active = false
  linear : s.linear.smooth_active = false

/-- From clock 0 on the registers are what the mode command leaves of `rf`, and the next tick comes
at clock `n`. -/
structure Commanded (e : Env) (rf : RegFile) (c : Chan) (new_opmode : BitVec 32)
    (inp : ℕ → DacCtrlr.In) (n : ℕ) : Prop where
  regs : ∀ t ≤ n, (inp t).psIo.regs = writeRegs rf c (Set_dacOpmode e c new_opmode)
  reset : ∀ t ≤ n, (inp t).reset = false
  first : ∀ t < n, (inp t).tenkhz_trig = false
  tick : (inp n).tenkhz_trig = true

/-- `dac_setpt_raw` after the tick at clock `n` is what it was at clock 0. -/
def KeepsRaw (s : DacCtrlr.System ram cordic) (c : Chan) (inp : ℕ → DacCtrlr.In) (n : ℕ) : Prop :=
  ((trace DacCtrlr.step s inp (n + 1)).chan c).dac_setpt_raw = (s.chan c).dac_setpt_raw

/-- The setpoint register of a channel. -/
def setptReg (rf : RegFile) (c : Chan) : BitVec 20 := rf.chan c .dac_setpt

/-- What the generator of the new mode holds. A linear ramp that finds the setpoint register changed
starts before the tick at clock `n`, from the calibrated setpoint. -/
def held (s : DacChan ram cordic) (rf : RegFile) (c : Chan) (new_opmode : BitVec 32) (n : ℕ) :
    BitVec 20 :=
  if new_opmode = JUMP then setptReg rf c
  else if new_opmode = RAMP then s.table.ramp_dac_setpt
  else if (rf.glob .smoothramp_type).getLsbD 0 then s.cosine.rampout
  else if 0 < n ∧ s.linear.new_setpt_prev ≠ setptReg rf c then s.gain.dac_setpt
  else s.linear.rampout

end Zpsc.Control
