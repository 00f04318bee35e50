import Zpsc.Control.SetDac

/-!
# Convergence of smooth ramps

When the ramp of a channel in smooth mode is idle and stays so, its output should be the setpoint
register, up to the rounding errors of the ramp that brought it there. The states in which a command
may come for that to hold, and the property along a run.
-/

namespace Zpsc.Control

open Bits Clocked CConv SmoothLinear

variable {ram : Dpram} {cordic : Cordic}

namespace World

def ramp (w : World ram cordic) (c : Chan) : Ramp := (w.hw.chan c).linear

def setpt (w : World ram cordic) (c : Chan) : BitVec 20 := w.regs.chan c .dac_setpt

def mode (w : World ram cordic) (c : Chan) : BitVec 2 := w.regs.chan c .dac_opmode

end World

/-- The ramp is at rest: it is idle and has taken the setpoint register as its target. -/
def AtRest (w : World ram cordic) (c : Chan) : Prop :=
  (w.ramp c).state = .IDLE ∧ (w.ramp c).new_setpt_prev = w.setpt c

/-- The output path of a channel has settled: from `dac_setpt_raw` to the readback every register
holds what `rampout` makes of it, and no limit acts on it. -/
structure Settled (w : World ram cordic) (c : Chan) : Prop where
  raw : (w.hw.chan c).dac_setpt_raw = (w.ramp c).rampout
  oc : (w.hw.chan c).gain.dac_setpt_oc =
    (w.hw.chan c).dac_setpt_raw - (w.regs.chan c .dac_setpt_offset).extractLsb' 0 20
  fs : (w.hw.chan c).gain.dac_setpt_fs =
    sresize 44 (w.hw.chan c).gain.dac_setpt_oc *
      sresize 44 ((w.regs.chan c .dac_setpt_gain).extractLsb' 0 24)
  dac_setpt : (w.hw.chan c).gain.dac_setpt = (w.hw.chan c).gain.dac_setpt_fs.extractLsb' 20 20
  sat : if (w.regs.glob .resolution).getLsbD 0 then
      (w.hw.chan c).gain.dac_setpt.msb = (w.hw.chan c).gain.dac_setpt_oc.msb
    else -131072 ≤ (w.hw.chan c).gain.dac_setpt.toInt ∧ (w.hw.chan c).gain.dac_setpt.toInt ≤ 131071
  wlim : (w.hw.chan c).dac_setpt_wlim = (w.hw.chan c).gain.dac_setpt
  polarity : ¬ ((PsIo.digCntrl w.regs c).polarity ∧ (w.hw.chan c).gain.dac_setpt.toInt < 0)
  rdbk : (w.hw.chan c).dac_data_rdbk = (w.hw.chan c).gain.dac_setpt
  bits : (if (w.regs.glob .resolution).getLsbD 0 then (w.hw.chan c).gain.dac_setpt
    else sresize 20 ((w.hw.chan c).gain.dac_setpt.extractLsb' 0 18)) = (w.hw.chan c).gain.dac_setpt

/-- The lengths and step sizes of a ramp from `cur` to `new` neither wrap nor are cut to 0. -/
structure Usable (cur new : ℤ) (r : LinearSmooth) : Prop where
  /-- The signed 32-bit lengths do not wrap. -/
  short : 2 * r.curved_pts.toNat + r.linear_pts.toNat < 2 ^ 31
  /-- The step of the curved sections is in range. -/
  curved : |new - cur| < 512 * (r.curved_pts.toNat + r.linear_pts.toNat) * r.curved_pts.toNat
  /-- The step of the linear section is in range. -/
  linear : r.linear_pts.toNat = 0 ∨
    |new - cur| < 512 * (r.curved_pts.toNat + r.linear_pts.toNat)

/-- A command in smooth mode may come: the last ramp is over, its end has reached the DAC readback,
and the ramp to `new` is usable. -/
structure SmoothOk (e : Env) (w : World ram cordic) (c : Chan) (new : ℤ) : Prop where
  rest : AtRest w c
  settled : Settled w c
  usable : ∃ r, linearSmooth (e.smooth c ((w.regs.glob .main_dipole).setWidth 32))
    (w.currsetpt c).toInt new = some r ∧ Usable (w.currsetpt c).toInt new r

/-- A setpoint command to channel `c` may come: in smooth mode as `SmoothOk` says; in jump mode it
keeps the register; in the other modes it does nothing. -/
def SetptOk (e : Env) (w : World ram cordic) (c : Chan) (amps : ℚ) : Prop :=
  ∃ new, newSetpt e c ((w.regs.glob .polarity).setWidth 32) amps = some new ∧
    (w.mode c = 3 → BitVec.ofInt 20 new = w.setpt c) ∧ (w.mode c = 0 → SmoothOk e w c new)

/-- The software may take a command. Mode commands and commands to other channels always may
come. -/
def CmdOk (e : Env) (w : World ram cordic) (c : Chan) : Cmd → Prop
  | .DAC_SETPT c' amps => c' = c → SetptOk e w c amps
  | .DAC_OPMODE _ _ => True

section Runs

variable (e : Env) (w : World ram cordic) (inp : ℕ → World.In) (c : Chan)

/-- The world before clock `t`. -/
def at_ (t : ℕ) : World ram cordic := trace (World.step e) w inp t

def Started (t : ℕ) : Prop :=
  ((at_ e w inp t).ramp c).state = .IDLE ∧ ((at_ e w inp (t + 1)).ramp c).state ≠ .IDLE

/-- `err` is a sum of rounding errors of the last ramp before clock `t`: at most a half for each of
the `C^2 + L` roundings that enter it. -/
def Rounding (t : ℕ) (err : ℤ) : Prop :=
  (∃ t0 < t, Started e w inp c t0 ∧ (∀ u, t0 < u → u < t → ¬ Started e w inp c u) ∧
    2 * |err| ≤ (rampParams (at_ e w inp t0).regs c).curved_len.toNat ^ 2 +
      (rampParams (at_ e w inp t0).regs c).linear_len.toNat) ∨
  ((∀ u < t, ¬ Started e w inp c u) ∧ err = 0)

/-- In smooth mode a ramp that is idle and stays idle for two clocks shows the setpoint register, up
to rounding. -/
def Converges : Prop :=
  ∀ t, (at_ e w inp t).mode c = 0 → ((at_ e w inp t).ramp c).state = .IDLE →
    ((at_ e w inp (t + 1)).ramp c).state = .IDLE → ((at_ e w inp (t + 2)).ramp c).state = .IDLE →
    ∃ err, Rounding e w inp c t err ∧
      ((at_ e w inp t).ramp c).rampout = codeOf (startLevel ((at_ e w inp t).setpt c) + err)

/-- The world a run starts in: the ramp of channel `c` shows its setpoint register, the software
waits, and linear ramps are selected. -/
structure Initial : Prop where
  rest : AtRest w c
  setpt_last : (w.ramp c).setpt_last = BitVec.ofInt 96 (startLevel (w.setpt c))
  sw : w.sw = .idle
  linear : (w.regs.glob .smoothramp_type).getLsbD 0 = false
  linear_sw : e.smoothramp_type ≠ 1
  bits : e.CONVVOLTSTODACBITS = CONVVOLTSTO18BITS ∨ e.CONVVOLTSTODACBITS = CONVVOLTSTO20BITS

/-- Every command that the software takes may come. -/
def Allowed : Prop :=
  ∀ t cmd, (at_ e w inp t).sw = .idle → (inp t).sw = .command cmd → CmdOk e (at_ e w inp t) c cmd

end Runs

end Zpsc.Control
