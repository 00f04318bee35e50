import Zpsc.Control.LinearSmooth
import Zpsc.Dac.DacCtrlr

/-!
# Setpoint and mode commands (`Set_dac`, `Set_dacOpmode` in `control.c`)

The software serves one command at a time. A command is a sequence of accesses to the register bus
with calculations between them; the FPGA runs on while the software makes them. `Stage` is where the
software stands between two accesses, and `World.step` one clock of the FPGA in which the software
may make an access.
-/

namespace Zpsc.Control

open CConv Clocked

def SMOOTH : BitVec 32 := 0

def RAMP : BitVec 32 := 1

def FOFB : BitVec 32 := 2

def JUMP : BitVec 32 := 3

/-- The globals that the commands read. `fofb_scalefactor` is the `float` word of
`1 / dac_dccts * CONVVOLTSTODACBITS`. -/
structure Env where
  scalefactors : Chan → ScaleFactorType
  /-- Codes of the DAC per volt. -/
  CONVVOLTSTODACBITS : ℚ
  /-- 1 is cosine, all else linear. -/
  smoothramp_type : BitVec 8
  /-- The part of a linear ramp that is curved, in percent. -/
  smoothramp_percentcurved : BitVec 8
  fofb_scalefactor : Chan → BitVec 32

namespace Env

/-- What the smooth ramp calculations of channel `c` read. -/
def smooth (e : Env) (c : Chan) (maindipole_mode : BitVec 32) : SmoothEnv where
  scalefactors := e.scalefactors c
  CONVVOLTSTODACBITS := e.CONVVOLTSTODACBITS
  smoothramp_percentcurved := e.smoothramp_percentcurved
  maindipole_mode := maindipole_mode

end Env

def CORDIC_INIT_PHASE : BitVec 32 := 421657300

/-- `Calc_WriteRaisedCosineSmooth`: the writes it makes. `phase_inc` is a `float`. -/
def Calc_WriteRaisedCosineSmooth (e : SmoothEnv) (cur_setpt new_setpt : ℤ) :
    Option (List (ChanReg × BitVec 32)) := do
  let ramp_duration ← e.ramp_duration cur_setpt new_setpt
  let num_samples ← toU32 (ramp_duration * SAMPLERATE)
  if num_samples = 0 then none
  else
    let phase_inc := toFloat (CORDIC_INIT_PHASE / num_samples).toNat
    return [(.dac_smooth_phaseinc, BitVec.ofNat 32 phase_inc),
      (.dac_setpt, BitVec.ofInt 32 new_setpt)]

/-- The calculation of `Set_dac` in smooth mode. -/
def calcSmooth (e : Env) (c : Chan) (maindipole_mode : BitVec 32) (cur_setpt new_setpt : ℤ) :
    Option (List (ChanReg × BitVec 32)) :=
  if e.smoothramp_type = 1 then
    Calc_WriteRaisedCosineSmooth (e.smooth c maindipole_mode) cur_setpt new_setpt
  else Calc_WriteLinearSmooth (e.smooth c maindipole_mode) cur_setpt new_setpt

/-- `new_setpt` of `Set_dac`: limited to the range of the DAC, in bits, not negative if the channel
is unipolar. -/
def newSetpt (e : Env) (c : Chan) (polarity_reg : BitVec 32) (amps : ℚ) : Option ℤ := do
  let d := (e.scalefactors c).dac_dccts
  let new_setpt_amps :=
    if 99999 / 10000 * d < amps then 99999 / 10000 * d
    else if amps < -10 * d then -10 * d
    else amps
  let q ← fdiv (new_setpt_amps * e.CONVVOLTSTODACBITS) d
  let new_setpt ← toS32 q
  let polarity := (polarity_reg >>> c.num) &&& 1
  return if polarity = 1 ∧ new_setpt < 0 then 0 else new_setpt

/-- `Set_dacOpmode`: the writes it makes. -/
def Set_dacOpmode (e : Env) (c : Chan) (new_opmode : BitVec 32) : List (ChanReg × BitVec 32) :=
  if new_opmode = JUMP then [(.dac_opmode, JUMP)]
  else if new_opmode = FOFB then
    [(.fofb_scalefactor, e.fofb_scalefactor c), (.dac_opmode, FOFB)]
  else if new_opmode = SMOOTH ∨ new_opmode = RAMP then [(.dac_opmode, new_opmode)]
  else []

/-- Where the software stands: between commands, or before an access. -/
inductive Stage where
  /-- Waits for a command. -/
  | idle
  /-- `Set_dac` is about to read the mode. -/
  | mode (c : Chan) (new_setpt_amps : ℚ)
  /-- `Set_dac` is about to read the polarity. -/
  | polarity (c : Chan) (new_setpt_amps : ℚ) (dac_mode : BitVec 32)
  /-- The smooth ramp calculation is about to read the current setpoint. -/
  | cur (c : Chan) (new_setpt : ℤ)
  /-- The smooth ramp calculation is about to read the main dipole mode. -/
  | dipole (c : Chan) (new_setpt cur_setpt : ℤ)
  /-- The writes that are left. -/
  | writes (c : Chan) (ws : List (ChanReg × BitVec 32))
  /-- Undefined behaviour: a conversion out of range or a division by zero. -/
  | undefined

/-- The next access of the software. `currsetpt` is what the register `DAC_CURRSETPT_REG` of a
channel shows. -/
def access (e : Env) (rf : RegFile) (currsetpt : Chan → BitVec 20) : Stage → Stage × RegFile
  | .idle => (.idle, rf)
  | .mode c amps => (.polarity c amps ((rf.chan c .dac_opmode).setWidth 32), rf)
  | .polarity c amps dac_mode =>
    match newSetpt e c ((rf.glob .polarity).setWidth 32) amps with
    | none => (.undefined, rf)
    | some new_setpt =>
      if dac_mode = SMOOTH then (.cur c new_setpt, rf)
      else if dac_mode = JUMP then (.writes c [(.dac_setpt, BitVec.ofInt 32 new_setpt)], rf)
      else (.idle, rf)
  | .cur c new_setpt => (.dipole c new_setpt (currsetpt c).toInt, rf)
  | .dipole c new_setpt cur_setpt =>
    match calcSmooth e c ((rf.glob .main_dipole).setWidth 32) cur_setpt new_setpt with
    | none => (.undefined, rf)
    | some ws => (.writes c ws, rf)
  | .writes _ [] => (.idle, rf)
  | .writes c (w :: ws) => (.writes c ws, rf.out32 (chanAddr c w.1) w.2)
  | .undefined => (.undefined, rf)

inductive Cmd where
  | DAC_SETPT (c : Chan) (amps : ℚ)
  | DAC_OPMODE (c : Chan) (new_opmode : BitVec 32)

/-- The stage in which a command starts. -/
def Cmd.start (e : Env) : Cmd → Stage
  | .DAC_SETPT c amps => .mode c amps
  | .DAC_OPMODE c new_opmode => .writes c (Set_dacOpmode e c new_opmode)

/-- What the software does in a clock: nothing, its next access, or taking a command, which it does
only when it waits for one. -/
inductive SwAct where
  | none
  | access
  | command (cmd : Cmd)

/-- The FPGA, its registers and the software. -/
structure World (ram : Dpram) (cordic : Cordic) where
  /-- The registers of the FPGA that the software does not write. -/
  hw : DacCtrlr.System ram cordic
  /-- Those that it does. -/
  regs : RegFile
  /-- How far the software is with a command. -/
  sw : Stage

namespace World

variable {ram : Dpram} {cordic : Cordic}

structure In where
  tenkhz_trig : Bool
  rampdata_swacc : Chan → Bool
  runramp_swacc : Chan → Bool
  inj_trig : Bool
  fofb_setpt : Chan → BitVec 20
  /-- What the software does in the clock. -/
  sw : SwAct

def hwIn (w : World ram cordic) (i : In) : DacCtrlr.In where
  reset := false
  tenkhz_trig := i.tenkhz_trig
  psIo := ⟨w.regs, i.rampdata_swacc, i.runramp_swacc, i.inj_trig⟩
  fofb_setpt := i.fofb_setpt

def currsetpt (w : World ram cordic) (c : Chan) : BitVec 20 := (w.hw.chan c).dac_stat.dac_setpt

/-- What the software does to itself and to the registers. -/
def swStep (e : Env) (w : World ram cordic) : SwAct → Stage × RegFile
  | .none => (w.sw, w.regs)
  | .access => Control.access e w.regs w.currsetpt w.sw
  | .command cmd =>
    match w.sw with
    | .idle => (cmd.start e, w.regs)
    | _ => (w.sw, w.regs)

/-- One clock. The FPGA sees a write from the next clock on. -/
def step (e : Env) (w : World ram cordic) (i : In) : World ram cordic where
  hw := DacCtrlr.step w.hw (w.hwIn i)
  regs := (w.swStep e i.sw).2
  sw := (w.swStep e i.sw).1

end World

end Zpsc.Control
