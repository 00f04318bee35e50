import Mathlib.Data.BitVec
import Zpsc.Commands.Qspi
import Zpsc.Control.ChanSettings
import Zpsc.Control.SetDac
import Zpsc.Net.PscMsg

/-!
# The command handlers (`control.c`)

Every handler as the sequence of its register writes, scale factor updates and flash transfers, for
any channel number and any message. Arithmetic is that of the processor, with the roundings to
`float` where C has them. Values that are only printed are left out, as is the loop at the end of
`Calc_WriteLinearSmooth`, which prints.
-/

namespace Zpsc.Commands

open Bits Effects Control PscMsg

/-- `htonl(msgptr[i])`. -/
def msgWord (msg : Buf) (i : ℕ) : BitVec 32 :=
  be32 (msg (4 * i)) (msg (4 * i + 1)) (msg (4 * i + 2)) (msg (4 * i + 3))

def DAC_CURRSETPT_REG : ℕ := 0x4C

section Arithmetic

variable {F : Type} [Fpu F]

open Fpu

/-- The product of two `float`s. -/
def mulF (x y : F) : F := float (x * y)

/-- The quotient of two `float`s. -/
def divF (x y : F) : F := float (x / y)

/-- An `s32` as a floating-point number. -/
def ofS32 (x : BitVec 32) : F := lit x.toInt

/-- A `u32` as a floating-point number. -/
def ofU32 (x : BitVec 32) : F := lit x.toNat

end Arithmetic

variable {φ : Type} (F : Type) [Fpu F]

open Fpu

/-- The bits per volt, a `float`. -/
def convvoltstodacbits : Sw φ F := Cmd.get fun s => single s.CONVVOLTSTODACBITS

def scalefactorF (chan : BitVec 32) (f : Sf) : Sw φ F :=
  Cmd.get fun s => single (s.scalefactors (chan - 1) f)

variable [FlashChip φ]

/-! ## Setpoints and modes -/

/-- `ramp_duration` of both smooth ramps, a `float`. -/
def rampDuration (chan new_setpt cur_setpt : BitVec 32) : Sw φ F := do
  let ampspersec ← scalefactorF F chan .ampspersec
  let dac_dccts ← scalefactorF F chan .dac_dccts
  let conv ← convvoltstodacbits F
  let ramp_rate := mulF (divF ampspersec dac_dccts) conv
  let ramp_duration := divF (float (ofS32 (new_setpt - cur_setpt).abs)) ramp_rate
  let maindipole_mode ← Xil_In32 GlobReg.main_dipole.offset
  return if lt ramp_duration (lit 2) ∧ maindipole_mode = 1 then lit 2 else ramp_duration

def Calc_WriteRaisedCosineSmooth (chan new_setpt : BitVec 32) : Sw φ Unit := do
  let cur_setpt ← Xil_In32 (chanReg chan DAC_CURRSETPT_REG)
  let ramp_duration ← rampDuration F chan new_setpt cur_setpt
  let num_samples := toU32 (ramp_duration * lit SAMPLERATE)
  let phase_inc : F := float (ofU32 (CORDIC_INIT_PHASE / num_samples))
  Xil_Out32 (chanReg chan ChanReg.dac_smooth_phaseinc.offset) (toU32 phase_inc)
  Xil_Out32 (chanReg chan ChanReg.dac_setpt.offset) new_setpt

/-- `if (abs(x) > 511) x = 0;`, then `(s64)llroundf(x * 281474976710656.0f)`. -/
def stepWord (x : F) : BitVec 64 :=
  let x := if (511 : ℤ) < (toS32 x).abs.toInt then lit 0 else x
  llroundf (float (x * lit (2 ^ 48)))

def Calc_WriteLinearSmooth (chan new_setpt : BitVec 32) : Sw φ Unit := do
  let percent ← Cmd.get fun s => s.smoothramp_percentcurved
  let percent_curved : F := float (lit percent.toNat / lit 100)
  let cur_setpt ← Xil_In32 (chanReg chan DAC_CURRSETPT_REG)
  let ramp_duration ← rampDuration F chan new_setpt cur_setpt
  let linear : F := mulF (float (lit 1 - mulF (lit 2) percent_curved)) ramp_duration
  let linear_pts := toU32 (linear * lit SAMPLERATE)
  let curved_pts := toU32 (mulF percent_curved ramp_duration * lit SAMPLERATE)
  let dy : F := ofS32 (new_setpt - cur_setpt) / ofU32 (curved_pts + linear_pts)
  let dy_per_curve_pt := dy / ofU32 curved_pts
  Xil_Out32 (chanReg chan ChanReg.dac_smooth_linear_len.offset) linear_pts
  Xil_Out32 (chanReg chan ChanReg.dac_smooth_curved_len.offset) curved_pts
  let dy_q16_48 := stepWord F dy
  Xil_Out32 (chanReg chan ChanReg.dac_smooth_dy_lo.offset) (dy_q16_48.extractLsb' 0 32)
  Xil_Out32 (chanReg chan ChanReg.dac_smooth_dy_hi.offset) (dy_q16_48.extractLsb' 32 32)
  let dy_per_pt_q16_48 := stepWord F dy_per_curve_pt
  Xil_Out32 (chanReg chan ChanReg.dac_smooth_dy_per_pt_lo.offset)
    (dy_per_pt_q16_48.extractLsb' 0 32)
  Xil_Out32 (chanReg chan ChanReg.dac_smooth_dy_per_pt_hi.offset)
    (dy_per_pt_q16_48.extractLsb' 32 32)
  Xil_Out32 (chanReg chan ChanReg.dac_setpt.offset) new_setpt

/-- The word that `1 / dac_dccts * CONVVOLTSTODACBITS` has as a `float`. -/
def fofbScalefactor (dac_dccts : BitVec 32) : Sw φ (BitVec 32) := do
  let conv ← convvoltstodacbits F
  return word (mulF (divF (lit 1) (single dac_dccts)) conv)

def Set_dacOpmode (chan new_opmode : BitVec 32) : Sw φ Unit :=
  if new_opmode = JUMP then
    Xil_Out32 (chanReg chan ChanReg.dac_opmode.offset) JUMP
  else if new_opmode = FOFB then do
    let dac_dccts ← scalefactor chan .dac_dccts
    let data ← fofbScalefactor F dac_dccts
    Xil_Out32 (chanReg chan ChanReg.fofb_scalefactor.offset) data
    Xil_Out32 (chanReg chan ChanReg.dac_opmode.offset) FOFB
  else if new_opmode = SMOOTH ∨ new_opmode = RAMP then
    Xil_Out32 (chanReg chan ChanReg.dac_opmode.offset) new_opmode
  else pure ()

/-- `new_setpt_amps` limited to what the DAC can reach, in bits. -/
def saturatedSetpt (conv dac_dccts new_setpt_amps : F) : BitVec 32 :=
  let high := lit (99999 / 10000) * dac_dccts
  let low := mulF (lit (-10)) dac_dccts
  let amps :=
    if lt high new_setpt_amps then float high
    else if lt new_setpt_amps low then low
    else new_setpt_amps
  toS32 (divF (mulF amps conv) dac_dccts)

def Set_dac (chan : BitVec 32) (new_setpt_amps : F) : Sw φ Unit := do
  let dac_mode ← Xil_In32 (chanReg chan ChanReg.dac_opmode.offset)
  let polarity_reg ← Xil_In32 GlobReg.polarity.offset
  let polarity := (polarity_reg >>> chan) &&& 1
  let dac_dccts ← scalefactorF F chan .dac_dccts
  let conv ← convvoltstodacbits F
  let new_setpt := saturatedSetpt F conv dac_dccts new_setpt_amps
  let new_setpt := if polarity = 1 ∧ new_setpt.toInt < 0 then 0 else new_setpt
  let smoothramp_type ← Cmd.get fun s => s.smoothramp_type
  if dac_mode = SMOOTH then
    if smoothramp_type = 1 then Calc_WriteRaisedCosineSmooth F chan new_setpt
    else Calc_WriteLinearSmooth F chan new_setpt
  else if dac_mode = JUMP then
    Xil_Out32 (chanReg chan ChanReg.dac_setpt.offset) new_setpt
  else pure ()

/-! ## The ramp table -/

/-- A table entry, limited to 20 or 18 bits as the register `RESOLUTION_REG` says. -/
def rampEntry (psc_resolution : BitVec 32) (conv dac_dccts data : F) : BitVec 32 :=
  let scaled_val := toS32 (divF (mulF data conv) dac_dccts)
  if psc_resolution = 1 ∧ (2 ^ 20 : ℤ) < scaled_val.abs.toInt then
    if 0 < scaled_val.toInt then 2 ^ 20 - 1 else -2 ^ 20
  else if psc_resolution = 0 ∧ (2 ^ 18 : ℤ) < scaled_val.abs.toInt then
    if 0 < scaled_val.toInt then 2 ^ 18 - 1 else -2 ^ 18
  else scaled_val

/-- One pass of the loop of `write_ramptable`. -/
def rampPoint (chan psc_resolution : BitVec 32) (i : ℕ) (data : BitVec 32) : Sw φ Unit := do
  let conv ← convvoltstodacbits F
  let dac_dccts ← scalefactorF F chan .dac_dccts
  let scaled_val := rampEntry F psc_resolution conv dac_dccts (single data)
  Xil_Out32 (chanReg chan ChanReg.dac_rampaddr.offset) (BitVec.ofNat 32 i)
  Xil_Out32 (chanReg chan ChanReg.dac_rampdata.offset) scaled_val

def write_ramptable (chan : BitVec 32) (msg : Buf) (msglen : BitVec 32) : Sw φ Unit :=
  let ramp_len := msglen / 4
  if 50000 < ramp_len.toNat then pure ()
  else do
    Xil_Out32 (chanReg chan ChanReg.dac_ramplen.offset) ramp_len
    let psc_resolution ← Xil_In32 GlobReg.resolution.offset
    (List.range ramp_len.toNat).forM fun i => rampPoint F chan psc_resolution i (msgWord msg i)

end Zpsc.Commands
