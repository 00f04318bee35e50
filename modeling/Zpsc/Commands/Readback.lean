import Zpsc.Commands.Exact
import Zpsc.Commands.Sadata
import Zpsc.Commands.Saved

/-!
# What the status frame says of the settings

For most settings there is a field of message 31 with the name of the message that sets it. The
field is read from a register or a scale factor, in the units of the message. Arithmetic is exact.
-/

namespace Zpsc.Commands

open Bits Effects Control CConv

/-! ## The fields and the messages -/

/-- The field with the name of a message. -/
def ChanMsg.field : ChanMsg → Option SaChanField
  | .word .FAULT_MASK_MSG => some .fault_mask
  | .word .DIGOUT_ON1_MSG => some .digout_on1
  | .word .DIGOUT_ON2_MSG => some .digout_on2
  | .word .DIGOUT_RESET_MSG => some .digout_reset
  | .word .DIGOUT_SPARE_MSG => some .digout_spare
  | .word .DIGOUT_PARK_MSG => some .digout_park
  | .FAULT_CLEAR_MSG => some .fault_clear
  | .gain .DAC_SETPT_GAIN_MSG => some .dac_setpt_gain
  | .gain .DCCT1_GAIN_MSG => some .dcct1_gain
  | .gain .DCCT2_GAIN_MSG => some .dcct2_gain
  | .gain .DACMON_GAIN_MSG => some .dacmon_gain
  | .gain .VOLT_GAIN_MSG => some .volt_gain
  | .gain .GND_GAIN_MSG => some .gnd_gain
  | .gain .SPARE_GAIN_MSG => some .spare_gain
  | .gain .REG_GAIN_MSG => some .reg_gain
  | .gain .ERR_GAIN_MSG => some .error_gain
  | .offset .DAC_SETPT_OFFSET_MSG => some .dac_setpt_offset
  | .offset .DCCT1_OFFSET_MSG => some .dcct1_offset
  | .offset .DCCT2_OFFSET_MSG => some .dcct2_offset
  | .offset .DACMON_OFFSET_MSG => some .dacmon_offset
  | .offset .VOLT_OFFSET_MSG => some .volt_offset
  | .offset .GND_OFFSET_MSG => some .gnd_offset
  | .offset .SPARE_OFFSET_MSG => some .spare_offset
  | .offset .REG_OFFSET_MSG => some .reg_offset
  | .offset .ERR_OFFSET_MSG => some .error_offset
  | .prot .OVC1_THRESH_MSG => some .ovc1_thresh
  | .prot .OVC2_THRESH_MSG => some .ovc2_thresh
  | .prot .OVV_THRESH_MSG => some .ovv_thresh
  | .prot .ERR1_THRESH_MSG => some .err1_thresh
  | .prot .ERR2_THRESH_MSG => some .err2_thresh
  | .prot .IGND_THRESH_MSG => some .ignd_thresh
  | .prot .OVC1_CNTLIM_MSG => some .ovc1_cntlim
  | .prot .OVC2_CNTLIM_MSG => some .ovc2_cntlim
  | .prot .OVV_CNTLIM_MSG => some .ovv_cntlim
  | .prot .ERR1_CNTLIM_MSG => some .err1_cntlim
  | .prot .ERR2_CNTLIM_MSG => some .err2_cntlim
  | .prot .IGND_CNTLIM_MSG => some .ignd_cntlim
  | .prot .DCCT_CNTLIM_MSG => some .dcct_cntlim
  | .prot .FLT1_CNTLIM_MSG => some .flt1_cntlim
  | .prot .FLT2_CNTLIM_MSG => some .flt2_cntlim
  | .prot .FLT3_CNTLIM_MSG => some .flt3_cntlim
  | .prot .ON_CNTLIM_MSG => some .on_cntlim
  | .HEART_CNTLIM_MSG => some .heartbeat_cntlim
  | .sf .SF_AMPS_PER_SEC_MSG => some .sf_ampspersec
  | .sf .SF_VOUT_MSG => some .sf_vout
  | .sf .SF_IGND_MSG => some .sf_ignd
  | .sf .SF_SPARE_MSG => some .sf_spare
  | .sf .SF_REGULATOR_MSG => some .sf_regulator
  | .sf .SF_ERROR_MSG => some .sf_error
  | .SF_DAC_DCCTS_MSG => some .sf_dac_dccts
  | _ => none

/-- The word of a field in the bytes of the frame. -/
def frameWord (msg : List Byte) (c : Chan) (f : SaChanField) : BitVec 32 :=
  let i := SaField.all.length + SaChanField.all.length * (c.num - 1) + SaChanField.all.idxOf f
  be32 (msg.getD (4 * i) 0) (msg.getD (4 * i + 1) 0) (msg.getD (4 * i + 2) 0)
    (msg.getD (4 * i + 3) 0)

/-! ## Histories -/

/-- Where a message puts its value: a register of the channel, or a scale factor. -/
inductive Setting where
  | reg (r : ChanReg)
  | sf (f : Sf)

def ChanMsg.setting : ChanMsg → Option Setting
  | .word m => some (.reg m.reg)
  | .FAULT_CLEAR_MSG => some (.reg .fault_clear)
  | .gain m => some (.reg m.reg)
  | .offset m => some (.reg m.reg)
  | .prot m => some (.reg m.reg)
  | .HEART_CNTLIM_MSG => some (.reg .heartbeat_cntlim)
  | .sf m => some (.sf m.field)
  | .SF_DAC_DCCTS_MSG => some (.sf .dac_dccts)
  | _ => none

/-- The setting is among those in flash. -/
def Setting.Saved : Setting → Prop
  | .reg r => r ∈ qspiRegs
  | .sf _ => True

/-- A command for one of the channels, if it is for a channel, that finds on its stack locals of the
sizes that they have. -/
structure Command.Proper (cmd : Command) : Prop where
  numbered : cmd.Numbered
  sized : ∃ k : Locals, k.toStack = cmd.stack

/-- The command sets, by the message `m`, a value of channel `c`. In main dipole mode the faults of
all channels are cleared at once. -/
def Command.Sets (maindipole_mode : BitVec 32) (c : Chan) (m : ChanMsg) (data : BitVec 32)
    (cmd : Command) : Prop :=
  cmd.chanMsg = some (c.u32, m, data) ∨
    (m = .FAULT_CLEAR_MSG ∧ maindipole_mode = 1 ∧ ∃ c' : Chan, cmd.chanMsg = some (c'.u32, m, data))

/-- The command replaces a setting of channel `c` by the one in flash. -/
def Command.Restores (c : Chan) (t : Setting) (cmd : Command) : Prop :=
  cmd.chanMsg = some (c.u32, .READ_QSPI_MSG, 1) ∧ t.Saved

/-- The message `m` with `data`, after the commands `pre`, is the last of `cmds` that sets its
value. -/
def LastSets (maindipole_mode : BitVec 32) (cmds : List Command) (c : Chan) (m : ChanMsg)
    (data : BitVec 32) (pre : List Command) : Prop :=
  ∃ cmd post, cmds = pre ++ cmd :: post ∧ cmd.Sets maindipole_mode c m data ∧
    ∀ cmd' ∈ post, (∀ data', ¬ cmd'.Sets maindipole_mode c m data') ∧
      ∀ t, m.setting = some t → ¬ cmd'.Restores c t

/-! ## The truth of a field -/

section Truth

variable (dec : BitVec 32 → ℚ) (enc : ℚ → BitVec 32)

/-- The word stands for a number at most `step` away from `v`. -/
def Near (w : BitVec 32) (v step : ℚ) : Prop := ∃ x : ℚ, w = enc x ∧ |x - v| ≤ step

variable {φ : Type} (CONVDACBITSTOVOLTS : BitVec 32) (s₁ s : Psc φ) (c : Chan) (data w : BitVec 32)

/-- The scale factor is not zero, and the same in both states. -/
def SfKept (f : Sf) : Prop :=
  s₁.scalefactors (c.u32 - 1) f = s.scalefactors (c.u32 - 1) f ∧
    dec (s.scalefactors (c.u32 - 1) f) ≠ 0

/-- One bit of the DAC or of the 16-bit ADC, in the units of a scale factor. -/
def bitStep (dac : Bool) (f : Sf) : ℚ :=
  (if dac then |dec CONVDACBITSTOVOLTS| else 1 / CONVVOLTSTO16BITS) *
    |dec (s.scalefactors (c.u32 - 1) f)|

/-- `v` in bits of the DAC or of the 16-bit ADC. -/
def bitsOf (dac : Bool) (f : Sf) (v : ℚ) : ℚ :=
  v * (if dac then dec s.CONVVOLTSTODACBITS else CONVVOLTSTO16BITS) /
    dec (s.scalefactors (c.u32 - 1) f)

/-- An offset: signed, in 32 bits. -/
def OffsetTruth (dac : Bool) (f : Sf) : Prop :=
  SfKept dec s₁ s c f → -2 ^ 31 ≤ trunc (bitsOf dec s c dac f (dec data)) →
    trunc (bitsOf dec s c dac f (dec data)) < 2 ^ 31 →
      Near enc w (dec data) (bitStep dec CONVDACBITSTOVOLTS s c dac f)

/-- A gain: not negative, in 32 bits with a sign. -/
def GainTruth : Prop :=
  0 ≤ dec data → trunc (dec data * GAIN20BITFRACT) < 2 ^ 31 →
    Near enc w (dec data) (1 / GAIN20BITFRACT)

/-- A threshold: its absolute value, below `bound` bits. -/
def ThreshTruth (dac : Bool) (f : Sf) (bound : ℤ) : Prop :=
  SfKept dec s₁ s c f → |trunc (bitsOf dec s c dac f (dec data))| < bound →
    Near enc w |dec data| (bitStep dec CONVDACBITSTOVOLTS s c dac f)

/-- A count limit: not negative, in 16 bits. -/
def CntlimTruth : Prop :=
  0 ≤ dec data → trunc (dec data * SAMPLERATE) < 2 ^ 16 →
    Near enc w (dec data) (1 / SAMPLERATE)

/-- The word `w` tells the truth about the value that the message `m` has set in state `s₁`, when it
is read in state `s`. -/
def ChanMsg.Truth : ChanMsg → Prop
  | .word m => w = (data.setWidth m.reg.width).setWidth 32
  | .FAULT_CLEAR_MSG => w = (data.setWidth ChanReg.fault_clear.width).setWidth 32
  | .sf _ => w = enc (dec data)
  | .SF_DAC_DCCTS_MSG => w = enc (dec data)
  | .gain _ => GainTruth dec enc data w
  | .offset m =>
    OffsetTruth dec enc CONVDACBITSTOVOLTS s₁ s c data w m.dacBits m.scalefactor
  | .prot .OVC1_THRESH_MSG | .prot .OVC2_THRESH_MSG =>
    ThreshTruth dec enc CONVDACBITSTOVOLTS s₁ s c data w true .dac_dccts (2 ^ 20)
  | .prot .OVV_THRESH_MSG =>
    ThreshTruth dec enc CONVDACBITSTOVOLTS s₁ s c data w false .vout (2 ^ 15)
  | .prot .ERR1_THRESH_MSG | .prot .ERR2_THRESH_MSG =>
    ThreshTruth dec enc CONVDACBITSTOVOLTS s₁ s c data w false .error (2 ^ 15)
  | .prot .IGND_THRESH_MSG =>
    ThreshTruth dec enc CONVDACBITSTOVOLTS s₁ s c data w false .ignd (2 ^ 15)
  | .prot _ => CntlimTruth dec enc data w
  | .HEART_CNTLIM_MSG => CntlimTruth dec enc data w
  | _ => True

end Truth

variable (dec : BitVec 32 → ℚ) (enc : ℚ → BitVec 32)

/-- In the frame that is built after the commands, every field of channel `c` tells the truth about
the value last set by the message of its name. -/
def Truthful (CONVDACBITSTOVOLTS : BitVec 32) (old : SAdataMsg) (s₀ : Psc Nor)
    (cmds : List Command) (c : Chan) : Prop :=
  let s := Command.runAll (Exact dec enc) cmds s₀
  let msg := (sadata_send (Exact dec enc) CONVDACBITSTOVOLTS old : Sw Nor (List Byte)).value s
  ∀ m f, m.field = some f → ∀ data pre,
    LastSets (s₀.regs GlobReg.main_dipole.offset) cmds c m data pre →
      m.Truth dec enc CONVDACBITSTOVOLTS (Command.runAll (Exact dec enc) pre s₀) s c data
        (frameWord msg c f)

/-- Some command of the history has sent `m` to the channel. -/
def Commanded (cmds : List Command) (c : Chan) (m : ChanMsg) : Prop :=
  ∃ cmd ∈ cmds, ∃ data, cmd.chanMsg = some (c.u32, m, data)

/-- The three digital outputs that are read from the register of another one have, if they have been
commanded, the value of the other one. -/
structure DigoutsAgree (s : Psc Nor) (cmds : List Command) (c : Chan) : Prop where
  on2 : Commanded cmds c (.word .DIGOUT_ON2_MSG) →
    s.regs (chanAddr c .digout_on1) = s.regs (chanAddr c .digout_on2)
  reset : Commanded cmds c (.word .DIGOUT_RESET_MSG) →
    s.regs (chanAddr c .digout_on1) = s.regs (chanAddr c .digout_reset)
  spare : Commanded cmds c (.word .DIGOUT_SPARE_MSG) →
    s.regs (chanAddr c .digout_reset) = s.regs (chanAddr c .digout_spare)

end Zpsc.Commands
