import Zpsc.Commands.Control

/-!
# Channel messages (`chan_settings` in `control.c`)

The first word of a message selects one of some sixty commands, the second is its data, as a `u32`
or as a `float`. Commands that differ in a register, a scale factor or a constant only are families;
the tables say which member has which.
-/

namespace Zpsc.Commands

open Bits Effects Control PscMsg Fpu

/-- The messages that write their data word to a register. -/
inductive WordMsg where
  | DAC_RAMPLEN_MSG | DAC_RUNRAMP_MSG | FAULT_MASK_MSG | DIGOUT_ON1_MSG | DIGOUT_ON2_MSG
  | DIGOUT_RESET_MSG | DIGOUT_SPARE_MSG | DIGOUT_PARK_MSG | FOFB_FASTADDR_MSG | AVE_MODE_MSG
  deriving DecidableEq, Repr

def WordMsg.reg : WordMsg → ChanReg
  | DAC_RAMPLEN_MSG => .dac_ramplen
  | DAC_RUNRAMP_MSG => .dac_runramp
  | FAULT_MASK_MSG => .fault_mask
  | DIGOUT_ON1_MSG => .digout_on1
  | DIGOUT_ON2_MSG => .digout_on2
  | DIGOUT_RESET_MSG => .digout_reset
  | DIGOUT_SPARE_MSG => .digout_spare
  | DIGOUT_PARK_MSG => .digout_park
  | FOFB_FASTADDR_MSG => .fofb_addr
  | AVE_MODE_MSG => .avemode

/-- The messages that set a gain. -/
inductive GainMsg where
  | DAC_SETPT_GAIN_MSG | DCCT1_GAIN_MSG | DCCT2_GAIN_MSG | DACMON_GAIN_MSG | VOLT_GAIN_MSG
  | GND_GAIN_MSG | SPARE_GAIN_MSG | REG_GAIN_MSG | ERR_GAIN_MSG
  deriving DecidableEq, Repr

def GainMsg.reg : GainMsg → ChanReg
  | DAC_SETPT_GAIN_MSG => .dac_setpt_gain
  | DCCT1_GAIN_MSG => .dcct0_gain
  | DCCT2_GAIN_MSG => .dcct1_gain
  | DACMON_GAIN_MSG => .dacmon_gain
  | VOLT_GAIN_MSG => .volt_gain
  | GND_GAIN_MSG => .gnd_gain
  | SPARE_GAIN_MSG => .spare_gain
  | REG_GAIN_MSG => .reg_gain
  | ERR_GAIN_MSG => .err_gain

def GAIN20BITFRACT : ℚ := 1048575

/-- The messages that set an offset. -/
inductive OffsetMsg where
  | DAC_SETPT_OFFSET_MSG | DCCT1_OFFSET_MSG | DCCT2_OFFSET_MSG | DACMON_OFFSET_MSG
  | VOLT_OFFSET_MSG | GND_OFFSET_MSG | SPARE_OFFSET_MSG | REG_OFFSET_MSG | ERR_OFFSET_MSG
  deriving DecidableEq, Repr

namespace OffsetMsg

def reg : OffsetMsg → ChanReg
  | DAC_SETPT_OFFSET_MSG => .dac_setpt_offset
  | DCCT1_OFFSET_MSG => .dcct0_offset
  | DCCT2_OFFSET_MSG => .dcct1_offset
  | DACMON_OFFSET_MSG => .dacmon_offset
  | VOLT_OFFSET_MSG => .volt_offset
  | GND_OFFSET_MSG => .gnd_offset
  | SPARE_OFFSET_MSG => .spare_offset
  | REG_OFFSET_MSG => .reg_offset
  | ERR_OFFSET_MSG => .err_offset

def scalefactor : OffsetMsg → Sf
  | DAC_SETPT_OFFSET_MSG | DCCT1_OFFSET_MSG | DCCT2_OFFSET_MSG | DACMON_OFFSET_MSG => .dac_dccts
  | VOLT_OFFSET_MSG => .vout
  | GND_OFFSET_MSG => .ignd
  | SPARE_OFFSET_MSG => .spare
  | REG_OFFSET_MSG => .regulator
  | ERR_OFFSET_MSG => .error

/-- The messages whose offset is in units of the DAC, not of the 16-bit ADC. -/
def dacBits : OffsetMsg → Bool
  | DAC_SETPT_OFFSET_MSG | DCCT1_OFFSET_MSG | DCCT2_OFFSET_MSG => true
  | _ => false

end OffsetMsg

/-- The messages that only set a scale factor. -/
inductive SfMsg where
  | SF_AMPS_PER_SEC_MSG | SF_VOUT_MSG | SF_IGND_MSG | SF_SPARE_MSG | SF_REGULATOR_MSG
  | SF_ERROR_MSG
  deriving DecidableEq, Repr

def SfMsg.field : SfMsg → Sf
  | SF_AMPS_PER_SEC_MSG => .ampspersec
  | SF_VOUT_MSG => .vout
  | SF_IGND_MSG => .ignd
  | SF_SPARE_MSG => .spare
  | SF_REGULATOR_MSG => .regulator
  | SF_ERROR_MSG => .error

/-- The messages of `chan_settings`. -/
inductive ChanMsg where
  | DAC_OPMODE_MSG
  | DAC_SETPT_MSG
  | word (m : WordMsg)
  | gain (m : GainMsg)
  | offset (m : OffsetMsg)
  | prot (m : ProtMsg)
  | HEART_CNTLIM_MSG
  | FAULT_CLEAR_MSG
  | sf (m : SfMsg)
  | SF_DAC_DCCTS_MSG
  | USR_TRIG_MSG
  | WRITE_QSPI_MSG
  | READ_QSPI_MSG
  | DUMP_ADCS_MSG
  | unsupported
  deriving DecidableEq, Repr

def ChanMsg.ofAddr : ℕ → ChanMsg
  | 100 => .DAC_OPMODE_MSG
  | 104 => .DAC_SETPT_MSG
  | 108 => .word .DAC_RUNRAMP_MSG
  | 112 => .word .DAC_RAMPLEN_MSG
  | 116 => .gain .DAC_SETPT_GAIN_MSG
  | 120 => .offset .DAC_SETPT_OFFSET_MSG
  | 124 => .offset .DCCT1_OFFSET_MSG
  | 128 => .gain .DCCT1_GAIN_MSG
  | 132 => .offset .DCCT2_OFFSET_MSG
  | 136 => .gain .DCCT2_GAIN_MSG
  | 140 => .offset .DACMON_OFFSET_MSG
  | 144 => .gain .DACMON_GAIN_MSG
  | 148 => .offset .VOLT_OFFSET_MSG
  | 152 => .gain .VOLT_GAIN_MSG
  | 156 => .offset .GND_OFFSET_MSG
  | 160 => .gain .GND_GAIN_MSG
  | 164 => .offset .SPARE_OFFSET_MSG
  | 168 => .gain .SPARE_GAIN_MSG
  | 172 => .offset .REG_OFFSET_MSG
  | 176 => .gain .REG_GAIN_MSG
  | 180 => .offset .ERR_OFFSET_MSG
  | 184 => .gain .ERR_GAIN_MSG
  | 256 => .HEART_CNTLIM_MSG
  | 260 => .FAULT_CLEAR_MSG
  | 264 => .word .FAULT_MASK_MSG
  | 268 => .word .DIGOUT_ON1_MSG
  | 272 => .word .DIGOUT_ON2_MSG
  | 276 => .word .DIGOUT_RESET_MSG
  | 280 => .word .DIGOUT_SPARE_MSG
  | 284 => .word .DIGOUT_PARK_MSG
  | 300 => .sf .SF_AMPS_PER_SEC_MSG
  | 304 => .SF_DAC_DCCTS_MSG
  | 308 => .sf .SF_VOUT_MSG
  | 312 => .sf .SF_IGND_MSG
  | 316 => .sf .SF_SPARE_MSG
  | 320 => .sf .SF_REGULATOR_MSG
  | 324 => .sf .SF_ERROR_MSG
  | 330 => .word .FOFB_FASTADDR_MSG
  | 340 => .USR_TRIG_MSG
  | 350 => .word .AVE_MODE_MSG
  | 400 => .WRITE_QSPI_MSG
  | 404 => .READ_QSPI_MSG
  | 500 => .DUMP_ADCS_MSG
  | n => match ProtMsg.ofAddr n with
    | some m => .prot m
    | none => .unsupported

variable {φ : Type} (F : Type) [Fpu F] [FlashChip φ]

/-- `fabs(data.f*conv) / fabs(sf)`, where `conv` is the `float` of the DAC or the `double` of the
16-bit ADC. -/
def thresh (dac : Bool) (chan data : BitVec 32) (f : Sf) : Sw φ (BitVec 32) := do
  let conv ← convvoltstodacbits F
  let sf ← scalefactorF F chan f
  let x := if dac then mulF (single data) conv else single data * lit CONVVOLTSTO16BITS
  return toS32 (fabs x / fabs sf)

/-- `(s32)(data.f * SAMPLERATE)`. -/
def cntlim (data : BitVec 32) : BitVec 32 := toS32 (single data * lit SAMPLERATE : F)

/-- `scaled_val` of a message that sets a protection parameter. -/
def protVal (chan data : BitVec 32) : ProtMsg → Sw φ (BitVec 32)
  | .OVC1_THRESH_MSG | .OVC2_THRESH_MSG => thresh F true chan data .dac_dccts
  | .OVV_THRESH_MSG => thresh F false chan data .vout
  | .ERR1_THRESH_MSG | .ERR2_THRESH_MSG => thresh F false chan data .error
  | .IGND_THRESH_MSG => thresh F false chan data .ignd
  | _ => pure (cntlim F data)

/-- `scaled_val` of a message that sets an offset. -/
def offsetVal (chan data : BitVec 32) (m : OffsetMsg) : Sw φ (BitVec 32) := do
  let conv ← convvoltstodacbits F
  let sf ← scalefactorF F chan m.scalefactor
  return if m.dacBits then toS32 (divF (mulF (single data) conv) sf)
    else toS32 (single data * lit CONVVOLTSTO16BITS / sf)

def soft_trig (msgVal : BitVec 32) : Sw φ Unit := do
  Xil_Out32 GlobReg.softtrig.offset msgVal
  Xil_Out32 GlobReg.softtrig.offset 0

/-- The address of the sector of a channel. -/
def sectorAddr (chan : BitVec 32) : BitVec 32 := chan * BitVec.ofNat 32 FLASH_SECTOR_SIZE

/-- The settings of the channel from its sector. -/
def readQspi (stack : Stack) (chan : BitVec 32) : Sw φ Unit := do
  let qspibuf ← QspiFlashRead stack (sectorAddr chan) FLASH_PAGE_SIZE
  QspiDisperseData chan qspibuf

/-- The settings of the channel to its sector, and back. -/
def writeQspi (stack : Stack) (chan : BitVec 32) : Sw φ Unit := do
  QspiFlashEraseSect chan
  let qspibuf ← QspiGatherData stack chan stack.qspibuf
  QspiFlashWrite (sectorAddr chan) FLASH_PAGE_SIZE qspibuf
  readQspi stack chan

/-- `FAULT_CLEAR_MSG`: in main dipole mode for all channels. -/
def faultClear (chan data : BitVec 32) : Sw φ Unit := do
  let val ← Xil_In32 GlobReg.main_dipole.offset
  if val = 1 then do
    Xil_Out32 (chanReg 1 ChanReg.fault_clear.offset) data
    Xil_Out32 (chanReg 2 ChanReg.fault_clear.offset) data
    Xil_Out32 (chanReg 3 ChanReg.fault_clear.offset) data
    Xil_Out32 (chanReg 4 ChanReg.fault_clear.offset) data
  else Xil_Out32 (chanReg chan ChanReg.fault_clear.offset) data

/-- The cases of `chan_settings`. `DUMP_ADCS_MSG` only prints. -/
def chanCommand (stack : Stack) (chan data : BitVec 32) : ChanMsg → Sw φ Unit
  | .DAC_OPMODE_MSG => Set_dacOpmode F chan data
  | .DAC_SETPT_MSG => Set_dac F chan (single data)
  | .word m => Xil_Out32 (chanReg chan m.reg.offset) data
  | .gain m =>
    Xil_Out32 (chanReg chan m.reg.offset) (toU32 (single data * lit GAIN20BITFRACT : F))
  | .offset m => do
    let scaled_val ← offsetVal F chan data m
    Xil_Out32 (chanReg chan m.reg.offset) scaled_val
  | .prot m => do
    let scaled_val ← protVal F chan data m
    let scaled_val := if m.clamped ∧ 32767 ≤ scaled_val.toInt then 32767 else scaled_val
    Xil_Out32 (chanReg chan m.reg.offset) scaled_val
  | .HEART_CNTLIM_MSG =>
    Xil_Out32 (chanReg chan ChanReg.heartbeat_cntlim.offset) (cntlim F data)
  | .FAULT_CLEAR_MSG => faultClear chan data
  | .sf m => setScalefactor chan m.field data
  | .SF_DAC_DCCTS_MSG => do
    setScalefactor chan .dac_dccts data
    let data ← fofbScalefactor F data
    Xil_Out32 (chanReg chan ChanReg.fofb_scalefactor.offset) data
  | .USR_TRIG_MSG => if data = 1 then soft_trig (1#32 <<< (chan - 1)) else pure ()
  | .WRITE_QSPI_MSG => if data = 1 then writeQspi stack chan else pure ()
  | .READ_QSPI_MSG => if data = 1 then readQspi stack chan else pure ()
  | .DUMP_ADCS_MSG => pure ()
  | .unsupported => pure ()

/-- The length of the message is not looked at. -/
def chan_settings (stack : Stack) (chan : BitVec 32) (msg : Buf) (_msglen : BitVec 32) :
    Sw φ Unit :=
  let addr := msgWord msg 0
  let data := msgWord msg 1
  chanCommand F stack chan data (ChanMsg.ofAddr addr.toNat)

end Zpsc.Commands
