import Zpsc.Commands.Confined

/-!
# The 10 Hz status frame (`sadata.c`)

`sadata_send` fills a structure on the stack, field by field, from the registers and the scale
factors, and sends its bytes as message 31. The structure is a value for each of its fields; a field
that is never assigned keeps what the stack held.
-/

namespace Zpsc.Commands

open Bits Effects Control Fpu

/-! ## The structures (`sadata.h`) -/

/-- The fields of `SAdataMsg` before the channels. -/
inductive SaField where
  | numchans | evr_ts_ns | evr_ts_s | resolution | git_shasum | die_temp | vccint | vccaux
  | bandwidth | polarity | fofb_pktsrcvd | fofb_command | fofb_nonce | tenkhz_freq | onehz_freq
  | ch34_dualmode | main_dipole_mode
  | rsvd (i : Fin 8)
  deriving DecidableEq

/-- The fields of `SAdataChan`. -/
inductive SaChanField where
  | dcct1 | dcct1_offset | dcct1_gain | dcct2 | dcct2_offset | dcct2_gain
  | dacmon | dacmon_offset | dacmon_gain | volt | volt_offset | volt_gain
  | gnd | gnd_offset | gnd_gain | spare | spare_offset | spare_gain
  | reg | reg_offset | reg_gain | error | error_offset | error_gain
  | dac_setpt | dac_setpt_offset | dac_setpt_gain | dac_rampactive
  | ovc1_thresh | ovc2_thresh | ovv_thresh | err1_thresh | err2_thresh | ignd_thresh
  | ovc1_cntlim | ovc2_cntlim | ovv_cntlim | err1_cntlim | err2_cntlim | ignd_cntlim
  | dcct_cntlim | flt1_cntlim | flt2_cntlim | flt3_cntlim | on_cntlim | heartbeat_cntlim
  | fault_clear | fault_mask | digout_on1 | digout_on2 | digout_reset | digout_spare
  | digout_park | digin | faults_live | faults_latched
  | sf_ampspersec | sf_dac_dccts | sf_vout | sf_ignd | sf_spare | sf_regulator | sf_error
  | dac_setpt_raw | fofb_dacsetpt
  | rsvd (i : Fin 10)
  deriving DecidableEq

/-- The fields in the order of the structure. -/
def SaField.all : List SaField :=
  [.numchans, .evr_ts_ns, .evr_ts_s, .resolution, .git_shasum, .die_temp, .vccint, .vccaux,
    .bandwidth, .polarity, .fofb_pktsrcvd, .fofb_command, .fofb_nonce, .tenkhz_freq, .onehz_freq,
    .ch34_dualmode, .main_dipole_mode] ++ (List.finRange 8).map .rsvd

/-- The fields in the order of the structure. -/
def SaChanField.all : List SaChanField :=
  [.dcct1, .dcct1_offset, .dcct1_gain, .dcct2, .dcct2_offset, .dcct2_gain,
    .dacmon, .dacmon_offset, .dacmon_gain, .volt, .volt_offset, .volt_gain,
    .gnd, .gnd_offset, .gnd_gain, .spare, .spare_offset, .spare_gain,
    .reg, .reg_offset, .reg_gain, .error, .error_offset, .error_gain,
    .dac_setpt, .dac_setpt_offset, .dac_setpt_gain, .dac_rampactive,
    .ovc1_thresh, .ovc2_thresh, .ovv_thresh, .err1_thresh, .err2_thresh, .ignd_thresh,
    .ovc1_cntlim, .ovc2_cntlim, .ovv_cntlim, .err1_cntlim, .err2_cntlim, .ignd_cntlim,
    .dcct_cntlim, .flt1_cntlim, .flt2_cntlim, .flt3_cntlim, .on_cntlim, .heartbeat_cntlim,
    .fault_clear, .fault_mask, .digout_on1, .digout_on2, .digout_reset, .digout_spare,
    .digout_park, .digin, .faults_live, .faults_latched,
    .sf_ampspersec, .sf_dac_dccts, .sf_vout, .sf_ignd, .sf_spare, .sf_regulator, .sf_error,
    .dac_setpt_raw, .fofb_dacsetpt] ++ (List.finRange 10).map .rsvd

/-- The contents of the structure, a word for each field. -/
structure SAdataMsg where
  glob : SaField → BitVec 32
  /-- `ps[4]`. -/
  ps : Chan → SaChanField → BitVec 32

/-- The words of the structure in memory. -/
def SAdataMsg.words (m : SAdataMsg) : List (BitVec 32) :=
  SaField.all.map m.glob ++
    [Chan.ps1, .ps2, .ps3, .ps4].flatMap fun c => SaChanField.all.map (m.ps c)

/-! ## The registers that the frame is read from -/

def TENKHZ_FREQ_REG : ℕ := 0x1C

def ONEHZ_FREQ_REG : ℕ := 0x34

def EVR_TS_S_REG : ℕ := 0x40

def EVR_TS_NS_REG : ℕ := 0x44

def TENHZ_DATASEND_REG : ℕ := 0x54

def FOFB_PACKETS_RCVD_REG : ℕ := 0x64

def FOFB_COMMAND_REG : ℕ := 0x68

def FOFB_NONCE_REG : ℕ := 0x6C

def PRJ_SHASUM : ℕ := 0xC10

def DCCT1_REG : ℕ := 0x00

def DCCT2_REG : ℕ := 0x04

def DACMON_REG : ℕ := 0x08

def VOLT_REG : ℕ := 0x0C

def GND_REG : ℕ := 0x10

def SPARE_REG : ℕ := 0x14

def REG_REG : ℕ := 0x18

def ERR_REG : ℕ := 0x1C

def DAC_RAMPACTIVE_REG : ℕ := 0x48

def DIGIN_REG : ℕ := 0xF4

def FAULTS_LIVE_REG : ℕ := 0xF8

def FAULTS_LAT_REG : ℕ := 0xFC

def FOFB_DACSETPT_REG : ℕ := 0x124

/-! ## The values -/

/-- What is assigned to a field: a word, or a floating-point number. -/
inductive SaVal (F : Type) where
  | u32 (w : BitVec 32)
  | f32 (x : F)

variable {φ : Type} (F : Type) [Fpu F]

variable {F} in
def SaVal.word : SaVal F → BitVec 32
  | .u32 w => w
  | .f32 x => Fpu.word x

def NAN : F := single 0x7FC00000

def ReadAccumSA (raw ave_mode : BitVec 32) : F :=
  if ave_mode = 0 then float (ofS32 raw)
  else if ave_mode = 1 then float (ofS32 raw / lit 167)
  else if ave_mode = 2 then float (ofS32 raw / lit 500)
  else NAN F

/-- `(1.0/CONVVOLTSTO16BITS)`, a `double`. -/
def CONV16BITSTOVOLTS : F := lit 1 / lit CONVVOLTSTO16BITS

/-- `1 / ((float)x * 10e-9)`. -/
def frequency (x : BitVec 32) : F := lit 1 / (float (ofU32 x) * lit (1 / 10 ^ 8))

/-- The fields before the channels; `none` where nothing is assigned. -/
def saGlob (s : Psc φ) : SaField → Option (SaVal F)
  | .numchans => some (.u32 (s.regs NUMCHANS_REG))
  | .evr_ts_ns => some (.u32 (s.regs EVR_TS_NS_REG))
  | .evr_ts_s => some (.u32 (s.regs EVR_TS_S_REG))
  | .resolution => some (.u32 (s.regs GlobReg.resolution.offset))
  | .git_shasum => some (.u32 (s.regs PRJ_SHASUM))
  | .die_temp => none
  | .vccint => none
  | .vccaux => none
  | .bandwidth => some (.u32 (s.regs BANDWIDTH_REG))
  | .polarity => some (.u32 (s.regs GlobReg.polarity.offset))
  | .fofb_pktsrcvd => some (.u32 (s.regs FOFB_PACKETS_RCVD_REG))
  | .fofb_command => some (.u32 (s.regs FOFB_COMMAND_REG))
  | .fofb_nonce => some (.u32 (s.regs FOFB_NONCE_REG))
  | .tenkhz_freq => some (.f32 (frequency F (s.regs TENKHZ_FREQ_REG)))
  | .onehz_freq => some (.f32 (frequency F (s.regs ONEHZ_FREQ_REG)))
  | .ch34_dualmode => some (.u32 (s.regs GlobReg.ch34_dualmode.offset))
  | .main_dipole_mode => some (.u32 (s.regs GlobReg.main_dipole.offset))
  | .rsvd _ => none

section Channel

variable (CONVDACBITSTOVOLTS : BitVec 32) (s : Psc φ) (c : Chan)

/-- `Xil_In32(base + off)`. -/
def saReg (off : ℕ) : BitVec 32 := s.regs (c.num * CHBASEADDR + off)

/-- `scalefactors[chan].f`, with `chan` counted from 0. -/
def saSf (f : Sf) : F := single (s.scalefactors (c.u32 - 1) f)

/-- `ReadAccumSA(base + off, ave_mode)`. -/
def saAccum (off : ℕ) : F := ReadAccumSA F (saReg s c off) (saReg s c ChanReg.avemode.offset)

/-- `x * CONVDACBITSTOVOLTS * scalefactors[chan].dac_dccts`, a product of `float`s. -/
def saDac (x : F) : SaVal F :=
  .f32 (mulF (mulF x (single CONVDACBITSTOVOLTS)) (saSf F s c .dac_dccts))

/-- `x * CONV16BITSTOVOLTS * scalefactors[chan].f`. -/
def saAdc (x : F) (f : Sf) : SaVal F := .f32 (x * CONV16BITSTOVOLTS F * saSf F s c f)

/-- An offset in units of the DAC. -/
def saDacOffset (r : ChanReg) : SaVal F :=
  saDac F CONVDACBITSTOVOLTS s c (float (ofS32 (saReg s c r.offset)))

/-- An offset in units of the 16-bit ADC. -/
def saAdcOffset (r : ChanReg) (f : Sf) : SaVal F := saAdc F s c (ofS32 (saReg s c r.offset)) f

/-- `(s32)Xil_In32(base + off) / GAIN20BITFRACT`. -/
def saGain (r : ChanReg) : SaVal F := .f32 (ofS32 (saReg s c r.offset) / lit GAIN20BITFRACT)

/-- `(s32)Xil_In32(base + off) * CONVDACBITSTOVOLTS * fabs(scalefactors[chan].dac_dccts)`. -/
def saDacThresh (r : ChanReg) : SaVal F :=
  .f32 (mulF (float (ofS32 (saReg s c r.offset))) (single CONVDACBITSTOVOLTS) *
    fabs (saSf F s c .dac_dccts))

/-- `Xil_In32(base + off) * CONV16BITSTOVOLTS * fabs(scalefactors[chan].f)`. -/
def saAdcThresh (r : ChanReg) (f : Sf) : SaVal F :=
  .f32 (ofU32 (saReg s c r.offset) * CONV16BITSTOVOLTS F * fabs (saSf F s c f))

/-- `Xil_In32(base + off) / SAMPLERATE`. -/
def saCntlim (r : ChanReg) : SaVal F := .f32 (ofU32 (saReg s c r.offset) / lit SAMPLERATE)

/-- The fields of a channel. Three of the digital outputs are read from the register of another. -/
def saChan : SaChanField → Option (SaVal F)
  | .dcct1 => some (saDac F CONVDACBITSTOVOLTS s c (saAccum F s c DCCT1_REG))
  | .dcct1_offset => some (saDacOffset F CONVDACBITSTOVOLTS s c .dcct0_offset)
  | .dcct1_gain => some (saGain F s c .dcct0_gain)
  | .dcct2 => some (saDac F CONVDACBITSTOVOLTS s c (saAccum F s c DCCT2_REG))
  | .dcct2_offset => some (saDacOffset F CONVDACBITSTOVOLTS s c .dcct1_offset)
  | .dcct2_gain => some (saGain F s c .dcct1_gain)
  | .dacmon => some (saAdc F s c (saAccum F s c DACMON_REG) .dac_dccts)
  | .dacmon_offset => some (saAdcOffset F s c .dacmon_offset .dac_dccts)
  | .dacmon_gain => some (saGain F s c .dacmon_gain)
  | .volt => some (saAdc F s c (saAccum F s c VOLT_REG) .vout)
  | .volt_offset => some (saAdcOffset F s c .volt_offset .vout)
  | .volt_gain => some (saGain F s c .volt_gain)
  | .gnd => some (saAdc F s c (saAccum F s c GND_REG) .ignd)
  | .gnd_offset => some (saAdcOffset F s c .gnd_offset .ignd)
  | .gnd_gain => some (saGain F s c .gnd_gain)
  | .spare => some (saAdc F s c (saAccum F s c SPARE_REG) .spare)
  | .spare_offset => some (saAdcOffset F s c .spare_offset .spare)
  | .spare_gain => some (saGain F s c .spare_gain)
  | .reg => some (saAdc F s c (saAccum F s c REG_REG) .regulator)
  | .reg_offset => some (saAdcOffset F s c .reg_offset .regulator)
  | .reg_gain => some (saGain F s c .reg_gain)
  | .error => some (saAdc F s c (saAccum F s c ERR_REG) .error)
  | .error_offset => some (saAdcOffset F s c .err_offset .error)
  | .error_gain => some (saGain F s c .err_gain)
  | .dac_setpt =>
    some (saDac F CONVDACBITSTOVOLTS s c (float (ofS32 (saReg s c DAC_CURRSETPT_REG))))
  | .dac_setpt_offset => some (saDacOffset F CONVDACBITSTOVOLTS s c .dac_setpt_offset)
  | .dac_setpt_gain => some (saGain F s c .dac_setpt_gain)
  | .dac_rampactive => some (.u32 (saReg s c DAC_RAMPACTIVE_REG))
  | .ovc1_thresh => some (saDacThresh F CONVDACBITSTOVOLTS s c .ovc1_thresh)
  | .ovc2_thresh => some (saDacThresh F CONVDACBITSTOVOLTS s c .ovc2_thresh)
  | .ovv_thresh => some (saAdcThresh F s c .ovv_thresh .vout)
  | .err1_thresh => some (saAdcThresh F s c .err1_thresh .error)
  | .err2_thresh => some (saAdcThresh F s c .err2_thresh .error)
  | .ignd_thresh => some (saAdcThresh F s c .ignd_thresh .ignd)
  | .ovc1_cntlim => some (saCntlim F s c .ovc1_cntlim)
  | .ovc2_cntlim => some (saCntlim F s c .ovc2_cntlim)
  | .ovv_cntlim => some (saCntlim F s c .ovv_cntlim)
  | .err1_cntlim => some (saCntlim F s c .err1_cntlim)
  | .err2_cntlim => some (saCntlim F s c .err2_cntlim)
  | .ignd_cntlim => some (saCntlim F s c .ignd_cntlim)
  | .dcct_cntlim => some (saCntlim F s c .dcct_cntlim)
  | .flt1_cntlim => some (saCntlim F s c .flt1_cntlim)
  | .flt2_cntlim => some (saCntlim F s c .flt2_cntlim)
  | .flt3_cntlim => some (saCntlim F s c .flt3_cntlim)
  | .on_cntlim => some (saCntlim F s c .on_cntlim)
  | .heartbeat_cntlim => some (saCntlim F s c .heartbeat_cntlim)
  | .fault_clear => some (.u32 (saReg s c ChanReg.fault_clear.offset))
  | .fault_mask => some (.u32 (saReg s c ChanReg.fault_mask.offset))
  | .digout_on1 => some (.u32 (saReg s c ChanReg.digout_on1.offset))
  | .digout_on2 => some (.u32 (saReg s c ChanReg.digout_on1.offset))
  | .digout_reset => some (.u32 (saReg s c ChanReg.digout_on1.offset))
  | .digout_spare => some (.u32 (saReg s c ChanReg.digout_reset.offset))
  | .digout_park => some (.u32 (saReg s c ChanReg.digout_park.offset))
  | .digin => some (.u32 (saReg s c DIGIN_REG))
  | .faults_live => some (.u32 (saReg s c FAULTS_LIVE_REG))
  | .faults_latched => some (.u32 (saReg s c FAULTS_LAT_REG))
  | .sf_ampspersec => some (.f32 (saSf F s c .ampspersec))
  | .sf_dac_dccts => some (.f32 (saSf F s c .dac_dccts))
  | .sf_vout => some (.f32 (saSf F s c .vout))
  | .sf_ignd => some (.f32 (saSf F s c .ignd))
  | .sf_spare => some (.f32 (saSf F s c .spare))
  | .sf_regulator => some (.f32 (saSf F s c .regulator))
  | .sf_error => some (.f32 (saSf F s c .error))
  | .dac_setpt_raw => some (.u32 (saReg s c DAC_CURRSETPT_REG))
  | .fofb_dacsetpt => some (.f32 (single (saReg s c FOFB_DACSETPT_REG)))
  | .rsvd _ => none

end Channel

/-- A field after the assignments; `old` is what the stack held. -/
def assigned (v : Option (SaVal F)) (old : BitVec 32) : BitVec 32 := (v.map SaVal.word).getD old

/-- The structure after the assignments. -/
def sadata (CONVDACBITSTOVOLTS : BitVec 32) (s : Psc φ) (old : SAdataMsg) : SAdataMsg where
  glob := fun f => assigned F (saGlob F s f) (old.glob f)
  ps := fun c f => assigned F (saChan F CONVDACBITSTOVOLTS s c f) (old.ps c f)

/-! ## The message -/

/-- The bytes of every word are turned round. -/
def hton_conv : List Byte → List Byte
  | a :: b :: c :: d :: rest => d :: c :: b :: a :: hton_conv rest
  | rest => rest

/-- `sizeof(msg)`. The buffer is static; behind the structure it stays zero. -/
def sizeofMsg : ℕ := 1400

/-- `sadata_send`: the payload of message 31. -/
def sadata_send [FlashChip φ] (CONVDACBITSTOVOLTS : BitVec 32) (old : SAdataMsg) :
    Sw φ (List Byte) := do
  Xil_Out32 TENHZ_DATASEND_REG 1
  Xil_Out32 TENHZ_DATASEND_REG 0
  let sadata ← Cmd.get fun s => sadata F CONVDACBITSTOVOLTS s old
  let bytes := hton_conv (sadata.words.flatMap toLe32)
  return bytes ++ List.replicate (sizeofMsg - bytes.length) 0

end Zpsc.Commands
