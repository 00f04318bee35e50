import Zpsc.Bits.CConv
import Zpsc.Control.Local
import Zpsc.PsIo
import Zpsc.Fault.FaultBlock

/-!
# Protection parameters from messages (`chan_settings` in `control.c`)

A message with a threshold or a count limit carries a number in amps, volts or seconds. The software
converts it to the units of the FPGA and writes it to a 32-bit register address; the register keeps
the low bits, `ps_io` hands them to `fault_block`, and `fault_block` takes thresholds as signed and
count limits as unsigned numbers.
-/

namespace Zpsc.Control

open Bits CConv

/-- The messages that set a protection parameter. -/
inductive ProtMsg where
  | OVC1_THRESH_MSG | OVC2_THRESH_MSG | OVV_THRESH_MSG | ERR1_THRESH_MSG | ERR2_THRESH_MSG
  | IGND_THRESH_MSG | OVC1_CNTLIM_MSG | OVC2_CNTLIM_MSG | OVV_CNTLIM_MSG | ERR1_CNTLIM_MSG
  | ERR2_CNTLIM_MSG | IGND_CNTLIM_MSG | DCCT_CNTLIM_MSG | FLT1_CNTLIM_MSG | FLT2_CNTLIM_MSG
  | FLT3_CNTLIM_MSG | ON_CNTLIM_MSG
  deriving DecidableEq, Repr

namespace ProtMsg

def addr : ProtMsg → ℕ
  | OVC1_THRESH_MSG => 188
  | OVC2_THRESH_MSG => 192
  | OVV_THRESH_MSG => 196
  | ERR1_THRESH_MSG => 200
  | ERR2_THRESH_MSG => 204
  | IGND_THRESH_MSG => 208
  | OVC1_CNTLIM_MSG => 212
  | OVC2_CNTLIM_MSG => 216
  | OVV_CNTLIM_MSG => 220
  | ERR1_CNTLIM_MSG => 224
  | ERR2_CNTLIM_MSG => 228
  | IGND_CNTLIM_MSG => 232
  | DCCT_CNTLIM_MSG => 236
  | FLT1_CNTLIM_MSG => 240
  | FLT2_CNTLIM_MSG => 244
  | FLT3_CNTLIM_MSG => 248
  | ON_CNTLIM_MSG => 252

def ofAddr : ℕ → Option ProtMsg
  | 188 => some OVC1_THRESH_MSG
  | 192 => some OVC2_THRESH_MSG
  | 196 => some OVV_THRESH_MSG
  | 200 => some ERR1_THRESH_MSG
  | 204 => some ERR2_THRESH_MSG
  | 208 => some IGND_THRESH_MSG
  | 212 => some OVC1_CNTLIM_MSG
  | 216 => some OVC2_CNTLIM_MSG
  | 220 => some OVV_CNTLIM_MSG
  | 224 => some ERR1_CNTLIM_MSG
  | 228 => some ERR2_CNTLIM_MSG
  | 232 => some IGND_CNTLIM_MSG
  | 236 => some DCCT_CNTLIM_MSG
  | 240 => some FLT1_CNTLIM_MSG
  | 244 => some FLT2_CNTLIM_MSG
  | 248 => some FLT3_CNTLIM_MSG
  | 252 => some ON_CNTLIM_MSG
  | _ => none

theorem ofAddr_addr (m : ProtMsg) : ofAddr m.addr = some m := by
  cases m <;> rfl

def reg : ProtMsg → ChanReg
  | OVC1_THRESH_MSG => .ovc1_thresh
  | OVC2_THRESH_MSG => .ovc2_thresh
  | OVV_THRESH_MSG => .ovv_thresh
  | ERR1_THRESH_MSG => .err1_thresh
  | ERR2_THRESH_MSG => .err2_thresh
  | IGND_THRESH_MSG => .ignd_thresh
  | OVC1_CNTLIM_MSG => .ovc1_cntlim
  | OVC2_CNTLIM_MSG => .ovc2_cntlim
  | OVV_CNTLIM_MSG => .ovv_cntlim
  | ERR1_CNTLIM_MSG => .err1_cntlim
  | ERR2_CNTLIM_MSG => .err2_cntlim
  | IGND_CNTLIM_MSG => .ignd_cntlim
  | DCCT_CNTLIM_MSG => .dcct_cntlim
  | FLT1_CNTLIM_MSG => .flt1_cntlim
  | FLT2_CNTLIM_MSG => .flt2_cntlim
  | FLT3_CNTLIM_MSG => .flt3_cntlim
  | ON_CNTLIM_MSG => .on_cntlim

end ProtMsg

/-- `fabs(data.f*conv) / fabs(sf)`. -/
def threshVal (conv sf v : ℚ) : Option ℚ := fdiv |v * conv| |sf|

def cntlimVal (v : ℚ) : Option ℚ := some (v * SAMPLERATE)

/-- `scaled_val` of a message, before its conversion to `s32`. -/
def scaledVal (sf : ScaleFactorType) (CONVVOLTSTODACBITS v : ℚ) : ProtMsg → Option ℚ
  | .OVC1_THRESH_MSG => threshVal CONVVOLTSTODACBITS sf.dac_dccts v
  | .OVC2_THRESH_MSG => threshVal CONVVOLTSTODACBITS sf.dac_dccts v
  | .OVV_THRESH_MSG => threshVal CONVVOLTSTO16BITS sf.vout v
  | .ERR1_THRESH_MSG => threshVal CONVVOLTSTO16BITS sf.error v
  | .ERR2_THRESH_MSG => threshVal CONVVOLTSTO16BITS sf.error v
  | .IGND_THRESH_MSG => threshVal CONVVOLTSTO16BITS sf.ignd v
  | .OVC1_CNTLIM_MSG | .OVC2_CNTLIM_MSG | .OVV_CNTLIM_MSG | .ERR1_CNTLIM_MSG | .ERR2_CNTLIM_MSG
  | .IGND_CNTLIM_MSG | .DCCT_CNTLIM_MSG | .FLT1_CNTLIM_MSG | .FLT2_CNTLIM_MSG | .FLT3_CNTLIM_MSG
  | .ON_CNTLIM_MSG => cntlimVal v

/-- `if (scaled_val >= 32767) scaled_val = 32767;` is there for these messages only. -/
def ProtMsg.clamped : ProtMsg → Bool
  | .OVV_THRESH_MSG | .ERR1_THRESH_MSG | .ERR2_THRESH_MSG | .IGND_THRESH_MSG => true
  | _ => false

/-- `scaled_val` as it is written. -/
def clampVal (m : ProtMsg) (scaled_val : ℤ) : ℤ :=
  if m.clamped ∧ 32767 ≤ scaled_val then 32767 else scaled_val

/-- `chan_settings` on a message that sets a protection parameter. -/
def chan_settings (sf : Chan → ScaleFactorType) (CONVVOLTSTODACBITS : ℚ) (rf : RegFile) (c : Chan)
    (addr : ℕ) (v : ℚ) : Option RegFile := do
  let m ← ProtMsg.ofAddr addr
  let x ← scaledVal (sf c) CONVVOLTSTODACBITS v m
  let scaled_val ← toS32 x
  return rf.out32 (chanAddr c m.reg) (BitVec.ofInt 32 (clampVal m scaled_val))

/-! ## The limits of `fault_block` -/

/-- The limit that `fault_block` compares with: the absolute value of a threshold, a count limit as
it is. -/
def ProtMsg.limit (p : FaultParams) : ProtMsg → ℤ
  | .OVC1_THRESH_MSG => (sabs p.ovc1_thresh).toInt
  | .OVC2_THRESH_MSG => (sabs p.ovc2_thresh).toInt
  | .OVV_THRESH_MSG => (sabs p.ovv_thresh).toInt
  | .ERR1_THRESH_MSG => (sabs p.err1_thresh).toInt
  | .ERR2_THRESH_MSG => (sabs p.err2_thresh).toInt
  | .IGND_THRESH_MSG => (sabs p.ignd_thresh).toInt
  | .OVC1_CNTLIM_MSG => (FaultBit.cntlim p .ovc1).toNat
  | .OVC2_CNTLIM_MSG => (FaultBit.cntlim p .ovc2).toNat
  | .OVV_CNTLIM_MSG => (FaultBit.cntlim p .ovv).toNat
  | .ERR1_CNTLIM_MSG => (FaultBit.cntlim p .err1).toNat
  | .ERR2_CNTLIM_MSG => (FaultBit.cntlim p .err2).toNat
  | .IGND_CNTLIM_MSG => (FaultBit.cntlim p .ignd).toNat
  | .DCCT_CNTLIM_MSG => (FaultBit.cntlim p .dcct).toNat
  | .FLT1_CNTLIM_MSG => (FaultBit.cntlim p .flt1).toNat
  | .FLT2_CNTLIM_MSG => (FaultBit.cntlim p .flt2).toNat
  | .FLT3_CNTLIM_MSG => (FaultBit.cntlim p .flt3).toNat
  | .ON_CNTLIM_MSG => (FaultBit.cntlim p .on).toNat

/-- The kinds of field: a 20-bit threshold, a 16-bit threshold, a count limit. -/
inductive Field where
  | thresh20 | thresh16 | count
  deriving DecidableEq

def ProtMsg.field : ProtMsg → Field
  | .OVC1_THRESH_MSG | .OVC2_THRESH_MSG => .thresh20
  | .OVV_THRESH_MSG | .ERR1_THRESH_MSG | .ERR2_THRESH_MSG | .IGND_THRESH_MSG => .thresh16
  | _ => .count

/-- The largest non-negative value of a field. -/
def Field.largest : Field → ℤ
  | .thresh20 => 2 ^ 19 - 1
  | .thresh16 => 2 ^ 15 - 1
  | .count => 2 ^ 16 - 1

def ProtMsg.scalefactor (sf : ScaleFactorType) : ProtMsg → ℚ
  | .OVC1_THRESH_MSG | .OVC2_THRESH_MSG => sf.dac_dccts
  | .OVV_THRESH_MSG => sf.vout
  | .ERR1_THRESH_MSG | .ERR2_THRESH_MSG => sf.error
  | .IGND_THRESH_MSG => sf.ignd
  | _ => 1

/-- The requested limit: the bits per volt over the scale factor, or the samples per second, times
the value. -/
def ProtMsg.requested (sf : ScaleFactorType) (CONVVOLTSTODACBITS v : ℚ) (m : ProtMsg) : ℚ :=
  match m.field with
  | .thresh20 => |v * CONVVOLTSTODACBITS / m.scalefactor sf|
  | .thresh16 => |v * CONVVOLTSTO16BITS / m.scalefactor sf|
  | .count => v * SAMPLERATE

/-- The parameter arrives: after the message `fault_block` compares with the requested limit, or
with the largest one of the field if that is smaller, and all other limits of all channels are as
before. `u` is the value of the count limits that nothing drives. -/
def Arrives (sf : Chan → ScaleFactorType) (CONVVOLTSTODACBITS : ℚ) (rf : RegFile) (c : Chan)
    (m : ProtMsg) (v : ℚ) (u : BitVec 16) : Prop :=
  ∃ rf', chan_settings sf CONVVOLTSTODACBITS rf c m.addr v = some rf' ∧
    m.limit (PsIo.faultParams rf' u c) =
      min (trunc (m.requested (sf c) CONVVOLTSTODACBITS v)) m.field.largest ∧
    ∀ c' m', ¬ (c' = c ∧ m' = m) →
      m'.limit (PsIo.faultParams rf' u c') = m'.limit (PsIo.faultParams rf u c')

/-- The condition on a request `t`, in the units of the FPGA. Only the 16-bit thresholds are
clamped; the other fields keep the low bits, the sign bit included. No field gets the DCCT count
limit. -/
def ProtMsg.Fits (m : ProtMsg) (t : ℤ) : Prop :=
  m ≠ .DCCT_CNTLIM_MSG ∧
    match m.field with
    | .thresh20 => t < 2 ^ 19 ∨ (t < 2 ^ 31 ∧ (t % 2 ^ 20 = 2 ^ 19 - 1 ∨ t % 2 ^ 20 = 2 ^ 19 + 1))
    | .thresh16 => t < 2 ^ 31
    | .count => t < 2 ^ 16 ∨ (t < 2 ^ 31 ∧ t % 2 ^ 16 = 2 ^ 16 - 1)

end Zpsc.Control
