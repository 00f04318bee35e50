import Zpsc.Commands.ChanSettings

/-!
# What a channel message can touch

The registers that a message writes, the scale factors that it sets and the transfers that it makes,
for any channel number, valid or not. Clearing faults in main dipole mode and the user trigger go
beyond the channel and are not covered.
-/

namespace Zpsc.Commands

open Bits Effects

namespace ChanMsg

/-- The registers of its channel that a message writes. -/
def writes : ChanMsg → List ChanReg
  | DAC_OPMODE_MSG => [.dac_opmode, .fofb_scalefactor]
  | DAC_SETPT_MSG =>
    [.dac_setpt, .dac_smooth_phaseinc, .dac_smooth_linear_len, .dac_smooth_curved_len,
      .dac_smooth_dy_lo, .dac_smooth_dy_hi, .dac_smooth_dy_per_pt_lo, .dac_smooth_dy_per_pt_hi]
  | word m => [m.reg]
  | gain m => [m.reg]
  | offset m => [m.reg]
  | prot m => [m.reg]
  | HEART_CNTLIM_MSG => [.heartbeat_cntlim]
  | FAULT_CLEAR_MSG => [.fault_clear]
  | sf _ => []
  | SF_DAC_DCCTS_MSG => [.fofb_scalefactor]
  | USR_TRIG_MSG => []
  | WRITE_QSPI_MSG | READ_QSPI_MSG => qspiRegs
  | DUMP_ADCS_MSG => []
  | unsupported => []

/-- The scale factors of its channel that a message sets. -/
def sets : ChanMsg → List Sf
  | sf m => [m.field]
  | SF_DAC_DCCTS_MSG => [.dac_dccts]
  | WRITE_QSPI_MSG | READ_QSPI_MSG => qspiSfs
  | _ => []

/-- The transfers of a message. -/
inductive Transfers (chan : BitVec 32) : ChanMsg → List Byte → Prop where
  | quiet (m : ChanMsg) (cmd : Byte) (bs : List Byte)
      (hm : m = .WRITE_QSPI_MSG ∨ m = .READ_QSPI_MSG)
      (h : cmd = FLASH_READ_CMD ∨ cmd = FLASH_WRITE_ENABLE_CMD ∨ cmd = FLASH_READ_STATUS_CMD) :
      Transfers chan m (cmd :: bs)
  | erase : Transfers chan .WRITE_QSPI_MSG (FLASH_SECTOR_ERASE_CMD :: addrBytes (sectorAddr chan))
  | write (bs : List Byte) :
      Transfers chan .WRITE_QSPI_MSG (FLASH_WRITE_CMD :: addrBytes (sectorAddr chan) ++ bs)

end ChanMsg

/-- The effects that a message to `chan` can have. -/
def Eff.Reach (chan : BitVec 32) (m : ChanMsg) : Eff → Prop
  | .out32 a _ => ∃ r ∈ m.writes, a = chanReg chan r.offset
  | .setSf i f _ => i = chan - 1 ∧ f ∈ m.sets
  | .transfer send => m.Transfers chan send

end Zpsc.Commands
