import Mathlib.Data.Nat.Find
import Mathlib.Logic.Function.Iterate
import Zpsc.Commands.Board

/-!
# Settings in flash (`qspi_flash.c`)

The settings of a channel are kept in one page of the sector with its number. The functions that
print are left out. `Stack` stands for the contents of local variables that are read before they are
written.
-/

namespace Zpsc.Commands

open Bits Effects

/-- What uninitialised locals hold: `qspibuf` of `chan_settings`, the field `header` of `qspidata`,
and the bytes behind the 4-byte `WriteBuf` of `QspiFlashRead`, of which all `ByteCount` are sent. -/
structure Stack where
  qspibuf : List Byte
  header : BitVec 32
  /-- The bytes behind `WriteBuf`. -/
  past : List Byte

/-- The bytes of a word in memory, which is little-endian. -/
def toLe32 (x : BitVec 32) : List Byte := (toBe32 x).reverse

/-- The word at byte `4 * i` of a buffer in memory. -/
def le32At (buf : List Byte) (i : ℕ) : BitVec 32 :=
  be32 (buf.getD (4 * i + 3) 0) (buf.getD (4 * i + 2) 0) (buf.getD (4 * i + 1) 0)
    (buf.getD (4 * i) 0)

/-- The three address bytes of a command. -/
def addrBytes (Address : BitVec 32) : List Byte :=
  [Address.extractLsb' 16 8, Address.extractLsb' 8 8, Address.extractLsb' 0 8]

variable {φ : Type} [FlashChip φ]

/-- `while (1) { read the status; if ((FlashStatus[1] & 0x01) == 0) break; }`. -/
def waitReady : Sw φ Unit := do
  let n ← Cmd.get fun s => Nat.find (FlashChip.ready s.flash)
  (List.range (n + 1)).forM fun _ => do
    let _ ← XQspiPs_PolledTransfer ReadStatusCmd

def QspiFlashRead (stack : Stack) (Address : BitVec 32) (ByteCount : ℕ) : Sw φ (List Byte) :=
  XQspiPs_PolledTransfer
    (FLASH_READ_CMD :: addrBytes Address ++ stack.past.take (ByteCount - 4))

/-- The command overwrites the first four bytes of the buffer. -/
def QspiFlashWrite (Address : BitVec 32) (ByteCount : ℕ) (WriteBuf : List Byte) : Sw φ Unit := do
  let _ ← XQspiPs_PolledTransfer [FLASH_WRITE_ENABLE_CMD]
  let _ ← XQspiPs_PolledTransfer
    ((FLASH_WRITE_CMD :: addrBytes Address ++ WriteBuf.drop 4).take ByteCount)
  waitReady

def QspiFlashEraseSect (sector : BitVec 32) : Sw φ Unit := do
  let _ ← XQspiPs_PolledTransfer [FLASH_WRITE_ENABLE_CMD]
  let _ ← XQspiPs_PolledTransfer
    (FLASH_SECTOR_ERASE_CMD :: addrBytes (sector * BitVec.ofNat 32 FLASH_SECTOR_SIZE))
  waitReady

/-- The registers in `QspiData_t`, in order; they are its words from 1 on. -/
def qspiRegs : List ChanReg :=
  [.dac_setpt_offset, .dac_setpt_gain, .dcct0_offset, .dcct0_gain, .dcct1_offset, .dcct1_gain,
    .dacmon_offset, .dacmon_gain, .volt_offset, .volt_gain, .gnd_offset, .gnd_gain, .spare_offset,
    .spare_gain, .reg_offset, .reg_gain, .err_offset, .err_gain, .ovc1_thresh, .ovc2_thresh,
    .ovv_thresh, .err1_thresh, .err2_thresh, .ignd_thresh, .ovc1_cntlim, .ovc2_cntlim, .ovv_cntlim,
    .err1_cntlim, .err2_cntlim, .ignd_cntlim, .dcct_cntlim, .flt1_cntlim, .flt2_cntlim,
    .flt3_cntlim, .on_cntlim, .heartbeat_cntlim, .fault_mask]

/-- The scale factors in `QspiData_t`, which follow the registers. -/
def qspiSfs : List Sf :=
  [.ampspersec, .dac_dccts, .vout, .ignd, .spare, .regulator, .error]

/-- `QspiGatherData`: the buffer after the copy of `qspidata`. -/
def QspiGatherData (stack : Stack) (chan : BitVec 32) (writebuf : List Byte) :
    Sw φ (List Byte) := do
  let regs ← Cmd.get fun s => qspiRegs.map fun r => s.regs (chanReg chan r.offset)
  let sfs ← Cmd.get fun s => qspiSfs.map fun f => s.scalefactors (chan - 1) f
  let qspidata := (stack.header :: regs ++ sfs).flatMap toLe32
  return qspidata ++ writebuf.drop qspidata.length

def QspiDisperseData (chan : BitVec 32) (readbuf : List Byte) : Sw φ Unit := do
  (qspiRegs.zipIdx 1).forM fun x => Xil_Out32 (chanReg chan x.1.offset) (le32At readbuf x.2)
  (qspiSfs.zipIdx (qspiRegs.length + 1)).forM fun x =>
    setScalefactor chan x.1 (le32At readbuf x.2)

end Zpsc.Commands
