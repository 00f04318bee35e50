import Zpsc.Commands.Command
import Zpsc.Commands.Nor

/-!
# Settings kept in flash

The sector of a channel holds its settings from the write of `WRITE_QSPI_MSG` until the next one of
the same channel. The word `i` of `QspiData_t` lies four bytes before its place in the buffer: the
first word is the command.
-/

namespace Zpsc.Commands

open Bits Effects PscMsg

/-- Uninitialised locals with the sizes that they have: `qspibuf` is one page, and behind the four
bytes of `WriteBuf` there is memory for the rest of a page. -/
structure Locals extends Stack where
  qspibuf_length : qspibuf.length = FLASH_PAGE_SIZE
  past_length : FLASH_PAGE_SIZE - 4 ≤ past.length

/-- The command writes to the sector of the channel: settings of a channel whose number has the same
low byte, which is all that the 24-bit addresses of the flash keep of it. -/
def Command.Saves (c : Chan) (cmd : Command) : Prop :=
  ∃ chan, cmd.chanMsg = some (chan, .WRITE_QSPI_MSG, 1) ∧ chan.toNat % 256 = c.num

/-- The word `i` of the settings in the sector of a channel. -/
def savedWord (d : Nor) (c : Chan) (i : ℕ) : BitVec 32 :=
  let a := c.num * FLASH_SECTOR_SIZE + (4 * i - 4)
  be32 (d.cells (a + 3)) (d.cells (a + 2)) (d.cells (a + 1)) (d.cells a)

/-- The sector of a channel holds the settings that the channel has in `s`. -/
structure Holds (d : Nor) (c : Chan) (s : Psc Nor) : Prop where
  regs : ∀ x ∈ qspiRegs.zipIdx 1, savedWord d c x.2 = s.regs (chanReg c.u32 x.1.offset)
  scalefactors : ∀ x ∈ qspiSfs.zipIdx (qspiRegs.length + 1),
    savedWord d c x.2 = s.scalefactors (c.u32 - 1) x.1

/-- Nothing but the sector of the channel differs: the registers are as the FPGA sees them, and
whatever else the bus reads is the same. -/
structure Unchanged (c : Chan) (s s' : Psc Nor) : Prop where
  regs : s'.regs.regFile = s.regs.regFile
  bus : ∀ a, (∀ r, a ≠ chanAddr c r) → s'.regs a = s.regs a
  scalefactors : s'.scalefactors = s.scalefactors
  flash : ∀ i, ¬ InSector c i → s'.flash.cells i = s.flash.cells i

/-- The channel has the settings of `s` again. -/
structure Restored (c : Chan) (s s' : Psc Nor) : Prop where
  regs : ∀ r ∈ qspiRegs, s'.regs.regFile.chan c r = s.regs.regFile.chan c r
  scalefactors : ∀ f, s'.scalefactors (c.u32 - 1) f = s.scalefactors (c.u32 - 1) f

end Zpsc.Commands
