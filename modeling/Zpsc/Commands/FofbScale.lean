import Zpsc.Commands.Exact
import Zpsc.Commands.Flavor
import Zpsc.Commands.Saved

/-!
# The scale factor of the fast feedback

In FOFB mode the FPGA multiplies with a register that the software derives from two values, the bits
per volt and the scale factor `dac_dccts` of the channel. Whatever changes one of these has to write
the register again. Arithmetic is exact.
-/

namespace Zpsc.Commands

open Bits Effects Control

/-- `InitSettingsfromQspi`, with what the stack holds for each channel. -/
def InitSettingsfromQspi {φ : Type} [FlashChip φ] (stack : Chan → Stack) : Sw φ Unit := do
  Xil_Out32 GlobReg.evr_inj_eventno.offset 10
  Xil_Out32 GlobReg.evr_pm_eventno.offset 10
  [Chan.ps1, .ps2, .ps3, .ps4].forM fun c => readQspi (stack c) c.u32

/-- What changes the registers and globals. -/
inductive Ev where
  /-- A command; the flash is read and written with it too. -/
  | command (cmd : Command) (sized : ∃ k : Locals, k.toStack = cmd.stack)
  /-- `ReadHardwareFlavor`, from the console or at start-up. -/
  | flavor (rdBuf : Fin 8 → Byte)
  /-- `InitSettingsfromQspi`, at start-up. -/
  | startUp (locals : Chan → Locals)

/-- The word of `dac_dccts` in the sector of a channel. -/
def savedDccts (d : Nor) (c : Chan) : BitVec 32 := savedWord d c 39

namespace Firmware

variable (dec : BitVec 32 → ℚ) (enc : ℚ → BitVec 32)

/-- The state that a handler leaves. -/
def after (s : Firmware Nor) (m : Sw Nor Unit) : Firmware Nor := { s with toPsc := m.final s.toPsc }

def step (s : Firmware Nor) : Ev → Firmware Nor
  | .command cmd _ => s.after (cmd.run (Exact dec enc))
  | .flavor rdBuf => s.ReadHardwareFlavor rdBuf
  | .startUp locals => s.after (InitSettingsfromQspi fun c => (locals c).toStack)

/-- The channel is in FOFB mode. -/
def InFofb (s : Firmware Nor) (c : Chan) : Prop :=
  s.regs.regFile.chan c .dac_opmode = FOFB.setWidth ChanReg.dac_opmode.width

def dac_dccts (s : Firmware Nor) (c : Chan) : BitVec 32 := s.scalefactors (c.u32 - 1) .dac_dccts

/-- If the channel is in FOFB mode, the register fits the values in force. -/
def FofbConsistent (s : Firmware Nor) (c : Chan) : Prop :=
  s.InFofb c → dec (s.dac_dccts c) ≠ 0 →
    s.regs.regFile.chan c .fofb_scalefactor =
      enc (dec s.CONVVOLTSTODACBITS / dec (s.dac_dccts c))

/-- The step does not bring another value into force for a channel in FOFB mode, other than by the
messages that write the register too: a line of the console names a channel that there is, what is
read from flash is what the channel has, and a resolution byte selects the resolution in use. -/
def Safe (s : Firmware Nor) : Ev → Prop
  | .command cmd _ =>
    cmd.Numbered ∧ ∀ c : Chan, cmd.chanMsg = some (c.u32, .READ_QSPI_MSG, 1) → s.InFofb c →
      dec (savedDccts s.flash c) = dec (s.dac_dccts c)
  | .flavor rdBuf =>
    ∀ b : Bool, resolutionByte rdBuf = (if b then 1 else 0) → ∀ c, s.InFofb c →
      dec (convVoltsToBits b) = dec s.CONVVOLTSTODACBITS
  | .startUp _ => ∀ c, s.InFofb c → dec (savedDccts s.flash c) = dec (s.dac_dccts c)

/-- The states of runs from power-up, all of whose steps are safe. -/
inductive SafeRun (flash : Nor) : Firmware Nor → Prop where
  | powerUp : SafeRun flash (powerUp flash)
  | step {s : Firmware Nor} (h : SafeRun flash s) (e : Ev) (he : s.Safe dec e) :
      SafeRun flash (s.step dec enc e)

end Firmware

end Zpsc.Commands
