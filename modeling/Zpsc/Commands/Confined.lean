import Zpsc.Commands.ChanSettings

/-!
# What belongs to a channel

Each channel has a window of registers, an entry of `scalefactors` and a sector of the flash. A
channel command is confined when it touches these only. Two commands reach further on purpose:
clearing faults in main dipole mode, and the user trigger.
-/

namespace Zpsc

/-- The number of a channel as the handlers take it. -/
def Chan.u32 (c : Chan) : BitVec 32 := BitVec.ofNat 32 c.num

namespace Commands

open Bits Effects

/-- The addresses of the registers of a channel. -/
def InWindow (c : Chan) (a : ℕ) : Prop := c.num * CHBASEADDR ≤ a ∧ a < (c.num + 1) * CHBASEADDR

/-- The sector of a channel has its number. -/
def InSector (c : Chan) (i : ℕ) : Prop := i / FLASH_SECTOR_SIZE = c.num

/-- Transfers that change no cell outside the sector of a channel. -/
inductive OwnTransfer (c : Chan) : List Byte → Prop where
  | erase (a2 a1 a0 : Byte) (h : InSector c (flashAddr a2 a1 a0)) :
      OwnTransfer c [FLASH_SECTOR_ERASE_CMD, a2, a1, a0]
  | write (a2 a1 a0 : Byte) (bs : List Byte) (h : InSector c (flashAddr a2 a1 a0)) :
      OwnTransfer c (FLASH_WRITE_CMD :: a2 :: a1 :: a0 :: bs)
  | quiet (cmd : Byte) (bs : List Byte)
      (h : cmd = FLASH_READ_CMD ∨ cmd = FLASH_WRITE_ENABLE_CMD ∨ cmd = FLASH_READ_STATUS_CMD) :
      OwnTransfer c (cmd :: bs)

/-- Effects on what belongs to a channel. -/
def Eff.Own (c : Chan) : Eff → Prop
  | .out32 a _ => InWindow c a
  | .setSf i _ _ => i = c.u32 - 1
  | .transfer send => OwnTransfer c send

variable {φ : Type} [FlashChip φ]

/-- The effects outside its channel that a message is meant to have. -/
def exceptions (c : Chan) (addr data : BitVec 32) (s : Psc φ) : List Eff :=
  match ChanMsg.ofAddr addr.toNat with
  | .FAULT_CLEAR_MSG =>
    if s.regs GlobReg.main_dipole.offset = 1 then
      [Chan.ps1, .ps2, .ps3, .ps4].map fun c' => .out32 (chanAddr c' .fault_clear) data
    else []
  | .USR_TRIG_MSG =>
    if data = 1 then
      [.out32 GlobReg.softtrig.offset (1#32 <<< (c.u32 - 1)), .out32 GlobReg.softtrig.offset 0]
    else []
  | _ => []

/-- The message `addr`, `data`, handled in state `s` with the effects `es`, stays in channel `c`. -/
structure Confined (c : Chan) (addr data : BitVec 32) (s : Psc φ) (es : List Eff) : Prop where
  /-- Every effect is on the channel or is one of the exceptions. -/
  own : ∀ e ∈ es, e.Own c ∨ e ∈ exceptions c addr data s
  /-- A message with exceptions has no other effects. -/
  only : exceptions c addr data s ≠ [] → es = exceptions c addr data s
  regs : ∀ a, ¬ InWindow c a → (∀ v, .out32 a v ∉ exceptions c addr data s) →
    (applyAll es s).regs a = s.regs a
  scalefactors : ∀ i f, i ≠ c.u32 - 1 → (applyAll es s).scalefactors i f = s.scalefactors i f
  flash : ∀ i, ¬ InSector c i →
    FlashChip.cell (applyAll es s).flash i = FlashChip.cell s.flash i

end Commands

end Zpsc
