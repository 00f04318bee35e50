import Mathlib.Data.Rat.Defs
import Zpsc.Bits.Bytes
import Zpsc.Effects.Cmd
import Zpsc.Regs

/-!
# What the commands act on

The command handlers of the software write registers of the FPGA, change the scale factors and talk
to the QSPI flash. These three are the state `Psc` and the effects `Eff` of the handlers. Two things
are parameters: the floating-point arithmetic of the processor (`Fpu`) and the flash chip
(`FlashChip`), with what its data sheet says of the commands in use.
-/

namespace Zpsc.Commands

open Bits Effects

/-! ## The register bus -/

/-- What a read of each address returns. Addresses are offsets from `XPAR_M_AXI_BASEADDR`. -/
abbrev Bus := ℕ → BitVec 32

/-- The width of the register at an address that the software writes. -/
def fieldWidth (a : ℕ) : Option ℕ :=
  if a < CHBASEADDR ∨ 5 * CHBASEADDR ≤ a then (GlobReg.ofOffset a).map GlobReg.width
  else (ChanReg.ofOffset (a % CHBASEADDR)).map ChanReg.width

/-- A write: the addressed register keeps the low bits of the word. At an address without such a
register nothing is kept. -/
def Bus.out32 (b : Bus) (a : ℕ) (v : BitVec 32) : Bus := fun a' =>
  if a' = a then
    match fieldWidth a with
    | some w => (v.setWidth w).setWidth 32
    | none => b a'
  else b a'

/-- The registers as the FPGA sees them. -/
def Bus.regFile (b : Bus) : RegFile where
  glob := fun g => (b g.offset).setWidth g.width
  chan := fun c r => (b (chanAddr c r)).setWidth r.width

/-! Two registers that no modelled part of the FPGA uses. -/

def NUMCHANS_REG : ℕ := 0xC

def BANDWIDTH_REG : ℕ := 0x10

/-! ## The processor's arithmetic -/

/-- The floating-point arithmetic of the processor. `F` holds the values of `double`, and those of
`float` among them; an operation on two `float`s is the operation of `double` rounded by `float`. A
conversion that C leaves undefined gives some word. -/
class Fpu (F : Type) extends Mul F, Div F, Sub F where
  /-- The `float` that a word represents. -/
  single : BitVec 32 → F
  /-- The word of a value that is assigned to a `float`. -/
  word : F → BitVec 32
  /-- Rounding to `float`. -/
  float : F → F
  /-- The value of a constant, or of an integer. -/
  lit : ℚ → F
  lt : F → F → Bool
  fabs : F → F
  toS32 : F → BitVec 32
  toU32 : F → BitVec 32
  llroundf : F → BitVec 64

/-! ## The flash chip -/

def FLASH_WRITE_CMD : Byte := 0x02

def FLASH_READ_CMD : Byte := 0x03

def FLASH_SECTOR_ERASE_CMD : Byte := 0xD8

def FLASH_WRITE_ENABLE_CMD : Byte := 0x06

def FLASH_READ_STATUS_CMD : Byte := 0x05

def FLASH_SECTOR_SIZE : ℕ := 0x10000

def FLASH_PAGE_SIZE : ℕ := 256

/-- The address that follows a command, most significant byte first. -/
def flashAddr (a2 a1 a0 : Byte) : ℕ := a2.toNat * 0x10000 + a1.toNat * 0x100 + a0.toNat

def ReadStatusCmd : List Byte := [FLASH_READ_STATUS_CMD, 0]

/-- A flash chip on the QSPI bus. A transfer shifts bytes in and as many out. An erase changes one
sector only, a write one page only; the other commands in use change no cell; and a chip that is
busy becomes ready while its status is read. -/
class FlashChip (φ : Type) where
  /-- The byte at an address. -/
  cell : φ → ℕ → Byte
  /-- The chip after a transfer of the bytes. -/
  transfer : List Byte → φ → φ
  /-- The bytes that come back, one for each byte sent. -/
  reply : List Byte → φ → List Byte
  reply_length : ∀ bs d, (reply bs d).length = bs.length
  erase_cell : ∀ a2 a1 a0 d i, i / FLASH_SECTOR_SIZE ≠ flashAddr a2 a1 a0 / FLASH_SECTOR_SIZE →
    cell (transfer [FLASH_SECTOR_ERASE_CMD, a2, a1, a0] d) i = cell d i
  write_cell : ∀ a2 a1 a0 bs d i, i / FLASH_PAGE_SIZE ≠ flashAddr a2 a1 a0 / FLASH_PAGE_SIZE →
    cell (transfer (FLASH_WRITE_CMD :: a2 :: a1 :: a0 :: bs) d) i = cell d i
  quiet_cell : ∀ cmd bs d i,
    cmd = FLASH_READ_CMD ∨ cmd = FLASH_WRITE_ENABLE_CMD ∨ cmd = FLASH_READ_STATUS_CMD →
    cell (transfer (cmd :: bs) d) i = cell d i
  ready : ∀ d, ∃ n, (reply ReadStatusCmd ((transfer ReadStatusCmd)^[n] d)).getD 1 0 &&& 1 = 0

/-! ## State and effects -/

/-- The fields of `ScaleFactorType`. -/
inductive Sf where
  | ampspersec | dac_dccts | vout | ignd | spare | regulator | error
  deriving DecidableEq, Repr

/-- The registers, the globals that the handlers use, and the flash. A `float` is its word.
`scalefactors` is by index; the array has the indices 0 to 3. -/
structure Psc (φ : Type) where
  /-- The bus, with the registers of the FPGA. -/
  regs : Bus
  scalefactors : BitVec 32 → Sf → BitVec 32
  /-- Codes of the DAC per volt, a `float`. -/
  CONVVOLTSTODACBITS : BitVec 32
  /-- 1 is cosine, all else linear. -/
  smoothramp_type : BitVec 8
  /-- The part of a linear ramp that is curved, in percent. -/
  smoothramp_percentcurved : BitVec 8
  flash : φ

inductive Eff where
  /-- `Xil_Out32`. -/
  | out32 (a : ℕ) (v : BitVec 32)
  /-- An assignment to a field of `scalefactors[i]`. -/
  | setSf (i : BitVec 32) (f : Sf) (w : BitVec 32)
  /-- `XQspiPs_PolledTransfer` of these bytes. -/
  | transfer (send : List Byte)
  deriving DecidableEq, Repr

/-- The address `X_REG + chan*CHBASEADDR`, in 32 bits. -/
def chanReg (chan : BitVec 32) (off : ℕ) : ℕ :=
  (BitVec.ofNat 32 off + chan * BitVec.ofNat 32 CHBASEADDR).toNat

/-- A handler. -/
abbrev Sw (φ α : Type) := Cmd Eff (Psc φ) α

variable {φ : Type}

def Xil_Out32 (a : ℕ) (v : BitVec 32) : Sw φ Unit := Cmd.emit (.out32 a v)

def Xil_In32 (a : ℕ) : Sw φ (BitVec 32) := Cmd.get fun s => s.regs a

/-- `scalefactors[chan-1].f`. -/
def scalefactor (chan : BitVec 32) (f : Sf) : Sw φ (BitVec 32) :=
  Cmd.get fun s => s.scalefactors (chan - 1) f

def setScalefactor (chan : BitVec 32) (f : Sf) (w : BitVec 32) : Sw φ Unit :=
  Cmd.emit (.setSf (chan - 1) f w)

variable [FlashChip φ]

def Eff.apply : Eff → Psc φ → Psc φ
  | .out32 a v, s => { s with regs := s.regs.out32 a v }
  | .setSf i f w, s => { s with
      scalefactors := fun i' f' => if i' = i ∧ f' = f then w else s.scalefactors i' f' }
  | .transfer send, s => { s with flash := FlashChip.transfer send s.flash }

instance : Effect Eff (Psc φ) := ⟨Eff.apply⟩

/-- The bytes received are as many as those sent. -/
def XQspiPs_PolledTransfer (send : List Byte) : Sw φ (List Byte) := do
  let r ← Cmd.get fun s => FlashChip.reply send s.flash
  Cmd.emit (.transfer send)
  return r

end Zpsc.Commands
