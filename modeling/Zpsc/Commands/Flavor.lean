import Mathlib.Data.BitVec
import Zpsc.Commands.Board

/-!
# The hardware flavor (`ReadHardwareFlavor` in `i2c.c`)

Eight bytes of the EEPROM say what the unit is built for. They are read at start-up and after every
change from the console, into registers and into globals. What is printed is left out.
-/

namespace Zpsc.Commands

open Bits

/-- What the handlers act on, and the global that only readbacks use. -/
structure Firmware (φ : Type) extends Psc φ where
  /-- Volts per code of the DAC, a `float`. -/
  CONVDACBITSTOVOLTS : BitVec 32

/-- `CONVVOLTSTO20BITS` (52428.8) or `CONVVOLTSTO18BITS` (13107.2) as a `float`. -/
def convVoltsToBits (numbits_sel : Bool) : BitVec 32 :=
  if numbits_sel then 0x474CCCCD else 0x464CCCCD

/-- `CONV20BITSTOVOLTS` (1/52428.8) or `CONV18BITSTOVOLTS` (1/13107.2) as a `float`. -/
def convBitsToVolts (numbits_sel : Bool) : BitVec 32 :=
  if numbits_sel then 0x37A00000 else 0x38A00000

namespace Firmware

variable {φ : Type}

/-- Globals are zero, and so are the registers of the FPGA. -/
def powerUp (flash : φ) : Firmware φ where
  regs := fun _ => 0
  scalefactors := fun _ _ => 0
  CONVVOLTSTODACBITS := 0
  smoothramp_type := 0
  smoothramp_percentcurved := 0
  flash := flash
  CONVDACBITSTOVOLTS := 0

def out32 (s : Firmware φ) (a : ℕ) (v : BitVec 32) : Firmware φ :=
  { s with regs := s.regs.out32 a v }

/-- The number of channels, and in the same way the bandwidth: 2 stands for an invalid byte. -/
def flavorBit (reg : ℕ) (val : Byte) (s : Firmware φ) : Firmware φ :=
  s.out32 reg (if val = 0 then 0 else if val = 1 then 1 else 2)

/-- The register is written before the byte is looked at, and again when it is invalid. -/
def flavorResolution (val : Byte) (s : Firmware φ) : Firmware φ :=
  let s := s.out32 GlobReg.resolution.offset (val.setWidth 32)
  if val = 0 then
    { s with
      CONVVOLTSTODACBITS := convVoltsToBits false
      CONVDACBITSTOVOLTS := convBitsToVolts false }
  else if val = 1 then
    { s with
      CONVVOLTSTODACBITS := convVoltsToBits true
      CONVDACBITSTOVOLTS := convBitsToVolts true }
  else s.out32 GlobReg.resolution.offset 2

def flavorPolarity (val : Byte) (s : Firmware φ) : Firmware φ :=
  s.out32 GlobReg.polarity.offset ((val &&& 0x0F).setWidth 32)

/-- Dual mode, and in the same way main dipole mode: a zero byte enables. -/
def flavorMode (reg : GlobReg) (val : Byte) (s : Firmware φ) : Firmware φ :=
  s.out32 reg.offset (if val = 0 then 1 else 0)

def flavorSmoothRamp (val percent : Byte) (s : Firmware φ) : Firmware φ :=
  if val = 0 then
    { s.out32 GlobReg.smoothramp_type.offset 0 with
      smoothramp_type := 0
      smoothramp_percentcurved := percent }
  else
    { s.out32 GlobReg.smoothramp_type.offset 1 with
      smoothramp_type := 1
      smoothramp_percentcurved := 0 }

def ReadHardwareFlavor (rdBuf : Fin 8 → Byte) (s : Firmware φ) : Firmware φ :=
  let s := flavorBit NUMCHANS_REG (rdBuf 0) s
  let s := flavorResolution (rdBuf 1) s
  let s := flavorBit BANDWIDTH_REG (rdBuf 2) s
  let s := flavorPolarity (rdBuf 3) s
  let s := flavorMode .ch34_dualmode (rdBuf 4) s
  let s := flavorMode .main_dipole (rdBuf 5) s
  flavorSmoothRamp (rdBuf 6) (rdBuf 7) s

/-- The byte that selects the resolution. -/
def resolutionByte (rdBuf : Fin 8 → Byte) : Byte := rdBuf 1

/-! ## Resolution -/

/-- `dac_cntrl.numbits_sel` and `dcct_params.numbits_sel`. -/
def numbits_sel (s : Firmware φ) : Bool := (s.regs.regFile.glob .resolution).getLsbD 0

/-- The constants of the software are those of the resolution that the FPGA uses. -/
structure ResolutionAgrees (s : Firmware φ) : Prop where
  volts : s.CONVVOLTSTODACBITS = convVoltsToBits s.numbits_sel
  bits : s.CONVDACBITSTOVOLTS = convBitsToVolts s.numbits_sel
  volts_ne_zero : s.CONVVOLTSTODACBITS ≠ 0
  bits_ne_zero : s.CONVDACBITSTOVOLTS ≠ 0

/-- After a sequence of calls, each with what it reads from the EEPROM. -/
def flavors (calls : List (Fin 8 → Byte)) (s : Firmware φ) : Firmware φ :=
  calls.foldl (fun s rdBuf => s.ReadHardwareFlavor rdBuf) s

end Firmware

/-- The last of the resolution bytes that is valid. -/
def lastValid (bs : List Byte) : Option Byte := (bs.filter fun b => b = 0 ∨ b = 1).getLast?

/-- Some resolution byte was valid, and the last valid one is the last one or selects 18 bits. -/
def ValidHistory (calls : List (Fin 8 → Byte)) : Prop :=
  let bs := calls.map fun rdBuf => rdBuf 1
  lastValid bs = some 0 ∨ lastValid bs = some 1 ∧ bs.getLast? = some 1

end Zpsc.Commands
