import Zpsc.Commands.Confined
import Zpsc.Commands.Exact
import Zpsc.PsIo

/-!
# Loading a ramp table

`write_ramptable` writes the points of a table one by one: the address, then the data, whose access
strobe stores the word in the RAM of the channel. Arithmetic is exact.
-/

namespace Zpsc.Commands

open Bits Effects CConv PscMsg

/-- The ramp tables of the channels. -/
abbrev Tables := Chan → BitVec 16 → BitVec 20

/-- The processor's registers and globals with the ramp tables. -/
structure Loaded (φ : Type) where
  psc : Psc φ
  /-- The ramp tables of the FPGA. -/
  tables : Tables

/-- A write strobe stores the word on the data port. -/
def stored (table : BitVec 16 → BitVec 20) (cntrl : DacCntrl) : BitVec 16 → BitVec 20 :=
  if cntrl.dpram_we then Function.update table cntrl.dpram_addr cntrl.dpram_data else table

/-- The access strobes of an effect. -/
def Eff.rampdata_swacc (e : Eff) (c : Chan) : Bool :=
  match e with
  | .out32 a _ => decide (a = chanAddr c .dac_rampdata)
  | .setSf .. | .transfer _ => false

variable {φ : Type} [FlashChip φ]

/-- An effect. The strobe comes with the new contents of the registers. -/
def Loaded.apply (e : Eff) (b : Loaded φ) : Loaded φ :=
  let psc := e.apply b.psc
  let i : PsIo.In := ⟨psc.regs.regFile, e.rampdata_swacc, fun _ => false, false⟩
  { psc := psc
    tables := fun c => stored (b.tables c) (PsIo.dacCntrl ⟨fun _ => 0, fun _ => false⟩ i c) }

instance : Effect Eff (Loaded φ) := ⟨Loaded.apply⟩

/-! ## What should be loaded -/

variable (dec : BitVec 32 → ℚ) (enc : ℚ → BitVec 32)

/-- A value of the table in codes of the DAC, before it is limited. -/
def rampCode (s : Psc φ) (c : Chan) (data : BitVec 32) : ℤ :=
  trunc (dec data * dec s.CONVVOLTSTODACBITS / dec (s.scalefactors (c.u32 - 1) .dac_dccts))

/-- The conversion to `s32` is defined. -/
def Converts (s : Psc φ) (c : Chan) (data : BitVec 32) : Prop :=
  dec (s.scalefactors (c.u32 - 1) .dac_dccts) ≠ 0 ∧
    -2 ^ 31 ≤ rampCode dec s c data ∧ rampCode dec s c data < 2 ^ 31

/-- Half the number of codes of the converter. -/
def halfCodes (psc_resolution : BitVec 32) : ℤ := if psc_resolution = 1 then 2 ^ 19 else 2 ^ 17

/-- A code of the converter. -/
def IsCode (psc_resolution : BitVec 32) (x : ℤ) : Prop :=
  -halfCodes psc_resolution ≤ x ∧ x < halfCodes psc_resolution

instance (psc_resolution : BitVec 32) (x : ℤ) : Decidable (IsCode psc_resolution x) :=
  inferInstanceAs (Decidable (_ ∧ _))

/-- Limited to the codes of the converter. -/
def clampCode (psc_resolution : BitVec 32) (x : ℤ) : ℤ :=
  max (-halfCodes psc_resolution) (min x (halfCodes psc_resolution - 1))

/-- `b` holds the table: its length, and every point that converts at its address. -/
structure HoldsTable (s : Psc φ) (c : Chan) (msg : Buf) (n : ℕ) (b : Loaded φ) : Prop where
  /-- The length is in its register. -/
  ramplen : (b.psc.regs.regFile.chan c .dac_ramplen).toNat = n
  point : ∀ i < n, Converts dec s c (msgWord msg i) →
    (b.tables c (BitVec.ofNat 16 i)).toInt =
      clampCode (s.regs GlobReg.resolution.offset) (rampCode dec s c (msgWord msg i))

/-- `write_ramptable` loads a table of up to 50000 points, and does nothing with a longer one. -/
def LoadsTable (b : Loaded φ) (c : Chan) (msg : Buf) (msglen : BitVec 32) : Prop :=
  let b' := (write_ramptable (Exact dec enc) c.u32 msg msglen).runOn Loaded.psc b
  let n := (msglen / 4).toNat
  if n ≤ 50000 then HoldsTable dec b.psc c msg n b' else b' = b

end Zpsc.Commands
