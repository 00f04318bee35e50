import Zpsc.Commands.Board

/-!
# An arithmetic and a flash chip

The parameters of the command handlers at one value each: IEEE arithmetic with conversions that
saturate, and a serial NOR flash that is ready at once.
-/

namespace Zpsc.Commands

open Bits

instance : Fpu Float where
  single w := (Float32.ofBits (UInt32.ofBitVec w)).toFloat
  word x := x.toFloat32.toBits.toBitVec
  float x := x.toFloat32.toFloat
  lit q := Float.ofInt q.num / Float.ofNat q.den
  lt x y := decide (x < y)
  fabs := Float.abs
  toS32 x := x.toInt32.toBitVec
  toU32 x := x.toUInt32.toBitVec
  llroundf x := x.round.toInt64.toBitVec

/-- The cells and the write enable latch. -/
structure Nor where
  cells : ℕ → Byte
  /-- The write enable latch. -/
  wel : Bool

namespace Nor

/-- An erase sets the bits of a sector. -/
def erase (d : Nor) (a : ℕ) : Nor where
  cells := fun i => if i / FLASH_SECTOR_SIZE = a / FLASH_SECTOR_SIZE then 0xFF else d.cells i
  wel := false

/-- A write clears bits of a page; an address beyond its end continues at its start. -/
def write (d : Nor) (a : ℕ) (bs : List Byte) : Nor where
  cells := fun i =>
    if i / FLASH_PAGE_SIZE = a / FLASH_PAGE_SIZE then
      d.cells i &&& bs.getD ((i + FLASH_PAGE_SIZE - a % FLASH_PAGE_SIZE) % FLASH_PAGE_SIZE) 0xFF
    else d.cells i
  wel := false

/-- One transfer. Erase and write need the latch. -/
def transfer : List Byte → Nor → Nor
  | cmd :: a2 :: a1 :: a0 :: bs, d =>
    if cmd = FLASH_SECTOR_ERASE_CMD ∧ d.wel then d.erase (flashAddr a2 a1 a0)
    else if cmd = FLASH_WRITE_CMD ∧ d.wel then d.write (flashAddr a2 a1 a0) bs
    else d
  | cmd :: _, d => if cmd = FLASH_WRITE_ENABLE_CMD then { d with wel := true } else d
  | [], d => d

def reply : List Byte → Nor → List Byte
  | cmd :: a2 :: a1 :: a0 :: bs, d =>
    [0, 0, 0, 0] ++ bs.mapIdx fun k _ =>
      if cmd = FLASH_READ_CMD then d.cells (flashAddr a2 a1 a0 + k) else 0
  | bs, _ => bs.map fun _ => 0

theorem erase_cell (d : Nor) (a i : ℕ) (h : i / FLASH_SECTOR_SIZE ≠ a / FLASH_SECTOR_SIZE) :
    (d.erase a).cells i = d.cells i := if_neg h

theorem write_cell (d : Nor) (a : ℕ) (bs : List Byte) (i : ℕ)
    (h : i / FLASH_PAGE_SIZE ≠ a / FLASH_PAGE_SIZE) : (d.write a bs).cells i = d.cells i := if_neg h

theorem quiet_cell (cmd : Byte) (bs : List Byte) (d : Nor) (i : ℕ)
    (h : cmd = FLASH_READ_CMD ∨ cmd = FLASH_WRITE_ENABLE_CMD ∨ cmd = FLASH_READ_STATUS_CMD) :
    (transfer (cmd :: bs) d).cells i = d.cells i := by
  have h1 : cmd ≠ FLASH_SECTOR_ERASE_CMD := by rcases h with rfl | rfl | rfl <;> decide
  have h2 : cmd ≠ FLASH_WRITE_CMD := by rcases h with rfl | rfl | rfl <;> decide
  unfold transfer
  split
  · rename_i e
    obtain ⟨rfl, -⟩ := List.cons.inj e
    rw [if_neg fun k => h1 k.1, if_neg fun k => h2 k.1]
  · split <;> rfl
  · rfl

end Nor

instance : FlashChip Nor where
  cell := Nor.cells
  transfer := Nor.transfer
  reply := Nor.reply
  reply_length bs d := by
    unfold Nor.reply
    split <;> simp
  erase_cell a2 a1 a0 d i h := by
    simp only [Nor.transfer]
    split
    · exact Nor.erase_cell d _ i h
    · split
      · exact absurd ‹_ ∧ _›.1 (by decide)
      · rfl
  write_cell a2 a1 a0 bs d i h := by
    simp only [Nor.transfer]
    split
    · exact absurd ‹_ ∧ _›.1 (by decide)
    · split
      · exact Nor.write_cell d _ bs i h
      · rfl
  quiet_cell := Nor.quiet_cell
  ready _ := ⟨0, show (0 : Byte) &&& 1 = 0 by decide⟩

/-- A unit that is all zeros, with an empty flash. -/
def blank : Psc Nor := ⟨fun _ => 0, fun _ _ => 0, 0, 0, 0, ⟨fun _ => 0xFF, false⟩⟩

end Zpsc.Commands
