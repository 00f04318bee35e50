import Zpsc.Commands.Console
import Zpsc.Commands.Flavor

/-!
# The smooth ramp type from the console (`set_smoothramptype` in `console.c`)

The type and, for a linear ramp, the percentage that is curved are typed in and stored in the
EEPROM. The keys are a list; a function that has used them up waits.
-/

namespace Zpsc.Commands

open Bits

/-- The EEPROM, the bytes written to it, in order, and what is set from it. -/
structure Setup (φ : Type) where
  eeprom : Byte → Byte
  /-- Address and byte. -/
  writes : List (Byte × Byte)
  fw : Firmware φ

namespace Setup

variable {φ : Type}

/-- `i2c_eeprom_writeBytes` for one byte. -/
def writeByte (a v : Byte) (s : Setup φ) : Setup φ :=
  { s with eeprom := Function.update s.eeprom a v, writes := s.writes ++ [(a, v)] }

def ReadHardwareFlavor (s : Setup φ) : Setup φ :=
  { s with fw := s.fw.ReadHardwareFlavor fun k => s.eeprom (0x10 + BitVec.ofNat 8 k.val) }

end Setup

/-- `get_binary_input`: -1 as a `u8` for a key other than 0 and 1. -/
def get_binary_input : List Char → Option (Byte × List Char)
  | [] => none
  | c :: keys => some (if c = '0' then 0 else if c = '1' then 1 else 0xFF, keys)

section Percent

-- `atoi`, of a string of digits
variable (atoi : List Char → BitVec 32)

/-- The loop of `get_percent_input`, with the characters that are in `buf`. -/
def percentLoop (buf : List Char) : List Char → Option (BitVec 32 × List Char)
  | [] => none
  | c :: keys =>
    if c = '\r' ∨ c = '\n' then some (atoi buf, keys)
    else if isdigit c ∧ buf.length < 15 then percentLoop (buf ++ [c]) keys
    else percentLoop buf keys

def get_percent_input (keys : List Char) : Option (BitVec 32 × List Char) :=
  percentLoop atoi [] keys

def set_smoothramptype {φ : Type} (keys : List Char) (s : Setup φ) :
    Option (Setup φ × List Char) := do
  let (val, keys) ← get_binary_input keys
  if val = 0xFF then return (s.ReadHardwareFlavor, keys)
  let s := s.writeByte 0x16 val
  if val ≠ 0 then return (s.ReadHardwareFlavor, keys)
  let (input, keys) ← get_percent_input atoi keys
  let percent_curved : Byte := input.setWidth 8
  if 5 ≤ percent_curved ∧ percent_curved ≤ 50 then
    return ((s.writeByte 0x17 percent_curved).ReadHardwareFlavor, keys)
  else return (s.ReadHardwareFlavor, keys)

/-! ## The intended entry -/

/-- `atoi` gives the number of the digits where an `int` has it. -/
def AtoiExact : Prop :=
  ∀ ds : List Char, (∀ d ∈ ds, isdigit d = true) → decimal ds < 2 ^ 31 →
    atoi ds = BitVec.ofNat 32 (decimal ds)

/-- The digits that are accepted of the keys before the line end. -/
def accepted (ks : List Char) : List Char := (ks.filter isdigit).take 15

/-- The keys `ks` and a line end `e`, after linear was chosen, write the number that was entered to
byte 0x17 if it is between 5 and 50, and write nothing there otherwise. -/
def EntryExact {φ : Type} (ks : List Char) (e : Char) (rest : List Char) (s : Setup φ) : Prop :=
  ∃ s' ws, set_smoothramptype atoi ('0' :: (ks ++ e :: rest)) s = some (s', rest) ∧
    s'.writes = s.writes ++ ws ∧
    (ws.filter fun w => w.1 = 0x17) =
      (if 5 ≤ decimal (accepted ks) ∧ decimal (accepted ks) ≤ 50 then
        [(0x17, BitVec.ofNat 8 (decimal (accepted ks)))] else []) ∧
    s'.eeprom 0x17 =
      if 5 ≤ decimal (accepted ks) ∧ decimal (accepted ks) ≤ 50 then
        BitVec.ofNat 8 (decimal (accepted ks)) else s.eeprom 0x17

/-- The number fits a byte, or the byte that is left of it is out of range too. -/
def EntryOk (ks : List Char) : Prop :=
  decimal (accepted ks) < 256 ∨
    ¬ (5 ≤ (atoi (accepted ks)).setWidth 8 ∧ (atoi (accepted ks)).setWidth 8 ≤ 50)

end Percent

end Zpsc.Commands
