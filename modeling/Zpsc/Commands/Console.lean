import Zpsc.Commands.Confined
import Zpsc.Commands.Footprint

/-!
# Channel commands from the console (`receive_console_cmd` in `console.c`)

A line with a channel, a command and a value is parsed and handed to `chan_settings` like a message
from the network. The channel is any number that the line gives.
-/

namespace Zpsc.Commands

open Bits Effects Control PscMsg

/-! ## The line -/

def isspace (c : Char) : Bool :=
  c = ' ' || (0x09 ≤ c.toNat && c.toNat ≤ 0x0D)

def isdigit (c : Char) : Bool := '0' ≤ c && c ≤ '9'

/-- The number that decimal digits stand for. -/
def decimal (ds : List Char) : ℕ := ds.foldl (fun n d => 10 * n + (d.toNat - '0'.toNat)) 0

/-- `strtoul` of a sign and digits, in 32 bits: too large a number gives `ULONG_MAX`. -/
def unsignedOf (neg : Bool) (ds : List Char) : BitVec 32 :=
  if 2 ^ 32 ≤ decimal ds then 0xFFFFFFFF
  else if neg then -BitVec.ofNat 32 (decimal ds) else BitVec.ofNat 32 (decimal ds)

/-- An optional sign: whether it is a minus, and what follows. -/
def splitSign : List Char → Bool × List Char
  | '-' :: cs => (true, cs)
  | '+' :: cs => (false, cs)
  | cs => (false, cs)

/-- `%u` of `sscanf`: the number and the rest of the line. -/
def scanUnsigned (cs : List Char) : Option (BitVec 32 × List Char) :=
  let (neg, cs) := splitSign (cs.dropWhile isspace)
  let ds := cs.takeWhile isdigit
  if ds = [] then none else some (unsignedOf neg ds, cs.drop ds.length)

/-- `%31s` of `sscanf`. -/
def scanWord (cs : List Char) : Option (List Char) :=
  let w := ((cs.dropWhile isspace).takeWhile fun c => !isspace c).take 31
  if w = [] then none else some w

/-- `sscanf(input, "%u %u %31s", ..)`, where all three are found. -/
def scanLine (input : List Char) : Option (BitVec 32 × BitVec 32 × List Char) := do
  let (chan, rest) ← scanUnsigned input
  let (addr, rest) ← scanUnsigned rest
  let val_str ← scanWord rest
  return (chan, addr, val_str)

/-- `strtoul(val_str, NULL, 10)`. -/
def strtoul (val_str : List Char) : BitVec 32 :=
  let (neg, cs) := splitSign (val_str.dropWhile isspace)
  unsignedOf neg (cs.takeWhile isdigit)

/-- The data word; `strtof` gives the word of a `float`. -/
def dataOf (strtof : List Char → BitVec 32) (val_str : List Char) : BitVec 32 :=
  if '.' ∈ val_str then strtof val_str else strtoul val_str

/-- `msg_buf`. -/
def msgBuf (addr data : BitVec 32) : Buf := fun i => (toBe32 addr ++ toBe32 data).getD i 0

variable {φ : Type} (F : Type) [Fpu F] [FlashChip φ] (strtof : List Char → BitVec 32)

def receive_console_cmd (stack : Stack) (input : List Char) : Sw φ Unit :=
  match scanLine input with
  | none => pure ()
  | some (chan, addr, val_str) =>
    chan_settings F stack chan (msgBuf addr (dataOf strtof val_str)) 8

/-! ## What a message uses -/

/-- The message reads or sets a scale factor of its channel. -/
def usesSf (data : BitVec 32) : ChanMsg → Bool
  | .DAC_OPMODE_MSG => data = FOFB
  | .DAC_SETPT_MSG => true
  | .word _ => false
  | .gain _ => false
  | .offset _ => true
  | .prot m =>
    match m with
    | .OVC1_THRESH_MSG | .OVC2_THRESH_MSG | .OVV_THRESH_MSG | .ERR1_THRESH_MSG
    | .ERR2_THRESH_MSG | .IGND_THRESH_MSG => true
    | _ => false
  | .HEART_CNTLIM_MSG => false
  | .FAULT_CLEAR_MSG => false
  | .sf _ => true
  | .SF_DAC_DCCTS_MSG => true
  | .USR_TRIG_MSG => false
  | .WRITE_QSPI_MSG | .READ_QSPI_MSG => data = 1
  | .DUMP_ADCS_MSG => true
  | .unsupported => false

/-- The indices of `scalefactors` that a message uses. -/
def sfIndices (chan data : BitVec 32) (m : ChanMsg) : List (BitVec 32) :=
  if usesSf data m then [chan - 1] else []

/-- The message uses no scale factor and writes a register of its channel. -/
def registerOnly (main_dipole data : BitVec 32) : ChanMsg → Bool
  | .DAC_OPMODE_MSG => data = JUMP ∨ data = SMOOTH ∨ data = RAMP
  | .word _ | .gain _ | .HEART_CNTLIM_MSG => true
  | .prot m => !usesSf data (.prot m)
  | .FAULT_CLEAR_MSG => main_dipole ≠ 1
  | _ => false

/-! ## Confinement -/

/-- A message to `chan` with the effects `es` uses only scale factors that exist, writes only
registers of channels or the soft trigger, and erases and programs only the sectors of channels. -/
structure InBounds (chan data : BitVec 32) (m : ChanMsg) (es : List Eff) : Prop where
  scalefactors : ∀ i ∈ sfIndices chan data m, i.toNat ≤ 3
  regs : ∀ a v, .out32 a v ∈ es → (∃ c, InWindow c a) ∨ a = GlobReg.softtrig.offset
  flash : ∀ cmd a2 a1 a0 bs, .transfer (cmd :: a2 :: a1 :: a0 :: bs) ∈ es →
    cmd = FLASH_SECTOR_ERASE_CMD ∨ cmd = FLASH_WRITE_CMD →
    ∃ c, InSector c (flashAddr a2 a1 a0)

/-- Whatever the line makes `receive_console_cmd` do is in bounds. -/
def ConsoleConfined (stack : Stack) (input : List Char) (s : Psc φ) : Prop :=
  ∀ chan addr val_str, scanLine input = some (chan, addr, val_str) →
    InBounds chan (dataOf strtof val_str) (ChanMsg.ofAddr addr.toNat)
      ((receive_console_cmd F strtof stack input : Sw φ Unit).effects s)

/-- The channel suits the message: one of the four where a scale factor is used; where only a
register is written, its low 23 bits have to be. -/
def ChannelFits (main_dipole chan data : BitVec 32) (m : ChanMsg) : Prop :=
  (usesSf data m = true → 1 ≤ chan.toNat ∧ chan.toNat ≤ 4) ∧
    (registerOnly main_dipole data m = true →
      1 ≤ chan.toNat % 2 ^ 23 ∧ chan.toNat % 2 ^ 23 ≤ 4)

end Zpsc.Commands
