import Zpsc.Bits.Bytes
import Zpsc.Bits.NumericStd
import Zpsc.Clocked.Run

/-!
# The time of day (`event_rcv_ts.vhd`)

The seconds come as a serial stream of 0 events and 1 events. The latch event moves them to the
register and clears the offset, which counts the clocks from then on. The outputs that are copies of
a register are left out.
-/

namespace Zpsc.EventRcvTs

open Bits Clocked

structure In where
  Reset : Bool
  EventStream : Byte
  deriving DecidableEq, Repr

structure Regs where
  /-- The clocks since the last latch event. -/
  offsetReg : BitVec 32
  /-- The seconds at the last latch event. -/
  secondsReg : BitVec 32
  /-- A latch event came one clock ago. -/
  clear : Bool
  /-- A latch event came two clocks ago. -/
  clear_reg : Bool
  /-- The bit of `seconds_tmp` that comes next. -/
  pos : BitVec 5
  /-- The seconds that are being sent. -/
  seconds_tmp : BitVec 32
  TimeStamp : BitVec 64
  deriving DecidableEq, Repr

/-- The initial values; `TimeStamp` has none. -/
def powerUp (ts : BitVec 64) : Regs := ⟨0, 0, false, false, 31, 0, ts⟩

/-- The latch event. -/
def latchEvent : Byte := 0x7D

/-- The bit of a 0 event or a 1 event. -/
def bitOf (ev : Byte) : Option Bool :=
  if ev = 0x70 then some false else if ev = 0x71 then some true else none

/-- `x(k) <= b`. -/
def assign (x : BitVec 32) (k : ℕ) (b : Bool) : BitVec 32 :=
  ofBits 32 fun j => if j = k then b else x.getLsbD j

/-- One rising edge of `Clock`. -/
def step (s : Regs) (i : In) : Regs where
  pos :=
    if i.EventStream = latchEvent then 31
    else if (bitOf i.EventStream).isSome then s.pos - 1 else s.pos
  seconds_tmp :=
    if i.Reset || s.clear_reg then 0
    else match bitOf i.EventStream with
      | some b => assign s.seconds_tmp s.pos.toNat b
      | none => s.seconds_tmp
  secondsReg := if i.EventStream = latchEvent then s.seconds_tmp else s.secondsReg
  offsetReg := if i.EventStream = latchEvent then 0 else s.offsetReg + 1
  clear := i.EventStream = latchEvent
  clear_reg := s.clear
  TimeStamp := if i.Reset then 0 else s.secondsReg ++ s.offsetReg

/-- The registers before clock `t`. -/
def regs (ts : BitVec 64) (inp : ℕ → In) (t : ℕ) : Regs := trace step (powerUp ts) inp t

/-! ## The seconds that are sent -/

/-- The bits of the events from clock `a` on and before clock `b`. -/
def bitsIn (inp : ℕ → In) (a b : ℕ) : List Bool :=
  (List.range' a (b - a)).filterMap fun u => bitOf (inp u).EventStream

/-- The bits of a word, the highest first. -/
def msbFirst (sec : BitVec 32) : List Bool := (List.range 32).map fun j => sec.getLsbD (31 - j)

/-- The word `sec` is sent from clock `start` on and latched at clock `stop`: its 32 bits are the
only bit events before the latch event. Clock `start` is the one after the latch event before, with
no bit event at it and at the next one, or the first clock of all. -/
structure Sent (inp : ℕ → In) (start stop : ℕ) (sec : BitVec 32) : Prop where
  begins : start = 0 ∨ 0 < start ∧ (inp (start - 1)).EventStream = latchEvent ∧
    bitOf (inp start).EventStream = none ∧ bitOf (inp (start + 1)).EventStream = none
  bits : bitsIn inp start stop = msbFirst sec
  no_latch : ∀ u, start ≤ u → u < stop → (inp u).EventStream ≠ latchEvent
  latch : (inp stop).EventStream = latchEvent

end Zpsc.EventRcvTs
