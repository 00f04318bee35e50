import Zpsc.Bits.Bytes
import Zpsc.Clocked.Run

/-!
# An event channel (`event_rcv_chan.vhd`, `EventReceiverChannel.v`)

A matching event starts a delay, and the end of the delay starts a pulse. The VHDL entity is a port
of the Verilog module. The registers of both have the same names.
-/

namespace Zpsc

open Bits

namespace EventRcvChan

structure In where
  Reset : Bool
  eventStream : Byte
  deriving DecidableEq, Repr

/-- The inputs that stay as they are. -/
structure Conf where
  /-- The event that makes a pulse. -/
  myEvent : Byte
  myDelay : BitVec 32
  myWidth : BitVec 32
  /-- 1 for pulses that are low. -/
  myPolarity : Bool
  deriving DecidableEq, Repr

structure Regs where
  delayCounter : BitVec 32
  widthCounter : BitVec 32
  /-- The delay runs. -/
  startDelay : Bool
  /-- The pulse is out. -/
  startWidth : Bool
  deriving DecidableEq, Repr

/-- One rising edge of `Clock`. -/
def step (c : Conf) (s : Regs) (i : In) : Regs where
  delayCounter :=
    if i.Reset then 0
    else if s.startDelay then s.delayCounter + 1
    else if c.myDelay ≤ s.delayCounter then 0 else s.delayCounter
  widthCounter :=
    if i.Reset then 0
    else if s.startWidth then s.widthCounter + 1
    else if c.myWidth ≤ s.widthCounter then 0 else s.widthCounter
  startDelay :=
    if i.Reset then false
    else if c.myEvent = i.eventStream then true
    else if c.myDelay ≤ s.delayCounter then false else s.startDelay
  startWidth :=
    if i.Reset then false
    else if c.myDelay < s.delayCounter then true
    else if c.myWidth ≤ s.widthCounter then false else s.startWidth

def trigger (c : Conf) (s : Regs) : Bool :=
  if c.myDelay ≠ 0 ∧ c.myWidth ≠ 0 then
    if c.myPolarity then !s.startWidth else s.startWidth
  else false

end EventRcvChan

namespace EventReceiverChannel

open EventRcvChan

/-- One rising edge of `Clock`. -/
def step (c : Conf) (s : Regs) (i : In) : Regs where
  delayCounter :=
    if i.Reset then 0
    else if s.startDelay then s.delayCounter + 1
    else if c.myDelay ≤ s.delayCounter then 0 else s.delayCounter
  widthCounter :=
    if i.Reset then 0
    else if s.startWidth then s.widthCounter + 1
    else if c.myWidth ≤ s.widthCounter then 0 else s.widthCounter
  startDelay :=
    if i.Reset then false
    else if c.myEvent = i.eventStream then true
    else if s.delayCounter = c.myDelay - 1 then false else s.startDelay
  startWidth :=
    if i.Reset then false
    else if s.delayCounter = c.myDelay then true
    else if s.widthCounter = c.myWidth - 1 then false else s.startWidth

def trigger (c : Conf) (s : Regs) : Bool :=
  if c.myDelay ≠ 0 ∧ c.myWidth ≠ 0 then
    if c.myPolarity then !s.startWidth else s.startWidth
  else false

end EventReceiverChannel

namespace EventRcvChan

open Clocked

/-- A reset at clock 0 and none later. -/
def ResetFirst (inp : ℕ → In) : Prop := (inp 0).Reset = true ∧ ∀ t, 0 < t → (inp t).Reset = false

/-- A matching event at clock `t`. -/
def matching (c : Conf) (inp : ℕ → In) (t : ℕ) : Bool :=
  !(inp t).Reset && c.myEvent == (inp t).eventStream

/-- `trigger` before clock `t`, from the registers `s`. -/
def out (c : Conf) (s : Regs) (inp : ℕ → In) (t : ℕ) : Bool := trigger c (trace (step c) s inp t)

/-- `trigger` of the Verilog module before clock `t`, from the registers `s`. -/
def outVerilog (c : Conf) (s : Regs) (inp : ℕ → In) (t : ℕ) : Bool :=
  EventReceiverChannel.trigger c (trace (EventReceiverChannel.step c) s inp t)

/-! ## The intended pulses -/

/-- A pulse starts at clock `a`, after the reset: the trigger leaves its inactive level. -/
def PulseStarts (c : Conf) (trig : ℕ → Bool) (a : ℕ) : Prop :=
  1 < a ∧ trig (a - 1) = c.myPolarity ∧ trig a ≠ c.myPolarity

/-- Each matching event has exactly one pulse before the next one comes, there are no other pulses,
and each pulse is `myWidth` clocks long. -/
structure OnePulse (c : Conf) (inp : ℕ → In) (trig : ℕ → Bool) : Prop where
  one : ∀ t, matching c inp t = true →
    ∃! a, t < a ∧ (∀ u, t < u → u < a → matching c inp u = false) ∧ PulseStarts c trig a
  caused : ∀ a, PulseStarts c trig a → ∃ t < a, matching c inp t = true
  width : ∀ a, PulseStarts c trig a →
    (∀ v, a ≤ v → v < a + c.myWidth.toNat → trig v ≠ c.myPolarity) ∧
      trig (a + c.myWidth.toNat) = c.myPolarity

/-- The pulses are as intended, and from the reset on the trigger is the one of the Verilog
module. -/
def AsPorted (c : Conf) (inp : ℕ → In) (s s' : Regs) : Prop :=
  OnePulse c inp (out c s inp) ∧ ∀ t, 0 < t → out c s inp t = outVerilog c s' inp t

end EventRcvChan

end Zpsc
