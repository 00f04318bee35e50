import Zpsc.Bits.NumericStd
import Zpsc.Clocked.Run
import Zpsc.PscPkg

/-!
# The digital outputs (`digio_logic.vhd`, `pulse_enable.vhd`, `pulse_delay.vhd`)

The commands `rcom` of the four supplies. The ON command of a channel is a 1 kHz pulse train, gated
by the channel's fault; with `ch34_dualmode` channels 3 and 4 share their faults, and channel 4
follows a delayed copy of channel 3's pulse train. The Manchester decoder of channel 1 is not part
of this model.
-/

namespace Zpsc

open Bits

/-! ## `pulse_enable` -/

structure PulseEnable where
  /-- The clocks of the period. -/
  pulse_counter : BitVec 32
  /-- `enable_in` one clock ago. -/
  pulse_enable : Bool
  /-- The pulse train. -/
  ch_enable : Bool
  /-- `enable_in` one clock ago, for outputs without pulses. -/
  enable_in_reg : Bool
  deriving DecidableEq

namespace PulseEnable

def step (period : ℕ) (s : PulseEnable) (reset en enable_in : Bool) : PulseEnable :=
  if reset then ⟨0, false, false, false⟩
  else
    let s' := { s with pulse_enable := enable_in, enable_in_reg := enable_in }
    if en then
      if s.pulse_enable then
        if s.pulse_counter = BitVec.ofNat 32 period then { s' with pulse_counter := 0 }
        else if BitVec.ofNat 32 (period / 2) ≤ s.pulse_counter then
          { s' with ch_enable := true, pulse_counter := s.pulse_counter + 1 }
        else { s' with ch_enable := false, pulse_counter := s.pulse_counter + 1 }
      else { s' with pulse_counter := 0, ch_enable := false }
    else { s' with pulse_counter := 0 }

def en_out (s : PulseEnable) (en : Bool) : Bool := if en then s.ch_enable else s.enable_in_reg

end PulseEnable

/-! ## `pulse_delay` -/

/-- The registers of `pulse_delay`. -/
structure PulseDelay where
  /-- The clocks of the delay. -/
  qual_cnt : BitVec 32
  /-- The clocks that `sig_in` has been low, up to `DELAY_COUNTS`. -/
  low_cnt : BitVec 32
  /-- The delay has begun. -/
  started : Bool
  /-- It is over, and pulses go through. -/
  qualified : Bool
  /-- `sig_in` one clock ago. -/
  sig_in_d : Bool
  sig_out : Bool
  deriving DecidableEq

namespace PulseDelay

def step (DELAY_COUNTS : ℕ) (s : PulseDelay) (rst sig_in : Bool) : PulseDelay :=
  if rst then ⟨0, 0, false, false, false, false⟩
  else
    let rearm := DELAY_COUNTS ≠ 0 ∧ BitVec.ofNat 32 DELAY_COUNTS ≤ s.low_cnt
    let start := sig_in && !s.sig_in_d && !s.started && !s.qualified
    let counting := s.started && !s.qualified
    let last := DELAY_COUNTS = 0 ∨ s.qual_cnt = BitVec.ofNat 32 (DELAY_COUNTS - 1)
    { sig_in_d := sig_in
      low_cnt :=
        if sig_in then 0
        else if s.low_cnt ≠ BitVec.ofNat 32 DELAY_COUNTS then s.low_cnt + 1 else s.low_cnt
      started := if start then true else if rearm then false else s.started
      qualified :=
        if counting ∧ last then true else if rearm then false else s.qualified
      qual_cnt :=
        if counting ∧ ¬ last then s.qual_cnt + 1
        else if start ∨ rearm then 0 else s.qual_cnt
      sig_out := if s.qualified then sig_in else false }

end PulseDelay

/-! ## `digio_logic` -/

/-- The registers of `digio_logic`: those of its pulse generators and of the turn-on delay. -/
structure Digio where
  on1 : Chan → PulseEnable
  on2 : Chan → PulseEnable
  /-- Makes `rcom(12)` from `rcom(8)` in dual mode. -/
  pwr_delay : PulseDelay

namespace Digio

/-- The inputs of `digio_logic` at one clock edge. -/
structure In where
  reset : Bool
  ch34_dualmode : Bool
  fault : Chan → FaultStat
  dig_cntrl : Chan → DigCntrl

/-- `period_in` of all pulse generators. -/
def period : ℕ := 1000000

/-- `DELAY_COUNTS` of `pwr_delay`. -/
def delayCounts : ℕ := 5000000

/-- `ps_on1`; the generators are instantiated with `en => '1'`. -/
def ps_on1 (s : Digio) (c : Chan) : Bool := (s.on1 c).en_out true

def ps_on2 (s : Digio) (i : In) (c : Chan) : Bool := (s.on2 c).en_out (i.dig_cntrl c).polarity

/-- The bits of the output `rcom`. -/
def rcomBit (s : Digio) (i : In) : ℕ → Bool
  | 0 => ps_on1 s .ps1 && !(i.fault .ps1).flt_trig
  | 1 => ps_on2 s i .ps1
  | 2 => (i.dig_cntrl .ps1).reset
  | 3 => (i.dig_cntrl .ps1).spare
  | 4 => ps_on1 s .ps2 && !(i.fault .ps2).flt_trig
  | 5 => ps_on2 s i .ps2
  | 6 => (i.dig_cntrl .ps2).reset
  | 7 => (i.dig_cntrl .ps2).spare
  | 8 =>
    if i.ch34_dualmode then
      ps_on1 s .ps3 && !(i.fault .ps3).flt_trig && !(i.fault .ps4).flt_trig
    else ps_on1 s .ps3 && !(i.fault .ps3).flt_trig
  | 9 => ps_on2 s i .ps3
  | 10 => (i.dig_cntrl .ps3).reset
  | 11 => (i.dig_cntrl .ps3).spare
  | 12 =>
    if i.ch34_dualmode then
      s.pwr_delay.sig_out && !(i.fault .ps3).flt_trig && !(i.fault .ps4).flt_trig
    else ps_on1 s .ps4 && !(i.fault .ps4).flt_trig
  | 13 => ps_on2 s i .ps4
  | 14 => (i.dig_cntrl .ps4).reset
  | 15 => (i.dig_cntrl .ps4).spare
  | 16 => (i.dig_cntrl .ps1).park
  | 17 => (i.dig_cntrl .ps2).park
  | 18 => (i.dig_cntrl .ps3).park
  | 19 => (i.dig_cntrl .ps4).park
  | _ => false

def rcom (s : Digio) (i : In) : BitVec 20 := ofBits 20 (rcomBit s i)

def step (s : Digio) (i : In) : Digio where
  on1 := fun c => (s.on1 c).step period i.reset true (i.dig_cntrl c).on1
  on2 := fun c => (s.on2 c).step period i.reset (i.dig_cntrl c).polarity (i.dig_cntrl c).on2
  pwr_delay := s.pwr_delay.step delayCounts i.reset (ps_on1 s .ps3)

def onBit : Chan → ℕ
  | .ps1 => 0
  | .ps2 => 4
  | .ps3 => 8
  | .ps4 => 12

end Digio

end Zpsc
