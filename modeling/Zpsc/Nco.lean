import Zpsc.Clocked.Run

/-!
# The 10 kHz clock (`nco_srocgen.vhd`)

A phase accumulator of 32 bits makes one pulse per turn, when its top bit rises. The 1 Hz event of
the timing system sets the phase back to zero.
-/

namespace Zpsc

structure Nco where
  /-- The phase. -/
  acc : BitVec 32
  /-- The top bit of the phase one clock ago. -/
  acc_msb : Bool
  /-- The top bit two clocks ago. -/
  acc_msb_d : Bool
  /-- `pulse_out`. -/
  out_pulse_int : Bool
  deriving DecidableEq

namespace Nco

def configured : Nco := ⟨0, false, false, false⟩

def step (s : Nco) (reset : Bool) (step_size : BitVec 32) (resync_pulse : Bool) : Nco :=
  if reset then ⟨0, false, false, false⟩
  else
    { acc := if resync_pulse then 0 else s.acc + step_size
      acc_msb := s.acc.getLsbD 31
      acc_msb_d := s.acc_msb
      out_pulse_int := s.acc_msb && !s.acc_msb_d }

def pulse_out (s : Nco) : Bool := s.out_pulse_int

end Nco

end Zpsc
