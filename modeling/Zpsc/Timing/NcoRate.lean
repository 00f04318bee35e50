import Mathlib.Algebra.Order.Floor.Div
import Zpsc.Nco

/-!
# The rate of the 10 kHz clock (`nco_srocgen.vhd`)

The clock generator with a constant step size, after a reset.
-/

namespace Zpsc.Nco

open Clocked

/-- One rising edge of `clk` with the step size `step_size`; the input is `resync_pulse`. -/
def clock (step_size : BitVec 32) (s : Nco) (resync_pulse : Bool) : Nco :=
  s.step false step_size resync_pulse

/-- The registers before clock `t` after a reset. -/
def regs (step_size : BitVec 32) (resync : ℕ → Bool) (t : ℕ) : Nco :=
  trace (clock step_size) configured resync t

/-- The pulses come at the rate that the step size says, are one clock long, and are at least half a
period apart whenever the phase is set back. -/
structure Rate (step_size : BitVec 32) : Prop where
  count : ∀ n, pulses pulse_out (clock step_size) configured (List.replicate (n + 2) false) =
    (n * step_size.toNat + 2 ^ 31) / 2 ^ 32
  single : ∀ resync t, (regs step_size resync t).pulse_out = true →
    (regs step_size resync (t + 1)).pulse_out = false
  apart : ∀ resync t t', t < t' → (regs step_size resync t).pulse_out = true →
    (regs step_size resync t').pulse_out = true → t + 2 ^ 31 ⌈/⌉ step_size.toNat ≤ t'

end Zpsc.Nco
