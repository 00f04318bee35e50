import Zpsc.Clocked.Signal
import Zpsc.Fault.Digio

/-!
# The turn-on delay by itself (`pulse_delay.vhd`)

The output follows the input from `DELAY_COUNTS` clocks after a rising edge on, until the input has
been low for `DELAY_COUNTS` clocks. The entity is modelled with `digio_logic`; here it is run from a
reset on an arbitrary waveform.
-/

namespace Zpsc.PulseDelay

open Clocked

/-- The registers after a reset. -/
def afterReset : PulseDelay := ⟨0, 0, false, false, false, false⟩

theorem step_rst (n : ℕ) (s : PulseDelay) (sig_in : Bool) : s.step n true sig_in = afterReset := rfl

/-- The registers before clock `t` after a reset, with `sig_in` at clock `t` equal to `x t`. -/
def regs (n : ℕ) (x : ℕ → Bool) (t : ℕ) : PulseDelay :=
  trace (fun s sig_in => s.step n false sig_in) afterReset x t

/-- A rising edge at clock `s`; the input counts as low in the reset. -/
def Edge (x : ℕ → Bool) (s : ℕ) : Prop := x s = true ∧ (0 < s → x (s - 1) = false)

/-- The output is 1 after clock `t` only if the input was 1 at clock `t` and rose at a clock
`s ≤ t - n - 1`, with no more than `n` low clocks in a row in between. -/
def OnlyAfterDelay (n : ℕ) (x : ℕ → Bool) (t : ℕ) : Prop :=
  (regs n x (t + 1)).sig_out = true →
    x t = true ∧ ∃ s, Edge x s ∧ s + n + 1 ≤ t ∧ Sustained (n + 1) x s (t + 1)

/-- From a disarmed state, after a rising edge at clock `s` and with less than `n` low clocks in a
row since, the output after clock `t` is the input at clock `t`. -/
def FollowsAfterDelay (n : ℕ) (x : ℕ → Bool) (t : ℕ) : Prop :=
  ∀ s, (regs n x s).started = false → (regs n x s).qualified = false → Edge x s →
    s + n + 1 ≤ t → Sustained n x s t → (regs n x (t + 1)).sig_out = x t

end Zpsc.PulseDelay
