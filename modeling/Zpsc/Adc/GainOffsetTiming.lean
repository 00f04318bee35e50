import Zpsc.Adc.GainOffset

/-!
# The passes of the calibration (`dcct_gainoffset.vhd`, `mon_gainoffset.vhd`)

A pass starts when `conv_done` rises, takes the readings one clock later, puts the results out two
clocks after that and raises `done` for one clock.
-/

namespace Zpsc.AdcGainOffset

open Clocked

variable {ι : Type} {w : ℕ}

/-- The state machine waits for `conv_done` to rise. -/
structure Waits (s : Stage ι w) : Prop where
  state : s.state = .IDLE
  last : s.conv_done_last = false
  done : s.done = false

/-- `conv_done` is 0 from clock `a` on and before clock `b`. -/
def NotDone (inp : ℕ → In ι w) (a b : ℕ) : Prop := ∀ v, a ≤ v → v < b → (inp v).conv_done = false

/-- What a pass that starts at clock `a` puts out. -/
def result (sign : BitVec w → BitVec w) (inp : ℕ → In ι w) (a : ℕ) (q : ι) : BitVec w :=
  sign (fixed_mul ((inp (a + 1)).raw q - (inp (a + 1)).params.offset q)
    ((inp (a + 2)).params.gain q) 4)

/-- The conversions as a calibration sees them: a reset at clock 0 and none later, and for a start
at clock `t` a conversion whose last clock is `e t`, which is calibrated before the next start. -/
structure Scheduled (inp : ℕ → In ι w) (start : ℕ → Bool) (e : ℕ → ℕ) : Prop where
  reset : (inp 0).reset = true
  no_reset : ∀ v, 0 < v → (inp v).reset = false
  /-- Before the first start no conversion ends. -/
  first : ∀ b, (∀ u, 0 < u → u < b → start u = false) → NotDone inp 1 b
  le : ∀ t, 0 < t → start t = true → t ≤ e t
  before : ∀ t, 0 < t → start t = true → NotDone inp t (e t + 1)
  /-- The conversion of a start at clock `t` ends at clock `e t`. -/
  rises : ∀ t, 0 < t → start t = true → (inp (e t + 1)).conv_done = true
  /-- Once the result is out no conversion ends before the next start. -/
  after : ∀ t, 0 < t → start t = true → ∀ b, (∀ u, t < u → u < b → start u = false) →
    NotDone inp (e t + 11) b
  /-- The result is out before the next start. -/
  fits : ∀ t t', 0 < t → t < t' → start t = true → start t' = true → e t + 11 < t'

end Zpsc.AdcGainOffset
