import Mathlib.Order.Interval.Finset.Nat
import Zpsc.Adc.Average

/-!
# Mode changes of the moving average

The mode of `average.vhd` may change at any clock, and so the limit that `ram_cnt` is compared with
at the next write. A reset does not clear `ram_cnt`.
-/

namespace Zpsc.Average

/-- The process takes up a start at clock `t`, in a mode that adds up samples. -/
def taken (s : Regs) (inp : ℕ → In) (t : ℕ) : Bool :=
  !(inp t).reset && (regs s inp t).present_state == .IDLE && (inp t).start &&
    (regs s inp t).mode != 0

/-- The write of a start is made at clock `t`. -/
def writes (s : Regs) (inp : ℕ → In) (t : ℕ) : Bool :=
  !(inp t).reset && (regs s inp t).present_state == .WRITE_TO_RAM

/-- The clock from which on the mode has been the one at clock `t`. -/
def lastChange (s : Regs) (inp : ℕ → In) : ℕ → ℕ
  | 0 => 0
  | t + 1 =>
    if (regs s inp (t + 1)).mode = (regs s inp t).mode then lastChange s inp t else t + 1

/-- The number of clocks from `t` on and before `u` at which `p` is 1. -/
def countIn (p : ℕ → Bool) (t u : ℕ) : ℕ := ((Finset.Ico t u).filter fun v => p v = true).card

/-! ## The intended range -/

/-- A sample is stored at an index of the RAM. -/
def IndexOk (s : Regs) (inp : ℕ → In) : Prop :=
  ∀ t, writes s inp t = true → (regs s inp t).ram_cnt ≠ (regs s inp t).addr_max →
    (regs s inp t).ram_cnt < 500

/-- From `addr_max + 1` starts after a change of the mode on, a start has its sample stored below
`addr_max`, unless a reset comes before it is stored. -/
def BackInRange (s : Regs) (inp : ℕ → In) : Prop :=
  ∀ t, taken s inp t = true → (inp (t + 1)).reset = false →
    (regs s inp (t + 1)).addr_max + 1 ≤ countIn (taken s inp) (lastChange s inp t) t →
    (regs s inp (t + 1)).ram_cnt < (regs s inp (t + 1)).addr_max

/-! ## Where it is met -/

/-- The place after `n` writes with the limit `A`, from place `r`. -/
def advance (A r n : ℕ) : ℕ := if r ≤ A then (r + n) % (A + 1) else r + n

/-- What the start at clock `t` needs: a place that was not beyond the limit when the mode changed,
and then no wrap after `addr_max + 1` starts; from a place beyond the limit there is no way back, so
there must be few starts, and the RAM must not end. -/
def StartOk (s : Regs) (inp : ℕ → In) (t : ℕ) : Prop :=
  let A := addrMax (regs s inp t).mode
  let r := (regs s inp (lastChange s inp t + 1)).ram_cnt
  let starts := countIn (taken s inp) (lastChange s inp t) t
  let stored := countIn (writes s inp) (lastChange s inp t + 1) (t + 1)
  (r ≤ A ∧ (starts ≤ A ∨ (r + stored) % (A + 1) ≠ A)) ∨
    (A < r ∧ starts ≤ A ∧ r + stored < 500)

end Zpsc.Average
