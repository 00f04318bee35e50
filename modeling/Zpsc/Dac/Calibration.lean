import Zpsc.Dac.Bumpless

/-!
# A pass of the gain and offset stage

A pass takes the stage from a tick in `IDLE` back to `IDLE`. It is meant to put out the limited
quotient `(raw - offset) * gain / 2^20`. The difference wraps at 20 bits, only 20 bits of the
quotient are kept, and the limits of `CHECKFORSAT` look at these bits and, in 20-bit mode, at the
sign of the wrapped difference.
-/

namespace Zpsc.GainOffset

open Clocked

/-- A pass from the stage `g`: a tick and eleven clocks more, with `dac_setpt_raw`, the gain and the
offset constant. -/
def pass (numbits_sel : Bool) (c : DacCntrl) (raw : BitVec 20) (g : Stage) (ticks : List Bool) :
    Stage :=
  run (fun g tick => step g false tick numbits_sel raw c) g (true :: ticks)

/-! ## The intended result -/

/-- The range of the converter. -/
def clampTo (numbits_sel : Bool) (z : ℤ) : ℤ :=
  if numbits_sel then max (-2 ^ 19) (min z (2 ^ 19 - 1)) else max (-2 ^ 17) (min z (2 ^ 17 - 1))

def difference (c : DacCntrl) (raw : BitVec 20) : ℤ := raw.toInt - c.offset.toInt

/-- The scaled difference, rounded down. -/
def quotient (c : DacCntrl) (raw : BitVec 20) : ℤ := difference c raw * c.gain.toInt / 2 ^ 20

/-! ## Where it is met -/

/-- The multiple of `2^20` by which the difference leaves 20 bits. -/
def carry (d : ℤ) : ℤ := if 2 ^ 19 ≤ d then 1 else if d < -2 ^ 19 then -1 else 0

/-- In 20-bit mode with a difference `d`, a gain `k` and a quotient `q`: what is left of a quotient
beyond the range has to have the other sign or to be the limit, and a quotient inside the range has
to have the sign of `d`, which must not have wrapped. -/
def Fits20 (d k q : ℤ) : Prop :=
  let m := (q - carry d * k) % 2 ^ 20
  if 0 ≤ d - carry d * 2 ^ 20 then
    (2 ^ 19 - 1 ≤ q ∧ 2 ^ 19 - 1 ≤ m) ∨
      (0 ≤ q ∧ q < 2 ^ 19 - 1 ∧ (carry d = 0 ∨ k = 0))
  else
    (q ≤ -2 ^ 19 ∧ m ≤ 2 ^ 19) ∨ (-2 ^ 19 < q ∧ q < 0 ∧ carry d = 0)

/-- In 18-bit mode: what is left of a quotient beyond the range has to be beyond the same limit, and
for a quotient inside the range the difference must not have wrapped. -/
def Fits18 (d k q : ℤ) : Prop :=
  let m := (q - carry d * k) % 2 ^ 20
  if 2 ^ 17 - 1 ≤ q then 2 ^ 17 - 1 ≤ m ∧ m < 2 ^ 19
  else if q ≤ -2 ^ 17 then 2 ^ 19 ≤ m ∧ m ≤ 2 ^ 20 - 2 ^ 17
  else carry d = 0 ∨ k = 0

instance (d k q : ℤ) : Decidable (Fits20 d k q) := by
  delta Fits20
  infer_instance

instance (d k q : ℤ) : Decidable (Fits18 d k q) := by
  delta Fits18
  infer_instance

def Fits (numbits_sel : Bool) (c : DacCntrl) (raw : BitVec 20) : Prop :=
  if numbits_sel then Fits20 (difference c raw) c.gain.toInt (quotient c raw)
  else Fits18 (difference c raw) c.gain.toInt (quotient c raw)

instance (n : Bool) (c : DacCntrl) (raw : BitVec 20) : Decidable (Fits n c raw) := by
  delta Fits
  infer_instance

end Zpsc.GainOffset
