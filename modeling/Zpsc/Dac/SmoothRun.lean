import Zpsc.Clocked.Run
import Zpsc.Dac.Ramps

/-!
# Runs of the linear smooth ramp

The parameters of a run of `smooth_linear_ramp`, the steps they make, and what it means for a run to
be undisturbed and to end.
-/

namespace Zpsc.SmoothLinear

open Bits Clocked

structure Params where
  /-- The points of the linear section. -/
  linear_len : BitVec 32
  /-- The points of each of the curved sections. -/
  curved_len : BitVec 32
  /-- The step of the linear section, in units of `2^-48`. -/
  dy : BitVec 64
  /-- What the step changes by at each point of a curved section. -/
  dy_per_pt : BitVec 64

namespace Params

/-- The count at which the first section ends. -/
def c (p : Params) : ℤ := p.curved_len.toInt

/-- The count at which the linear section ends; the sum wraps at 32 bits. -/
def cl (p : Params) : ℤ := (p.curved_len + p.linear_len).toInt

/-- `total_len`, the count at which the run ends; the sum wraps at 32 bits. -/
def tl (p : Params) : ℤ := (p.curved_len + p.curved_len + p.linear_len).toInt

/-- The step made at count `k`. -/
def inc (p : Params) (k : ℕ) : ℤ :=
  if (k : ℤ) < p.c then k * p.dy_per_pt.toInt
  else if (k : ℤ) < p.cl then p.dy.toInt
  else (p.tl - k) * p.dy_per_pt.toInt

/-- The sum of the first `k` steps, from `v`. -/
def level (p : Params) (v : ℤ) : ℕ → ℤ
  | 0 => v
  | k + 1 => level p v k + p.inc k

def last (p : Params) : ℕ := (max p.c (max p.cl p.tl)).toNat

end Params

/-- The inputs carry the parameters and no reset. -/
structure Carries (p : Params) (i : In) : Prop where
  reset : i.reset = false
  linear_len : i.linear_len = p.linear_len
  curved_len : i.curved_len = p.curved_len
  dy : i.dy = p.dy
  dy_per_pt : i.dy_per_pt = p.dy_per_pt

/-- The inputs of an undisturbed run: it is started by a setpoint change in smooth mode at clock 0,
the parameters stay, and ticks keep coming. -/
structure Undisturbed (p : Params) (cur new : BitVec 20) (inp : ℕ → In) : Prop where
  mode : (inp 0).mode = 0b00#2
  cur_setpt : (inp 0).cur_setpt = cur
  new_setpt : (inp 0).new_setpt = new
  params : ∀ t, Carries p (inp t)
  ticks : ∀ t, ∃ t', t ≤ t' ∧ (inp t').tenkhz_trig = true

/-- The ramp is ready to start towards `new`. -/
def Ready (new : BitVec 20) (s : Ramp) : Prop := s.state = .IDLE ∧ s.new_setpt_prev ≠ new

/-- The run that starts at clock 0 comes to an end, with `rampout = x`. -/
def RunEnds (s : Ramp) (inp : ℕ → In) (x : BitVec 20) : Prop :=
  ∃ t, 0 < t ∧ (∀ u, 0 < u → u < t → (trace step s inp u).state ≠ .IDLE) ∧
    (trace step s inp t).state = .IDLE ∧ (trace step s inp t).rampout = x

/-- The start value of `setpt_last`. -/
def startLevel (cur : BitVec 20) : ℤ := cur.toInt * 2 ^ 48

/-- The code of an accumulator value: `rampout`. -/
def codeOf (v : ℤ) : BitVec 20 := sresize 20 ((BitVec.ofInt 96 v).sshiftRight 48)

end Zpsc.SmoothLinear
