import Mathlib.Algebra.BigOperators.Group.Finset.Basic
import Mathlib.Data.Nat.Count
import Zpsc.Dac.SmoothRun

/-!
# The trajectory of the linear smooth ramp

What a run of `smooth_linear_ramp` does at each clock, counted in ticks, in updates of `setpt_last`
and in changes from one section to the next, and the points it goes through.
-/

namespace Zpsc.SmoothLinear

open Clocked

/-- The clock after `r` updates `setpt_last`. -/
def updates (r : Ramp) : Bool :=
  match r.state with
  | .SC_UPDATE_SETPT_LAST | .LN_UPDATE_SETPT_LAST | .EC_UPDATE_SETPT_LAST => true
  | _ => false

/-- The clock after `r` ends a section. -/
def endsSection (r : Ramp) (i : In) : Bool :=
  match r.state, (step r i).state with
  | .START_CURVED, .LINEAR | .LINEAR, .END_CURVED | .END_CURVED, .IDLE => true
  | _, _ => false

section

variable (s : Ramp) (inp : ℕ → In) (t : ℕ)

/-- The ticks before clock `t`, without that of clock 0, at which the run starts. -/
def ticksBefore : ℕ := Nat.count (fun u => 0 < u ∧ (inp u).tenkhz_trig = true) t

def updatesBefore : ℕ := Nat.count (fun u => updates (trace step s inp u) = true) t

def changesBefore : ℕ := Nat.count (fun u => endsSection (trace step s inp u) (inp u) = true) t

/-- `setpt_last` before clock `t`. -/
def setptAt : ℤ := (trace step s inp t).setpt_last.toInt

end

namespace Params

/-- `curved_len`. -/
def C (p : Params) : ℕ := p.curved_len.toNat

/-- `linear_len`. -/
def L (p : Params) : ℕ := p.linear_len.toNat

/-- The number of points of a run. -/
def points (p : Params) : ℕ := 2 * p.C + p.L

/-- What the update `k` adds. -/
def stepAt (p : Params) (k : ℕ) : ℤ :=
  if k < p.C then k * p.dy_per_pt.toInt
  else if k < p.C + p.L then p.dy.toInt
  else (p.points - k) * p.dy_per_pt.toInt

/-- The exact point after `k` updates. -/
def point (p : Params) (cur : BitVec 20) (k : ℕ) : ℤ :=
  cur.toInt * 2 ^ 48 + ∑ j ∈ Finset.range k, p.stepAt j

/-- The exact points are in the range of `setpt_last`. -/
def InRange (p : Params) (cur : BitVec 20) : Prop :=
  ∀ k ≤ p.points, -2 ^ 95 ≤ p.point cur k ∧ p.point cur k < 2 ^ 95

end Params

/-- The run that starts at clock 0 ends at clock `T`, having followed the ramp of `p` from `cur`. -/
structure Trajectory (p : Params) (cur : BitVec 20) (s : Ramp) (inp : ℕ → In) (T : ℕ) : Prop where
  pos : 0 < T
  running : ∀ t, 0 < t → t < T → (trace step s inp t).state ≠ .IDLE
  ended : (trace step s inp T).state = .IDLE
  /-- Every tick makes an update or ends a section before the next one comes. -/
  per_tick : ∀ t, 0 < t → t ≤ T → (inp t).tenkhz_trig = true ∨ t = T →
    ticksBefore inp t = updatesBefore s inp t + changesBefore s inp t
  /-- The three sections end. -/
  changes : changesBefore s inp T = 3
  updates : updatesBefore s inp T = p.points
  start : setptAt s inp 1 = cur.toInt * 2 ^ 48
  /-- An update adds the step of its point. -/
  update : ∀ t, 0 < t → t < T → SmoothLinear.updates (trace step s inp t) = true →
    setptAt s inp (t + 1) = setptAt s inp t + p.stepAt (updatesBefore s inp t)
  keep : ∀ t, 0 < t → t < T → SmoothLinear.updates (trace step s inp t) = false →
    setptAt s inp (t + 1) = setptAt s inp t
  final : setptAt s inp T =
    cur.toInt * 2 ^ 48 + p.L * p.dy.toInt + p.C ^ 2 * p.dy_per_pt.toInt
  /-- The output is the floor of `setpt_last`, if that is a code. -/
  rampout : ∀ t, -2 ^ 19 ≤ setptAt s inp t / 2 ^ 48 → setptAt s inp t / 2 ^ 48 < 2 ^ 19 →
    (trace step s inp t).rampout.toInt = setptAt s inp t / 2 ^ 48
  rises : 0 ≤ p.dy.toInt → 0 ≤ p.dy_per_pt.toInt →
    ∀ t, 0 < t → t < T → setptAt s inp t ≤ setptAt s inp (t + 1)
  falls : p.dy.toInt ≤ 0 → p.dy_per_pt.toInt ≤ 0 →
    ∀ t, 0 < t → t < T → setptAt s inp (t + 1) ≤ setptAt s inp t
  bounded : ∀ t, 0 < t → t < T →
    |setptAt s inp (t + 1) - setptAt s inp t| ≤ max |p.dy.toInt| (p.C * |p.dy_per_pt.toInt|)

end Zpsc.SmoothLinear
