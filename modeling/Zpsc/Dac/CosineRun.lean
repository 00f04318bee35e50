import Mathlib.Data.BitVec
import Zpsc.Clocked.Run
import Zpsc.Dac.Ramps

/-!
# Runs of the raised-cosine ramp

The inputs of a run of `smooth_cosine_ramp`, what the CORDIC core is assumed to do in it, and the
sample with which the run ends. The data path is a pipeline: the phase of one tick is the cosine of
the next but one and reaches `rampout` three ticks later, while the end is decided on the phase
itself.
-/

namespace Zpsc.SmoothCosine

open Bits Clocked

/-- The inputs of `smooth_cosine_ramp` at one clock edge. -/
structure In where
  reset : Bool
  tenkhz_trig : Bool
  mode : BitVec 2
  cur_setpt : BitVec 20
  new_setpt : BitVec 20
  phase_inc : BitVec 32

variable {cordic : Cordic}

def stepIn (s : Ramp cordic) (i : In) : Ramp cordic :=
  step s i.reset i.tenkhz_trig i.mode i.cur_setpt i.new_setpt i.phase_inc

/-- `cos`, the lower half of the output of the core. -/
def cosOut (s : Ramp cordic) : BitVec 24 := (cordic.dout s.core).extractLsb' 0 24

/-- The inputs of an undisturbed run: it is started by a setpoint change in smooth mode at clock 0,
the phase increment stays, and ticks keep coming. -/
structure Undisturbed (phase_inc : BitVec 32) (cur new : BitVec 20) (inp : ℕ → In) : Prop where
  mode : (inp 0).mode = 0b00#2
  cur_setpt : (inp 0).cur_setpt = cur
  new_setpt : (inp 0).new_setpt = new
  reset : ∀ t, (inp t).reset = false
  phase_inc : ∀ t, (inp t).phase_inc = phase_inc
  ticks : ∀ t, ∃ t', t ≤ t' ∧ (inp t').tenkhz_trig = true

/-- The ramp is ready to start towards `new`. -/
def Ready (new : BitVec 20) (s : Ramp cordic) : Prop := s.state = .IDLE ∧ s.new_setpt_prev ≠ new

/-- No tick comes after clock `t` and before clock `t'`. -/
def NoTick (inp : ℕ → In) (t t' : ℕ) : Prop :=
  ∀ u, t < u → u < t' → (inp u).tenkhz_trig = false

/-- The core computes `cosine` in a run: at a tick it shows the cosine of the phase presented at the
tick before; `φ₀` is the phase presented last before the run. -/
structure Computes (cosine : BitVec 24 → BitVec 24) (φ₀ : BitVec 24) (s : Ramp cordic)
    (inp : ℕ → In) : Prop where
  range : ∀ φ, -2 ^ 20 ≤ (cosine φ).toInt ∧ (cosine φ).toInt ≤ 2 ^ 20
  first : ∀ t, 0 < t → (inp t).tenkhz_trig = true → NoTick inp 0 t →
    cosOut (trace stepIn s inp t) = cosine φ₀
  next : ∀ t t', 0 < t → t < t' → (inp t).tenkhz_trig = true → (inp t').tenkhz_trig = true →
    NoTick inp t t' → cosOut (trace stepIn s inp t') = cosine (trace stepIn s inp t).phase_out

/-- The run that starts at clock 0 comes to an end, with `rampout = x`. -/
def RunEnds (s : Ramp cordic) (inp : ℕ → In) (x : BitVec 20) : Prop :=
  ∃ T, 0 < T ∧ (∀ u, 0 < u → u < T → (trace stepIn s inp u).state ≠ .IDLE) ∧
    (trace stepIn s inp T).state = .IDLE ∧ (trace stepIn s inp T).rampout = x

/-! ## The last sample -/

def POS_PI : ℕ := 421657300

/-- The phase after `n` increments. -/
def phaseAfter (phase_inc : BitVec 32) (n : ℕ) : BitVec 32 :=
  NEG_PI + BitVec.ofNat 32 n * phase_inc

/-- The phase that the core is given. -/
def phaseOut (phase : BitVec 32) : BitVec 24 := phase.extractLsb' 8 24

/-- The number of increments that make the phase positive. -/
def increments (phase_inc : BitVec 32) : ℕ := POS_PI / phase_inc.toNat + 1

/-- The phase whose cosine is the last to leave the pipeline: that of four increments before the
end, or, in a run of two increments, the phase presented before the run. -/
def lastPhase (φ₀ : BitVec 24) (phase_inc : BitVec 32) : BitVec 24 :=
  if increments phase_inc = 2 then φ₀
  else phaseOut (phaseAfter phase_inc (increments phase_inc - 4))

/-- What the raised cosine of `c` lacks to 1. -/
def shortfall (c : BitVec 24) : ℤ := 2 ^ 20 - (c.toInt + 2 ^ 20) / 2

/-- What the last sample of a run lacks to 1. A run of one increment ends with the sample 0. -/
def lastShortfall (cosine : BitVec 24 → BitVec 24) (φ₀ : BitVec 24) (phase_inc : BitVec 32) : ℤ :=
  if increments phase_inc = 1 then 2 ^ 20 else shortfall (cosine (lastPhase φ₀ phase_inc))

/-- The condition for a run over `D` codes to end at its target: the phase moves, and the last
sample lacks nothing on the way up, less than one code on the way down. -/
structure Reaches (cosine : BitVec 24 → BitVec 24) (φ₀ : BitVec 24) (phase_inc : BitVec 32)
    (D : ℤ) : Prop where
  moves : phase_inc ≠ 0
  up : 0 < D → lastShortfall cosine φ₀ phase_inc = 0
  down : D < 0 → -D * lastShortfall cosine φ₀ phase_inc < 2 ^ 20

end Zpsc.SmoothCosine
