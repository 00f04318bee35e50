import Mathlib.Data.BitVec
import Zpsc.Bits.FixedPoint
import Zpsc.Clocked.Run

/-!
# Calibration of the readings (`dcct_gainoffset.vhd`, `mon_gainoffset.vhd`)

Both files have the same state machine: at the end of a conversion it takes the offsets from the raw
readings, multiplies by the gains and waits for the multipliers. The DCCTs have 20 bits and their
results are negated, the monitors have 16 bits. A record with one component per DCCT or per monitor
is a function here.
-/

namespace Zpsc.AdcGainOffset

open Bits Clocked

/-! ## The source -/

inductive State where
  | IDLE | APPLY_OFFSETS | APPLY_GAINS | MULT_DLY
  deriving DecidableEq, Repr

/-- The DCCTs of a channel. -/
inductive Dcct where
  | dcct0 | dcct1
  deriving DecidableEq, Repr

/-- The monitors of a channel. -/
inductive Mon where
  | dacmon | voltage | ignd | spare | ps_reg | ps_error
  deriving DecidableEq, Repr

/-- `fixed_mul`: the product of two `signed`, less its `fraction_bits` highest bits, cut to the
width of the first. -/
def fixed_mul {w v : ℕ} (a : BitVec w) (b : BitVec v) (fraction_bits : ℕ) : BitVec w :=
  (sresize (w + v) a * sresize (w + v) b).extractLsb' (v - fraction_bits) w

variable {ι : Type} {w : ℕ}

/-- `t_dcct_adcs_params_onech`, less the field `ave_mode`, and `t_mon_adcs_params_onech`. -/
structure Params (ι : Type) (w : ℕ) where
  gain : ι → BitVec 24
  offset : ι → BitVec w

structure In (ι : Type) (w : ℕ) where
  reset : Bool
  conv_done : Bool
  raw : ι → BitVec w
  params : Params ι w

/-- The registers. -/
structure Stage (ι : Type) (w : ℕ) where
  state : State
  /-- `conv_done` when `IDLE` last looked at it. -/
  conv_done_last : Bool
  /-- The clocks that the multipliers have had. -/
  multdlycnt : BitVec 4
  /-- The readings less their offsets. -/
  oc : ι → BitVec w
  out : ι → BitVec w
  done : Bool

/-- One rising edge of `clk`; `sign` is what is done to a product before it is put out. -/
def step (sign : BitVec w → BitVec w) (s : Stage ι w) (i : In ι w) : Stage ι w :=
  if i.reset then { s with done := false }
  else match s.state with
  | .IDLE =>
    { s with
      done := false
      conv_done_last := i.conv_done
      state := if i.conv_done && !s.conv_done_last then .APPLY_OFFSETS else .IDLE }
  | .APPLY_OFFSETS =>
    { s with oc := fun q => i.raw q - i.params.offset q, state := .APPLY_GAINS }
  | .APPLY_GAINS =>
    { s with
      out := fun q => sign (fixed_mul (s.oc q) (i.params.gain q) 4)
      state := .MULT_DLY
      multdlycnt := 0 }
  | .MULT_DLY =>
    if s.multdlycnt = 6 then { s with state := .IDLE, done := true }
    else { s with multdlycnt := s.multdlycnt + 1 }

def dcct_gainoffset : Stage Dcct 20 → In Dcct 20 → Stage Dcct 20 := step (-·)

def mon_gainoffset : Stage Mon 16 → In Mon 16 → Stage Mon 16 := step id

/-! ## The intended result -/

/-- `(raw - offset) * gain / 2^20`, rounded down. -/
def quotient (raw offset : BitVec w) (gain : BitVec 24) : ℤ :=
  (raw.toInt - offset.toInt) * gain.toInt / 2 ^ 20

/-- A conversion ends at clock 0, the state machine is ready for it, and there is no reset while it
is calibrated. -/
structure Converts (s : Stage ι w) (inp : ℕ → In ι w) : Prop where
  idle : s.state = .IDLE
  last : s.conv_done_last = false
  conv_done : (inp 0).conv_done = true
  no_reset : ∀ t < 10, (inp t).reset = false

/-- The result for `q` is ready after ten clocks, and it is the number nearest to `z` that its width
has. -/
def PutsOut (s : Stage ι w) (q : ι) (z : ℤ) : Prop :=
  s.done = true ∧ (s.out q).toInt = clampS w z

/-! ## Where it is met -/

/-- The quotient of the difference that is left in `w` bits. -/
def wrappedQuotient (raw offset : BitVec w) (gain : BitVec 24) : ℤ :=
  (raw - offset).toInt * gain.toInt / 2 ^ 20

/-- For a result with the sign `σ`: a result in range needs a difference in range, but for a gain of
0 and for the difference next to the range times `-σ`; a result beyond the range needs that the low
bits that are left are those of the limit. -/
def Fits (σ : ℤ) (raw offset : BitVec w) (gain : BitVec 24) : Prop :=
  let d := raw.toInt - offset.toInt
  let z := σ * quotient raw offset gain
  let r := σ * wrappedQuotient raw offset gain
  if 2 ^ (w - 1) ≤ z then r % 2 ^ w = 2 ^ (w - 1) - 1
  else if z < -2 ^ (w - 1) then r % 2 ^ w = 2 ^ (w - 1)
  else (-2 ^ (w - 1) ≤ d ∧ d < 2 ^ (w - 1)) ∨ gain = 0 ∨
    (d = 2 ^ (w - 1) ∧ gain.toInt = -σ * 2 ^ 20)

instance (σ : ℤ) (raw offset : BitVec w) (gain : BitVec 24) :
    Decidable (Fits σ raw offset gain) := by
  delta Fits
  infer_instance

end Zpsc.AdcGainOffset
