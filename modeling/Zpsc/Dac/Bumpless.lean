import Zpsc.Dac.DacChan
import Zpsc.Dac.SmoothRun

/-!
# The start of a smooth ramp

A smooth ramp starts from `cur_setpt`, which is the output of the gain and offset stage, and its own
output goes into that stage. What a start does to `dac_setpt_raw` therefore depends on the
calibration of the channel.
-/

namespace Zpsc

open Bits Clocked

/-- The output of the gain and offset stage for the input `raw`. -/
def GainOffset.calibrate (numbits_sel : Bool) (c : DacCntrl) (raw : BitVec 20) : BitVec 20 :=
  let oc := raw - c.offset
  let fs := sresize 44 oc * sresize 44 c.gain
  (saturate numbits_sel ⟨.CHECKFORSAT, 0, oc, fs, false, fs.extractLsb' 20 20, false⟩).dac_setpt

namespace DacChan

variable {ram : Dpram} {cordic : Cordic}

/-- The channel is in smooth mode with both smooth ramps idle, and its output is settled: the next
tick would change neither `dac_setpt_raw` nor the calibrated setpoint. -/
structure Settled (s : DacChan ram cordic) (i : In) : Prop where
  mode : i.dac_cntrl.mode = 0b00#2
  linear : s.linear.state = .IDLE
  cosine : s.cosine.state = .IDLE
  raw : s.dac_setpt_raw = s.modeSetpt i
  gain : s.gain.dac_setpt =
    GainOffset.calibrate i.dac_numbits_sel i.dac_cntrl s.dac_setpt_raw

/-- A linear smooth ramp with the parameters `p` is started at clock 0 by a new setpoint, from a
settled channel. -/
structure StartsLinear (p : SmoothLinear.Params) (s : DacChan ram cordic) (inp : ℕ → In) :
    Prop where
  settled : Settled s (inp 0)
  new : s.linear.new_setpt_prev ≠ (inp 0).dac_cntrl.setpoint
  reset : ∀ t, (inp t).reset = false
  mode : ∀ t, (inp t).dac_cntrl.mode = 0b00#2
  linear_type : ∀ t, (inp t).smoothramp_type = false
  linear_len : ∀ t, (inp t).dac_cntrl.linear_len = p.linear_len
  curved_len : ∀ t, (inp t).dac_cntrl.curved_len = p.curved_len
  dy : ∀ t, (inp t).dac_cntrl.dy_q16_48 = p.dy
  dy_per_pt : ∀ t, (inp t).dac_cntrl.dy_per_pt_q16_48 = p.dy_per_pt

/-- The ramp that starts at clock 0 has not ended by clock `t`. -/
def Ramping (s : DacChan ram cordic) (inp : ℕ → In) (t : ℕ) : Prop :=
  1 ≤ t ∧ ∀ u, 1 ≤ u → u ≤ t → (trace step s inp u).linear.state ≠ .IDLE

/-- The start at clock 0 is bumpless: it leaves `dac_setpt_raw` alone, the first value that the ramp
puts out is `dac_setpt_raw`, and as long as the ramp lasts the ticks change `dac_setpt_raw` by the
steps of the ramp only. -/
structure Bumpless (p : SmoothLinear.Params) (s : DacChan ram cordic) (inp : ℕ → In) : Prop where
  raw : (trace step s inp 1).dac_setpt_raw = s.dac_setpt_raw
  first : (trace step s inp 1).linear.rampout = s.dac_setpt_raw
  ticks : ∀ t, Ramping s inp t → (trace step s inp (t + 1)).dac_setpt_raw =
    if (inp t).tenkhz_trig then
      SmoothLinear.codeOf (p.level (SmoothLinear.startLevel s.dac_setpt_raw)
        (trace step s inp t).linear.cnt.toNat)
    else (trace step s inp t).dac_setpt_raw

end DacChan

end Zpsc
