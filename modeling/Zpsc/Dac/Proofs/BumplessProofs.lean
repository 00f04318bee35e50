import Zpsc.Dac.Bumpless
import Zpsc.Dac.Proofs.SmoothLinearProofs

/-!
# When the start of a smooth ramp is bumpless

The start loads the ramp with the calibrated setpoint (`onRamp_of_ramping`), so it is bumpless
exactly when the calibration leaves `dac_setpt_raw` as it is (`bumpless_iff`).
-/

namespace Zpsc.GainOffset

/-- A pass of the stage over a constant input: the five clocks from a tick in `IDLE` on leave the
calibrated setpoint. -/
theorem pass_calibrate {g : Stage} (hg : g.state = .IDLE) (n : Bool) (c : DacCntrl)
    (raw0 raw : BitVec 20) (t1 t2 t3 t4 : Bool) :
    let g1 := step g false true n raw0 c
    let g2 := step g1 false t1 n raw c
    let g3 := step g2 false t2 n raw c
    let g4 := step g3 false t3 n raw c
    (step g4 false t4 n raw c).dac_setpt = calibrate n c raw := by
  simp only [step, hg, Bool.false_eq_true, if_false, if_true, calibrate, saturate]

/-- A setpoint with the sign of the stage's input, or inside 18 bits, is not limited. -/
theorem saturate_of_fits {numbits : Bool} {g : Stage}
    (h : if numbits then g.dac_setpt.msb = g.dac_setpt_oc.msb
      else -131072 ≤ g.dac_setpt.toInt ∧ g.dac_setpt.toInt ≤ 131071) :
    saturate numbits g = g := by
  cases numbits with
  | false =>
    simp only [Bool.false_eq_true, if_false] at h
    simp only [saturate, Bool.false_eq_true, if_false]
    rw [if_neg (by omega), if_neg (by omega)]
  | true =>
    simp only [if_true] at h
    simp only [saturate, if_true, h]
    cases g.dac_setpt_oc.msb <;> rfl

end Zpsc.GainOffset

namespace Zpsc.DacChan

open Clocked SmoothLinear

variable {ram : Dpram} {cordic : Cordic} {p : Params} {s : DacChan ram cordic} {inp : ℕ → In}

theorem StartsLinear.carries (h : StartsLinear p s inp) (x : DacChan ram cordic) (t : ℕ) :
    Carries p (x.linearIn (inp t)) :=
  ⟨h.reset t, h.linear_len t, h.curved_len t, h.dy t, h.dy_per_pt t⟩

/-- The ramp runs from the calibrated setpoint. -/
theorem onRamp_of_ramping (h : StartsLinear p s inp) {t : ℕ} (ht : Ramping s inp t) :
    OnRamp p (startLevel s.gain.dac_setpt) (trace step s inp t).linear := by
  obtain ⟨hpos, hne⟩ := ht
  induction t, hpos using Nat.le_induction with
  | base =>
    exact (step_start (h.carries s 0) (h.mode 0) rfl rfl ⟨h.settled.linear, h.new⟩).1
  | succ t hpos ih =>
    have hon := ih fun u hu hut => hne u hu (by omega)
    exact step_onRamp hon (h.carries _ t) (hne t hpos (by omega))

theorem rampout_of_ramping (h : StartsLinear p s inp) {t : ℕ} (ht : Ramping s inp t) :
    (trace step s inp t).linear.rampout =
      codeOf (p.level (startLevel s.gain.dac_setpt) (trace step s inp t).linear.cnt.toNat) := by
  obtain ⟨k, hcnt, hk, hlast, -, -⟩ := onRamp_of_ramping h ht
  have hk31 := last_lt p
  rw [Ramp.rampout, hlast, hcnt, BitVec.toNat_ofNat, Nat.mod_eq_of_lt (by omega), codeOf]

theorem rampout_one (h : StartsLinear p s inp) :
    (trace step s inp 1).linear.rampout = s.gain.dac_setpt :=
  rampout_start (h.carries s 0) (h.mode 0) rfl rfl ⟨h.settled.linear, h.new⟩

/-- A linear smooth ramp starts bumplessly exactly when the calibration leaves `dac_setpt_raw` as it
is. -/
theorem bumpless_iff (h : StartsLinear p s inp) :
    Bumpless p s inp ↔
      GainOffset.calibrate (inp 0).dac_numbits_sel (inp 0).dac_cntrl s.dac_setpt_raw =
        s.dac_setpt_raw := by
  rw [← h.settled.gain]
  constructor
  · intro hb
    rw [← rampout_one h]
    exact hb.first
  · intro hcal
    refine ⟨?_, by rw [rampout_one h, hcal], ?_⟩
    · have hmode := h.settled.raw
      simp only [trace, step, h.reset 0, Bool.false_eq_true, if_false, ← hmode, ite_self]
    · intro t ht
      have hout := rampout_of_ramping h ht
      rw [hcal] at hout
      rw [← hout, trace_succ]
      simp [step, h.reset t, modeSetpt, h.mode t, smooth_dac_setpt, h.linear_type t]

/-! ## A channel with an offset -/

def shortRamp : Params := ⟨2, 1, 0x3E8000000000000, 0x3E8000000000000⟩

/-- A 20-bit channel in smooth mode with unity gain and the parameters of `shortRamp`. -/
def smoothIn (offset setpoint : BitVec 20) (tick : Bool) : In where
  reset := false
  tenkhz_trig := tick
  dig_cntrl := ⟨false, false, false, false, false, false, false⟩
  fofb_dac_setpt := 0
  dac_numbits_sel := true
  smoothramp_type := false
  dac_cntrl :=
    { setpoint, setpoint_last := 0, setpoint_changed := false, ramprun := false, ramplen := 0
      gain := 0x100000, offset, smooth_phaseinc := 0, linear_len := shortRamp.linear_len
      curved_len := shortRamp.curved_len, dy_hi := 0, dy_lo := 0, dy_q16_48 := shortRamp.dy
      dy_per_pt_hi := 0, dy_per_pt_lo := 0, dy_per_pt_q16_48 := shortRamp.dy_per_pt, cntrl := 0
      dpram_addr := 0, dpram_data := 0, dpram_we := false, reset := false, mode := 0b00 }

/-- The channel 20 clocks after its first tick, with the setpoint 0. -/
def afterTick (offset : BitVec 20) : DacChan .blank .blank :=
  run step (configured () ())
    (smoothIn offset 0 true :: List.replicate 20 (smoothIn offset 0 false))

/-- The setpoint is set to 3000; ticks come every 10000 clocks. -/
def toNew (offset : BitVec 20) (t : ℕ) : In := smoothIn offset 3000 (t % 10000 = 9979)

theorem startsLinear_afterTick {offset : BitVec 20}
    (hs : Settled (afterTick offset) (toNew offset 0))
    (hprev : (afterTick offset).linear.new_setpt_prev = 0) :
    StartsLinear shortRamp (afterTick offset) (toNew offset) where
  settled := hs
  new := by
    rw [hprev]
    show (0 : BitVec 20) ≠ 3000
    decide
  reset := fun _ => rfl
  mode := fun _ => rfl
  linear_type := fun _ => rfl
  linear_len := fun _ => rfl
  curved_len := fun _ => rfl
  dy := fun _ => rfl
  dy_per_pt := fun _ => rfl

theorem starts_zero : StartsLinear shortRamp (afterTick 0) (toNew 0) :=
  startsLinear_afterTick
    ⟨rfl, by decide +kernel, by decide +kernel, by decide +kernel, by decide +kernel⟩
    (by decide +kernel)

theorem starts_five : StartsLinear shortRamp (afterTick 5) (toNew 5) :=
  startsLinear_afterTick
    ⟨rfl, by decide +kernel, by decide +kernel, by decide +kernel, by decide +kernel⟩
    (by decide +kernel)

/-- Without an offset the start is bumpless. -/
theorem zero_bumpless : Bumpless shortRamp (afterTick 0) (toNew 0) :=
  (bumpless_iff starts_zero).mpr (by decide +kernel)

/-- With an offset of 5 the ramp starts from -5 where `dac_setpt_raw` is 0. -/
theorem five_not_bumpless :
    StartsLinear shortRamp (afterTick 5) (toNew 5) ∧
      ¬ Bumpless shortRamp (afterTick 5) (toNew 5) := by
  refine ⟨starts_five, ?_⟩
  intro h
  have hfirst := h.first
  rw [rampout_one starts_five] at hfirst
  exact absurd hfirst (by decide +kernel)

end Zpsc.DacChan
