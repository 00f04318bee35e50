import Zpsc.Control.SetDac
import Zpsc.Control.Proofs.LinearSmoothProofs
import Zpsc.Dac.Proofs.CosineProofs

/-!
# Where a raised-cosine ramp of the software ends

The phase increment that `Calc_WriteRaisedCosineSmooth` writes makes a run of `smooth_cosine_ramp`
end at the new setpoint exactly under `Reaches` (`cosine_ends_iff`). A core that is exact enough to
be less than 1 four increments before the end makes every ramp upwards miss.
-/

namespace Zpsc.SmoothCosine

open Clocked

/-! ## A core -/

/-- A core that holds the cosine of the phase presented last. -/
def heldCore (cosine : BitVec 24 → BitVec 24) : Cordic where
  σ := BitVec 24
  step := fun c tvalid phase => if tvalid then cosine phase else c
  dout := fun c => c.setWidth 48

variable {cosine : BitVec 24 → BitVec 24} {s : Ramp (heldCore cosine)} {inp : ℕ → In} {t : ℕ}

theorem cosOut_heldCore (s : Ramp (heldCore cosine)) : cosOut s = s.core := by
  apply BitVec.eq_of_getLsbD_eq
  intro j hj
  simp [cosOut, heldCore, hj, show j < 48 by omega]

theorem stepIn_core {cordic : Cordic} (s : Ramp cordic) (i : In) :
    (stepIn s i).core = cordic.step s.core i.tenkhz_trig s.phase_out := by
  cases hr : i.reset <;> cases hs : s.state <;> cases ht : i.tenkhz_trig <;>
    simp only [stepIn, step, hr, hs, ht, Bool.false_eq_true, if_true, if_false]
  case false.IDLE.false | false.IDLE.true | false.RUN_RAMP.true => split <;> rfl

/-- The core keeps what it shows from clock `t + 1` to the next tick. -/
theorem core_of_noTick {t' : ℕ} (hlt : t < t') (hno : NoTick inp t t') :
    (trace stepIn s inp t').core = (trace stepIn s inp (t + 1)).core := by
  refine hold (P := fun u => (trace stepIn s inp u).core = (trace stepIn s inp (t + 1)).core)
    (show t + 1 ≤ t' from hlt) (fun u hu hut heq => ?_) rfl
  rw [trace_succ, stepIn_core, hno u hu hut]
  exact heq

theorem computes_heldCore {φ₀ : BitVec 24}
    (hrange : ∀ φ, -2 ^ 20 ≤ (cosine φ).toInt ∧ (cosine φ).toInt ≤ 2 ^ 20)
    (hcore : s.core = cosine φ₀) (h0 : (inp 0).tenkhz_trig = false) :
    Computes cosine φ₀ s inp where
  range := hrange
  first := by
    intro t ht _ hno
    rw [cosOut_heldCore, core_of_noTick ht hno, trace_succ, trace_zero, stepIn_core, h0]
    exact hcore
  next := by
    intro t t' _ hlt htick _ hno
    rw [cosOut_heldCore, core_of_noTick hlt hno, trace_succ, stepIn_core, htick]
    rfl

end Zpsc.SmoothCosine

namespace Zpsc.Control

open CConv Clocked SmoothCosine

/-! ## The registers -/

/-- The registers after the writes of the software. -/
theorem regs_of_calc {e : SmoothEnv} {cur : ℤ} {new : BitVec 20}
    {ws : List (ChanReg × BitVec 32)} (rf : RegFile) (c : Chan)
    (h : Calc_WriteRaisedCosineSmooth e cur new.toInt = some ws) :
    (writeRegs rf c ws).chan c .dac_setpt = new ∧
      BitVec.toNat ((writeRegs rf c ws).chan c .dac_smooth_phaseinc) ≤ 2 * POS_PI := by
  simp only [Calc_WriteRaisedCosineSmooth, Option.bind_eq_bind, Option.bind_eq_some_iff,
    Option.pure_def, Option.ite_none_left_eq_some, Option.some.injEq] at h
  obtain ⟨d, -, n, -, -, rfl⟩ := h
  have hquot : (CORDIC_INIT_PHASE / n).toNat ≤ POS_PI := by
    rw [BitVec.toNat_udiv]
    exact (Nat.div_le_self _ _).trans (Nat.le_of_eq rfl)
  have hfloat := (toFloat_le (CORDIC_INIT_PHASE / n).toNat).trans (Nat.mul_le_mul_left 2 hquot)
  simp only [writeRegs, List.foldl, RegFile.out32_chan]
  refine ⟨?_, ?_⟩
  · simp [ChanReg.width, setWidth_ofInt_toInt]
  · simp only [ChanReg.width, BitVec.setWidth_eq]
    simp
    exact (Nat.mod_le _ _).trans hfloat

/-! ## The end of a ramp -/

/-- A raised-cosine ramp from `cur` to `new`, with the phase increment that the software has written
for it, ends at `new` exactly if its last sample reaches it. -/
theorem cosine_ends_iff (e : SmoothEnv) (rf : RegFile) (c : Chan) (cur new : BitVec 20)
    (ws : List (ChanReg × BitVec 32))
    (h : Calc_WriteRaisedCosineSmooth e cur.toInt new.toInt = some ws) {cordic : Cordic}
    (s : Ramp cordic) (inp : ℕ → In) (cosine : BitVec 24 → BitVec 24) (φ₀ : BitVec 24)
    (hs : Ready new s)
    (hu : Undisturbed ((writeRegs rf c ws).chan c .dac_smooth_phaseinc) cur
      ((writeRegs rf c ws).chan c .dac_setpt) inp)
    (hcore : Computes cosine φ₀ s inp) :
    RunEnds s inp new ↔
      Reaches cosine φ₀ ((writeRegs rf c ws).chan c .dac_smooth_phaseinc)
        (new.toInt - cur.toInt) := by
  obtain ⟨hnew, hle⟩ := regs_of_calc rf c h
  rw [hnew] at hu
  exact runEnds_iff hs hu hcore hle

/-! A core with the cosine to the nearest multiple of `2^-20`, and ramps of 1000 samples. -/

/-- `sin x` for `|x| ≤ π / 2`, to less than `10^-7`. -/
def sin11 (x : ℚ) : ℚ :=
  x - x ^ 3 / 6 + x ^ 5 / 120 - x ^ 7 / 5040 + x ^ 9 / 362880 - x ^ 11 / 39916800

/-- `cos` of a phase in units of `2^-19`, in units of `2^-20`. -/
def cos20 (φ : BitVec 24) : BitVec 24 :=
  BitVec.ofInt 24 (max (-2 ^ 20) (min (2 ^ 20)
    (llround (2 ^ 20 * (1 - 2 * sin11 (φ.toInt / 2 ^ 20) ^ 2)))))

theorem cos20_range (φ : BitVec 24) : -2 ^ 20 ≤ (cos20 φ).toInt ∧ (cos20 φ).toInt ≤ 2 ^ 20 := by
  unfold cos20
  rw [BitVec.toInt_ofInt, Int.bmod_eq_of_le (by omega) (by omega)]
  omega

/-- The ramp after a reset, about to leave the setpoint 1. -/
def afterReset : Ramp (heldCore cos20) where
  state := .IDLE
  phase := NEG_PI
  phase_out := phaseOut NEG_PI
  raised_cos := 0
  cnt := 0
  rampout_wdiff := 0
  rampout_fp := 0
  rampout := 0
  last_point := false
  smooth_active := false
  new_setpt_prev := 1
  new_setpt_lat := 0
  old_setpt := 0
  core := cos20 (phaseOut NEG_PI)

def rampInputs (cur new : BitVec 20) (t : ℕ) : In := ⟨false, t % 20 = 10, 0, cur, new, 421657⟩

theorem undisturbed_rampInputs (cur new : BitVec 20) :
    Undisturbed 421657 cur new (rampInputs cur new) := by
  refine ⟨rfl, rfl, rfl, fun _ => rfl, fun _ => rfl, fun t => ⟨20 * t + 10, by omega, ?_⟩⟩
  simp [rampInputs]

theorem computes_rampInputs (cur new : BitVec 20) :
    Computes cos20 (phaseOut NEG_PI) afterReset (rampInputs cur new) :=
  computes_heldCore cos20_range rfl rfl

/-- Down from 100 to 0 in 1000 samples the last sample lacks less than one code. -/
theorem down_ends : ∃ ws, Calc_WriteRaisedCosineSmooth (rateEnv (524288 / 10000) 0) 100 0 = some ws ∧
    RunEnds afterReset (rampInputs 100 0) 0 := by
  have hcalc : Calc_WriteRaisedCosineSmooth (rateEnv (524288 / 10000) 0) (100 : BitVec 20).toInt
      (0 : BitVec 20).toInt = some [(.dac_smooth_phaseinc, 421657), (.dac_setpt, 0)] := by
    decide +kernel
  refine ⟨_, hcalc, ?_⟩
  refine (cosine_ends_iff _ .zeros .ps1 100 0 _ hcalc afterReset (rampInputs 100 0) cos20
    (phaseOut NEG_PI) ⟨rfl, by decide⟩ (undisturbed_rampInputs 100 0)
    (computes_rampInputs 100 0)).mpr ⟨show 421657#32 ≠ 0 by decide, ?_, ?_⟩
  · decide +kernel
  · decide +kernel

/-- Up from 0 to 100000 in 1000 samples the ramp does not end at its target. -/
theorem up_misses : ∃ ws,
    Calc_WriteRaisedCosineSmooth (rateEnv (524288 / 10000000) 0) 0 100000 = some ws ∧
      ((writeRegs .zeros .ps1 ws).chan .ps1 .dac_smooth_phaseinc = 421657#32 ∧
        (writeRegs .zeros .ps1 ws).chan .ps1 .dac_setpt = 100000#20) ∧
      (cos20 (phaseOut NEG_PI)).toInt = -2 ^ 20 ∧ (cos20 0).toInt = 2 ^ 20 ∧
      ¬ RunEnds afterReset (rampInputs 0 100000) 100000 := by
  refine ⟨[(.dac_smooth_phaseinc, 421657), (.dac_setpt, 100000)], by decide +kernel,
    ⟨rfl, rfl⟩, by decide +kernel, by decide +kernel, ?_⟩
  intro h
  have hreach := (runEnds_iff ⟨rfl, by decide⟩ (undisturbed_rampInputs 0 100000)
    (computes_rampInputs 0 100000) (by decide)).mp h
  have hshort : lastShortfall cos20 (phaseOut NEG_PI) 421657 = 24 := by decide +kernel
  have hup := hreach.up (by decide)
  omega

end Zpsc.Control
