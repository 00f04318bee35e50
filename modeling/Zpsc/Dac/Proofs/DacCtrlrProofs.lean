import Zpsc.Dac.DacCtrlr

/-!
# Isolation of the DAC channels

The record of a channel is wired from the channel's registers, but for the low word of
`dy_per_pt_q16_48` of channel 2, which comes from channel 1 (`PsIo.dyPerPtLow`).
-/

namespace Zpsc.DacCtrlr

open Clocked

variable {ram : Dpram} {cordic : Cordic}

def dyPerPtLo (i : In) (c : Chan) : BitVec 32 :=
  i.psIo.regs.chan (PsIo.dyPerPtLow c) .dac_smooth_dy_per_pt_lo

theorem ramprun_congr {c : Chan} {i i' : In} (h : SameChannel c i i') :
    PsIo.ramprun i.psIo c = PsIo.ramprun i'.psIo c := by
  have h1 := h.runramp_swacc
  have h2 := h.inj_trig
  cases c <;> simp only [PsIo.ramprun, h1, h2]

theorem low_eq_of_append_eq {a a' b b' : BitVec 32} (h : a ++ b = a' ++ b') : b = b' := by
  have hlow : ∀ x y : BitVec 32, (x ++ y).extractLsb' 0 32 = y :=
    fun x y => BitVec.extractLsb'_append_eq_right
  rw [← hlow a b, h, hlow]

theorem dyPerPtLo_eq {c : Chan} {s s' : System ram cordic} {i i' : In}
    (h : dacCntrl s i c = dacCntrl s' i' c) : dyPerPtLo i c = dyPerPtLo i' c :=
  low_eq_of_append_eq (congrArg DacCntrl.dy_per_pt_q16_48 h)

theorem dacCntrl_congr {c : Chan} {s s' : System ram cordic} {i i' : In} (hs : SameState c s s')
    (h : SameChannel c i i') (hlo : dyPerPtLo i c = dyPerPtLo i' c) :
    dacCntrl s i c = dacCntrl s' i' c := by
  have hlo' : i.psIo.regs.chan (PsIo.dyPerPtLow c) .dac_smooth_dy_per_pt_lo =
      i'.psIo.regs.chan (PsIo.dyPerPtLow c) .dac_smooth_dy_per_pt_lo := hlo
  simp only [dacCntrl, PsIo.dacCntrl, hs.setpoint_last, hs.setpoint_changed, h.chan,
    ramprun_congr h, h.rampdata_swacc, hlo']

/-- One clock of two systems whose inputs agree on channel `c` and on the low word it sees. -/
theorem step_sameState {c : Chan} {s s' : System ram cordic} {i i' : In} (hs : SameState c s s')
    (h : SameChannel c i i') (hlo : dyPerPtLo i c = dyPerPtLo i' c) :
    SameState c (step s i) (step s' i') := by
  have hc := dacCntrl_congr hs h hlo
  have hdig : PsIo.digCntrl i.psIo.regs c = PsIo.digCntrl i'.psIo.regs c := by
    simp only [PsIo.digCntrl, h.glob, h.chan]
  have hin : chanIn s i c = chanIn s' i' c := by
    simp only [chanIn, hc, hdig, h.reset, h.tenkhz_trig, h.glob, h.fofb_setpt]
  refine ⟨?_, ?_, ?_⟩
  · exact congrFun h.chan .dac_setpt
  · simp only [step, PsIo.step, h.chan, hs.setpoint_last]
  · simp only [step, hin, hs.chan]

/-- Two runs that agree on channel `c` follow the same trajectory there exactly when the low words
of `dy_per_pt_q16_48` agree at every clock. -/
theorem sameTrajectory_iff_low {c : Chan} {s s' : System ram cordic} {inp inp' : ℕ → In}
    (hs : SameState c s s') (h : ∀ t, SameChannel c (inp t) (inp' t)) :
    SameTrajectory c s s' inp inp' ↔ ∀ t, dyPerPtLo (inp t) c = dyPerPtLo (inp' t) c := by
  constructor
  · exact fun htraj t => dyPerPtLo_eq (htraj t).1
  · intro hlo t
    have hstate : SameState c (trace step s inp t) (trace step s' inp' t) := by
      induction t with
      | zero => exact hs
      | succ t ih => exact step_sameState ih (h t) (hlo t)
    exact ⟨dacCntrl_congr hstate (h t) (hlo t), hstate.chan⟩

/-- DAC channel isolation: two runs that agree on the registers of channel `c` and on the global
ones follow the same trajectory at channel `c`, unless `c` is channel 2, where the low word of
channel 1's `dy_per_pt` register has to agree as well. -/
theorem sameTrajectory_iff {c : Chan} {s s' : System ram cordic} {inp inp' : ℕ → In}
    (hs : SameState c s s') (h : ∀ t, SameChannel c (inp t) (inp' t)) :
    SameTrajectory c s s' inp inp' ↔
      (c = .ps2 → ∀ t, (inp t).psIo.regs.chan .ps1 .dac_smooth_dy_per_pt_lo =
        (inp' t).psIo.regs.chan .ps1 .dac_smooth_dy_per_pt_lo) := by
  rw [sameTrajectory_iff_low hs h]
  by_cases hc : c = .ps2
  · subst hc
    exact ⟨fun hlo _ => hlo, fun hlo => hlo rfl⟩
  · refine ⟨fun _ h2 => absurd h2 hc, ?_⟩
    intro _ t
    have howner : PsIo.dyPerPtLow c = c := by
      cases c
      case ps2 => exact absurd rfl hc
      all_goals rfl
    rw [dyPerPtLo, dyPerPtLo, howner, (h t).chan]

/-- Registers that are all zero but for the low word of channel 1's `dy_per_pt`. -/
def lowWordIn (x : BitVec 32) : In where
  reset := false
  tenkhz_trig := false
  psIo :=
    { regs :=
        { glob := fun _ => 0
          chan := fun c r =>
            if c = .ps1 ∧ r = .dac_smooth_dy_per_pt_lo then x.setWidth r.width else 0 }
      rampdata_swacc := fun _ => false
      runramp_swacc := fun _ => false
      inj_trig := false }
  fofb_setpt := fun _ => 0

def configured : System .blank .blank where
  psIo := ⟨fun _ => 0, fun _ => false⟩
  chan := fun _ => DacChan.configured () ()

theorem lowWordIn_sameChannel {c : Chan} (hc : c ≠ .ps1) (x y : BitVec 32) :
    SameChannel c (lowWordIn x) (lowWordIn y) := by
  constructor <;> simp [lowWordIn, hc]

/-- Channel 3 does not see the low word of channel 1. -/
theorem ps3_sameTrajectory :
    SameTrajectory .ps3 configured configured (fun _ => lowWordIn 0) (fun _ => lowWordIn 1) :=
  (sameTrajectory_iff ⟨rfl, rfl, rfl⟩ fun _ => lowWordIn_sameChannel (by decide) 0 1).mpr
    fun h => absurd h (by decide)

/-- Channel 2 does: its record differs though its own registers and the global ones agree. -/
theorem ps2_not_sameTrajectory :
    (∀ _t : ℕ, SameChannel .ps2 (lowWordIn 0) (lowWordIn 1)) ∧
      ¬ SameTrajectory .ps2 configured configured (fun _ => lowWordIn 0)
        (fun _ => lowWordIn 1) := by
  refine ⟨fun _ => lowWordIn_sameChannel (by decide) 0 1, ?_⟩
  intro h
  have hq := congrArg (fun d : DacCntrl => d.dy_per_pt_q16_48.getLsbD 0) (h 0).1
  revert hq
  decide +kernel

end Zpsc.DacCtrlr
